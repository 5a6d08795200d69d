/-!
# The instruction annotations of the Mavis disassembler: `AnnotationType::update`

The disassembler instantiates Mavis with `AnnotationType` (mavis_helpers.hpp:362-408):
an annotation is built from each instruction object of the ISA description, and
its `update` resolves the instruction's form. An instruction names its form in its
`"form"` field; one without a form is an overlay and takes the form already
recorded for the `"base"` of its `"overlay"` object. Either way the form is
recorded for the instruction's `"mnemonic"` in the process-wide `mnemonic_map_`,
by `try_emplace`, which leaves a mnemonic already there alone.

A JSON value is kept as far as `update` reads it: a string, an object, or a value
of another kind, on which each accessor `update` calls (`as_object`, `as_string`,
`value_to<std::string>`) throws. `mavis::FormRegistry::getFormWrapper` belongs to
Mavis: it is a parameter saying which form names the registry knows, and it throws
for any other name. A form pointer is named by its form. A call either returns or
throws; the model gives the state at that point, with the exception if one was
thrown.
-/

set_option autoImplicit false

namespace StfTools.Mavis

/-- A JSON value, as far as `update` tells values apart. -/
inductive JsonValue where
  /-- A string. -/
  | string (s : String)
  /-- An object: its members in order, each key once. -/
  | object (members : List (String × JsonValue))
  /-- A number, a boolean, an array or `null`. -/
  | other
  deriving Repr

/-- `boost::json::object::find`: the value of the member named `key`, if any. -/
def objectFind (key : String) : List (String × JsonValue) → Option JsonValue
  | [] => none
  | (k, v) :: rest => if k = key then some v else objectFind key rest

/-- `as_string()` and `value_to<std::string>`: the string, or `none` where they
throw. -/
def JsonValue.asString : JsonValue → Option String
  | .string s => some s
  | _ => none

/-- `as_object()`: the object's members, or `none` where it throws. -/
def JsonValue.asObject : JsonValue → Option (List (String × JsonValue))
  | .object members => some members
  | _ => none

/-! ## `mnemonic_map_` -/

/-- The value stored at `key` in a list of pairs. -/
def lookupIn (key : String) : List (String × String) → Option String
  | [] => none
  | (k, v) :: rest => if k = key then some v else lookupIn key rest

/-- INTERNAL: a key is stored exactly when it is among the keys.
SOURCE: mavis_helpers.hpp:365 -/
theorem lookupIn_eq_none_iff (key : String) (l : List (String × String)) :
    lookupIn key l = none ↔ key ∉ l.map Prod.fst := by
  induction l with
  | nil => simp [lookupIn]
  | cons e rest ih =>
    obtain ⟨k, v⟩ := e
    by_cases h : k = key
    · simp [lookupIn, h]
    · simp [lookupIn, h, ih, Ne.symm h]

/-- `std::unordered_map<boost::json::string, std::string>`: at most one form per
mnemonic. Nothing iterates over it, so the order of its entries is immaterial. -/
structure MnemonicMap where
  entries : List (String × String)
  nodup : (entries.map Prod.fst).Nodup

namespace MnemonicMap

/-- The map before any annotation is built. -/
def empty : MnemonicMap := ⟨[], List.nodup_nil⟩

/-- `find`: the form recorded for a mnemonic. -/
def find (m : MnemonicMap) (key : String) : Option String := lookupIn key m.entries

/-- `try_emplace(key, value)`: record `value` for `key` unless `key` has a form. -/
def tryEmplace (m : MnemonicMap) (key value : String) : MnemonicMap :=
  if h : (m.find key).isSome then m
  else ⟨(key, value) :: m.entries, List.nodup_cons.mpr
    ⟨(lookupIn_eq_none_iff key m.entries).mp (by simpa [find] using h), m.nodup⟩⟩

end MnemonicMap

/-! ## `update` -/

/-- What `update` throws. -/
inductive AnnotationError where
  /-- `stf_assert` fired: its message, followed in the text by the serialized
  instruction. -/
  | assertFailed (message : String) (inst : List (String × JsonValue))
  /-- A `boost::json` accessor threw on the value of the member `key`: `as_object`
  on `overlay`, `as_string` on `base` or `mnemonic`, `value_to<std::string>` on
  `form`. -/
  | wrongKind (key : String)
  /-- `FormRegistry::getFormWrapper` knows no form of this name. -/
  | unknownForm (form : String)
  deriving Repr

/-- The state `update` works on: the object's `form_`, named by its form (`none`
while unassigned), and the process-wide `mnemonic_map_`. -/
structure AnnotationState where
  form : Option String
  mnemonicMap : MnemonicMap

/-- The tail both branches of `update` share (mavis_helpers.hpp:391-393, 396-398):
`form_ = getFormWrapper(form)`, then `try_emplace` of the mnemonic, read with
`as_string()`, with that form. -/
def recordForm (getFormWrapper : String → Bool) (mnemonic : JsonValue) (form : String)
    (st : AnnotationState) : AnnotationState × Option AnnotationError :=
  if getFormWrapper form then
    let st := { st with form := some form }
    match mnemonic.asString with
    | none => (st, some (.wrongKind "mnemonic"))
    | some m => ({ st with mnemonicMap := st.mnemonicMap.tryEmplace m form }, none)
  else (st, some (.unknownForm form))

/-- `AnnotationType::update` (mavis_helpers.hpp:376-400). -/
def AnnotationType.update (getFormWrapper : String → Bool) (inst : List (String × JsonValue))
    (st : AnnotationState) : AnnotationState × Option AnnotationError :=
  match objectFind "mnemonic" inst with
  | none => (st, some (.assertFailed "Failed to find mnemonic for instruction: " inst))
  | some mnemonic =>
    match objectFind "form" inst with
    | none =>
      match objectFind "overlay" inst with
      | none => (st, some (.assertFailed "Failed to find overlay for form-less instruction: " inst))
      | some overlay =>
        match overlay.asObject with
        | none => (st, some (.wrongKind "overlay"))
        | some overlay_obj =>
          match objectFind "base" overlay_obj with
          | none => (st, some (.assertFailed "Failed to find base in overlay for instruction: " inst))
          | some base =>
            match base.asString with
            | none => (st, some (.wrongKind "base"))
            | some parent =>
              match st.mnemonicMap.find parent with
              | none =>
                (st, some (.assertFailed "Failed to find mnemonic in map for instruction: " inst))
              | some parent_form_str => recordForm getFormWrapper mnemonic parent_form_str st
    | some form =>
      match form.asString with
      | none => (st, some (.wrongKind "form"))
      | some form_str => recordForm getFormWrapper mnemonic form_str st

/-- `AnnotationType(inst)` (mavis_helpers.hpp:371-374): a new object, its `form_`
unassigned, on which `update` runs against the shared map. -/
def AnnotationType.make (getFormWrapper : String → Bool) (inst : List (String × JsonValue))
    (m : MnemonicMap) : AnnotationState × Option AnnotationError :=
  AnnotationType.update getFormWrapper inst ⟨none, m⟩

/-- `mnemonic_map_` after an annotation is built for each instruction object in
turn, each on the map the previous one left. -/
def mnemonicMapAfter (getFormWrapper : String → Bool) :
    List (List (String × JsonValue)) → MnemonicMap → MnemonicMap
  | [], m => m
  | inst :: rest, m =>
    mnemonicMapAfter getFormWrapper rest (AnnotationType.make getFormWrapper inst m).1.mnemonicMap

end StfTools.Mavis
