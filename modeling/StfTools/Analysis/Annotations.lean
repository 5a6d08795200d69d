import StfTools.Model.Annotation
import Mathlib.Tactic.SplitIfs

/-!
# The mnemonic map of the annotations

Every call of `AnnotationType::update` either returns, having resolved a form the
registry knows and recorded it for the instruction's mnemonic unless the mnemonic
already had one, or throws and leaves `mnemonic_map_` as it was
(`update_cases`). The form it resolves is the instruction's own `"form"`, or for a
form-less overlay the form the map records for its base (`ResolvesTo`).

Over any sequence of constructions from the empty map this gives two facts:

* a mnemonic keeps the first form recorded for it, whatever later instructions
  of the same mnemonic say; and every recorded form is known to the registry
  and is the `"form"` of an instruction seen so far (`mnemonicMap_runs`);
* so the registry lookup of the overlay branch never throws, and an overlay that
  builds takes the `"form"` of an earlier instruction
  (`overlay_form_from_earlier`).
-/

set_option autoImplicit false

namespace StfTools.Mavis

open AnnotationType

/-! ## The map -/

namespace MnemonicMap

/-- INTERNAL: `try_emplace` adds the key with the value when the key is absent,
and changes nothing else.
SOURCE: mavis_helpers.hpp:393, 398 -/
theorem find_tryEmplace (m : MnemonicMap) (key value k : String) :
    (m.tryEmplace key value).find k = if key = k then some ((m.find key).getD value) else m.find k := by
  unfold tryEmplace
  split_ifs with h hk hk
  · subst hk
    obtain ⟨f, hf⟩ := Option.isSome_iff_exists.mp h
    simp [hf]
  · rfl
  · subst hk
    rw [Option.not_isSome_iff_eq_none.mp h]
    simp [find, lookupIn]
  · simp [find, lookupIn, hk]

/-- INTERNAL: a mnemonic with a form keeps it.
SOURCE: mavis_helpers.hpp:393, 398 -/
theorem find_tryEmplace_of_find {m : MnemonicMap} {k f : String} (h : m.find k = some f)
    (key value : String) : (m.tryEmplace key value).find k = some f := by
  rw [find_tryEmplace]
  split_ifs with hk
  · subst hk; simp [h]
  · exact h

/-- INTERNAL: a form found after `try_emplace` was there before, or is the value
just recorded for the key.
SOURCE: mavis_helpers.hpp:393, 398 -/
theorem find_tryEmplace_cases {m : MnemonicMap} {key value k f : String}
    (h : (m.tryEmplace key value).find k = some f) : m.find k = some f ∨ (k = key ∧ f = value) := by
  rw [find_tryEmplace] at h
  split_ifs at h with hk
  · subst hk
    cases hf : m.find key with
    | none => simp [hf] at h; exact .inr ⟨rfl, h.symm⟩
    | some g => simp [hf] at h; exact .inl (congrArg some h)
  · exact .inl h

end MnemonicMap

/-! ## One call -/

/-- `form` is what `update` resolves for `inst` against the map `m`: the
instruction's own `"form"`, or, without one, the form `m` records for the `"base"`
of its `"overlay"`. -/
def ResolvesTo (inst : List (String × JsonValue)) (m : MnemonicMap) (form : String) : Prop :=
  objectFind "form" inst = some (.string form) ∨
    (objectFind "form" inst = none ∧ ∃ overlay_obj base,
      objectFind "overlay" inst = some (.object overlay_obj) ∧
      objectFind "base" overlay_obj = some (.string base) ∧ m.find base = some form)

/-- A call of `update` that returned: the instruction's `"mnemonic"` is the string
`m`, the registry knows the form `form` the call resolved, and `form_` is that
form while the map gains `m ↦ form` unless `m` has a form. -/
structure Resolved (getFormWrapper : String → Bool) (inst : List (String × JsonValue))
    (st st' : AnnotationState) (m form : String) : Prop where
  mnemonic : objectFind "mnemonic" inst = some (.string m)
  known : getFormWrapper form = true
  resolves : ResolvesTo inst st.mnemonicMap form
  eq : st' = ⟨some form, st.mnemonicMap.tryEmplace m form⟩

/-- The two outcomes of a call: it returns having resolved a form, or it throws,
leaving the map as it was; the registry throws only on the form the call
resolved. -/
def Outcome (getFormWrapper : String → Bool) (inst : List (String × JsonValue))
    (st : AnnotationState) (r : AnnotationState × Option AnnotationError) : Prop :=
  (r.2 = none ∧ ∃ m form, Resolved getFormWrapper inst st r.1 m form) ∨
    (∃ e, r.2 = some e ∧ r.1.mnemonicMap = st.mnemonicMap ∧
      ∀ f, e = .unknownForm f → getFormWrapper f = false ∧ ResolvesTo inst st.mnemonicMap f)

/-- INTERNAL: a call that throws before the registry lookup.
SOURCE: mavis_helpers.hpp:378-389, 396 -/
theorem outcome_of_throw {getFormWrapper : String → Bool} {inst : List (String × JsonValue)}
    {st : AnnotationState} {e : AnnotationError} (he : ∀ f, e ≠ .unknownForm f) :
    Outcome getFormWrapper inst st (st, some e) :=
  .inr ⟨e, rfl, rfl, fun f h => absurd h (he f)⟩

/-- INTERNAL: the shared tail, once the form is resolved.
SOURCE: mavis_helpers.hpp:391-393, 396-398 -/
theorem recordForm_outcome {getFormWrapper : String → Bool} {inst : List (String × JsonValue)}
    {st : AnnotationState} {mnemonic : JsonValue} {form : String}
    (hm : objectFind "mnemonic" inst = some mnemonic) (hr : ResolvesTo inst st.mnemonicMap form) :
    Outcome getFormWrapper inst st (recordForm getFormWrapper mnemonic form st) := by
  unfold recordForm
  cases hg : getFormWrapper form with
  | false => exact .inr ⟨_, rfl, rfl, fun f h => by cases h; exact ⟨hg, hr⟩⟩
  | true =>
    cases mnemonic with
    | string m => exact .inl ⟨rfl, m, form, ⟨hm, hg, hr, rfl⟩⟩
    | object _ => exact .inr ⟨_, rfl, rfl, fun f h => by cases h⟩
    | other => exact .inr ⟨_, rfl, rfl, fun f h => by cases h⟩

/-- INTERNAL: `as_string` and `as_object` return only from a string and an object.
SOURCE: mavis_helpers.hpp:385, 388, 396 -/
theorem JsonValue.eq_of_asString {v : JsonValue} {s : String} (h : v.asString = some s) :
    v = .string s := by
  cases v <;> simp_all [JsonValue.asString]

theorem JsonValue.eq_of_asObject {v : JsonValue} {o : List (String × JsonValue)}
    (h : v.asObject = some o) : v = .object o := by
  cases v <;> simp_all [JsonValue.asObject]

/-- The outcomes of `AnnotationType::update` (mavis_helpers.hpp:376-400): it
returns having resolved a form the registry knows, or it throws and the map is
as it was. -/
theorem update_cases (getFormWrapper : String → Bool) (inst : List (String × JsonValue))
    (st : AnnotationState) : Outcome getFormWrapper inst st (update getFormWrapper inst st) := by
  unfold update
  split
  · exact outcome_of_throw fun _ h => by cases h
  · rename_i mnemonic hm
    split
    · rename_i hf
      split
      · exact outcome_of_throw fun _ h => by cases h
      · rename_i overlay ho
        split
        · exact outcome_of_throw fun _ h => by cases h
        · rename_i overlay_obj hobj
          split
          · exact outcome_of_throw fun _ h => by cases h
          · rename_i base hb
            split
            · exact outcome_of_throw fun _ h => by cases h
            · rename_i parent hp
              split
              · exact outcome_of_throw fun _ h => by cases h
              · rename_i parent_form_str hpf
                refine recordForm_outcome hm (.inr ⟨hf, overlay_obj, parent, ?_, ?_, hpf⟩)
                · rw [ho, JsonValue.eq_of_asObject hobj]
                · rw [hb, JsonValue.eq_of_asString hp]
    · rename_i form hform
      split
      · exact outcome_of_throw fun _ h => by cases h
      · rename_i form_str hfs
        exact recordForm_outcome hm (.inl (by rw [hform, JsonValue.eq_of_asString hfs]))

/-- INTERNAL: a construction never takes a form away from a mnemonic.
SOURCE: mavis_helpers.hpp:371-400 -/
theorem find_make_of_find (getFormWrapper : String → Bool) (inst : List (String × JsonValue))
    {m : MnemonicMap} {k f : String} (h : m.find k = some f) :
    (make getFormWrapper inst m).1.mnemonicMap.find k = some f := by
  rcases update_cases getFormWrapper inst ⟨none, m⟩ with ⟨-, _, _, hres⟩ | ⟨_, -, hmap, -⟩
  · rw [make, hres.eq]; exact MnemonicMap.find_tryEmplace_of_find h _ _
  · rw [make, hmap]; exact h

/-! ## Runs -/

section Runs

variable (getFormWrapper : String → Bool)

/-- Every form the map records is one the registry knows and the `"form"` of one
of the instructions `seen`. -/
def FormsExplicit (seen : List (List (String × JsonValue))) (m : MnemonicMap) : Prop :=
  ∀ k f, m.find k = some f →
    getFormWrapper f = true ∧ ∃ inst ∈ seen, objectFind "form" inst = some (.string f)

variable {getFormWrapper}

/-- INTERNAL: forms explicit in some instructions are explicit in more.
SOURCE: mavis_helpers.hpp:371-400 -/
theorem FormsExplicit.append {seen : List (List (String × JsonValue))} {m : MnemonicMap}
    (h : FormsExplicit getFormWrapper seen m) (more : List (List (String × JsonValue))) :
    FormsExplicit getFormWrapper (seen ++ more) m := fun k f hk => by
  obtain ⟨hg, i, hi, hf⟩ := h k f hk
  exact ⟨hg, i, List.mem_append_left _ hi, hf⟩

/-- INTERNAL: a form resolved against a map of explicit forms is explicit.
SOURCE: mavis_helpers.hpp:380-398 -/
theorem FormsExplicit.resolvesTo {seen : List (List (String × JsonValue))} {m : MnemonicMap}
    (h : FormsExplicit getFormWrapper seen m) {inst : List (String × JsonValue)} {f : String}
    (hr : ResolvesTo inst m f) : ∃ i ∈ seen ++ [inst], objectFind "form" i = some (.string f) := by
  rcases hr with hf | ⟨-, _, base, -, -, hb⟩
  · exact ⟨inst, by simp, hf⟩
  · exact (h.append [inst] base f hb).2

/-- INTERNAL: one construction keeps the forms explicit.
SOURCE: mavis_helpers.hpp:371-400 -/
theorem FormsExplicit.make {seen : List (List (String × JsonValue))} {m : MnemonicMap}
    (h : FormsExplicit getFormWrapper seen m) (inst : List (String × JsonValue)) :
    FormsExplicit getFormWrapper (seen ++ [inst]) (AnnotationType.make getFormWrapper inst m).1.mnemonicMap := by
  intro k f hk
  rcases update_cases getFormWrapper inst ⟨none, m⟩ with ⟨-, _, form, hres⟩ | ⟨_, -, hmap, -⟩
  · rw [AnnotationType.make, hres.eq] at hk
    rcases MnemonicMap.find_tryEmplace_cases hk with hold | ⟨-, rfl⟩
    · exact h.append [inst] k f hold
    · exact ⟨hres.known, h.resolvesTo hres.resolves⟩
  · rw [AnnotationType.make, hmap] at hk
    exact h.append [inst] k f hk

/-- INTERNAL: constructions over a concatenation run over the second part from
where the first ended.
SOURCE: mavis_helpers.hpp:365, 371-374 -/
theorem mnemonicMapAfter_append :
    ∀ (insts insts' : List (List (String × JsonValue))) (m : MnemonicMap),
      mnemonicMapAfter getFormWrapper (insts ++ insts') m =
        mnemonicMapAfter getFormWrapper insts' (mnemonicMapAfter getFormWrapper insts m)
  | [], _, _ => rfl
  | _ :: rest, insts', _ => mnemonicMapAfter_append rest insts' _

/-- INTERNAL: a mnemonic with a form keeps it over any constructions.
SOURCE: mavis_helpers.hpp:393, 398 -/
theorem find_mnemonicMapAfter_of_find :
    ∀ (insts : List (List (String × JsonValue))) {m : MnemonicMap} {k f : String},
      m.find k = some f → (mnemonicMapAfter getFormWrapper insts m).find k = some f
  | [], _, _, _, h => h
  | inst :: rest, _, _, _, h =>
    find_mnemonicMapAfter_of_find rest (find_make_of_find getFormWrapper inst h)

/-- INTERNAL: constructions keep the forms explicit.
SOURCE: mavis_helpers.hpp:371-400 -/
theorem FormsExplicit.mnemonicMapAfter :
    ∀ (insts : List (List (String × JsonValue))) {seen : List (List (String × JsonValue))}
      {m : MnemonicMap}, FormsExplicit getFormWrapper seen m →
      FormsExplicit getFormWrapper (seen ++ insts) (mnemonicMapAfter getFormWrapper insts m)
  | [], _, _, h => (List.append_nil _).symm ▸ h
  | inst :: rest, _, _, h => by
    rw [List.append_cons]
    exact FormsExplicit.mnemonicMapAfter rest (h.make inst)

/-- INTERNAL: the empty map records no form.
SOURCE: mavis_helpers.hpp:365 -/
theorem formsExplicit_empty : FormsExplicit getFormWrapper [] MnemonicMap.empty :=
  fun _ _ h => by simp [MnemonicMap.empty, MnemonicMap.find, lookupIn] at h

/-- INTERNAL: built from the empty map, every recorded form is explicit in the
instructions built.
SOURCE: mavis_helpers.hpp:365, 371-400 -/
theorem formsExplicit_run (insts : List (List (String × JsonValue))) :
    FormsExplicit getFormWrapper insts (mnemonicMapAfter getFormWrapper insts MnemonicMap.empty) :=
  List.nil_append insts ▸ FormsExplicit.mnemonicMapAfter insts formsExplicit_empty

end Runs

/-- For every form registry and every two sequences of instruction objects whose
annotations are built one after the other from the empty map: a mnemonic that has
a form after the first sequence keeps that form after the second, whatever form
later instructions of that mnemonic give; and every form the map records is one
the registry knows and the `"form"` member of an instruction of the first
sequence. -/
theorem mnemonicMap_runs (getFormWrapper : String → Bool)
    (insts insts' : List (List (String × JsonValue))) :
    let m := mnemonicMapAfter getFormWrapper insts MnemonicMap.empty
    (∀ k f, m.find k = some f →
      (mnemonicMapAfter getFormWrapper (insts ++ insts') MnemonicMap.empty).find k = some f) ∧
    ∀ k f, m.find k = some f →
      getFormWrapper f = true ∧ ∃ inst ∈ insts, objectFind "form" inst = some (.string f) := by
  intro m
  refine ⟨fun k f h => ?_, fun k f h => ?_⟩
  · rw [mnemonicMapAfter_append]
    exact find_mnemonicMapAfter_of_find insts' h
  · exact formsExplicit_run insts k f h

/-- The entry of an ISA description for `add`, of form `R`. -/
def addInst : List (String × JsonValue) := [("mnemonic", .string "add"), ("form", .string "R")]

/-- An overlay of `add` with no form of its own. -/
def cAddInst : List (String × JsonValue) :=
  [("mnemonic", .string "c.add"), ("overlay", .object [("base", .string "add")])]

/-- A second entry for `add` naming another form leaves `add` at `R`, and an
overlay of `add` built after it is recorded with `R`. -/
example : (mnemonicMapAfter (fun f => f == "R" || f == "I")
    [addInst, [("mnemonic", .string "add"), ("form", .string "I")], cAddInst] .empty).find "c.add" =
      some "R" := by decide

/-- For every form registry, every sequence of instruction objects whose
annotations are built from the empty map, and every instruction without a
`"form"` built after them: its construction never throws for an unknown form, and
when it returns, its `form_` is the `"form"` member of one of the instructions
before it. -/
theorem overlay_form_from_earlier (getFormWrapper : String → Bool)
    (insts : List (List (String × JsonValue))) (inst : List (String × JsonValue))
    (hform : objectFind "form" inst = none) :
    let r := make getFormWrapper inst (mnemonicMapAfter getFormWrapper insts MnemonicMap.empty)
    (∀ f, r.2 ≠ some (.unknownForm f)) ∧
    (r.2 = none → ∃ f, r.1.form = some f ∧ ∃ i ∈ insts, objectFind "form" i = some (.string f)) := by
  intro r
  -- an overlay resolves to the form the map records for its base
  have hbase : ∀ f, ResolvesTo inst (mnemonicMapAfter getFormWrapper insts MnemonicMap.empty) f →
      getFormWrapper f = true ∧ ∃ i ∈ insts, objectFind "form" i = some (.string f) := by
    rintro f (hf | ⟨-, _, base, -, -, hb⟩)
    · rw [hform] at hf; cases hf
    · exact formsExplicit_run insts base f hb
  rcases update_cases getFormWrapper inst ⟨none, mnemonicMapAfter getFormWrapper insts .empty⟩ with
    ⟨hnone, _, form, hres⟩ | ⟨e, he, -, hunk⟩
  · exact ⟨fun f h => by simp [r, make, hnone] at h,
      fun _ => ⟨form, by simp [r, make, hres.eq], (hbase form hres.resolves).2⟩⟩
  · refine ⟨fun f h => ?_, fun h => by simp [r, make, he] at h⟩
    have := hunk f (by simpa [r, make, he] using h)
    simp [(hbase f this.2).1] at this

/-- The overlay `c.add` built after `add` takes the form `R` of `add`. -/
theorem overlay_form_from_earlier_c_add :
    objectFind "form" cAddInst = none ∧
      let r := make (· == "R") cAddInst (mnemonicMapAfter (· == "R") [addInst] MnemonicMap.empty)
      (∀ f, r.2 ≠ some (.unknownForm f)) ∧
      (r.2 = none → ∃ f, r.1.form = some f ∧ ∃ i ∈ [addInst], objectFind "form" i = some (.string f)) :=
  ⟨rfl, overlay_form_from_earlier _ [addInst] cAddInst rfl⟩

end StfTools.Mavis
