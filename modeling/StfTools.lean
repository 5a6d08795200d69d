import StfTools.Model.Trace
import StfTools.Model.IMemData
import StfTools.Model.IMemMap
import StfTools.Model.IMemMapVec
import StfTools.Model.Print
import StfTools.Model.Dump
import StfTools.Model.Annotation
import StfTools.Interface.Footprint
import StfTools.Interface.Ring
import StfTools.Analysis.Steps
import StfTools.Analysis.JavaTables
import StfTools.Analysis.Report
import StfTools.Analysis.IMemRuns
import StfTools.Analysis.Lockstep
import StfTools.Analysis.ProcessTrace
import StfTools.Analysis.EntryHistory
import StfTools.Analysis.Histories
import StfTools.Analysis.Counters
import StfTools.Analysis.ReportTotals
import StfTools.Analysis.DumpLabels
import StfTools.Analysis.ReportOptions
import StfTools.Analysis.SortedLayout
import StfTools.Analysis.PrintedHistory
import StfTools.Analysis.Annotations
