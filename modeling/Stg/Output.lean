import Stg.Reporting
import Stg.PostProcessing
import Stg.Lib.Getline

set_option autoImplicit false

/- The reports as texts, in each of the formats. -/
namespace Stg

open Getline (getlines)

inductive OutputFormat where
  | plain
  | flat
  | small
  | short
  | viz
  deriving DecidableEq, Repr

structure ReportingOptions where
  format : OutputFormat
  maxCRCOnlyChanges : Nat
  deriving DecidableEq, Repr

def streamLines (lines : List String) : String := String.join (lines.map (· ++ "\n"))

def report (graph : Graph) (outcomes : Outcomes) (options : ReportingOptions) (fuel : Nat)
    (comparison : Comparison) : NameM String :=
  match options.format with
  | .plain => do
    let (pieces, _) ← (reportPlain graph outcomes fuel comparison).run ∅
    return render pieces
  | .flat => do
    let (report, _) ← (reportFlat graph outcomes true fuel comparison).run {}
    return render report.pieces
  | .small => do
    let (report, _) ← (reportFlat graph outcomes false fuel comparison).run {}
    return render report.pieces
  | .short => do
    let (report, _) ← (reportFlat graph outcomes false fuel comparison).run {}
    let reportLines := getlines '\n' [] (render report.pieces).toList
    let reportLines ← ofExcept (postProcess reportLines options.maxCRCOnlyChanges)
    return streamLines reportLines
  | .viz => do
    let (text, _) ← (reportViz graph outcomes fuel comparison).run {}
    return text

end Stg
