import PatternCount.Bench.Measurement
import PatternCount.Decimal.Fixed
import PatternCount.Json.Double

/-!
# Benchmark reports

A report shows the rates of all policies side by side, once as JSON (`Report.json`) and once as a table
(`Report.table`), in which each rate is also compared with that of the baseline. `Report.make` collects the
rates below a directory and writes both into another one.
-/

namespace PatternCount.Bench.Report

/-! ## What a report says -/

/-- A rate in operations, thousands of them or millions of them. -/
def rateText (rate : Binary64) : String :=
  let x := rate.toFloat
  if x > 1000000.0 then (Binary64.ofFloat (x / 1000000.0)).fixed 2 ++ "M"
  else if x > 1000.0 then (Binary64.ofFloat (x / 1000.0)).fixed 2 ++ "K"
  else rate.fixed 0

/-- A rate in comparison with the baseline, zero if there is none. -/
def relative (rate base : Binary64) : Binary64 :=
  if base.toFloat > 0.0 then .ofFloat (rate.toFloat / base.toFloat) else .zero

def json (rates : Rates) : String :=
  let table := rates.map fun (workload, byPolicy) =>
    (workload, Json.record (byPolicy.map fun (policy, rate) => (policy, Json.ofDouble rate)))
  (Json.record [("baseline", Json.text baseline), ("results", Json.record table)]).pretty

def cells (rate : Option Binary64) (base : Binary64) : String :=
  match rate with
  | some rate => s!" {rateText rate} | **{(relative rate base).fixed 2}x** |"
  | none => " N/A | - |"

def row (workload : String) (byPolicy : PolicyRates) : String :=
  let base := (Rates.lookup? baseline byPolicy).getD .zero
  s!"| {workload} |"
    ++ String.join (policies.map fun policy => cells (Rates.lookup? policy byPolicy) base) ++ "\n"

def table (rates : Rates) : String :=
  "# Engine Policy Benchmark Report\n\n| Workload |"
    ++ String.join (policies.map fun policy => s!" {policy} (Ops/s) | vs {baseline} |")
    ++ "\n|---|" ++ String.join (policies.map fun _ => "---|---|") ++ "\n"
    ++ String.join (rates.map fun (workload, byPolicy) => row workload byPolicy)

/-! ## Making one -/

inductive Notice where
  | progress (text : String)
  | problem (text : String)
deriving DecidableEq, Repr

inductive ReportError where
  | unreadable (cause : FileError)
  | unwritable (cause : FileError)
deriving DecidableEq, Repr

def measuredPath : String := "target/criterion"

/-- The names in `measuredPath`, last name first. -/
def measuredNames : List String := ["criterion", "target"]

def reportDirectory : String := "benchmark_results"

def jsonPath : String := "benchmark_results/report.json"

def tablePath : String := "benchmark_results/report.md"

def ReportError.message : ReportError → String
  | unreadable cause => s!"Failed to read {measuredPath}: " ++ cause.message
  | unwritable cause => cause.message

/-- What making a report leaves behind. -/
structure Outcome where
  notices : List Notice
  files : FileTree
  failure : Option ReportError

/-- Writes a text to each of some paths, until one of them cannot be written. -/
def writeAll : (texts : List (String × String)) → FileTree → Option ReportError × FileTree
  | [], t => (none, t)
  | (path, text) :: rest, t =>
      match t.write path text with
      | .ok t => writeAll rest t
      | .error cause => (some (.unwritable cause), t)

def save (rates : Rates) (t : FileTree) : Option ReportError × FileTree :=
  match t.makeDirectory reportDirectory with
  | .error cause => (some (.unwritable cause), t)
  | .ok t => writeAll [(jsonPath, json rates), (tablePath, table rates)] t

/-- Collects what was measured and writes a report of it. -/
def make (t : FileTree) : Outcome :=
  let begun := Notice.progress "\n>>> Generating Report..."
  match t.find measuredPath with
  | .error _ => ⟨[begun, .problem s!"No criterion output found at {measuredPath}"], t, none⟩
  | .ok (.file _) => ⟨[begun], t, some (.unreadable .notDirectory)⟩
  | .ok place =>
      match save (Measurement.collect t measuredNames place) t with
      | (none, t) => ⟨[begun, .progress s!"Report written to {tablePath}"], t, none⟩
      | (failure, t) => ⟨[begun], t, failure⟩

end PatternCount.Bench.Report
