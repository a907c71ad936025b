import PatternCount.Bench.Rates
import PatternCount.FileTree
import PatternCount.Json.Shape

/-!
# Measurements on disk

The estimates of a measurement stand in a file `estimates.json` in a directory named for the policy, which in
turn stands in one named for the workload. How many elements one operation handles is written in a file
`benchmark.json` beside the estimates, or else beside the directory of the policy. Files that cannot be read,
that are no JSON or that lack what is looked for count as if they were not there.
-/

namespace PatternCount.Bench.Measurement

/-- The mean time of an operation in nanoseconds, zero if it is not known. -/
def meanTime (estimates : String) : Float :=
  ((do (← (← (← Json.load? estimates).last? "mean").last? "point_estimate").double?) : Option Float).getD 0.0

/-- The number of elements that an operation handles, one if it is not known. The places in which it may be
written are given in order; the first that holds any JSON counts. -/
def elements (places : List (Option String)) : Float :=
  ((do (← (← (← places.findSome? (·.bind Json.load?)).last? "throughput").last? "Elements").double?)
    : Option Float).getD 1.0

def estimatesName : String := "estimates.json"

def elementsName : String := "benchmark.json"

/-- The name of a directory of summaries, which no workload has. -/
def summaryName : String := "report"

/-- Adds what a file says to the rates: nothing unless it holds the estimates of a policy for a workload. The
names that lead to the file are given last name first. -/
def addFile (t : FileTree) (rates : Rates) (names : List String) (content : String) : Rates :=
  match names with
  | name :: policy :: workload :: above =>
      if name = estimatesName ∧ policy ∈ policies ∧ workload ≠ summaryName then
        let inner := t.contentAt? (elementsName :: policy :: workload :: above).reverse
        let outer := t.contentAt? (elementsName :: workload :: above).reverse
        let time := meanTime content
        if time > 0.0 then rates.add workload policy (.ofFloat (elements [inner, outer] * 1e9 / time))
        else rates
      else rates
  | _ => rates

/-- The rates measured in the files of a tree that some names lead to, which are given last name first. -/
def collect (t : FileTree) (names : List String) (place : FileTree) : Rates :=
  (place.files names).foldl (fun rates (names, content) => addFile t rates names content) []

end PatternCount.Bench.Measurement
