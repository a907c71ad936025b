import PatternCount.Binary64

/-!
# Rates of policies

A benchmark runs each workload once under every engine policy and measures how many operations a second it
makes. `Rates` is a table of what was measured, in ascending order of the workloads and, for each of them, of
the policies.
-/

namespace PatternCount.Bench

/-- The policies that are compared, in the order in which they are shown. -/
def policies : List String := ["cost-model", "cache-always", "cache-never", "no-fan-out"]

def baseline : String := "cost-model"

/-- What has been measured under some policies, in operations a second. -/
abbrev PolicyRates := List (String × Binary64)

/-- What has been measured, for each workload. -/
abbrev Rates := List (String × PolicyRates)

namespace Rates

variable {α : Type}

def lookup? (key : String) (table : List (String × α)) : Option α :=
  (table.find? (·.1 = key)).map (·.2)

/-- Changes the value of a key, in a table whose keys ascend. -/
def alter (key : String) (change : Option α → α) : List (String × α) → List (String × α)
  | [] => [(key, change none)]
  | (k, v) :: rest =>
      if k < key then (k, v) :: alter key change rest
      else if k = key then (k, change (some v)) :: rest
      else (key, change none) :: (k, v) :: rest

def add (rates : Rates) (workload policy : String) (rate : Binary64) : Rates :=
  alter workload (fun old => alter policy (fun _ => rate) (old.getD [])) rates

end Rates

end PatternCount.Bench
