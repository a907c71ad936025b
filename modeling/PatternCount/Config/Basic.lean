import PatternCount.HostGraph
import PatternCount.Word

/-!
# Configuration

How a run is carried out, none of which changes what it counts: how many workers there are, when a level of
the search is worked on by several of them (`FanOut`), when a planned cache is built (`CachePolicy`), and how
the top level is cut into units and shared. `Config.check` refuses the sizes with which no run can proceed.
-/

namespace PatternCount

inductive FanOut where
  /-- When there are more than `factor` times the mean degree. -/
  | adaptive (factor : Nat)
  | always
  | never
deriving DecidableEq, Repr

namespace FanOut

/-- The mean degree rounded up, and at least one. -/
def roundedDegree (g : HostGraph) : Nat := (max g.averageDegree.ceil 1.0).toUInt64.toNat

def threshold (fanOut : FanOut) (g : HostGraph) : Nat :=
  match fanOut with
  | adaptive factor => max (Word.saturatingMul factor (roundedDegree g)) 1
  | always => 0
  | never => Word.max

end FanOut

/-- When a planned cache is built. -/
inductive CachePolicy where
  /-- When its expected reuse pays for it. -/
  | costModel
  | always
  | never
deriving DecidableEq, Repr

/-- The settings of a run. -/
structure Config where
  /-- Workers of each rank; zero stands for as many as the machine offers. -/
  numThreads : Nat := 0
  fanOut : FanOut := .adaptive 32
  cache : CachePolicy := .costModel
  /-- Top-level vertices in a unit of work. -/
  chunkSize : Nat := 64
  queueCapacity : Nat := 256
  /-- The most units that are taken from another worker at once. -/
  stealBatch : Nat := 8
deriving DecidableEq, Repr

inductive ConfigError where
  | malformed
  | zeroChunkSize
  | zeroQueueCapacity
  | zeroStealBatch
  | zeroFanOutFactor
deriving DecidableEq, Repr

namespace ConfigError

def message : ConfigError → String
  | malformed => "invalid engine config JSON: malformed"
  | zeroChunkSize => "chunk_size must be > 0"
  | zeroQueueCapacity => "queue_capacity must be > 0"
  | zeroStealBatch => "steal_batch must be > 0"
  | zeroFanOutFactor => "fan_out factor must be > 0"

end ConfigError

namespace Config

/-- Refuses sizes of zero, the first of them in the order of the fields. -/
def check (c : Config) : Except ConfigError Unit :=
  if c.chunkSize = 0 then .error .zeroChunkSize
  else if c.queueCapacity = 0 then .error .zeroQueueCapacity
  else if c.stealBatch = 0 then .error .zeroStealBatch
  else if c.fanOut = .adaptive 0 then .error .zeroFanOutFactor
  else .ok ()

/-- The number of workers on a machine that offers `available` of them. -/
def resolvedThreads (c : Config) (available : Nat) : Nat :=
  if c.numThreads = 0 then available else c.numThreads

end Config

end PatternCount
