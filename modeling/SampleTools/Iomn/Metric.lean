import Mathlib.Data.List.AList
import Mathlib.Data.Int.Notation
import SampleTools.Library.Containers
import SampleTools.Library.SlidingWindow

/-!
# Metrics

`Metric` collects what a program pushes and prints it on request. A summary keeps for each key
a ring of 1000 sums, one a second, with one index into all rings. The collector clears the next
slot of every ring and advances the index when a second has passed, and adds what it dequeues
to the current slot. The sums of a ring are taken to fit their integers.

## Main definitions

* `Metric`, `MetricData`: the collected metrics, and what is pushed
* `Metric.pushCount`, `Metric.pushGuage`, `Metric.pushSummary`, `Metric.pushStatus`: the pushes
* `Metric.collect`: one iteration of the collector
* `Metric.genAndWriteOutput`: the lines printed
-/

namespace SampleTools

/-- `METRIC_TYPE`. -/
inductive MetricType
  | count
  | gugae
  | histogram
  | summary
  | status
  deriving DecidableEq, Repr

/-- `metric`: what is pushed. -/
structure MetricData where
  type : MetricType
  key : String
  interval : List ℤ := []
  intValue : ℤ := 0
  strValue : String := ""
  deriving DecidableEq, Repr

/-- `summary_count`. -/
def summaryCount : ℕ := 1000

/-- `Metric`, with the local `time_last` of the collector. -/
structure Metric where
  appTag : String
  countMap : AList fun _ : String => UInt64 := ∅
  guageMap : AList fun _ : String => UInt64 := ∅
  /-- `summary_map_`: the ring of each key -/
  summaryMap : AList fun _ : String => Vector ℤ summaryCount := ∅
  summaryCurrentIndex : Fin summaryCount := ⟨0, by decide⟩
  summaryTotalMap : AList fun _ : String => UInt64 := ∅
  /-- `summary_type_map_`: the intervals printed for each key -/
  summaryTypeMap : AList fun _ : String => List ℤ := ∅
  statusMap : AList fun _ : String => String := ∅
  timeLast : ℤ

namespace Metric

/-! ## What is pushed -/

/-- `push_count`. -/
def pushCount (key : String) : MetricData where
  type := .count
  key := key

/-- `push_guage`. -/
def pushGuage (key : String) (value : ℤ) : MetricData where
  type := .gugae
  key := key
  intValue := value

/-- `push_summary`. -/
def pushSummary (key : String) (value : ℤ) (interval : List ℤ) : MetricData where
  type := .summary
  key := key
  intValue := value
  interval := interval

/-- `push_status`. -/
def pushStatus (key value : String) : MetricData where
  type := .status
  key := key
  strValue := value

/-! ## The collector -/

/-- The collector starts. -/
def start (appTag : String) (now : ℤ) : Metric where
  appTag := appTag
  timeLast := now

/-- A second has passed, and there is a key to see it. -/
def rollsOver (now : ℤ) (m : Metric) : Bool :=
  now - 1000 ≥ m.timeLast && !m.summaryMap.entries.isEmpty

/-- The slot of every ring that is next is cleared, and becomes the current one. -/
def rollover (now : ℤ) (m : Metric) : Metric :=
  if m.rollsOver now then
    { m with
      summaryMap := m.summaryMap.mapValues fun ring =>
        ring.set (nextSlot summaryCount m.summaryCurrentIndex) 0
          (nextSlot_lt m.summaryCurrentIndex.isLt)
      summaryCurrentIndex :=
        ⟨nextSlot summaryCount m.summaryCurrentIndex, nextSlot_lt m.summaryCurrentIndex.isLt⟩
      timeLast := now }
  else m

/-- The first part of `update_summary`: a key that is new gets an empty ring. -/
def insertSummary (d : MetricData) (m : Metric) : Metric :=
  if m.summaryMap.lookup d.key = none then
    { m with
      summaryMap := m.summaryMap.insert d.key (Vector.replicate summaryCount 0)
      summaryTypeMap := m.summaryTypeMap.insert d.key d.interval }
  else m

/-- `update_summary`. -/
def updateSummary (d : MetricData) (m : Metric) : Metric :=
  let m := m.insertSummary d
  let ring := (m.summaryMap.lookup d.key).getD (Vector.replicate summaryCount 0)
  { m with
    summaryMap := m.summaryMap.insert d.key
      (ring.set m.summaryCurrentIndex (ring[m.summaryCurrentIndex] + d.intValue))
    summaryTotalMap := m.summaryTotalMap.insert d.key
      ((m.summaryTotalMap.lookup d.key).getD 0 + UInt64.ofInt d.intValue) }

/-- What is done with a dequeued metric. -/
def update (d : MetricData) (m : Metric) : Metric :=
  match d.type with
  | .count =>
    { m with countMap := m.countMap.insert d.key ((m.countMap.lookup d.key).getD 0 + 1) }
  | .gugae => { m with guageMap := m.guageMap.insert d.key (UInt64.ofInt d.intValue) }
  | .histogram => m
  | .summary => m.updateSummary d
  | .status => { m with statusMap := m.statusMap.insert d.key d.strValue }

/-- One iteration of the collector, at a time, with what it dequeues. -/
def collect (now : ℤ) (d : Option MetricData) (m : Metric) : Metric :=
  let m := m.rollover now
  match d with
  | none => m
  | some d => m.update d

/-! ## The output -/

/-- The slot read for an index of the loop over an interval. -/
def summaryIndex (current : ℕ) (index : ℕ) : ℤ :=
  let summaryIndex : ℤ := current - index
  if summaryIndex < 0 then summaryIndex + summaryCount else summaryIndex

/-- The loop over an interval; reading outside the ring is undefined. -/
def windowSum (current : ℕ) (ring : Vector ℤ summaryCount) (interval : ℤ) : Option ℤ :=
  (List.range interval.toNat).foldlM (fun sum index =>
    let i := summaryIndex current index
    if i < 0 then none else (ring[i.toNat]?).map (sum + ·)) 0

/-- The lines of a key: its sums, and its total. -/
def summaryLines (key : String) (ring : Vector ℤ summaryCount) (m : Metric) :
    Option (List String) := do
  let sums ← ((m.summaryTypeMap.lookup key).getD []).mapM fun interval => do
    let sum ← windowSum m.summaryCurrentIndex ring interval
    some (key ++ "_" ++ toString interval ++ "_sum:" ++ toString sum ++ "\n")
  let total := (m.summaryTotalMap.lookup key).getD 0
  some (sums ++ [key ++ "_total_sum:" ++ toString total ++ "\n"])

/-- The orders in which the maps are printed. -/
structure OutputOrder where
  count : IterOrder (Sigma fun _ : String => UInt64)
  guage : IterOrder (Sigma fun _ : String => UInt64)
  summary : IterOrder (Sigma fun _ : String => Vector ℤ summaryCount)
  status : IterOrder (Sigma fun _ : String => String)

/-- `gen_and_write_output`: the lines of the buffer. -/
def genAndWriteOutput (order : OutputOrder) (m : Metric) : Option (List String) := do
  let summaries ← (order.summary.order m.summaryMap.entries).mapM fun item =>
    m.summaryLines item.1 item.2
  some (["======" ++ m.appTag ++ " begin" ++ "======" ++ "\n", m.appTag ++ "\n"] ++
    (order.count.order m.countMap.entries).map
      (fun item => item.1 ++ "_count:" ++ toString item.2 ++ "\n") ++
    (order.guage.order m.guageMap.entries).map
      (fun item => item.1 ++ "_guagae:" ++ toString item.2 ++ "\n") ++
    summaries.flatten ++
    (order.status.order m.statusMap.entries).map
      (fun item => item.1 ++ "_status:" ++ item.2 ++ "\n") ++
    ["=====" ++ m.appTag ++ " end" ++ "=====" ++ "\n"])

end Metric

end SampleTools
