import Mathlib.Algebra.BigOperators.Group.List.Lemmas
import Mathlib.Algebra.Ring.Int.Defs
import SampleTools.Iomn.Metric
import SampleTools.Library.ProducerQueue
import SampleTools.Library.Run

/-!
# What the threads push and what is collected

The threads of a program push their metrics into a queue, while the collector runs; the collector
takes them out one after another. Those of one thread keep their order. Nothing is collected that
was not pushed, nothing twice, and what has not been collected waits: a count is the number of its
pushes that were taken out, a total their sum, and the others are the last that was taken out.

## Main definitions

* `Pushing`, `Pushing.step`: the queue and the collector, and one step of a thread
* `Pushing.accepted`, `Pushing.taken`: what was pushed and what was taken out in a run
* `Metric.Shows`: the metrics are those of some pushes

## Main results

* `Pushing.ofProducer_taken`: each thread's metrics are taken out or wait, in order
* `Pushing.run_shows`: the metrics are those of what was taken out
* `Metric.Shows.mem_output`: the lines that are printed
-/

namespace SampleTools

namespace Metric

/-! ## What is shown -/

/-- The pushes of a type under a key. -/
def under (type : MetricType) (key : String) (ds : List MetricData) : List MetricData :=
  ds.filter fun d => d.type = type ∧ d.key = key

theorem under_concat (type : MetricType) (key : String) (ds : List MetricData) (d : MetricData) :
    under type key (ds ++ [d]) =
      if d.type = type ∧ d.key = key then under type key ds ++ [d] else under type key ds := by
  simp only [under, List.filter_append, List.filter_cons, List.filter_nil, decide_eq_true_eq]
  split
  · rfl
  · exact List.append_nil _

/-- What is shown for the pushes of a type under a key, from all of them and the last one. -/
def shown {β : Type} (val : List MetricData → MetricData → β) (type : MetricType) (key : String)
    (ds : List MetricData) : Option β :=
  (under type key ds).getLast?.map (val (under type key ds))

/-- The number of the pushes. -/
def counted (ds : List MetricData) (_ : MetricData) : UInt64 := UInt64.ofNat ds.length

/-- The number pushed last. -/
def lastValue (_ : List MetricData) (d : MetricData) : UInt64 := UInt64.ofInt d.intValue

/-- The sum of the numbers pushed. -/
def summed (ds : List MetricData) (_ : MetricData) : UInt64 :=
  UInt64.ofInt (ds.map MetricData.intValue).sum

/-- The text pushed last. -/
def lastText (_ : List MetricData) (d : MetricData) : String := d.strValue

/-- The metrics are those of the pushes. -/
structure Shows (m : Metric) (ds : List MetricData) : Prop where
  count : ∀ key, m.countMap.lookup key = shown counted .count key ds
  guage : ∀ key, m.guageMap.lookup key = shown lastValue .gugae key ds
  total : ∀ key, m.summaryTotalMap.lookup key = shown summed .summary key ds
  status : ∀ key, m.statusMap.lookup key = shown lastText .status key ds

section Shows

variable {m : Metric} {ds : List MetricData} {d : MetricData} {β : Type}
  {val : List MetricData → MetricData → β} {type : MetricType}

theorem Shows.start (appTag : String) (now : ℤ) : Shows (start appTag now) [] where
  count _ := rfl
  guage _ := rfl
  total _ := rfl
  status _ := rfl

theorem Shows.rollover (h : Shows m ds) (now : ℤ) : Shows (m.rollover now) ds := by
  rw [Metric.rollover]
  split
  · exact ⟨h.count, h.guage, h.total, h.status⟩
  · exact h

/-- A push of another type changes nothing. -/
theorem shown_concat_of_ne (htype : d.type ≠ type) (key : String) :
    shown val type key (ds ++ [d]) = shown val type key ds := by
  rw [shown, under_concat, if_neg fun h => htype h.1, shown]

/-- A map after an insertion under the key of a push, where it shows the pushes of a type. -/
theorem lookup_insert_shown {map : AList fun _ : String => β}
    (hmap : ∀ key, map.lookup key = shown val type key ds) (htype : d.type = type)
    {b : β} (hb : b = val (under type d.key ds ++ [d]) d) (key : String) :
    (map.insert d.key b).lookup key = shown val type key (ds ++ [d]) := by
  rw [shown, under_concat]
  by_cases hkey : d.key = key
  · -- under the key of the push it comes last
    subst hkey
    rw [if_pos ⟨htype, rfl⟩, AList.lookup_insert, List.getLast?_concat, hb]
    rfl
  · rw [if_neg fun h => hkey h.2, AList.lookup_insert_ne (Ne.symm hkey), hmap]
    rfl

/-- What is shown is nothing where nothing was pushed. -/
theorem getD_shown {b : β} {key : String} {a : List MetricData → β}
    (hval : ∀ ds d, val ds d = a ds) (hb : a [] = b) :
    (shown val type key ds).getD b = a (under type key ds) := by
  rw [shown]
  cases hlast : (under type key ds).getLast? with
  | none => rw [List.getLast?_eq_none_iff.mp hlast, hb]; rfl
  | some d => exact hval _ _

/-- What a push leaves as it was, it shows as before. -/
theorem lookup_shown_of_ne {map : AList fun _ : String => β} {type' : MetricType}
    (hmap : ∀ key, map.lookup key = shown val type key ds) (htype : d.type = type')
    (hne : type' ≠ type) (key : String) : map.lookup key = shown val type key (ds ++ [d]) :=
  (hmap key).trans (shown_concat_of_ne (htype ▸ hne) key).symm

/-- What `update_summary` changes. -/
theorem updateSummary_eq (d : MetricData) (m : Metric) : m.updateSummary d = { m with
    summaryMap := (m.updateSummary d).summaryMap
    summaryTypeMap := (m.updateSummary d).summaryTypeMap
    summaryTotalMap := m.summaryTotalMap.insert d.key
      ((m.summaryTotalMap.lookup d.key).getD 0 + UInt64.ofInt d.intValue) } := by
  simp only [updateSummary, insertSummary]
  split <;> rfl

theorem Shows.update (h : Shows m ds) : Shows (m.update d) (ds ++ [d]) := by
  cases htype : d.type with
  | count =>
    rw [Metric.update, htype]
    refine ⟨?_, lookup_shown_of_ne h.guage htype nofun, lookup_shown_of_ne h.total htype nofun,
      lookup_shown_of_ne h.status htype nofun⟩
    -- the counter is the number of pushes under the key, modulo 2 ^ 64
    have hcount : (shown counted .count d.key ds).getD 0 =
        UInt64.ofNat (under .count d.key ds).length :=
      getD_shown (a := fun ds => UInt64.ofNat ds.length) (fun _ _ => rfl) rfl
    apply lookup_insert_shown h.count htype
    rw [h.count, hcount, counted, List.length_append, List.length_singleton, UInt64.ofNat_add]
    rfl
  | gugae =>
    rw [Metric.update, htype]
    exact ⟨lookup_shown_of_ne h.count htype nofun, lookup_insert_shown h.guage htype rfl,
      lookup_shown_of_ne h.total htype nofun, lookup_shown_of_ne h.status htype nofun⟩
  | histogram =>
    rw [Metric.update, htype]
    exact ⟨lookup_shown_of_ne h.count htype nofun, lookup_shown_of_ne h.guage htype nofun,
      lookup_shown_of_ne h.total htype nofun, lookup_shown_of_ne h.status htype nofun⟩
  | summary =>
    -- only the total is shown here, the windows are not
    have hsum : (shown summed .summary d.key ds).getD 0 =
        UInt64.ofInt ((under .summary d.key ds).map MetricData.intValue).sum :=
      getD_shown (a := fun ds => UInt64.ofInt (ds.map MetricData.intValue).sum) (fun _ _ => rfl) rfl
    rw [Metric.update, htype]
    change Shows (m.updateSummary d) _
    rw [updateSummary_eq]
    refine ⟨lookup_shown_of_ne h.count htype nofun, lookup_shown_of_ne h.guage htype nofun, ?_,
      lookup_shown_of_ne h.status htype nofun⟩
    apply lookup_insert_shown h.total htype
    rw [h.total, hsum, summed, List.map_append, List.sum_append, UInt64.ofInt_add]
    simp
  | status =>
    rw [Metric.update, htype]
    exact ⟨lookup_shown_of_ne h.count htype nofun, lookup_shown_of_ne h.guage htype nofun,
      lookup_shown_of_ne h.total htype nofun, lookup_insert_shown h.status htype rfl⟩

theorem Shows.collect (h : Shows m ds) (now : ℤ) (next : Option MetricData) :
    Shows (m.collect now next) (ds ++ next.toList) := by
  cases next with
  | none =>
    rw [Option.toList_none, List.append_nil]
    exact h.rollover now
  | some d => exact (h.rollover now).update

/-- The lines that are printed for what was pushed. -/
theorem Shows.mem_output (h : Shows m ds) {order : OutputOrder} {lines : List String}
    (hlines : m.genAndWriteOutput order = some lines) (key : String) :
    (∀ n, shown counted .count key ds = some n → key ++ "_count:" ++ toString n ++ "\n" ∈ lines) ∧
    (∀ n, shown lastValue .gugae key ds = some n →
      key ++ "_guagae:" ++ toString n ++ "\n" ∈ lines) ∧
    (∀ text, shown lastText .status key ds = some text →
      key ++ "_status:" ++ text ++ "\n" ∈ lines) := by
  obtain ⟨summaries, -, heq⟩ := Option.bind_eq_some_iff.mp hlines
  cases heq
  -- the entry of the key, and its line among those of its map
  refine ⟨fun n hn => ?_, fun n hn => ?_, fun text htext => ?_⟩
  · have hentry : ⟨key, n⟩ ∈ order.count.order m.countMap.entries :=
      order.count.mem_order.mpr (AList.mem_lookup_iff.mp ((h.count key).trans hn))
    have hline := List.mem_map_of_mem
      (f := fun item : (_ : String) × UInt64 => item.1 ++ "_count:" ++ toString item.2 ++ "\n")
      hentry
    simp only [List.mem_append]
    exact .inl (.inl (.inl (.inl (.inr hline))))
  · have hentry : ⟨key, n⟩ ∈ order.guage.order m.guageMap.entries :=
      order.guage.mem_order.mpr (AList.mem_lookup_iff.mp ((h.guage key).trans hn))
    have hline := List.mem_map_of_mem
      (f := fun item : (_ : String) × UInt64 => item.1 ++ "_guagae:" ++ toString item.2 ++ "\n")
      hentry
    simp only [List.mem_append]
    exact .inl (.inl (.inl (.inr hline)))
  · have hentry : ⟨key, text⟩ ∈ order.status.order m.statusMap.entries :=
      order.status.mem_order.mpr (AList.mem_lookup_iff.mp ((h.status key).trans htext))
    have hline := List.mem_map_of_mem
      (f := fun item : (_ : String) × String => item.1 ++ "_status:" ++ item.2 ++ "\n") hentry
    simp only [List.mem_append]
    exact .inl (.inr hline)

end Shows

end Metric

/-! ## The threads -/

/-- What was pushed waits in `q_`, with the thread that pushed it. -/
structure Pushing (ι : Type) where
  metric : Metric
  q : List (ι × MetricData) := []
  isRunning : Bool := true

namespace Pushing

variable {ι : Type}

/-- The collector is started. -/
def start (appTag : String) (now : ℤ) : Pushing ι where
  metric := .start appTag now

/-- A step: a thread pushes, the collector makes an iteration and perhaps takes out what is first
of a thread, or the collector is told to end. -/
inductive Label (ι : Type)
  | push (i : ι) (d : MetricData)
  | collect (now : ℤ) (next : Option ι)
  | stop

variable [DecidableEq ι]

/-- `push`. -/
def push (i : ι) (d : MetricData) (s : Pushing ι) : Pushing ι :=
  if s.isRunning then { s with q := s.q ++ [(i, d)] } else s

/-- One step. `try_dequeue` may find nothing. -/
def step (s : Pushing ι) : Label ι → Option (Pushing ι)
  | .push i d => some (s.push i d)
  | .collect now next =>
    if s.isRunning then
      match next with
      | none => some { s with metric := s.metric.collect now none }
      | some i => (takeFirst i s.q).map fun (d, q) =>
          { s with metric := s.metric.collect now (some d), q := q }
    else none
  | .stop => some { s with isRunning := false }

/-- What a step adds to the queue. -/
def accepts (s : Pushing ι) : Label ι → List (ι × MetricData)
  | .push i d => if s.isRunning then [(i, d)] else []
  | .collect .. | .stop => []

/-- What a step takes out of the queue. -/
def takes (s : Pushing ι) : Label ι → List (ι × MetricData)
  | .collect _ (some i) => ((takeFirst i s.q).map fun (d, _) => (i, d)).toList
  | .collect _ none | .push .. | .stop => []

/-- All that was put into the queue. -/
def accepted (trace : List (Pushing ι × Label ι)) : List (ι × MetricData) :=
  trace.flatMap fun e => e.1.accepts e.2

/-- All that was taken out of the queue. -/
def taken (trace : List (Pushing ι × Label ι)) : List (ι × MetricData) :=
  trace.flatMap fun e => e.1.takes e.2

section Run

variable {s s' : Pushing ι} {a : Label ι} {trace : List (Pushing ι × Label ι)} {appTag : String}
  {now : ℤ}

omit [DecidableEq ι] in
@[simp] theorem isRunning_push (i : ι) (d : MetricData) (s : Pushing ι) :
    (s.push i d).isRunning = s.isRunning := by
  rw [push]
  split <;> rfl

/-- The collector is not started again. -/
theorem isRunning_of_step (ha : s.step a = some s') (h : s'.isRunning = true) :
    s.isRunning = true := by
  cases a with
  | push i d =>
    cases ha
    rwa [isRunning_push] at h
  | collect now next =>
    simp only [step] at ha
    split at ha
    next hrunning => exact hrunning
    · cases ha
  | stop =>
    cases ha
    cases h

/-- What is taken out was first of its thread. -/
theorem step_queue (ha : s.step a = some s') (i : ι) :
    ofProducer i (s.q ++ s.accepts a) = ofProducer i (s.takes a ++ s'.q) := by
  cases a with
  | push j d =>
    cases ha
    rw [accepts, takes, List.nil_append, push]
    split
    · rfl
    · rw [List.append_nil]
  | collect now next =>
    simp only [step] at ha
    split at ha
    · cases next with
      | none =>
        cases ha
        rw [accepts, takes, List.append_nil, List.nil_append]
      | some j =>
        obtain ⟨⟨d, q⟩, htake, heq⟩ := Option.map_eq_some_iff.mp ha
        cases heq
        -- for its thread, what is taken out stood in front
        rw [accepts, takes, List.append_nil, htake]
        exact ofProducer_takeFirst htake i
    · cases ha
  | stop =>
    cases ha
    rw [accepts, takes, List.append_nil, List.nil_append]

/-- The metrics are also those of what is taken out. -/
theorem step_metric (ha : s.step a = some s') {ds : List MetricData} (h : s.metric.Shows ds) :
    s'.metric.Shows (ds ++ (s.takes a).map Prod.snd) := by
  cases a with
  | push j d =>
    cases ha
    rw [takes, List.map_nil, List.append_nil, push]
    split
    · exact h
    · exact h
  | collect now next =>
    simp only [step] at ha
    split at ha
    · cases next with
      | none =>
        cases ha
        exact h.collect now none
      | some j =>
        obtain ⟨⟨d, q⟩, htake, heq⟩ := Option.map_eq_some_iff.mp ha
        cases heq
        rw [takes, htake]
        exact h.collect now (some d)
    · cases ha
  | stop =>
    cases ha
    rwa [takes, List.map_nil, List.append_nil]

/-- Each thread's metrics are taken out or wait, in order. -/
theorem ofProducer_taken (hrun : Run step (start appTag now) trace s) (i : ι) :
    ofProducer i (taken trace ++ s.q) = ofProducer i (accepted trace) := by
  induction hrun with
  | nil => rfl
  | snoc _ ha ih =>
    rw [taken, accepted, List.flatMap_append, List.flatMap_append, List.flatMap_singleton,
      List.flatMap_singleton, ← taken, ← accepted]
    rw [List.append_assoc, ofProducer_append, ← step_queue ha, ← ofProducer_append,
      ← List.append_assoc, ofProducer_append, ih, ofProducer_append]

theorem shows_taken (hrun : Run step (start appTag now) trace s) :
    s.metric.Shows ((taken trace).map Prod.snd) := by
  induction hrun with
  | nil => exact .start appTag now
  | snoc _ ha ih =>
    rw [taken, List.flatMap_append, List.flatMap_singleton, ← taken, List.map_append]
    exact step_metric ha ih

/-- **Metrics of all threads.** In every state of a run the metrics are those of what was taken
out, and each thread's are taken out or wait, once and in order. -/
theorem run_shows (hrun : Run step (start appTag now) trace s) :
    s.metric.Shows ((taken trace).map Prod.snd) ∧
      ∀ i, ofProducer i (taken trace ++ s.q) = ofProducer i (accepted trace) :=
  ⟨shows_taken hrun, ofProducer_taken hrun⟩

end Run

/-- Two threads push, and the second is taken out first. -/
theorem run_shows_two_threads :
    ∃ (trace : List (Pushing ℕ × Label ℕ)) (s : Pushing ℕ), Run step (start "app" 0) trace s ∧
      trace.map Prod.snd = [.push 0 (Metric.pushCount "a"), .push 1 (Metric.pushStatus "b" "up"),
        .collect 10 (some 1), .push 0 (Metric.pushCount "a"), .collect 20 (some 0)] ∧
      s.metric.Shows [Metric.pushStatus "b" "up", Metric.pushCount "a"] ∧
      ofProducer 0 (taken trace ++ s.q) = [Metric.pushCount "a", Metric.pushCount "a"] := by
  have hrun : Run (step (ι := ℕ)) (start "app" 0) _ _ :=
    Run.nil.snoc (a := .push 0 (Metric.pushCount "a")) rfl
    |>.snoc (a := .push 1 (Metric.pushStatus "b" "up")) rfl
    |>.snoc (a := .collect 10 (some 1)) rfl |>.snoc (a := .push 0 (Metric.pushCount "a")) rfl
    |>.snoc (a := .collect 20 (some 0)) rfl
  obtain ⟨hshows, hqueue⟩ := run_shows hrun
  exact ⟨_, _, hrun, rfl, hshows, hqueue 0⟩

end Pushing

end SampleTools
