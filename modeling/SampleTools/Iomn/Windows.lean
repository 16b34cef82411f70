import Mathlib.Algebra.BigOperators.Group.List.Lemmas
import Mathlib.Algebra.Ring.Int.Defs
import SampleTools.Iomn.Metric
import SampleTools.Library.Related
import SampleTools.Library.Run

/-!
# The windows of a summary

The sum printed for `n` seconds is the sum of what was pushed since the `n`-th last rollover,
for each key and however often the index has come round. The invariant is this equation itself,
for every window of every key: a rollover shifts the windows by one, and a push is added to
each.

## Main definitions

* `SummaryEvent`, `Metric.log`: the pushes and rollovers of a run
* `since n`: what a log holds since its `n`-th last rollover
* `Metric.Windows`: the windows of the rings are the sums of the log

## Main results

* `Metric.Windows.collect`: an iteration of the collector keeps the windows
* `Metric.windowSum_of_run`: what is computed, and printed, for a window
-/

namespace SampleTools

/-- What the collector does to the rings. -/
inductive SummaryEvent
  | rollover
  | push (key : String) (value : ℤ)
  deriving DecidableEq, Repr

/-- The pushes since the `n`-th last rollover, of a log with its last entry first; all of them
if there are fewer rollovers. -/
def since : ℕ → List SummaryEvent → List SummaryEvent
  | 0, _ => []
  | _ + 1, [] => []
  | n + 1, .rollover :: log => since n log
  | n + 1, .push key value :: log => .push key value :: since (n + 1) log

/-- The sum of what is pushed for a key. -/
def pushed (key : String) (log : List SummaryEvent) : ℤ :=
  (log.filterMap fun
    | .push k value => if k = key then some value else none
    | .rollover => none).sum

theorem pushed_push (key : String) (value : ℤ) (log : List SummaryEvent) (k : String) :
    pushed k (.push key value :: log) = pushed k log + if key = k then value else 0 := by
  unfold pushed
  by_cases h : key = k
  · simp [h, Int.add_comm]
  · simp [h]

namespace Metric

/-- The pushes and rollovers of an iteration, in order. -/
def events (m : Metric) (now : ℤ) (d : Option MetricData) : List SummaryEvent :=
  (if m.rollsOver now then [.rollover] else []) ++
    match d with
    | none => []
    | some d => if d.type = .summary then [.push d.key d.intValue] else []

/-- An iteration of the collector. -/
def step (m : Metric) (a : ℤ × Option MetricData) : Option Metric := some (m.collect a.1 a.2)

/-- The pushes and rollovers of a run, the last first. -/
def log (trace : List (Metric × ℤ × Option MetricData)) : List SummaryEvent :=
  (trace.flatMap fun e => e.1.events e.2.1 e.2.2).reverse

/-- The ring of a key; a key that was not pushed has an empty one. -/
def ringOf (key : String) (m : Metric) : Vector ℤ summaryCount :=
  (m.summaryMap.lookup key).getD (Vector.replicate summaryCount 0)

/-- A key that was pushed has a ring, and the windows of the rings are the sums of the log. -/
structure Windows (m : Metric) (log : List SummaryEvent) : Prop where
  mem : ∀ key value, .push key value ∈ log → (m.summaryMap.lookup key).isSome
  sums : ∀ key n, n ≤ summaryCount →
    window (m.ringOf key) m.summaryCurrentIndex n = pushed key (since n log)

section Collect

variable {m : Metric} {log : List SummaryEvent} {now : ℤ} {d : MetricData}

theorem Windows.start (appTag : String) (now : ℤ) : Windows (start appTag now) [] where
  mem := fun key value h => by cases h
  sums := by
    intro key n _
    have hsince : since n [] = [] := by cases n <;> rfl
    rw [hsince]
    exact window_replicate_zero _ n

theorem Windows.rollover (h : Windows m log) (hroll : m.rollsOver now) :
    Windows (m.rollover now) (.rollover :: log) := by
  rw [Metric.rollover, if_pos hroll]
  constructor
  · intro key value hmem
    rw [AList.lookup_mapValues, Option.isSome_map]
    exact h.mem key value (List.mem_of_ne_of_mem (by simp) hmem)
  · intro key n hn
    cases n with
    | zero => rfl
    | succ n =>
      have hsum := h.sums key n (by omega)
      rw [since, ← hsum]
      simp only [ringOf, AList.lookup_mapValues]
      cases m.summaryMap.lookup key with
      | none =>
        rw [Option.map_none, Option.getD_none, window_replicate_zero, window_replicate_zero]
      | some ring => exact window_clear m.summaryCurrentIndex.isLt hn

theorem insertSummary_index (m : Metric) (d : MetricData) :
    (m.insertSummary d).summaryCurrentIndex = m.summaryCurrentIndex := by
  unfold insertSummary
  split <;> rfl

theorem ringOf_insertSummary (m : Metric) (d : MetricData) (key : String) :
    (m.insertSummary d).ringOf key = m.ringOf key := by
  unfold insertSummary
  split
  next hnone =>
    rw [ringOf, ringOf]
    by_cases hkey : key = d.key
    · rw [hkey, hnone, AList.lookup_insert]
      rfl
    · rw [AList.lookup_insert_ne hkey]
  · rfl

theorem isSome_insertSummary (m : Metric) (d : MetricData) {key : String}
    (h : (m.summaryMap.lookup key).isSome) :
    ((m.insertSummary d).summaryMap.lookup key).isSome := by
  unfold insertSummary
  split
  next hnone =>
    have hkey : key ≠ d.key := by
      rintro rfl
      rw [hnone] at h
      cases h
    rwa [AList.lookup_insert_ne hkey]
  · exact h

theorem updateSummary_index (m : Metric) (d : MetricData) :
    (m.updateSummary d).summaryCurrentIndex = m.summaryCurrentIndex :=
  insertSummary_index m d

theorem ringOf_updateSummary (m : Metric) (d : MetricData) :
    (m.updateSummary d).ringOf d.key = (m.ringOf d.key).set m.summaryCurrentIndex
      ((m.ringOf d.key)[(m.summaryCurrentIndex : ℕ)] + d.intValue) := by
  have hring := ringOf_insertSummary m d d.key
  have hindex := insertSummary_index m d
  rw [ringOf] at hring
  unfold updateSummary
  simp only [ringOf, AList.lookup_insert, Option.getD_some, hring, hindex]
  rfl

theorem ringOf_updateSummary_of_ne (m : Metric) {d : MetricData} {key : String}
    (hkey : key ≠ d.key) : (m.updateSummary d).ringOf key = m.ringOf key := by
  rw [← ringOf_insertSummary m d key, ringOf, ringOf, updateSummary, AList.lookup_insert_ne hkey]

/-- A push is added to each window of its key. -/
theorem Windows.updateSummary (h : Windows m log) :
    Windows (m.updateSummary d) (.push d.key d.intValue :: log) := by
  constructor
  · intro key value hmem
    rw [Metric.updateSummary]
    by_cases hkey : key = d.key
    · rw [hkey, AList.lookup_insert]
      rfl
    · rw [AList.lookup_insert_ne hkey]
      rcases List.mem_cons.mp hmem with heq | hmem
      · cases heq
        exact absurd rfl hkey
      · exact isSome_insertSummary m d (h.mem key value hmem)
  · intro key n hn
    cases n with
    | zero => rfl
    | succ n =>
      have hsum := h.sums key (n + 1) hn
      rw [since, pushed_push, ← hsum, updateSummary_index]
      by_cases hkey : key = d.key
      · subst hkey
        rw [if_pos rfl, ringOf_updateSummary]
        exact window_add m.summaryCurrentIndex.isLt hn d.intValue
      · rw [if_neg (Ne.symm hkey), ringOf_updateSummary_of_ne m hkey, Int.add_zero]

/-- What is not a summary leaves the rings. -/
theorem Windows.update (h : Windows m log) (hd : d.type ≠ .summary) :
    Windows (m.update d) log := by
  unfold Metric.update
  split
  next => exact ⟨h.mem, h.sums⟩
  next => exact ⟨h.mem, h.sums⟩
  next => exact h
  next hsummary => exact absurd hsummary hd
  next => exact ⟨h.mem, h.sums⟩

/-- An iteration of the collector adds its events to the log. -/
theorem Windows.collect (h : Windows m log) (d : Option MetricData) :
    Windows (m.collect now d) ((m.events now d).reverse ++ log) := by
  have hrolled : Windows (m.rollover now)
      ((if m.rollsOver now then [SummaryEvent.rollover] else []) ++ log) := by
    by_cases hroll : m.rollsOver now
    · rw [if_pos hroll]
      exact h.rollover hroll
    · rw [if_neg hroll, Metric.rollover, if_neg hroll]
      exact h
  unfold Metric.collect events
  rw [List.reverse_append]
  have hreverse : (if m.rollsOver now then [SummaryEvent.rollover] else []).reverse =
      if m.rollsOver now then [SummaryEvent.rollover] else [] := by split <;> rfl
  rw [hreverse, List.append_assoc]
  cases d with
  | none => exact hrolled
  | some d =>
    by_cases hd : d.type = .summary
    · simp only [hd, if_true, Metric.update]
      exact hrolled.updateSummary
    · simp only [hd, if_false]
      exact hrolled.update hd

end Collect

/-! ## Runs -/

section Run

variable {appTag key : String} {now : ℤ} {m : Metric} {n : ℕ}
  {trace : List (Metric × ℤ × Option MetricData)}

theorem Windows.of_run (hrun : Run step (Metric.start appTag now) trace m) :
    Windows m (log trace) := by
  induction hrun with
  | nil => exact .start appTag now
  | snoc _ ha ih =>
    cases ha
    rw [log, List.flatMap_append, List.reverse_append, List.flatMap_singleton]
    exact ih.collect _

/-- The loop over an interval computes the window. -/
theorem windowSum_eq {current : ℕ} {ring : Vector ℤ summaryCount}
    (hcurrent : current < summaryCount) (hn : n ≤ summaryCount) :
    windowSum current ring n = some (window ring current n) := by
  rw [windowSum, Int.toNat_natCast]
  induction n with
  | zero => rfl
  | succ n ih =>
    have hindex : summaryIndex current n = slotBefore summaryCount current n := by
      unfold summaryIndex slotBefore
      dsimp only
      split <;> split <;> omega
    have hlt := slotBefore_lt hcurrent hn
    rw [List.range_succ, List.foldlM_append, ih (by omega), window_succ]
    simp [hindex, hlt]

/-- A window that is printed for a key has its line. -/
theorem line_mem_output {order : OutputOrder} {lines : List String} {ring : Vector ℤ summaryCount}
    {intervals : List ℤ} {interval sum : ℤ} (hlines : m.genAndWriteOutput order = some lines)
    (hring : m.summaryMap.lookup key = some ring)
    (hintervals : m.summaryTypeMap.lookup key = some intervals) (hinterval : interval ∈ intervals)
    (hsum : windowSum m.summaryCurrentIndex ring interval = some sum) :
    key ++ "_" ++ toString interval ++ "_sum:" ++ toString sum ++ "\n" ∈ lines := by
  obtain ⟨summaries, hsummaries, heq⟩ := Option.bind_eq_some_iff.mp hlines
  cases heq
  -- the entry of the key has its lines, and the interval its line among them
  have hentry : ⟨key, ring⟩ ∈ order.summary.order m.summaryMap.entries :=
    order.summary.mem_order.mpr (AList.mem_lookup_iff.mp hring)
  obtain ⟨keyLines, hkey, hkeyLines⟩ := (List.forall₂_of_mapM hsummaries).exists_right _ hentry
  obtain ⟨sums, hsums, heq⟩ := Option.bind_eq_some_iff.mp hkeyLines
  cases heq
  rw [hintervals, Option.getD_some] at hsums
  obtain ⟨line, hline, heq⟩ := (List.forall₂_of_mapM hsums).exists_right _ hinterval
  rw [hsum] at heq
  cases heq
  refine List.mem_append_left _ (List.mem_append_left _ (List.mem_append_right _ ?_))
  exact List.mem_flatten.mpr ⟨_, hkey, List.mem_append_left _ hline⟩

/-- **Sliding windows.** After any run of the collector, the sum computed for a key that was
pushed and a window of `n` seconds, and printed for it, is that of its pushes since the `n`-th
last rollover. -/
theorem windowSum_of_run (hrun : Run step (Metric.start appTag now) trace m)
    (hkey : ∃ value, .push key value ∈ log trace) (hn : 1 ≤ n ∧ n ≤ summaryCount) :
    ∃ ring, m.summaryMap.lookup key = some ring ∧
      windowSum m.summaryCurrentIndex ring n = some (pushed key (since n (log trace))) ∧
      ∀ order lines intervals, m.genAndWriteOutput order = some lines →
        m.summaryTypeMap.lookup key = some intervals → (n : ℤ) ∈ intervals →
        key ++ "_" ++ toString (n : ℤ) ++ "_sum:" ++
          toString (pushed key (since n (log trace))) ++ "\n" ∈ lines := by
  have h := Windows.of_run hrun
  obtain ⟨value, hvalue⟩ := hkey
  obtain ⟨ring, hring⟩ := Option.isSome_iff_exists.mp (h.mem key value hvalue)
  have hsum : windowSum m.summaryCurrentIndex ring n =
      some (pushed key (since n (log trace))) := by
    rw [windowSum_eq m.summaryCurrentIndex.isLt hn.2, ← h.sums key n hn.2, ringOf, hring]
    rfl
  refine ⟨ring, hring, hsum, fun order lines intervals hlines hintervals hinterval => ?_⟩
  exact line_mem_output hlines hring hintervals hinterval hsum

/-- Pushed, and pushed again after a rollover: one window has the last push, the next has both. -/
theorem windowSum_two_pushes :
    ∃ (trace : List (Metric × ℤ × Option MetricData)) (m : Metric)
      (ring : Vector ℤ summaryCount),
      Run step (Metric.start "a" 0) trace m ∧
      log trace = [.push "b" 7, .rollover, .push "b" 5] ∧
      m.summaryMap.lookup "b" = some ring ∧
      windowSum m.summaryCurrentIndex ring (1 : ℕ) = some 7 ∧
      windowSum m.summaryCurrentIndex ring (2 : ℕ) = some 12 := by
  have hrun : Run step (Metric.start "a" 0) _ _ :=
    Run.nil.snoc (a := (0, some (pushSummary "b" 5 [2]))) rfl
    |>.snoc (a := (1000, some (pushSummary "b" 7 [2]))) rfl
  obtain ⟨ring, hring, hone, -⟩ :=
    windowSum_of_run hrun ⟨7, List.mem_cons_self⟩ (n := 1) (by decide)
  obtain ⟨ring', hring', htwo, -⟩ :=
    windowSum_of_run hrun ⟨7, List.mem_cons_self⟩ (n := 2) (by decide)
  cases hring.symm.trans hring'
  exact ⟨_, _, ring, hrun, rfl, hring, hone, htwo⟩

end Run

end Metric

end SampleTools
