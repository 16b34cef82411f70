import SampleTools.Iomn.Windows

/-!
# The slots that are read

The loop over an interval goes back from the current slot, and adds the size of the ring once when
it gets below slot 0. How long an interval is, is up to the caller of `push_summary`; the intervals
of a key are those of its first push.

## Main definitions

* `Metric.reads`: the slots `gen_and_write_output` reads
* `Metric.intervalsOf`: the intervals of the first push of a key

## Main results

* `Metric.genAndWriteOutput_isSome_iff`: there is an output exactly if all reads are in the ring
* `Metric.Typed.step`: the intervals printed are those of the first push
* `Metric.reads_inRing_iff`: when all reads are in the ring
-/

namespace SampleTools

namespace Metric

/-- A slot of the ring. -/
def InRing (slot : ℤ) : Prop := 0 ≤ slot ∧ slot < summaryCount

/-- The slots the loop over an interval reads. -/
def slotsRead (current : ℕ) (interval : ℤ) : List ℤ :=
  (List.range interval.toNat).map (summaryIndex current)

/-- The slots `gen_and_write_output` reads, each with its key. -/
def reads (order : OutputOrder) (m : Metric) : List (String × ℤ) :=
  (order.summary.order m.summaryMap.entries).flatMap fun item =>
    ((m.summaryTypeMap.lookup item.1).getD []).flatMap fun interval =>
      (slotsRead m.summaryCurrentIndex interval).map (item.1, ·)

/-- The intervals a metric brings for a key. -/
def intervalsIn (key : String) (d : MetricData) : Option (List ℤ) :=
  if d.type = .summary ∧ d.key = key then some d.interval else none

/-- The intervals of the first push of a key in a run. -/
def intervalsOf (key : String) (trace : List (Metric × ℤ × Option MetricData)) :
    Option (List ℤ) :=
  trace.findSome? fun e => e.2.2.bind (intervalsIn key)

/-! ## One output -/

section Output

variable {m : Metric} {current : ℕ} {ring : Vector ℤ summaryCount} {interval : ℤ}

theorem windowSum_isSome_iff :
    (windowSum current ring interval).isSome ↔
      ∀ slot ∈ slotsRead current interval, InRing slot := by
  rw [slotsRead, List.forall_mem_map]
  apply List.isSome_foldlM_iff
  intro sum index
  dsimp only
  by_cases hneg : summaryIndex current index < 0
  · rw [if_pos hneg]
    exact iff_of_false nofun fun h => absurd h.1 (Int.not_le.mpr hneg)
  · rw [if_neg hneg, Option.isSome_map, isSome_getElem?]
    unfold InRing
    omega

/-- The loop over an interval stays in the ring if it comes round at most once. -/
theorem slotsRead_inRing_iff (hcurrent : current < summaryCount) :
    (∀ slot ∈ slotsRead current interval, InRing slot) ↔ interval ≤ current + 1001 := by
  rw [slotsRead, List.forall_mem_map]
  unfold InRing summaryIndex summaryCount at *
  constructor
  · intro h
    by_contra hlong
    -- one index further than a whole turn
    have hread := (h (current + 1001) (List.mem_range.mpr (by omega))).1
    dsimp only at hread
    split at hread <;> omega
  · intro hle index hindex
    have hlt := List.mem_range.mp hindex
    dsimp only
    split <;> omega

theorem isSome_bind_some {α β : Type} (x : Option α) (f : α → β) :
    (x.bind fun a => some (f a)).isSome = x.isSome := by
  cases x <;> rfl

/-- There is an output exactly if all reads are in the ring. -/
theorem genAndWriteOutput_isSome_iff (order : OutputOrder) :
    (m.genAndWriteOutput order).isSome ↔ ∀ read ∈ m.reads order, InRing read.2 := by
  simp only [genAndWriteOutput, summaryLines, Option.bind_eq_bind, isSome_bind_some,
    List.isSome_mapM_iff, windowSum_isSome_iff, reads, List.forall_mem_flatMap, List.forall_mem_map]

end Output

/-! ## The intervals of a key -/

/-- The intervals printed for the keys, each of which has a ring. -/
structure Typed (m : Metric) (intervals : String → Option (List ℤ)) : Prop where
  types : ∀ key, m.summaryTypeMap.lookup key = intervals key
  rings : ∀ key, (m.summaryMap.lookup key).isSome ↔ (intervals key).isSome

section Typed

variable {m m' : Metric} {intervals : String → Option (List ℤ)} {now : ℤ} {d : MetricData}

theorem Typed.start (appTag : String) (now : ℤ) : Typed (start appTag now) fun _ => none where
  types := fun _ => AList.lookup_empty _
  rings := fun key => by simp [Metric.start]

theorem Typed.rollover (h : Typed m intervals) (now : ℤ) : Typed (m.rollover now) intervals := by
  unfold Metric.rollover
  split
  · refine ⟨h.types, fun key => ?_⟩
    rw [AList.lookup_mapValues, Option.isSome_map]
    exact h.rings key
  · exact h

/-- The first push of a key brings its intervals, and the later ones none. -/
theorem Typed.updateSummary (h : Typed m intervals) (hd : d.type = .summary) :
    Typed (m.updateSummary d) fun key => (intervals key).or (intervalsIn key d) := by
  have hother : ∀ key, key ≠ d.key → intervalsIn key d = none :=
    fun key hkey => if_neg fun h => hkey h.2.symm
  have hinserted : Typed (m.insertSummary d) fun key =>
      (intervals key).or (intervalsIn key d) := by
    unfold insertSummary
    split
    next hnone =>
      -- a new key
      have hfirst : intervals d.key = none := by
        have hrings := h.rings d.key
        rw [hnone] at hrings
        simpa using hrings
      constructor
      · intro key
        by_cases hkey : key = d.key
        · subst hkey
          rw [AList.lookup_insert, hfirst, Option.none_or]
          exact (if_pos ⟨hd, rfl⟩).symm
        · rw [AList.lookup_insert_ne hkey, hother key hkey, Option.or_none]
          exact h.types key
      · intro key
        by_cases hkey : key = d.key
        · subst hkey
          rw [AList.lookup_insert, hfirst, Option.none_or, intervalsIn, if_pos ⟨hd, rfl⟩]
          rfl
        · rw [AList.lookup_insert_ne hkey, hother key hkey, Option.or_none]
          exact h.rings key
    next hsome =>
      -- the intervals of later pushes are not looked at
      have hsame : ∀ key, (intervals key).or (intervalsIn key d) = intervals key := by
        intro key
        by_cases hkey : key = d.key
        · subst hkey
          obtain ⟨list, hlist⟩ := Option.isSome_iff_exists.mp
            ((h.rings d.key).mp (Option.isSome_iff_ne_none.mpr hsome))
          rw [hlist, Option.some_or]
        · rw [hother key hkey, Option.or_none]
      simpa only [hsame] using h
  refine ⟨hinserted.types, fun key => ?_⟩
  rw [← hinserted.rings key, Metric.updateSummary]
  by_cases hkey : key = d.key
  · -- the ring was inserted before
    subst hkey
    refine iff_of_true (by rw [AList.lookup_insert]; rfl) ((hinserted.rings d.key).mpr ?_)
    rw [Option.isSome_or, intervalsIn, if_pos ⟨hd, rfl⟩]
    exact Bool.or_true _
  · rw [AList.lookup_insert_ne hkey]

theorem Typed.step (h : Typed m intervals) {a : ℤ × Option MetricData}
    (hm' : m.step a = some m') :
    Typed m' fun key => (intervals key).or (a.2.bind (intervalsIn key)) := by
  obtain ⟨now, d⟩ := a
  obtain rfl := Option.some.inj hm'
  have hrolled := h.rollover now
  cases d with
  | none =>
    change Typed (m.rollover now) fun key => (intervals key).or none
    simpa only [Option.or_none] using hrolled
  | some d =>
    by_cases hd : d.type = .summary
    · have hupdate : m.collect now (some d) = (m.rollover now).updateSummary d := by
        simp only [Metric.collect, Metric.update, hd]
      rw [hupdate]
      exact hrolled.updateSummary hd
    · have hnone : ∀ key, (intervals key).or (intervalsIn key d) = intervals key := by
        intro key
        rw [intervalsIn, if_neg fun h => hd h.1, Option.or_none]
      simp only [Option.bind_some, hnone, Metric.collect, Metric.update]
      -- the other kinds of data have maps of their own
      split
      next => exact ⟨hrolled.types, hrolled.rings⟩
      next => exact ⟨hrolled.types, hrolled.rings⟩
      next => exact hrolled
      next hsummary => exact absurd hsummary hd
      next => exact ⟨hrolled.types, hrolled.rings⟩

theorem Typed.of_run {appTag : String} {trace : List (Metric × ℤ × Option MetricData)}
    (hrun : Run Metric.step (Metric.start appTag now) trace m) :
    Typed m fun key => intervalsOf key trace := by
  induction hrun with
  | nil => exact .start appTag now
  | snoc _ hm' ih =>
    simp only [intervalsOf, List.findSome?_append, List.findSome?_singleton]
    exact ih.step hm'

end Typed

/-- **All reads are in the ring exactly if no interval is more than one turn longer than the
current slot.** After any run of the collector, whatever intervals were pushed and in whatever
order the maps are printed. -/
theorem reads_inRing_iff {appTag : String} {now : ℤ} {m : Metric}
    {trace : List (Metric × ℤ × Option MetricData)}
    (hrun : Run step (start appTag now) trace m) (order : OutputOrder) :
    (∀ read ∈ m.reads order, InRing read.2) ↔
      ∀ key intervals, intervalsOf key trace = some intervals →
        ∀ interval ∈ intervals, interval ≤ m.summaryCurrentIndex + 1001 := by
  have htyped := Typed.of_run hrun
  simp only [reads, List.forall_mem_flatMap, List.forall_mem_map,
    slotsRead_inRing_iff m.summaryCurrentIndex.isLt]
  constructor
  · intro h key intervals hintervals
    obtain ⟨ring, hring⟩ := Option.isSome_iff_exists.mp
      ((htyped.rings key).mpr (hintervals ▸ rfl))
    have hkey := h ⟨key, ring⟩ (order.summary.mem_order.mpr (AList.mem_lookup_iff.mp hring))
    rwa [htyped.types key, hintervals, Option.getD_some] at hkey
  · intro h item hitem
    rw [htyped.types item.1]
    cases hintervals : intervalsOf item.1 trace with
    | none => exact List.forall_mem_nil _
    | some intervals => exact h item.1 intervals hintervals

/-- One second, and one turn of the ring from slot 0. -/
theorem reads_inRing_one_turn : ∃ (trace : List (Metric × ℤ × Option MetricData)) (m : Metric),
    Run step (start "a" 0) trace m ∧
      trace.map Prod.snd = [(0, some (pushSummary "b" 1 [1, 1001]))] ∧
      ∀ order, ∀ read ∈ m.reads order, InRing read.2 := by
  have hrun : Run step (start "a" 0) _ _ :=
    Run.nil.snoc (a := (0, some (pushSummary "b" 1 [1, 1001]))) rfl
  refine ⟨_, _, hrun, rfl, fun order => (reads_inRing_iff hrun order).mpr ?_⟩
  intro key intervals hintervals interval hinterval
  have heq : intervals = [1, 1001] := by
    rw [intervalsOf, List.nil_append, List.findSome?_singleton] at hintervals
    simp only [Option.bind_some, intervalsIn, Option.ite_none_right_eq_some] at hintervals
    exact (Option.some.inj hintervals.2).symm
  subst heq
  have hcases : interval = 1 ∨ interval = 1001 := by simpa using hinterval
  omega

/-- One slot further: the last read is at -1. -/
theorem reads_inRing_fails : ∃ (trace : List (Metric × ℤ × Option MetricData)) (m : Metric),
    Run step (start "a" 0) trace m ∧ trace.map Prod.snd = [(0, some (pushSummary "b" 1 [1002]))] ∧
      ∀ order, ("b", -1) ∈ m.reads order ∧ m.genAndWriteOutput order = none := by
  have hrun : Run step (start "a" 0) _ _ :=
    Run.nil.snoc (a := (0, some (pushSummary "b" 1 [1002]))) rfl
  refine ⟨_, _, hrun, rfl, fun order => ?_⟩
  have hread : ("b", -1) ∈
      reads order ((start "a" 0).collect 0 (some (pushSummary "b" 1 [1002]))) := by
    refine List.mem_flatMap.mpr ⟨_, order.summary.mem_order.mpr List.mem_cons_self, ?_⟩
    refine List.mem_flatMap.mpr ⟨1002, List.mem_singleton.mpr rfl, ?_⟩
    exact List.mem_map.mpr ⟨-1, List.mem_map.mpr ⟨1001, List.mem_range.mpr (by decide), rfl⟩, rfl⟩
  refine ⟨hread, Option.not_isSome_iff_eq_none.mp fun hsome => ?_⟩
  exact absurd ((genAndWriteOutput_isSome_iff order).mp hsome _ hread).1 (by decide)

end Metric

end SampleTools
