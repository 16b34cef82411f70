import Mathlib.Data.Int.Order.Basic
import Mathlib.Data.Nat.Find
import SampleTools.Database.DBMan

/-!
# Borrowing with retries

`DBProxy::GetDB` asks the pool until it gets a connection. It should give up after `times`
calls, but hands the next attempt `times--`, the value before the decrement.

What the pool holds at each call is up to the other threads.

## Main definitions

* `DBProxy.getDB`: the recursion
* `DBProxy.Borrows`: what it should do

## Main results

* `DBProxy.getDB_of_first`, `DBProxy.first_of_getDB`: it returns the first connection there is
* `DBProxy.getDB_exhausted`: it does not return while the pool stays empty
* `DBProxy.borrows_iff`: when it does what it should
-/

namespace SampleTools

namespace DBProxy

/-- `GetDB`, after `n` calls of `DBMan::GetDB`: how many calls there were in the end, and the
result. It is `none` where the recursion goes on for longer than `fuel` attempts. -/
def getDB (pool : ℕ → DBMan) (times : ℤ) : ℕ → ℕ → Option (ℕ × Option BaseDB)
  | 0, _ => none
  | fuel + 1, n =>
    if times ≤ 0 then some (n, none)
    else
      match (pool n).getDB.1 with
      | some ptr => some (n + 1, some ptr)
      -- `GetDB(times--)`: the argument is not decremented yet
      | none => getDB pool times fuel (n + 1)

/-- It returns after at most `times` calls, with the first connection that one of them gave. -/
def Borrows (pool : ℕ → DBMan) (times : ℤ) : Prop :=
  ∃ fuel calls result, getDB pool times fuel 0 = some (calls, result) ∧
    (calls : ℤ) ≤ max times 0 ∧
    result = ((List.range calls).filterMap fun i => (pool i).getDB.1).head?

variable {pool : ℕ → DBMan} {times : ℤ} {fuel n i calls : ℕ} {ptr : BaseDB}

/-- A call of `DBMan::GetDB` gives a connection if there are two. -/
theorem getDB_ne_none_iff (m : DBMan) : m.getDB.1 ≠ none ↔ 2 ≤ m.dbPool.length := by
  obtain ⟨dbPool, backupPool⟩ := m
  match dbPool with
  | [] => exact iff_of_false (fun h => h rfl) (Nat.not_succ_le_zero 1)
  | [_] => exact iff_of_false (fun h => h rfl) (Nat.lt_irrefl 1)
  | db :: next :: rest => exact iff_of_true (Option.some_ne_none db) (Nat.le_add_left 2 _)

/-- The recursion ends with the first connection there is. -/
theorem getDB_of_first (htimes : 0 < times) (hn : n ≤ i)
    (hbefore : ∀ j, n ≤ j → j < i → (pool j).getDB.1 = none)
    (hptr : (pool i).getDB.1 = some ptr) (hfuel : i < n + fuel) :
    getDB pool times fuel n = some (i + 1, some ptr) := by
  induction fuel generalizing n with
  | zero => omega
  | succ fuel ih =>
    rw [getDB, if_neg htimes.not_ge]
    rcases Nat.eq_or_lt_of_le hn with rfl | hlt
    · rw [hptr]
    · rw [hbefore n le_rfl hlt]
      exact ih hlt (fun j hj => hbefore j (Nat.le_of_succ_le hj)) (by omega)

/-- If it returns, it has found a connection. -/
theorem first_of_getDB {result : Option BaseDB} (htimes : 0 < times)
    (h : getDB pool times fuel n = some (calls, result)) :
    ∃ i, n ≤ i ∧ calls = i + 1 ∧ (pool i).getDB.1 ≠ none := by
  induction fuel generalizing n with
  | zero => cases h
  | succ fuel ih =>
    rw [getDB, if_neg htimes.not_ge] at h
    split at h
    · rename_i ptr hptr
      cases h
      exact ⟨n, le_refl n, rfl, by rw [hptr]; exact Option.some_ne_none ptr⟩
    · obtain ⟨i, hi, hrest⟩ := ih h
      exact ⟨i, Nat.le_of_succ_le hi, hrest⟩

/-- While no connection is free the recursion goes on. -/
theorem getDB_exhausted (htimes : 0 < times) (h : ∀ i, (pool i).getDB.1 = none) (fuel n : ℕ) :
    getDB pool times fuel n = none := by
  cases hr : getDB pool times fuel n with
  | none => rfl
  | some r =>
    obtain ⟨i, -, -, hi⟩ := first_of_getDB htimes hr
    exact absurd (h i) hi

/-- The connections that calls gave, if the last one was the first to give one. -/
theorem filterMap_of_first (hbefore : ∀ j < i, (pool j).getDB.1 = none)
    (hptr : (pool i).getDB.1 = some ptr) :
    (List.range (i + 1)).filterMap (fun i => (pool i).getDB.1) = [ptr] := by
  have hnone : (List.range i).filterMap (fun i => (pool i).getDB.1) = [] :=
    List.filterMap_eq_nil_iff.mpr fun j hj => hbefore j (List.mem_range.mp hj)
  have hlast : [i].filterMap (fun i => (pool i).getDB.1) = [ptr] :=
    List.filterMap_cons_some hptr
  rw [List.range_succ, List.filterMap_append, hnone, hlast]
  rfl

/-- **Borrowing ends in time exactly if a connection is free in time.** For every number of
attempts and every behaviour of the pool: exactly if no attempt is allowed, or at one of the
allowed ones the pool has a connection to lend. -/
theorem borrows_iff (pool : ℕ → DBMan) (times : ℤ) :
    Borrows pool times ↔ times ≤ 0 ∨ ∃ i < times.toNat, 2 ≤ (pool i).dbPool.length := by
  constructor
  · rintro ⟨fuel, calls, result, hreturns, hcalls, -⟩
    by_cases htimes : times ≤ 0
    · exact .inl htimes
    · obtain ⟨i, -, rfl, hi⟩ := first_of_getDB (not_le.mp htimes) hreturns
      exact .inr ⟨i, by omega, (getDB_ne_none_iff _).mp hi⟩
  · rintro (htimes | ⟨k, hk, hfree⟩)
    · exact ⟨1, 0, none, if_pos htimes, le_max_right _ _, rfl⟩
    · have hex : ∃ i, (pool i).getDB.1 ≠ none := ⟨k, (getDB_ne_none_iff _).mpr hfree⟩
      -- the first call that gives a connection
      set i := Nat.find hex
      have hle : i ≤ k := Nat.find_min' hex ((getDB_ne_none_iff _).mpr hfree)
      have hbefore : ∀ j < i, (pool j).getDB.1 = none :=
        fun j hj => not_not.mp (Nat.find_min hex hj)
      obtain ⟨ptr, hptr⟩ := Option.ne_none_iff_exists'.mp (Nat.find_spec hex)
      refine ⟨i + 1, i + 1, some ptr, ?_, by omega, ?_⟩
      · exact getDB_of_first (by omega) (Nat.zero_le i) (fun j _ => hbefore j) hptr (by omega)
      · rw [filterMap_of_first hbefore hptr]
        rfl

/-- A pool that is exhausted keeps the caller for ever. -/
theorem borrows_not_exhausted :
    ¬ Borrows (fun _ => {}) 3 ∧ ∀ fuel, getDB (fun _ => {}) 3 fuel 0 = none := by
  have hempty : ∀ fuel, getDB (fun _ => {}) 3 fuel 0 = none :=
    fun fuel => getDB_exhausted (by decide) (fun _ => rfl) fuel 0
  refine ⟨?_, hempty⟩
  rintro ⟨fuel, calls, result, hreturns, -⟩
  rw [hempty] at hreturns
  cases hreturns

end DBProxy

end SampleTools
