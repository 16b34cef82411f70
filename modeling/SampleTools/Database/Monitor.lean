import Mathlib.Data.List.Pairwise
import Mathlib.Data.List.Rotate
import SampleTools.Database.Loans

/-!
# The connection of the check thread

The last connection of each pool is there for the check thread: `GetDB` takes connections
from the front and leaves the last one, `PushDB` puts them before the last one, and
`SwapDBPool` moves whole pools. So the last connections stay where `Init` left them, also
when a connection is returned more than once or to a pool it did not come from.

## Main definitions

* `Obtained`, `Obtained.step`: the pools with all connections `GetDB` ever returned
* `DBMan.monitors`: the last connection of each pool

## Main results

* `Monitored.step`: what a call keeps
* `monitor_never_lent`: the last connections are never lent
-/

namespace SampleTools

open DBMan

/-- The pools, and the connections obtained from `GetDB` so far. -/
structure Obtained where
  man : DBMan
  obtained : List BaseDB := []

/-- One call. A connection that was obtained can be returned any number of times. -/
def Obtained.step (s : Obtained) : DBCall → Option Obtained
  | .getDB =>
    let (db, man) := s.man.getDB
    some { man := man, obtained := db.toList ++ s.obtained }
  | .pushDB none => (s.man.pushDB none).map fun man => { s with man := man }
  | .pushDB (some db) =>
    if db ∈ s.obtained then (s.man.pushDB (some db)).map fun man => { s with man := man }
    else none
  | .swapDBPool => some { s with man := s.man.swapDBPool }

/-- The last connection of each pool. -/
def DBMan.monitors (m : DBMan) : List (Option BaseDB) := m.pools.map List.getLast?

/-- The call swaps the pools. -/
def DBCall.isSwap : DBCall → Bool
  | .swapDBPool => true
  | _ => false

/-- What holds after `swaps` calls of `SwapDBPool`: the last connections are the initial ones,
and none of them is elsewhere in a pool or was obtained. -/
structure Monitored (initial : DBMan) (swaps : ℕ) (s : Obtained) : Prop where
  monitors : s.man.monitors = initial.monitors.rotate swaps
  inPools : ∀ pool ∈ s.man.pools, ∀ c ∈ pool.dropLast, some c ∉ initial.monitors
  obtained : ∀ c ∈ s.obtained, some c ∉ initial.monitors
  filled : s.man.Filled
  lent : s.man = {} → s.obtained = []

/-! ## The calls and the last connections -/

section Pools

variable {m : DBMan} {pool : BaseDBPool} {db : BaseDB}

theorem DBMan.swapDBPool_rotate (m : DBMan) : m.swapDBPool.pools = m.pools.rotate 1 := by
  obtain ⟨dbPool, backupPool⟩ := m
  cases backupPool with
  | nil => exact (List.rotate_singleton dbPool 1).symm
  | cons pool rest =>
    rw [pools, pools, List.rotate_cons_succ, List.rotate_zero]
    rfl

theorem DBMan.insertBeforeLast_concat (pool : BaseDBPool) (last db : BaseDB) :
    insertBeforeLast (pool ++ [last]) db = pool ++ [db, last] := by
  induction pool with
  | nil => rfl
  | cons c pool ih =>
    simp only [insertBeforeLast, List.length_append, List.length_singleton,
      Nat.add_sub_cancel] at ih
    simp [insertBeforeLast, ih]

end Pools

section Run

variable {initial : DBMan} {swaps : ℕ} {s s' : Obtained} {c : DBCall}

/-- The main pool changes before its last connection. -/
theorem Monitored.setMain (h : Monitored initial swaps s) (hm : s.man ≠ {}) {pool : BaseDBPool}
    {obtained : List BaseDB} (hne : pool ≠ []) (hlast : pool.getLast? = s.man.dbPool.getLast?)
    (hpool : ∀ c ∈ pool.dropLast, some c ∉ initial.monitors)
    (hobtained : ∀ c ∈ obtained, some c ∉ initial.monitors) :
    Monitored initial swaps ⟨{ s.man with dbPool := pool }, obtained⟩ where
  monitors := by
    rw [← h.monitors]
    simp [DBMan.monitors, pools, hlast]
  inPools p hp := by
    rcases List.mem_cons.mp hp with rfl | hp
    · exact hpool
    · exact h.inPools p (List.mem_cons_of_mem _ hp)
  obtained := hobtained
  filled := h.filled.setMain hm hne
  lent hempty := absurd (congrArg DBMan.dbPool hempty) hne

theorem Monitored.getDB (h : Monitored initial swaps s) :
    Monitored initial swaps ⟨s.man.getDB.2, s.man.getDB.1.toList ++ s.obtained⟩ := by
  rcases getDB_cases s.man with hget | ⟨db, next, pool, hpool, hget⟩
  · rw [hget]
    exact h
  · rw [hget]
    have hm : s.man ≠ {} := by
      intro hempty
      rw [hempty] at hpool
      cases hpool
    have hfree : ∀ c ∈ db :: (next :: pool).dropLast, some c ∉ initial.monitors := by
      have hmain := h.inPools s.man.dbPool List.mem_cons_self
      rwa [hpool, List.dropLast_cons_of_ne_nil (List.cons_ne_nil next pool)] at hmain
    refine h.setMain hm (List.cons_ne_nil next pool) ?_ ?_ ?_
    · rw [hpool, List.getLast?_cons_cons]
    · exact fun c hc => hfree c (List.mem_cons_of_mem _ hc)
    · intro c hc
      rcases List.mem_cons.mp hc with rfl | hc
      · exact hfree c List.mem_cons_self
      · exact h.obtained c hc

theorem Monitored.pushDB (h : Monitored initial swaps s) {db : BaseDB} (hdb : db ∈ s.obtained)
    {man : DBMan} (hpush : s.man.pushDB (some db) = some man) :
    Monitored initial swaps { s with man := man } := by
  have hm : s.man ≠ {} := by
    intro hempty
    rw [h.lent hempty] at hdb
    cases hdb
  have hfilled := h.filled.resolve_left hm
  rw [pushDB_eq db hfilled, Option.some.injEq] at hpush
  subst hpush
  split
  · have hne : s.man.dbPool ≠ [] := hfilled _ List.mem_cons_self
    have hfree := h.inPools s.man.dbPool List.mem_cons_self
    -- the pool, its last connection in view
    obtain ⟨front, last, hpool⟩ : ∃ front last, s.man.dbPool = front ++ [last] :=
      ⟨_, _, (List.dropLast_concat_getLast hne).symm⟩
    rw [hpool, List.dropLast_concat] at hfree
    have heq : insertBeforeLast s.man.dbPool db = (front ++ [db]) ++ [last] := by
      rw [hpool, insertBeforeLast_concat, List.append_assoc]
      rfl
    rw [heq]
    refine h.setMain hm (by simp) ?_ ?_ h.obtained
    · rw [hpool, List.getLast?_concat, List.getLast?_concat]
    · rw [List.dropLast_concat]
      intro c hc
      rcases List.mem_append.mp hc with hc | hc
      · exact hfree c hc
      · rw [List.mem_singleton.mp hc]
        exact h.obtained db hdb
  · exact h

theorem Monitored.swapDBPool (h : Monitored initial swaps s) :
    Monitored initial (swaps + 1) { s with man := s.man.swapDBPool } where
  monitors := by
    rw [← List.rotate_rotate, ← h.monitors]
    simp only [DBMan.monitors, DBMan.swapDBPool_rotate, List.map_rotate]
  inPools pool hpool := h.inPools pool (s.man.swapDBPool_pools.mem_iff.mp hpool)
  obtained := h.obtained
  filled := h.filled.swapDBPool
  lent hswap := h.lent (DBMan.swapDBPool_eq_empty h.filled hswap)

/-- One call. -/
theorem Monitored.step (h : Monitored initial swaps s) (hs : s.step c = some s') :
    Monitored initial (swaps + if c.isSwap then 1 else 0) s' := by
  match c with
  | .getDB =>
    cases hs
    exact h.getDB
  | .pushDB none =>
    cases hs
    exact h
  | .pushDB (some db) =>
    simp only [Obtained.step] at hs
    split at hs
    · rename_i hdb
      obtain ⟨man, hpush, rfl⟩ := Option.map_eq_some_iff.mp hs
      exact h.pushDB hdb hpush
    · cases hs
  | .swapDBPool =>
    cases hs
    exact h.swapDBPool

theorem Monitored.of_run {s₀ : Obtained} {trace : List (Obtained × DBCall)}
    (h : Monitored initial 0 s₀) (hrun : Run Obtained.step s₀ trace s) :
    Monitored initial (trace.countP fun e => e.2.isSwap) s := by
  induction hrun with
  | nil => exact h
  | snoc _ hs ih =>
    rw [List.countP_append, List.countP_singleton]
    exact ih.step hs

/-- A connection that was obtained can be returned: no pool is empty. -/
theorem Monitored.pushDB_isSome (h : Monitored initial swaps s) {db : BaseDB}
    (hdb : db ∈ s.obtained) : (s.step (.pushDB (some db))).isSome := by
  have hm : s.man ≠ {} := fun hempty => List.ne_nil_of_mem hdb (h.lent hempty)
  rw [Obtained.step, if_pos hdb, pushDB_eq db (h.filled.resolve_left hm)]
  rfl

end Run

section Init

variable {hash : String → UInt64} {opens : ℕ → Bool} {config : List DBConnConfig} {man : DBMan}

/-- `Init` opens different connections, so the last one of a pool is nowhere else. -/
theorem Monitored.init (hinit : DBMan.init hash opens config = some man) :
    Monitored man 0 ⟨man, []⟩ := by
  obtain ⟨hfilled, -, hnodup⟩ := init_made hinit
  obtain ⟨hpools, hdisjoint⟩ := List.nodup_flatten.mp hnodup
  refine ⟨by rw [List.rotate_zero], ?_, List.forall_mem_nil _, hfilled, fun _ => rfl⟩
  intro pool hpool c hc hmonitor
  obtain ⟨pool', hpool', hlast⟩ := List.mem_map.mp hmonitor
  by_cases heq : pool = pool'
  · subst heq
    have hnodup := hpools pool hpool
    rw [← List.dropLast_append_getLast? c hlast, List.nodup_append] at hnodup
    exact hnodup.2.2 c hc c (List.mem_singleton_self c) rfl
  · have : Std.Symm (@List.Disjoint BaseDB) := ⟨fun _ _ h _ hb ha => h ha hb⟩
    exact hdisjoint.forall hpool hpool' heq (List.mem_of_mem_dropLast hc)
      (List.mem_of_getLast? hlast)

/-- **The monitoring connections are never lent.** After `Init`, in whatever order connections
are lent, returned and the pools swapped, every pool keeps its last connection, no such
connection was or will be returned by `GetDB`, and the one the check thread takes from the main
pool is in nobody's hands. -/
theorem monitor_never_lent (hinit : DBMan.init hash opens config = some man)
    {trace : List (Obtained × DBCall)} {s : Obtained}
    (hrun : Run Obtained.step ⟨man, []⟩ trace s) :
    s.man.monitors = man.monitors.rotate (trace.countP fun e => e.2.isSwap) ∧
      (∀ db, s.man.getDB.1 = some db → some db ∉ man.monitors) ∧
      (∀ db ∈ s.obtained, some db ∉ man.monitors) ∧
      ∀ db, s.man.dbPool.getLast? = some db → db ∉ s.obtained := by
  have h := (Monitored.init hinit).of_run hrun
  refine ⟨h.monitors, ?_, h.obtained, ?_⟩
  · intro db hget
    have hnext := h.getDB.obtained
    rw [hget] at hnext
    exact hnext db List.mem_cons_self
  · intro db hlast hdb
    have hmonitor : some db ∈ s.man.monitors :=
      List.mem_map.mpr ⟨s.man.dbPool, List.mem_cons_self, hlast⟩
    rw [h.monitors, List.mem_rotate] at hmonitor
    exact h.obtained db hdb hmonitor

/-- Lent, returned twice and swapped: the last connections are still there. -/
theorem monitor_never_lent_two_returns :
    let man : DBMan := ⟨[⟨100, 6⟩, ⟨101, 6⟩], [[⟨0, 5⟩, ⟨0, 5⟩, ⟨1, 5⟩]]⟩
    man.monitors = mainAndBackupPools.monitors.rotate 1 ∧
      (∀ db, man.getDB.1 = some db → some db ∉ mainAndBackupPools.monitors) ∧
      (∀ db ∈ [⟨0, 5⟩], some db ∉ mainAndBackupPools.monitors) ∧
      ∀ db, man.dbPool.getLast? = some db → db ∉ [⟨0, 5⟩] := by
  have hrun : Run Obtained.step ⟨mainAndBackupPools, []⟩ _ _ :=
    Run.nil.snoc (a := .getDB) rfl |>.snoc (a := .pushDB (some ⟨0, 5⟩)) rfl
      |>.snoc (a := .pushDB (some ⟨0, 5⟩)) rfl |>.snoc (a := .swapDBPool) rfl
  exact monitor_never_lent init_mainAndBackup hrun

end Init

end SampleTools
