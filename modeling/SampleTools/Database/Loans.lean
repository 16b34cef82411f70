import SampleTools.Database.DBMan

/-!
# Connections on loan

A run of `GetDB`, `PushDB` and `SwapDBPool` in any order, in which a connection is
returned once for each time it was lent. The loop of `PushDB` over the backup pools runs
on copies: what it inserts is dropped with the copy. So a connection returned while its
pool is a backup is lost, and this is the only way to lose one.

## Main definitions

* `Loans`, `Loans.step`: the pools with the connections on loan, and one call
* `ReturnsToMain`: a returned connection finds its pool in front
* `Conserves`: the pools hold what another state of the pools holds

## Main results

* `Kept.step`, `Kept.of_run`: what calls keep, with the connections lost so far
* `pushDB_isSome`: no call of a run takes the front of an empty pool
* `conserved_iff`: nothing is lost exactly when every return finds its pool in front
-/

namespace SampleTools

open DBMan
open scoped List

/-- A call of a public method, or the swap of the check thread. -/
inductive DBCall
  | getDB
  | pushDB (db : Option BaseDB)
  | swapDBPool

/-- The pools, and the connections lent and not yet returned. -/
structure Loans where
  man : DBMan
  loans : List BaseDB := []

namespace Loans

/-- One call. Only a connection on loan can be returned. -/
def step (s : Loans) : DBCall → Option Loans
  | .getDB =>
    let (db, man) := s.man.getDB
    some { man := man, loans := db.toList ++ s.loans }
  | .pushDB none => (s.man.pushDB none).map fun man => { s with man := man }
  | .pushDB (some db) =>
    if db ∈ s.loans then
      (s.man.pushDB (some db)).map fun man => { man := man, loans := s.loans.erase db }
    else none
  | .swapDBPool => some { s with man := s.man.swapDBPool }

/-- If the call returns a connection, the front of the main pool has its serial number. -/
def ReturnsToMain (s : Loans) : DBCall → Prop
  | .pushDB (some db) => s.man.dbPool.head?.map BaseDB.dbSn = some db.dbSn
  | _ => True

instance (s : Loans) (c : DBCall) : Decidable (ReturnsToMain s c) := by
  unfold ReturnsToMain
  split <;> infer_instance

/-- The connection a call loses. -/
def lostBy (s : Loans) : DBCall → List BaseDB
  | .pushDB (some db) => if ReturnsToMain s (.pushDB (some db)) then [] else [db]
  | _ => []

theorem lostBy_eq_nil_iff {s : Loans} {c : DBCall} : s.lostBy c = [] ↔ s.ReturnsToMain c := by
  match c with
  | .getDB => simp [lostBy, ReturnsToMain]
  | .pushDB none => simp [lostBy, ReturnsToMain]
  | .pushDB (some db) => simp [lostBy]
  | .swapDBPool => simp [lostBy, ReturnsToMain]

end Loans

/-- The pools hold the connections of the initial pools, each once, and each with those of
its serial number. -/
structure Conserves (initial man : DBMan) : Prop where
  perm : man.connections.Perm initial.connections
  nodup : man.connections.Nodup
  uniform : man.Uniform
  distinct : man.DistinctSn

/-- What holds in every state of a run, given the connections lost so far. -/
structure Kept (initial : DBMan) (s : Loans) (lost : List BaseDB) : Prop where
  perm : (s.man.connections ++ s.loans ++ lost).Perm initial.connections
  uniform : s.man.Uniform
  distinct : s.man.DistinctSn
  filled : s.man.Filled
  lent : s.man = {} → s.loans = []

/-! ## Pools that change in place -/

section Pools

variable {m : DBMan} {pool : BaseDBPool}

theorem DBMan.connections_eq (m : DBMan) : m.connections = m.dbPool ++ m.backupPool.flatten := rfl

theorem DBMan.Uniform.setMain (h : m.Uniform)
    (hsub : ∀ c ∈ pool, ∃ d ∈ m.dbPool, c.dbSn = d.dbSn) :
    DBMan.Uniform { m with dbPool := pool } := by
  intro p hp c hc d hd
  rcases List.mem_cons.mp hp with rfl | hp
  · obtain ⟨c', hc', hcc⟩ := hsub c hc
    obtain ⟨d', hd', hdd⟩ := hsub d hd
    rw [hcc, hdd]
    exact h _ List.mem_cons_self _ hc' _ hd'
  · exact h p (List.mem_cons_of_mem _ hp) c hc d hd

theorem DBMan.DistinctSn.setMain (h : m.DistinctSn)
    (hsub : ∀ c ∈ pool, ∃ d ∈ m.dbPool, c.dbSn = d.dbSn) :
    DBMan.DistinctSn { m with dbPool := pool } := by
  obtain ⟨hmain, hbackup⟩ := List.pairwise_cons.mp h
  refine List.pairwise_cons.mpr ⟨?_, hbackup⟩
  intro q hq c hc d hd
  obtain ⟨c', hc', hcc⟩ := hsub c hc
  rw [hcc]
  exact hmain q hq c' hc' d hd

theorem DBMan.Filled.setMain (h : m.Filled) (hm : m ≠ {}) (hpool : pool ≠ []) :
    DBMan.Filled { m with dbPool := pool } := by
  rcases h with h | h
  · exact absurd h hm
  · refine .inr fun p hp => ?_
    rcases List.mem_cons.mp hp with rfl | hp
    · exact hpool
    · exact h p (List.mem_cons_of_mem _ hp)

theorem DBMan.Uniform.swapDBPool (h : m.Uniform) : m.swapDBPool.Uniform :=
  fun p hp => h p (m.swapDBPool_pools.mem_iff.mp hp)

theorem DBMan.DistinctSn.swapDBPool (h : m.DistinctSn) : m.swapDBPool.DistinctSn :=
  (m.swapDBPool_pools.pairwise_iff fun hpq c hc d hd => (hpq d hd c hc).symm).mpr h

theorem DBMan.Filled.swapDBPool (h : m.Filled) : m.swapDBPool.Filled := by
  rcases h with rfl | h
  · exact .inl rfl
  · exact .inr fun p hp => h p (m.swapDBPool_pools.mem_iff.mp hp)

theorem DBMan.swapDBPool_eq_empty (h : m.Filled) (hswap : m.swapDBPool = {}) : m = {} := by
  rcases h with h | h
  · exact h
  · have hmem : ([] : BaseDBPool) ∈ m.swapDBPool.pools := by
      rw [hswap]
      exact List.mem_cons_self
    exact absurd rfl (h [] (m.swapDBPool_pools.mem_iff.mp hmem))

end Pools

/-! ## Runs -/

section Run

variable {initial : DBMan} {s s' : Loans} {lost : List BaseDB} {c : DBCall}

theorem Kept.pools_filled (h : Kept initial s lost) {db : BaseDB} (hdb : db ∈ s.loans) :
    s.man ≠ {} ∧ ∀ pool ∈ s.man.pools, pool ≠ [] := by
  have hm : s.man ≠ {} := fun hm => List.ne_nil_of_mem hdb (h.lent hm)
  exact ⟨hm, h.filled.resolve_left hm⟩

theorem Kept.getDB (h : Kept initial s lost) :
    Kept initial { man := s.man.getDB.2, loans := s.man.getDB.1.toList ++ s.loans } lost := by
  rcases s.man.getDB_cases with hget | ⟨db, next, pool, hpool, hget⟩
  · rw [hget]
    exact h
  · have hm : s.man ≠ {} := by
      intro hm
      rw [hm] at hpool
      cases hpool
    have hsub : ∀ c ∈ next :: pool, ∃ d ∈ s.man.dbPool, c.dbSn = d.dbSn := fun c hc =>
      ⟨c, hpool ▸ List.mem_cons_of_mem _ hc, rfl⟩
    rw [hget]
    refine ⟨?_, h.uniform.setMain hsub, h.distinct.setMain hsub,
      h.filled.setMain hm (List.cons_ne_nil _ _), fun h' => by cases h'⟩
    -- `db` moves from the front of the main pool to the loans
    have hconn : s.man.connections = db :: (next :: pool ++ s.man.backupPool.flatten) := by
      rw [connections_eq, hpool, List.cons_append]
    refine (List.Perm.append_right lost ?_).trans h.perm
    rw [hconn]
    exact List.perm_middle

theorem Kept.pushDB (h : Kept initial s lost) {db : BaseDB} (hdb : db ∈ s.loans) {man : DBMan}
    (hpush : s.man.pushDB (some db) = some man) :
    Kept initial { man := man, loans := s.loans.erase db }
      (lost ++ s.lostBy (.pushDB (some db))) := by
  obtain ⟨hm, hfilled⟩ := h.pools_filled hdb
  have hloans : s.loans.Perm (db :: s.loans.erase db) := List.perm_cons_erase hdb
  rw [pushDB_eq db hfilled, Option.some.injEq] at hpush
  subst hpush
  by_cases hmain : s.man.dbPool.head?.map BaseDB.dbSn = some db.dbSn
  -- `db` moves from the loans to the main pool
  · have hlost : s.lostBy (.pushDB (some db)) = [] := Loans.lostBy_eq_nil_iff.mpr hmain
    have hsub : ∀ c ∈ insertBeforeLast s.man.dbPool db, ∃ d ∈ s.man.dbPool, c.dbSn = d.dbSn := by
      intro c hc
      rcases List.mem_cons.mp ((insertBeforeLast_perm _ _).mem_iff.mp hc) with rfl | hc
      · obtain ⟨front, hfront, hsn⟩ := Option.map_eq_some_iff.mp hmain
        exact ⟨front, List.mem_of_head? hfront, hsn.symm⟩
      · exact ⟨c, hc, rfl⟩
    have hne : insertBeforeLast s.man.dbPool db ≠ [] := by
      intro hnil
      exact List.cons_ne_nil _ _ (hnil ▸ insertBeforeLast_perm s.man.dbPool db).nil_eq.symm
    rw [if_pos hmain, hlost, List.append_nil]
    refine ⟨?_, h.uniform.setMain hsub, h.distinct.setMain hsub, h.filled.setMain hm hne, ?_⟩
    · refine (List.Perm.append_right lost ?_).trans h.perm
      have hconn : (insertBeforeLast s.man.dbPool db ++ s.man.backupPool.flatten).Perm
          (db :: s.man.connections) := (insertBeforeLast_perm _ _).append_right _
      calc insertBeforeLast s.man.dbPool db ++ s.man.backupPool.flatten ++ s.loans.erase db
          ~ db :: s.man.connections ++ s.loans.erase db := hconn.append_right _
        _ ~ s.man.connections ++ db :: s.loans.erase db := List.perm_middle.symm
        _ ~ s.man.connections ++ s.loans := hloans.symm.append_left _
    · intro hempty
      exact absurd (congrArg DBMan.dbPool hempty) hne
  -- `db` moves from the loans to what is lost
  · have hlost : s.lostBy (.pushDB (some db)) = [db] := if_neg hmain
    rw [if_neg hmain, hlost]
    refine ⟨?_, h.uniform, h.distinct, h.filled, fun hempty => absurd hempty hm⟩
    refine List.Perm.trans ?_ h.perm
    rw [List.append_assoc, List.append_assoc]
    refine List.Perm.append_left _ ?_
    calc s.loans.erase db ++ (lost ++ [db])
        ~ s.loans.erase db ++ db :: lost := (List.perm_append_singleton db lost).append_left _
      _ ~ db :: s.loans.erase db ++ lost := List.perm_middle
      _ ~ s.loans ++ lost := hloans.symm.append_right _

theorem Kept.swapDBPool (h : Kept initial s lost) :
    Kept initial { s with man := s.man.swapDBPool } lost where
  perm := ((s.man.swapDBPool_pools.flatten.append_right _).append_right _).trans h.perm
  uniform := h.uniform.swapDBPool
  distinct := h.distinct.swapDBPool
  filled := h.filled.swapDBPool
  lent hswap := h.lent (DBMan.swapDBPool_eq_empty h.filled hswap)

/-- One call: what it loses joins what was lost. -/
theorem Kept.step (h : Kept initial s lost) (hs : s.step c = some s') :
    Kept initial s' (lost ++ s.lostBy c) := by
  match c with
  | .getDB =>
    cases hs
    simp only [Loans.lostBy, List.append_nil]
    exact h.getDB
  | .pushDB none =>
    cases hs
    simp only [Loans.lostBy, List.append_nil]
    exact h
  | .pushDB (some db) =>
    simp only [Loans.step] at hs
    split at hs
    · rename_i hdb
      obtain ⟨man, hpush, rfl⟩ := Option.map_eq_some_iff.mp hs
      exact h.pushDB hdb hpush
    · cases hs
  | .swapDBPool =>
    cases hs
    simp only [Loans.lostBy, List.append_nil]
    exact h.swapDBPool

theorem Kept.of_run {s₀ : Loans} {trace : List (Loans × DBCall)} (h : Kept initial s₀ [])
    (hrun : Run Loans.step s₀ trace s) :
    Kept initial s (trace.flatMap fun e => e.1.lostBy e.2) := by
  induction hrun with
  | nil => exact h
  | snoc _ hs ih =>
    rw [List.flatMap_append, List.flatMap_singleton]
    exact ih.step hs

/-- A connection on loan can be returned: no pool is empty. -/
theorem pushDB_isSome (h : Kept initial s lost) {db : BaseDB} (hdb : db ∈ s.loans) :
    (s.step (.pushDB (some db))).isSome := by
  rw [Loans.step, if_pos hdb, pushDB_eq db (h.pools_filled hdb).2]
  rfl

end Run

section Init

variable {hash : String → UInt64} {opens : ℕ → Bool} {config : List DBConnConfig} {man : DBMan}

theorem Kept.init (hinit : DBMan.init hash opens config = some man) (hsn : man.DistinctSn) :
    Kept man ⟨man, []⟩ [] := by
  obtain ⟨hfilled, huniform, -⟩ := init_made hinit
  exact ⟨by simp, huniform, hsn, hfilled, fun _ => rfl⟩

/-- **Conservation.** After `Init` has made pools of different serial numbers, and
whenever no connection is on loan, the pools hold the connections `Init` made exactly when
every connection was returned while the main pool was its own. -/
theorem conserved_iff (hinit : DBMan.init hash opens config = some man) (hsn : man.DistinctSn)
    {trace : List (Loans × DBCall)} {s : Loans} (hrun : Run Loans.step ⟨man, []⟩ trace s)
    (hloans : s.loans = []) :
    Conserves man s.man ↔ ∀ e ∈ trace, e.1.ReturnsToMain e.2 := by
  have hkept := (Kept.init hinit hsn).of_run hrun
  -- the pools and what is lost are together what `Init` made
  have hperm := hkept.perm
  rw [hloans, List.append_nil] at hperm
  have hlost : (trace.flatMap fun e => e.1.lostBy e.2) = [] ↔
      ∀ e ∈ trace, e.1.ReturnsToMain e.2 := by
    rw [List.flatMap_eq_nil_iff]
    exact forall₂_congr fun e _ => Loans.lostBy_eq_nil_iff
  rw [← hlost]
  constructor
  · intro h
    have hlen := hperm.length_eq
    rw [List.length_append, h.perm.length_eq] at hlen
    exact List.length_eq_zero_iff.mp (by omega)
  · intro h
    rw [h, List.append_nil] at hperm
    exact ⟨hperm, hperm.nodup_iff.mpr (init_made hinit).2.2, hkept.uniform, hkept.distinct⟩

end Init

/-! ## Two pools of two connections -/

/-- A main and a backup database, one connection of each to lend. -/
def mainAndBackup : List DBConnConfig :=
  [⟨"mysql", "a", "user", "passwd", "db", 1⟩, ⟨"mysql", "bc", "user", "passwd", "db", 1⟩]

/-- What `Init` makes of them when all connections can be opened. -/
def mainAndBackupPools : DBMan :=
  ⟨[⟨0, 5⟩, ⟨1, 5⟩], [[⟨100, 6⟩, ⟨101, 6⟩]]⟩

theorem init_mainAndBackup :
    DBMan.init (fun s => s.length.toUInt64) (fun _ => true) mainAndBackup =
      some mainAndBackupPools := by
  decide +kernel

theorem mainAndBackup_distinctSn : mainAndBackupPools.DistinctSn := by
  unfold DBMan.DistinctSn
  decide

/-- Lent, returned, swapped, lent from the other pool and returned. -/
theorem conserved_two_loans :
    Conserves mainAndBackupPools ⟨[⟨100, 6⟩, ⟨101, 6⟩], [[⟨0, 5⟩, ⟨1, 5⟩]]⟩ :=
  (conserved_iff init_mainAndBackup mainAndBackup_distinctSn
    (s := ⟨⟨[⟨100, 6⟩, ⟨101, 6⟩], [[⟨0, 5⟩, ⟨1, 5⟩]]⟩, []⟩)
    (Run.nil.snoc (a := .getDB) rfl |>.snoc (a := .pushDB (some ⟨0, 5⟩)) rfl
      |>.snoc (a := .swapDBPool) rfl |>.snoc (a := .getDB) rfl
      |>.snoc (a := .pushDB (some ⟨100, 6⟩)) rfl) rfl).mpr (by decide)

/-- Lent, swapped, returned: the connection is in no pool. -/
theorem conserved_fails_after_swap :
    ∃ (trace : List (Loans × DBCall)) (s : Loans),
      DBMan.init (fun s => s.length.toUInt64) (fun _ => true) mainAndBackup =
        some mainAndBackupPools ∧
      mainAndBackupPools.DistinctSn ∧ Run Loans.step ⟨mainAndBackupPools, []⟩ trace s ∧
      trace.map Prod.snd = [.getDB, .swapDBPool, .pushDB (some ⟨0, 5⟩)] ∧
      s.loans = [] ∧ ⟨0, 5⟩ ∉ s.man.connections ∧ ¬ Conserves mainAndBackupPools s.man := by
  refine ⟨_, _, init_mainAndBackup, mainAndBackup_distinctSn,
    Run.nil.snoc (a := .getDB) rfl |>.snoc (a := .swapDBPool) rfl
      |>.snoc (a := .pushDB (some ⟨0, 5⟩)) rfl, rfl, rfl, by decide, ?_⟩
  intro h
  have hlen := h.perm.length_eq
  revert hlen
  decide

end SampleTools
