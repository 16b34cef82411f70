import SampleTools.Database.Loans

/-!
# The threads of the pool manager

`Init` starts two threads. The check thread holds the last connection of the main pool,
reconnects it, and swaps the pools when the server does not come back. The keep-alive thread
queries all connections of the pools but the last of the main pool. `Release` empties the
pools and tells both threads to stop, which they notice the next time they look. What a
thread does under the lock is one step, everything else it does is a step of its own.

## Main definitions

* `Threads`, `Threads.step`: the pools, where the threads are, and one step
* `activePool`: the accesses of a keep-alive round
* `Threads.BeforeRelease`: the accesses to the main pool come before `Release`

## Main results

* `activePool_main_iff`: the round over an emptied pool runs past its end
* `Threads.Alive.step`: when the main pool has connections
* `accesses_in_bounds_iff`: no access is past a pool's end exactly if none comes after `Release`
-/

namespace SampleTools

open DBMan

/-- Where the check thread is. `afterQuery` tells the second place from the first. -/
inductive CheckPC
  /-- `if (dbPool_.empty()) return` -/
  | start
  /-- `auto db = dbPool_.back()` -/
  | firstBack
  /-- `while (check_running_)` -/
  | loop
  /-- `db->IsValid()` and the reconnects -/
  | check
  /-- `db->Query(sql, err)` -/
  | query
  /-- `if (backup_pool_.empty()) return` -/
  | testBackup (afterQuery : Bool)
  | swapDBPool (afterQuery : Bool)
  /-- `db = dbPool_.back()` -/
  | back (afterQuery : Bool)
  | done
  deriving DecidableEq, Repr

/-- Where the keep-alive thread is. -/
inductive ActivePC
  /-- `if (dbPool_.empty()) return` -/
  | start
  /-- `while (active_running_)` -/
  | loop
  /-- the locked block over the main pool -/
  | main
  /-- the locked block over the backup pools -/
  | backup
  | done
  deriving DecidableEq, Repr

/-- What the connection of the check thread does: `IsValid`, whether one of the reconnects
succeeds, and whether the query does. -/
structure CheckEnv where
  isValid : Bool := true
  reconnect : Bool := true
  query : Bool := true
  deriving DecidableEq, Repr

/-- A call of a public method, or a step of a thread. -/
inductive ThreadAction
  | getDB
  | pushDB (db : Option BaseDB)
  | swapDBPool
  | release
  | check (env : CheckEnv)
  | active
  deriving DecidableEq, Repr

/-- The pools and the threads. After an access to a missing element nothing is said. -/
structure Threads where
  man : DBMan
  checkRunning : Bool := true
  activeRunning : Bool := true
  check : CheckPC := .start
  /-- the connection of the check thread -/
  db : Option BaseDB := none
  active : ActivePC := .start
  /-- an element was accessed that a pool does not have -/
  missed : Bool := false
  deriving DecidableEq, Repr

/-- `ActivePool`: the connections queried; `none` if `pool[i]` is missing. -/
def activePool : BaseDBPool → ℕ → Option (List BaseDB)
  | _, 0 => some []
  | [], _ + 1 => none
  | db :: pool, size + 1 => (activePool pool size).map (db :: ·)

/-- `dbPool_.size() - 1`, in `size_t`. -/
def sizeButLast (pool : BaseDBPool) : ℕ := (pool.length.toUInt64 - 1).toNat

namespace Threads

/-- One step of the check thread. -/
def stepCheck (env : CheckEnv) (s : Threads) : Option Threads :=
  match s.check with
  | .start => some { s with check := if s.man.dbPool.isEmpty then .done else .firstBack }
  | .firstBack =>
    match s.man.dbPool.getLast? with
    | some db => some { s with db := some db, check := .loop }
    | none => some { s with missed := true }
  | .loop => some { s with check := if s.checkRunning then .check else .done }
  | .check =>
    some { s with check := if env.isValid then .query else if env.reconnect then .loop
      else .testBackup false }
  | .query => some { s with check := if env.query then .loop else .testBackup true }
  | .testBackup afterQuery =>
    some { s with check := if s.man.backupPool.isEmpty then .done else .swapDBPool afterQuery }
  | .swapDBPool afterQuery =>
    some { s with man := s.man.swapDBPool, check := .back afterQuery }
  | .back afterQuery =>
    match s.man.dbPool.getLast? with
    | some db => some { s with db := some db, check := if afterQuery then .loop else .query }
    | none => some { s with missed := true }
  | .done => none

/-- One step of the keep-alive thread. -/
def stepActive (s : Threads) : Option Threads :=
  match s.active with
  | .start =>
    if s.man.dbPool.isEmpty then some { s with activeRunning := false, active := .done }
    else some { s with active := .loop }
  | .loop => some { s with active := if s.activeRunning then .main else .done }
  | .main =>
    match activePool s.man.dbPool (sizeButLast s.man.dbPool) with
    | some _ => some { s with active := .backup }
    | none => some { s with missed := true }
  | .backup =>
    if s.man.backupPool.all fun pool => (activePool pool pool.length).isSome
      then some { s with active := .loop } else some { s with missed := true }
  | .done => none

/-- One step. -/
def step (s : Threads) (a : ThreadAction) : Option Threads :=
  if s.missed then none
  else
    match a with
    | .getDB => some { s with man := s.man.getDB.2 }
    | .pushDB db =>
      match s.man.pushDB db with
      | some man => some { s with man := man }
      | none => some { s with missed := true }
    | .swapDBPool => some { s with man := s.man.swapDBPool }
    | .release => some { s with man := {}, checkRunning := false, activeRunning := false }
    | .check env => s.stepCheck env
    | .active => s.stepActive

/-- An access to the main pool: returning a connection, taking the last one for the check
thread, a keep-alive round. -/
def AccessesMain (s : Threads) : ThreadAction → Prop
  | .pushDB db => db.isSome
  | .check _ => s.check = .firstBack ∨ ∃ afterQuery, s.check = .back afterQuery
  | .active => s.active = .main
  | _ => False

/-- The accesses to the main pool are made while there is one: `Init` made it, and `Release`
was not called before. -/
def BeforeRelease (initial : DBMan) (s : Threads) (a : ThreadAction) : Prop :=
  s.AccessesMain a → initial.dbPool ≠ [] ∧ s.checkRunning = true

instance (s : Threads) (a : ThreadAction) : Decidable (s.AccessesMain a) := by
  unfold AccessesMain
  split <;> infer_instance

instance (initial : DBMan) (s : Threads) (a : ThreadAction) :
    Decidable (s.BeforeRelease initial a) := by
  unfold BeforeRelease
  infer_instance

/-- When the pools have connections, from the initial pools on. Without a main pool the threads
end where they start. -/
structure Alive (initial : DBMan) (s : Threads) : Prop where
  filled : s.man.Filled
  main : s.man.dbPool ≠ [] ↔ initial.dbPool ≠ [] ∧ s.checkRunning = true
  check : initial.dbPool = [] → s.check = .start ∨ s.check = .done
  active : initial.dbPool = [] → s.active = .start ∨ s.active = .done

end Threads

/-! ## The accesses -/

theorem activePool_isSome_iff (pool : BaseDBPool) (size : ℕ) :
    (activePool pool size).isSome ↔ size ≤ pool.length := by
  induction pool generalizing size with
  | nil => cases size <;> simp [activePool]
  | cons db pool ih => cases size <;> simp [activePool, ih]

/-- The size of an empty pool wraps. -/
theorem sizeButLast_le_iff (pool : BaseDBPool) : sizeButLast pool ≤ pool.length ↔ pool ≠ [] := by
  cases pool with
  | nil => decide
  | cons db pool =>
    refine iff_of_true ?_ (List.cons_ne_nil db pool)
    have hlength : (pool.length + 1).toUInt64.toNat = (pool.length + 1) % 2 ^ 64 :=
      UInt64.toNat_ofNat'
    rw [sizeButLast, List.length_cons, UInt64.toNat_sub, hlength, UInt64.toNat_one]
    omega

theorem activePool_main_iff (pool : BaseDBPool) :
    (activePool pool (sizeButLast pool)).isSome ↔ pool ≠ [] := by
  rw [activePool_isSome_iff, sizeButLast_le_iff]

theorem activePool_backup (m : DBMan) :
    (m.backupPool.all fun pool => (activePool pool pool.length).isSome) = true :=
  List.all_eq_true.mpr fun pool _ => (activePool_isSome_iff pool _).mpr (Nat.le_refl _)

/-! ## The pools -/

section Pools

variable {m m' : DBMan} {db : Option BaseDB}

theorem DBMan.Filled.main_ne_nil (h : m.Filled) (hm : m.dbPool ≠ []) :
    ∀ pool ∈ m.pools, pool ≠ [] :=
  h.resolve_left fun hempty => hm (congrArg DBMan.dbPool hempty)

theorem DBMan.Filled.getDB (h : m.Filled) :
    m.getDB.2.Filled ∧ (m.getDB.2.dbPool ≠ [] ↔ m.dbPool ≠ []) := by
  rcases getDB_cases m with hget | ⟨db, next, pool, hpool, hget⟩
  · rw [hget]
    exact ⟨h, Iff.rfl⟩
  · have hm : m ≠ {} := by
      rintro rfl
      cases hpool
    rw [hget, hpool]
    exact ⟨h.setMain hm (List.cons_ne_nil _ _), by simp⟩

/-- `PushDB` takes the front of the main pool. -/
theorem DBMan.Filled.pushDB_eq_none_iff (h : m.Filled) (db : Option BaseDB) :
    m.pushDB db = none ↔ db.isSome ∧ m.dbPool = [] := by
  cases db with
  | none => simp [DBMan.pushDB]
  | some db =>
    cases hpool : m.dbPool with
    | nil => simp [DBMan.pushDB, hpool]
    | cons front rest =>
      rw [pushDB_eq db (h.main_ne_nil (by simp [hpool]))]
      simp

theorem DBMan.Filled.pushDB (h : m.Filled) (hpush : m.pushDB db = some m') :
    m'.Filled ∧ (m'.dbPool ≠ [] ↔ m.dbPool ≠ []) := by
  cases db with
  | none =>
    cases hpush
    exact ⟨h, Iff.rfl⟩
  | some db =>
    have hmain : m.dbPool ≠ [] := by
      intro hempty
      have hnone := (h.pushDB_eq_none_iff (some db)).mpr ⟨rfl, hempty⟩
      rw [hpush] at hnone
      cases hnone
    rw [pushDB_eq db (h.main_ne_nil hmain), Option.some.injEq] at hpush
    subst hpush
    split
    · have hne : insertBeforeLast m.dbPool db ≠ [] := by
        intro hnil
        exact List.cons_ne_nil _ _ (hnil ▸ insertBeforeLast_perm m.dbPool db).nil_eq.symm
      have hm : m ≠ {} := fun hempty => hmain (congrArg DBMan.dbPool hempty)
      exact ⟨h.setMain hm hne, iff_of_true hne hmain⟩
    · exact ⟨h, Iff.rfl⟩

theorem DBMan.Filled.swapDBPool_dbPool (h : m.Filled) :
    m.swapDBPool.dbPool ≠ [] ↔ m.dbPool ≠ [] := by
  rcases h with rfl | h
  · exact Iff.rfl
  · refine iff_of_true ?_ (h _ List.mem_cons_self)
    exact h _ (m.swapDBPool_pools.mem_iff.mp List.mem_cons_self)

end Pools

/-! ## Runs -/

namespace Threads

section Run

variable {initial : DBMan} {s s' : Threads} {a : ThreadAction}

theorem Alive.init (h : initial.Filled) : Alive initial { man := initial } where
  filled := h
  main := by simp
  check _ := .inl rfl
  active _ := .inl rfl

/-- A thread that has left its start has found a main pool. -/
theorem Alive.of_check (h : Alive initial s) (hstart : s.check ≠ .start) (hdone : s.check ≠ .done) :
    initial.dbPool ≠ [] := by
  intro hempty
  rcases h.check hempty with hpc | hpc
  · exact hstart hpc
  · exact hdone hpc

theorem Alive.of_active (h : Alive initial s) (hstart : s.active ≠ .start)
    (hdone : s.active ≠ .done) : initial.dbPool ≠ [] := by
  intro hempty
  rcases h.active hempty with hpc | hpc
  · exact hstart hpc
  · exact hdone hpc

/-- The check thread moves on from where it has found a main pool, without touching the
pools. -/
theorem Alive.moveCheck (h : Alive initial s) (hstart : s.check ≠ .start)
    (hdone : s.check ≠ .done) (pc : CheckPC) (db : Option BaseDB) (missed : Bool) :
    Alive initial { s with check := pc, db := db, missed := missed } :=
  ⟨h.filled, h.main, fun hempty => absurd hempty (h.of_check hstart hdone), h.active⟩

/-- The keep-alive thread moves on from where it has found a main pool. -/
theorem Alive.moveActive (h : Alive initial s) (hstart : s.active ≠ .start)
    (hdone : s.active ≠ .done) (pc : ActivePC) (missed : Bool) :
    Alive initial { s with active := pc, missed := missed } :=
  ⟨h.filled, h.main, h.check, fun hempty => absurd hempty (h.of_active hstart hdone)⟩

theorem Alive.stepCheck {env : CheckEnv} (h : Alive initial s) (hs : s.stepCheck env = some s') :
    Alive initial s' := by
  unfold Threads.stepCheck at hs
  split at hs
  next hpc =>
    cases hs
    -- the thread ends where it finds no main pool, and else goes on
    refine ⟨h.filled, h.main, fun hempty => ?_, h.active⟩
    have hmain : s.man.dbPool = [] := by
      by_contra hne
      exact (h.main.mp hne).1 hempty
    simp [hmain]
  next hpc =>
    split at hs
    · cases hs
      exact h.moveCheck (by simp [hpc]) (by simp [hpc]) _ _ _
    · cases hs
      exact h.moveCheck (by simp [hpc]) (by simp [hpc]) _ _ _
  next hpc =>
    cases hs
    exact h.moveCheck (by simp [hpc]) (by simp [hpc]) _ _ _
  next hpc =>
    cases hs
    exact h.moveCheck (by simp [hpc]) (by simp [hpc]) _ _ _
  next hpc =>
    cases hs
    exact h.moveCheck (by simp [hpc]) (by simp [hpc]) _ _ _
  next afterQuery hpc =>
    cases hs
    exact h.moveCheck (by simp [hpc]) (by simp [hpc]) _ _ _
  next afterQuery hpc =>
    -- the swap keeps a main pool, which pool it is may change
    have hinit := h.of_check (by simp [hpc]) (by simp [hpc])
    cases hs
    exact ⟨h.filled.swapDBPool, h.filled.swapDBPool_dbPool.trans h.main,
      fun hempty => absurd hempty hinit, h.active⟩
  next afterQuery hpc =>
    split at hs
    · cases hs
      exact h.moveCheck (by simp [hpc]) (by simp [hpc]) _ _ _
    · cases hs
      exact h.moveCheck (by simp [hpc]) (by simp [hpc]) _ _ _
  next => cases hs

theorem Alive.stepActive (h : Alive initial s) (hs : s.stepActive = some s') :
    Alive initial s' := by
  unfold Threads.stepActive at hs
  split at hs
  next hpc =>
    split at hs
    · cases hs
      exact ⟨h.filled, h.main, h.check, fun _ => .inr rfl⟩
    next hmain =>
      cases hs
      refine ⟨h.filled, h.main, h.check, fun hempty => absurd hempty (h.main.mp ?_).1⟩
      simpa using hmain
  next hpc =>
    cases hs
    exact h.moveActive (by simp [hpc]) (by simp [hpc]) _ _
  next hpc =>
    split at hs
    · cases hs
      exact h.moveActive (by simp [hpc]) (by simp [hpc]) _ _
    · cases hs
      exact h.moveActive (by simp [hpc]) (by simp [hpc]) _ _
  next hpc =>
    split at hs
    · cases hs
      exact h.moveActive (by simp [hpc]) (by simp [hpc]) _ _
    · cases hs
      exact h.moveActive (by simp [hpc]) (by simp [hpc]) _ _
  next => cases hs

theorem Alive.step (h : Alive initial s) (hs : s.step a = some s') : Alive initial s' := by
  unfold Threads.step at hs
  split at hs
  · cases hs
  · cases a with
    | getDB =>
      cases hs
      obtain ⟨hfilled, hmain⟩ := h.filled.getDB
      exact ⟨hfilled, hmain.trans h.main, h.check, h.active⟩
    | pushDB db =>
      dsimp only at hs
      split at hs
      next man hpush =>
        cases hs
        obtain ⟨hfilled, hmain⟩ := h.filled.pushDB hpush
        exact ⟨hfilled, hmain.trans h.main, h.check, h.active⟩
      next =>
        cases hs
        exact ⟨h.filled, h.main, h.check, h.active⟩
    | swapDBPool =>
      cases hs
      exact ⟨h.filled.swapDBPool, h.filled.swapDBPool_dbPool.trans h.main, h.check, h.active⟩
    | release =>
      cases hs
      exact ⟨.inl rfl, by simp, h.check, h.active⟩
    | check env => exact h.stepCheck hs
    | active => exact h.stepActive hs

/-- The main pool is there for an access exactly if it is made before `Release`. -/
theorem Alive.accesses (h : Alive initial s) (a : ThreadAction) (ha : s.AccessesMain a) :
    s.man.dbPool ≠ [] ↔ s.BeforeRelease initial a := by
  rw [h.main, BeforeRelease]
  exact ⟨fun hmain _ => hmain, fun hbefore => hbefore ha⟩

theorem stepCheck_missed_iff {env : CheckEnv} (h : Alive initial s) (hm : s.missed = false)
    (hs : s.stepCheck env = some s') :
    s'.missed = false ↔ s.BeforeRelease initial (.check env) := by
  have hback : (∃ db, s.man.dbPool.getLast? = some db) ↔ s.man.dbPool ≠ [] := by
    rw [← Option.isSome_iff_exists, List.getLast?_isSome]
  unfold stepCheck at hs
  split at hs
  -- the two places that take the last connection
  case h_2 hpc =>
    rw [← h.accesses (.check env) (Or.inl hpc), ← hback]
    split at hs
    next db hlast =>
      cases hs
      exact iff_of_true hm ⟨db, hlast⟩
    next hlast =>
      cases hs
      simp [hlast]
  case h_8 afterQuery hpc =>
    rw [← h.accesses (.check env) (Or.inr ⟨afterQuery, hpc⟩), ← hback]
    split at hs
    next db hlast =>
      cases hs
      exact iff_of_true hm ⟨db, hlast⟩
    next hlast =>
      cases hs
      simp [hlast]
  case h_9 => cases hs
  all_goals
    rename_i hpc
    cases hs
    exact iff_of_true hm fun ha => by simp [AccessesMain, hpc] at ha

theorem stepActive_missed_iff (h : Alive initial s) (hm : s.missed = false)
    (hs : s.stepActive = some s') : s'.missed = false ↔ s.BeforeRelease initial .active := by
  unfold stepActive at hs
  split at hs
  next hpc =>
    refine iff_of_true ?_ fun ha => by simp [AccessesMain, hpc] at ha
    split at hs <;> cases hs <;> exact hm
  next hpc =>
    cases hs
    exact iff_of_true hm fun ha => by simp [AccessesMain, hpc] at ha
  next hpc =>
    rw [← h.accesses .active hpc, ← activePool_main_iff]
    split at hs
    next hround =>
      cases hs
      simp [hm, hround]
    next hround =>
      cases hs
      simp [hround]
  next hpc =>
    rw [if_pos (activePool_backup s.man)] at hs
    cases hs
    exact iff_of_true hm fun ha => by simp [AccessesMain, hpc] at ha
  next => cases hs

/-- An access finds its element exactly if it is made before `Release`. -/
theorem step_missed_iff (h : Alive initial s) (hm : s.missed = false)
    (hs : s.step a = some s') : s'.missed = false ↔ s.BeforeRelease initial a := by
  unfold step at hs
  rw [if_neg (by simp [hm])] at hs
  cases a with
  | getDB =>
    cases hs
    exact iff_of_true hm fun ha => ha.elim
  | pushDB db =>
    dsimp only at hs
    cases db with
    | none =>
      cases hs
      exact iff_of_true hm fun ha => by cases ha
    | some db =>
      rw [← h.accesses (.pushDB (some db)) rfl]
      have hnone := h.filled.pushDB_eq_none_iff (some db)
      split at hs
      next man hpush =>
        cases hs
        simpa [hpush, hm] using hnone
      next hpush =>
        cases hs
        simpa [hpush] using hnone
  | swapDBPool =>
    cases hs
    exact iff_of_true hm fun ha => ha.elim
  | release =>
    cases hs
    exact iff_of_true hm fun ha => ha.elim
  | check env => exact stepCheck_missed_iff h hm hs
  | active => exact stepActive_missed_iff h hm hs

end Run

section Init

variable {hash : String → UInt64} {opens : ℕ → Bool} {config : List DBConnConfig} {man : DBMan}

/-- **No access past a pool's end.** In a run of calls and threads after `Init`, every access to
an element of a pool finds it exactly if `Init` made a main pool and no access to the main pool
comes after `Release`: no connection is returned, the check thread takes no last connection, and
no keep-alive round is made. -/
theorem accesses_in_bounds_iff (hinit : DBMan.init hash opens config = some man)
    {trace : List (Threads × ThreadAction)} {s : Threads}
    (hrun : Run Threads.step { man := man } trace s) :
    ((∀ e ∈ trace, e.1.missed = false) ∧ s.missed = false) ↔
      ∀ e ∈ trace, e.1.BeforeRelease man e.2 :=
  hrun.forall_good_iff (I := Alive man) (P := fun s => s.missed = false)
    (C := fun s a => s.BeforeRelease man a) (Alive.init (init_made hinit).1)
    (fun h hs => h.step hs) rfl step_missed_iff

end Init

/-- A connection is lent and returned, the threads go round once, and both stop after
`Release`. -/
theorem accesses_in_bounds_release_last :
    ∃ (trace : List (Threads × ThreadAction)) (s : Threads),
      Run Threads.step { man := mainAndBackupPools } trace s ∧
      trace.map Prod.snd = [.getDB, .check {}, .check {}, .active, .active, .active, .active,
        .pushDB (some ⟨0, 5⟩), .release, .check {}, .active] ∧
      s.check = .done ∧ s.active = .done ∧ s.missed = false := by
  have hrun : Run Threads.step { man := mainAndBackupPools } _ _ :=
    Run.nil.snoc (a := .getDB) rfl |>.snoc (a := .check {}) rfl |>.snoc (a := .check {}) rfl
      |>.snoc (a := .active) rfl |>.snoc (a := .active) rfl |>.snoc (a := .active) rfl
      |>.snoc (a := .active) rfl |>.snoc (a := .pushDB (some ⟨0, 5⟩)) rfl
      |>.snoc (a := .release) rfl |>.snoc (a := .check {}) rfl |>.snoc (a := .active) rfl
  refine ⟨_, _, hrun, rfl, rfl, rfl, ?_⟩
  exact ((accesses_in_bounds_iff init_mainAndBackup hrun).mpr (by decide +kernel)).2

/-- A connection is returned after `Release`: the front of an empty pool is taken. A keep-alive
round that began before `Release` runs over an empty pool. -/
theorem access_missed_after_release :
    (∃ (trace : List (Threads × ThreadAction)) (s : Threads),
      Run Threads.step { man := mainAndBackupPools } trace s ∧
      trace.map Prod.snd = [.getDB, .release, .pushDB (some ⟨0, 5⟩)] ∧ s.missed = true) ∧
    ∃ (trace : List (Threads × ThreadAction)) (s : Threads),
      Run Threads.step { man := mainAndBackupPools } trace s ∧
      trace.map Prod.snd = [.active, .active, .release, .active] ∧ s.missed = true := by
  constructor
  · exact ⟨_, _, Run.nil.snoc (a := .getDB) rfl |>.snoc (a := .release) rfl
      |>.snoc (a := .pushDB (some ⟨0, 5⟩)) rfl, rfl, rfl⟩
  · exact ⟨_, _, Run.nil.snoc (a := .active) rfl |>.snoc (a := .active) rfl
      |>.snoc (a := .release) rfl |>.snoc (a := .active) rfl, rfl, rfl⟩

end Threads

end SampleTools
