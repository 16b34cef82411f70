import SampleTools.Database.Transactions

/-!
# Savepoints

`MysqlDB` keeps the savepoint that it set last. The server keeps savepoints for a session: they go
when they are released, with every commit and full rollback, and with the session. `Rollback(true)`
goes back to the savepoint it has, if any, and releases it, but does not forget it.

Whether a savepoint was set is what the driver says, and not what `SetSavePoint` returns: that is 0
also for an exception with the code 0. The driver sets none in auto-commit mode, which
`MysqlDB::AutoCommit` turns off, a call that is not made here.

## Main definitions

* `Savepoints`, `Savepoints.step`: the object, and the savepoints the server keeps for it
* `Savepoints.UsesLive`: only savepoints that the server keeps are passed to the driver
* `armed`: a savepoint was set and nothing has ended it, from the calls and what the driver did

## Main results

* `Savepoints.Tracks.step`: the cached savepoint is kept by the server exactly if it is armed
* `Savepoints.usesLive_iff`: when only live savepoints are used
-/

namespace SampleTools

/-- What is called on an open object. -/
inductive SavepointCall
  | beginTrans
  | setSavePoint
  | rollback (flag : Bool)
  | commit
  | reconnect
  deriving DecidableEq, Repr

/-- What driver and server do. The server may have done what the driver says has failed. -/
structure SavepointEnv extends CallEnv where
  transactionDone : Bool := false
  releaseDone : Bool := false

namespace SavepointEnv

/-- The server has committed, or rolled back. -/
def ends (env : SavepointEnv) : Bool := env.transaction.isOk || env.transactionDone

/-- The server has released the savepoint it went back to. -/
def releases (env : SavepointEnv) : Bool :=
  env.transaction.isOk && (env.releaseSavepoint.isOk || env.releaseDone)

/-- An attempt to reconnect ends the session: it is found invalid, or closed. -/
def closes (env : SavepointEnv) (attempt : ℕ) : Bool := (env.reconnects attempt).isValid.isOk

/-- A transaction call for which the driver throws `e` if anything goes on to reconnect, which
ends the session. -/
def givesUp (env : SavepointEnv) (e : Option DriverError) : Bool :=
  (e.map DriverError.code).getD env.retCode = .mysqlServerGoneAway && env.closes 2

end SavepointEnv

/-- The call ends the savepoint that was set last. -/
def SavepointCall.discards (env : SavepointEnv) : SavepointCall → Bool
  | .beginTrans => false
  | .setSavePoint => false
  | .rollback true => env.releases || env.givesUp (rollbackThrows true env.toCallEnv)
  | .rollback false => env.ends || env.givesUp (rollbackThrows false env.toCallEnv)
  | .commit => env.ends || env.givesUp (thrown env.transaction)
  | .reconnect => env.closes 0

/-- Whether a savepoint is set after a call. -/
def armedBy (set : Bool) (c : SavepointCall × SavepointEnv) : Bool :=
  !c.1.discards c.2 && (set || c.1 = .setSavePoint && c.2.setSavepoint.isOk)

/-- A savepoint was set, and no call has ended it since. -/
def armed (inputs : List (SavepointCall × SavepointEnv)) : Bool := inputs.foldl armedBy false

/-- The object, and the savepoints the server keeps for its session, the last one first. -/
structure Savepoints where
  db : MysqlDB
  live : List Savepoint := []

namespace Savepoints

/-- The object after a call. -/
def after (hash : String → UInt64) (call : SavepointCall) (env : SavepointEnv) (m : MysqlDB) :
    MysqlDB :=
  match call with
  | .beginTrans => m.beginTrans.2
  | .setSavePoint => (m.setSavePoint env.toCallEnv).2
  | .rollback flag => (m.rollback hash flag env.toCallEnv).2
  | .commit => (m.commit hash env.toCallEnv).2
  | .reconnect => (m.reconnect hash (env.reconnects 0)).2

/-- The savepoints the server keeps after a call. Setting one takes the place of one of the same
name, and going back to one ends those that were set after it. -/
def kept (call : SavepointCall) (env : SavepointEnv) (s : Savepoints) : List Savepoint :=
  match call with
  | .beginTrans => s.live
  | .setSavePoint =>
    match s.db.current, env.setSavepoint with
    | some conn, .ok () =>
      let name := "POINT_" ++ toString s.db.idx
      ⟨name, conn.num⟩ :: s.live.filter (·.name ≠ name)
    | _, _ => s.live
  | .rollback true =>
    if env.givesUp (rollbackThrows true env.toCallEnv) then []
    else
      -- the savepoint that is gone back to stays, if it is not released
      let live := if env.ends then s.live.dropWhile (some · ≠ s.db.point) else s.live
      if env.releases then live.filter (some · ≠ s.db.point) else live
  | .rollback false => if (SavepointCall.rollback false).discards env then [] else s.live
  | .commit => if SavepointCall.commit.discards env then [] else s.live
  | .reconnect => if SavepointCall.reconnect.discards env then [] else s.live

/-- A call. -/
def step (hash : String → UInt64) (s : Savepoints) (c : SavepointCall × SavepointEnv) :
    Option Savepoints :=
  some { db := after hash c.1 c.2 s.db, live := s.kept c.1 c.2 }

/-- A savepoint that was set on a connection, and that the server keeps. -/
def Live (s : Savepoints) (conn : Connection) (p : Savepoint) : Prop :=
  p.conn = conn.num ∧ p ∈ s.live

/-- The savepoints a call passes to the driver are live, and `Rollback(true)` without a live one
fails and does not call the driver. -/
structure UsesLive (hash : String → UInt64) (s : Savepoints) (c : SavepointCall × SavepointEnv) :
    Prop where
  passed : ∀ es, (after hash c.1 c.2 s.db).log = s.db.log ++ es → ∀ conn point,
    .call conn (.rollbackTo point) ∈ es ∨ .call conn (.releaseSavepoint point) ∈ es →
      ∃ p, point = some p ∧ s.Live conn p
  refuses : c.1 = .rollback true → (∀ conn ∈ s.db.connection, ∀ p ∈ s.db.point, ¬ s.Live conn p) →
    (s.db.rollback hash true c.2.toCallEnv).1 ≠ .ok 0 ∧
      ∀ es, (after hash c.1 c.2 s.db).log = s.db.log ++ es → ∀ conn c', .call conn c' ∉ es

/-! ## What a call does to the object -/

section After

variable {hash : String → UInt64} {m : MysqlDB} {env : SavepointEnv} {call : SavepointCall}
  {conn : Connection}

/-- The calls on the connection that a call makes. -/
def asked (conn : Connection) (call : SavepointCall) (env : SavepointEnv) (m : MysqlDB) :
    List DBEvent :=
  match call with
  | .beginTrans => []
  | .setSavePoint => [.call conn (.setSavepoint ("POINT_" ++ toString m.idx))]
  | .rollback true => .call conn (.rollbackTo m.point) ::
      if env.transaction.isOk then [.call conn (.releaseSavepoint m.point)] else []
  | .rollback false => [.call conn .rollback]
  | .commit => [.call conn .commit]
  | .reconnect => []

/-- An open object: it has a connection. -/
structure IsOpen (m : MysqlDB) : Prop where
  opened : m.opened = true
  connection : m.connection.isSome

theorem IsOpen.current (h : IsOpen m) : m.current = m.connection := if_pos h.opened

/-- The reconnects of a call leave the savepoint, and a connection. If the check of the old
connection throws, it stays. -/
theorem IsOpen.reconnected (h : IsOpen m) (env : SavepointEnv) (count : ℕ) (dbSn : UInt64)
    (es : List DBEvent) :
    let m' := m.reconnected (m.reopensIn env.reconnects (count + 1)) dbSn es
    IsOpen m' ∧ m'.point = m.point ∧ (env.closes count = false → m'.connection = m.connection) := by
  -- `isValid` is called outside of the `try` block, before the old connection is closed
  have hkept : env.closes count = false →
      ∃ e, m.reopensIn env.reconnects (count + 1) = .error e := by
    intro hcloses
    obtain ⟨conn, hconn⟩ := Option.isSome_iff_exists.mp h.connection
    unfold SavepointEnv.closes at hcloses
    cases hvalid : (env.reconnects count).isValid with
    | ok b =>
      rw [hvalid] at hcloses
      cases hcloses
    | error e =>
      refine ⟨e, ?_⟩
      simp [MysqlDB.reopensIn, MysqlDB.reopens, ReconnectEnv.closeOld, hconn, hvalid]
  revert hkept
  generalize m.reopensIn env.reconnects (count + 1) = outcome
  intro hkept
  rcases outcome with e | ok
  · exact ⟨⟨h.opened, h.connection⟩, rfl, fun _ => rfl⟩
  · cases ok with
    | false => exact ⟨⟨h.opened, h.connection⟩, rfl, fun _ => rfl⟩
    | true =>
      refine ⟨⟨rfl, rfl⟩, rfl, fun hcloses => ?_⟩
      obtain ⟨e, heq⟩ := hkept hcloses
      cases heq

/-- The end of `Commit` and `Rollback`, after calls on the connection for which the driver throws
`e` if anything. -/
theorem IsOpen.gaveUp (h : IsOpen m) {e : Option DriverError} {code : SQLError} {m₁ m' : MysqlDB}
    {es : List DBEvent} (hm₁ : m₁ = { m with log := m.log ++ es })
    (hcode : code = (e.map DriverError.code).getD env.retCode)
    (hm' : m' = if code ≠ .mysqlServerGoneAway then m₁ else (m₁.giveUp hash env.toCallEnv).2) :
    ∃ n, IsOpen m' ∧ m'.log = m.log ++ es ++ List.replicate n .reconnect ∧ m'.point = m.point ∧
      (env.givesUp e = false → m'.connection = m.connection) := by
  have hopen : IsOpen m₁ := by
    subst hm₁
    exact ⟨h.opened, h.connection⟩
  by_cases hgone : code = .mysqlServerGoneAway
  · obtain ⟨dbSn, n, heq⟩ := MysqlDB.giveUp_eq hash env.toCallEnv m₁
    obtain ⟨hopen', hpoint, hconn⟩ := hopen.reconnected env 2 dbSn (List.replicate n .reconnect)
    rw [if_neg (not_not.mpr hgone), heq] at hm'
    subst hm' hm₁
    refine ⟨n, hopen', MysqlDB.reconnected_log _ _ _, hpoint, fun hgivesUp => hconn ?_⟩
    rw [SavepointEnv.givesUp, ← hcode, hgone] at hgivesUp
    simpa using hgivesUp
  · rw [if_pos hgone] at hm'
    subst hm' hm₁
    exact ⟨0, hopen, (List.append_nil _).symm, rfl, fun _ => rfl⟩

theorem mysqlCommit_of_current (hcurrent : m.current = some conn) (env : SavepointEnv) :
    (m.mysqlCommit env.toCallEnv).2 = { m with log := m.log ++ asked conn .commit env m } ∧
      (m.mysqlCommit env.toCallEnv).1.2 =
        ((thrown env.transaction).map DriverError.code).getD env.retCode := by
  simp only [MysqlDB.mysqlCommit, hcurrent]
  exact ⟨rfl, MysqlDB.caught_snd⟩

theorem mysqlRollback_of_current (hcurrent : m.current = some conn) (flag : Bool)
    (env : SavepointEnv) : (m.mysqlRollback flag env.toCallEnv).2 =
        { m with log := m.log ++ asked conn (.rollback flag) env m } ∧
      (m.mysqlRollback flag env.toCallEnv).1.2 =
        ((rollbackThrows flag env.toCallEnv).map DriverError.code).getD env.retCode := by
  simp only [MysqlDB.mysqlRollback, hcurrent, rollbackThrows, asked]
  cases flag with
  | false =>
    refine ⟨rfl, ?_⟩
    rcases env.transaction with e | u <;> rfl
  | true =>
    rcases env.transaction with e | u
    · exact ⟨rfl, rfl⟩
    · refine ⟨?_, MysqlDB.caught_snd⟩
      simp [MysqlDB.ask, Except.isOk, Except.toBool]

theorem setSavePoint_snd (hcurrent : m.current = some conn) (env : CallEnv) :
    (m.setSavePoint env).2 = { m with
      log := m.log ++ [.call conn (.setSavepoint ("POINT_" ++ toString m.idx))]
      idx := m.idx + 1
      point := if env.setSavepoint.isOk then some ⟨"POINT_" ++ toString m.idx, conn.num⟩
        else m.point } := by
  simp only [MysqlDB.setSavePoint, hcurrent]
  match env.setSavepoint with
  | .ok () => rfl
  | .error (.sqlException _) => rfl
  | .error .stdException => rfl
  | .error .unknown => rfl

/-- What a call does to an open object. -/
theorem IsOpen.after (h : IsOpen m) (hconn : m.connection = some conn) (hash : String → UInt64)
    (call : SavepointCall) (env : SavepointEnv) : ∃ n, IsOpen (after hash call env m) ∧
      (after hash call env m).log = m.log ++ asked conn call env m ++ List.replicate n .reconnect ∧
      (call ≠ .setSavePoint → (after hash call env m).point = m.point) ∧
      (call.discards env = false → (after hash call env m).connection = m.connection) := by
  have hcurrent : m.current = some conn := h.current.trans hconn
  match call with
  -- the calls that do not reconnect
  | .beginTrans =>
    refine ⟨0, ⟨h.opened, h.connection⟩, ?_, fun _ => rfl, fun _ => rfl⟩
    simp [Savepoints.after, MysqlDB.beginTrans, asked]
  | .setSavePoint =>
    have heq : Savepoints.after hash .setSavePoint env m = _ :=
      setSavePoint_snd hcurrent env.toCallEnv
    rw [heq]
    exact ⟨0, ⟨h.opened, h.connection⟩, (List.append_nil _).symm, fun hne => absurd rfl hne,
      fun _ => rfl⟩
  -- those that reconnect when the server is gone
  | .rollback flag =>
    obtain ⟨hm₁, hcode⟩ := mysqlRollback_of_current hcurrent flag env
    have hm' : (m.rollback hash flag env.toCallEnv).2 =
        if (m.mysqlRollback flag env.toCallEnv).1.2 ≠ .mysqlServerGoneAway
          then (m.mysqlRollback flag env.toCallEnv).2
          else ((m.mysqlRollback flag env.toCallEnv).2.giveUp hash env.toCallEnv).2 :=
      apply_ite Prod.snd _ _ _
    obtain ⟨n, hopen, hlog, hpoint, hkept⟩ := h.gaveUp hm₁ hcode hm'
    refine ⟨n, hopen, hlog, fun _ => hpoint, fun hdiscards => hkept ?_⟩
    cases flag <;> exact (Bool.or_eq_false_iff.mp hdiscards).2
  | .commit =>
    obtain ⟨hm₁, hcode⟩ := mysqlCommit_of_current hcurrent env
    have hm' : (m.commit hash env.toCallEnv).2 =
        if (m.mysqlCommit env.toCallEnv).1.2 ≠ .mysqlServerGoneAway
          then (m.mysqlCommit env.toCallEnv).2
          else ((m.mysqlCommit env.toCallEnv).2.giveUp hash env.toCallEnv).2 :=
      apply_ite Prod.snd _ _ _
    obtain ⟨n, hopen, hlog, hpoint, hkept⟩ := h.gaveUp hm₁ hcode hm'
    exact ⟨n, hopen, hlog, fun _ => hpoint, fun hd => hkept (Bool.or_eq_false_iff.mp hd).2⟩
  | .reconnect =>
    obtain ⟨dbSn, heq⟩ := m.reconnect_eq hash (env.reconnects 0)
    have hone : m.reopensIn env.reconnects 1 = m.reopens (env.reconnects 0) := by
      rw [MysqlDB.reopensIn]
      rcases m.reopens (env.reconnects 0) with e | ok
      · rfl
      · cases ok <;> rfl
    obtain ⟨hopen, hpoint, hkept⟩ := h.reconnected env 0 dbSn [.reconnect]
    rw [hone] at hopen hpoint hkept
    rw [Savepoints.after, heq]
    refine ⟨1, hopen, ?_, fun _ => hpoint, hkept⟩
    rw [MysqlDB.reconnected_log, asked, List.append_nil]
    rfl

end After

/-! ## What the server keeps -/

section Kept

variable {hash : String → UInt64} {s s' : Savepoints} {env : SavepointEnv} {call : SavepointCall}
  {c : SavepointCall × SavepointEnv} {p : Savepoint} {set : Bool}

theorem kept_rollback_true (s : Savepoints) (env : SavepointEnv) : s.kept (.rollback true) env =
    if env.givesUp (rollbackThrows true env.toCallEnv) then []
    else if env.releases then
      (if env.ends then s.live.dropWhile (some · ≠ s.db.point) else s.live).filter
        (some · ≠ s.db.point)
    else if env.ends then s.live.dropWhile (some · ≠ s.db.point) else s.live := rfl

theorem mem_live_of_mem_kept (hcall : call ≠ .setSavePoint) (h : p ∈ s.kept call env) :
    p ∈ s.live := by
  match call with
  | .beginTrans => exact h
  | .setSavePoint => exact absurd rfl hcall
  | .rollback true =>
    rw [kept_rollback_true] at h
    split_ifs at h
    · cases h
    · exact (List.dropWhile_sublist _).subset (List.mem_of_mem_filter h)
    · exact List.mem_of_mem_filter h
    · exact (List.dropWhile_sublist _).subset h
    · exact h
  | .rollback false | .commit | .reconnect =>
    rw [kept] at h
    split_ifs at h
    · cases h
    · exact h

/-- What comes first in a list that is left from an element on. -/
theorem mem_dropWhile_ne {l : List Savepoint} (h : p ∈ l) :
    p ∈ l.dropWhile (some · ≠ some p) := by
  induction l with
  | nil => cases h
  | cons q l ih =>
    by_cases hq : q = p
    · simp [hq]
    · have hdrop : (q :: l).dropWhile (some · ≠ some p) = l.dropWhile (some · ≠ some p) :=
        List.dropWhile_cons_of_pos (by simpa using hq)
      rw [hdrop]
      exact ih ((List.mem_cons.mp h).resolve_left (Ne.symm hq))

theorem mem_kept (hcall : call ≠ .setSavePoint) (hdiscards : call.discards env = false)
    (hpoint : s.db.point = some p) (h : p ∈ s.live) : p ∈ s.kept call env := by
  match call with
  | .beginTrans => exact h
  | .setSavePoint => exact absurd rfl hcall
  | .rollback true =>
    obtain ⟨hreleases, hgivesUp⟩ := Bool.or_eq_false_iff.mp hdiscards
    rw [kept_rollback_true, hgivesUp, hreleases, hpoint]
    simp only [Bool.false_eq_true, if_false]
    split_ifs
    · exact mem_dropWhile_ne h
    · exact h
  | .rollback false | .commit | .reconnect =>
    rw [kept, if_neg (by rw [hdiscards]; exact Bool.false_ne_true)]
    exact h

theorem not_mem_kept (hdiscards : call.discards env = true) (hpoint : s.db.point = some p) :
    p ∉ s.kept call env := by
  match call with
  | .beginTrans => cases hdiscards
  | .setSavePoint => cases hdiscards
  | .rollback true =>
    rw [kept_rollback_true, hpoint]
    split_ifs with hgivesUp hreleases
    · exact List.not_mem_nil
    · simp
    · simp
    · exact absurd hdiscards (by simp [SavepointCall.discards, hgivesUp, hreleases])
    · exact absurd hdiscards (by simp [SavepointCall.discards, hgivesUp, hreleases])
  | .rollback false | .commit | .reconnect =>
    rw [kept, if_pos hdiscards]
    exact List.not_mem_nil

end Kept

/-! ## Runs -/

/-- The object is open, and the savepoint it has is kept by the server for its connection, if one
is set. -/
structure Tracks (s : Savepoints) (set : Bool) : Prop where
  isOpen : IsOpen s.db
  live : set = true → ∃ conn p, s.db.connection = some conn ∧ s.db.point = some p ∧ s.Live conn p
  gone : set = false → ∀ p, s.db.point = some p → p ∉ s.live

section Tracks

variable {hash : String → UInt64} {s s' : Savepoints} {c : SavepointCall × SavepointEnv}
  {set : Bool}

theorem kept_setSavePoint (s : Savepoints) {env : SavepointEnv} {conn : Connection}
    (hcurrent : s.db.current = some conn) : s.kept .setSavePoint env =
      if env.setSavepoint.isOk then
        ⟨"POINT_" ++ toString s.db.idx, conn.num⟩ ::
          s.live.filter (·.name ≠ "POINT_" ++ toString s.db.idx)
      else s.live := by
  simp only [kept, hcurrent]
  rcases env.setSavepoint with e | u <;> rfl

theorem Tracks.setSavePoint (h : Tracks s set) (env : SavepointEnv)
    (hs : step hash s (.setSavePoint, env) = some s') :
    Tracks s' (set || env.setSavepoint.isOk) := by
  obtain ⟨conn, hconn⟩ := Option.isSome_iff_exists.mp h.isOpen.connection
  have hcurrent : s.db.current = some conn := h.isOpen.current.trans hconn
  have hafter : Savepoints.after hash .setSavePoint env s.db = _ :=
    setSavePoint_snd hcurrent env.toCallEnv
  obtain rfl := Option.some.inj hs
  dsimp only
  rw [hafter, s.kept_setSavePoint hcurrent]
  cases hset : env.setSavepoint.isOk with
  | true =>
    rw [Bool.or_true]
    refine ⟨⟨h.isOpen.opened, h.isOpen.connection⟩, fun _ => ?_, nofun⟩
    exact ⟨conn, _, hconn, rfl, rfl, List.mem_cons_self⟩
  | false =>
    rw [Bool.or_false]
    exact ⟨⟨h.isOpen.opened, h.isOpen.connection⟩, h.live, h.gone⟩

/-- The cached savepoint is kept by the server exactly as long as it is set and not ended. -/
theorem Tracks.step (h : Tracks s set) (hs : step hash s c = some s') :
    Tracks s' (armedBy set c) := by
  obtain ⟨call, env⟩ := c
  by_cases hcall : call = .setSavePoint
  · subst hcall
    have harmed : armedBy set (.setSavePoint, env) = (set || env.setSavepoint.isOk) := by
      simp [armedBy, SavepointCall.discards]
    rw [harmed]
    exact h.setSavePoint env hs
  · obtain ⟨conn, hconn⟩ := Option.isSome_iff_exists.mp h.isOpen.connection
    obtain ⟨n, hopen, -, hpoint, hkept⟩ := h.isOpen.after hconn hash call env
    -- no other call sets a savepoint, so the cached one is the same as before
    have harmed : armedBy set (call, env) = (!call.discards env && set) := by
      simp [armedBy, hcall]
    obtain rfl := Option.some.inj hs
    rw [harmed]
    have hsame := hpoint hcall
    cases hdiscards : call.discards env with
    | true =>
      refine ⟨hopen, nofun, fun _ p hp => ?_⟩
      exact not_mem_kept hdiscards (hsame.symm.trans hp)
    | false =>
      refine ⟨hopen, fun hset => ?_, fun hset p hp hmem => ?_⟩
      · obtain ⟨conn', p, hconn', hp, hnum, hlive⟩ := h.live hset
        exact ⟨conn', p, (hkept hdiscards).trans hconn', hsame.trans hp, hnum,
          mem_kept hcall hdiscards hp hlive⟩
      · exact h.gone hset p (hsame.symm.trans hp) (mem_live_of_mem_kept hcall hmem)

/-- Only `Rollback(true)` passes a savepoint to the driver, the cached one. -/
theorem asked_passes {conn conn' : Connection} {call : SavepointCall} {env : SavepointEnv}
    {m : MysqlDB} {point : Option Savepoint}
    (h : .call conn' (.rollbackTo point) ∈ asked conn call env m ∨
      .call conn' (.releaseSavepoint point) ∈ asked conn call env m) :
    call = .rollback true ∧ conn' = conn ∧ point = m.point := by
  match call with
  | .beginTrans => simp [asked] at h
  | .setSavePoint => simp [asked] at h
  | .rollback false => simp [asked] at h
  | .commit => simp [asked] at h
  | .reconnect => simp [asked] at h
  | .rollback true =>
    refine ⟨rfl, ?_⟩
    rw [asked] at h
    split_ifs at h <;> simpa using h

/-- A call passes live savepoints to the driver if it passes one only when one is set. -/
theorem Tracks.usesLive_iff_set (h : Tracks s set) :
    s.UsesLive hash c ↔ (c.1 = .rollback true → set = true) := by
  obtain ⟨call, env⟩ := c
  obtain ⟨conn, hconn⟩ := Option.isSome_iff_exists.mp h.isOpen.connection
  obtain ⟨n, -, hlog, -⟩ := h.isOpen.after hconn hash call env
  rw [List.append_assoc] at hlog
  constructor
  · intro huses hcall
    dsimp only at hcall
    subst hcall
    by_contra hset
    obtain ⟨p, hp, -, hlive⟩ := huses.passed _ hlog conn s.db.point
      (.inl (List.mem_append_left _ List.mem_cons_self))
    exact h.gone (Bool.eq_false_iff.mpr hset) p hp hlive
  · intro hset
    refine ⟨fun es hes conn' point hmem => ?_, fun hcall hdead => ?_⟩
    · have heq : es = _ := List.append_cancel_left (hes.symm.trans hlog)
      -- the reconnects after a call pass nothing
      have hasked : ∀ c, .call conn' c ∈ es → .call conn' c ∈ asked conn call env s.db := by
        intro c hc
        rw [heq] at hc
        exact (List.mem_append.mp hc).resolve_right fun hrep =>
          DBEvent.noConfusion (List.eq_of_mem_replicate hrep)
      obtain ⟨rfl, rfl, rfl⟩ := asked_passes (hmem.imp (hasked _) (hasked _))
      obtain ⟨conn'', p, hconn'', hp, hlive⟩ := h.live (hset rfl)
      obtain rfl := Option.some.inj (hconn.symm.trans hconn'')
      exact ⟨p, hp, hlive⟩
    · obtain ⟨conn', p, hconn', hp, hlive⟩ := h.live (hset hcall)
      exact absurd hlive (hdead conn' hconn' p hp)

theorem Tracks.run {s₀ : Savepoints} (h : Tracks s₀ false)
    {trace : List (Savepoints × SavepointCall × SavepointEnv)}
    (hrun : Run (Savepoints.step hash) s₀ trace s) : Tracks s (armed (trace.map Prod.snd)) := by
  induction hrun with
  | nil => exact h
  | snoc hrun hs ih =>
    rw [List.map_append, armed, List.foldl_append]
    exact ih.step hs

/-- `Open` leaves an open object, which has no savepoint. -/
theorem Tracks.open {m : MysqlDB} {env : OpenEnv} {addr user passwd db : String}
    (hopen : MysqlDB.openDB hash env addr user passwd db {} = (.ok true, m)) :
    Tracks ⟨m, []⟩ false := by
  have hm : IsOpen m := by
    unfold MysqlDB.openDB at hopen
    split_ifs at hopen
    · cases hopen
    · match hdriver : env.driver, hconnect : env.connect with
      | .error e, _ => simp [hdriver] at hopen
      | .ok false, _ => simp [hdriver] at hopen
      | .ok true, .ok false => simp [hdriver, hconnect] at hopen
      | .ok true, .error e => simp [hdriver, hconnect] at hopen
      | .ok true, .ok true =>
        simp only [hdriver, hconnect, Prod.mk.injEq, true_and] at hopen
        subst hopen
        exact ⟨rfl, rfl⟩
  exact ⟨hm, nofun, fun _ _ _ => List.not_mem_nil⟩

end Tracks

/-- **Only live savepoints are used exactly if one is set at every `Rollback(true)`.** In every run
of calls on an object that was opened: every savepoint that is passed to the driver is one that was
set on the connection and that the server still keeps, and without such a savepoint `Rollback(true)`
fails and leaves the driver alone, exactly if at each `Rollback(true)` a savepoint was set before,
and no release, commit, full rollback or reconnect has ended it since. -/
theorem usesLive_iff {hash : String → UInt64} {env : OpenEnv} {addr user passwd db : String}
    {m : MysqlDB} (hopen : MysqlDB.openDB hash env addr user passwd db {} = (.ok true, m))
    {trace : List (Savepoints × SavepointCall × SavepointEnv)} {s : Savepoints}
    (hrun : Run (step hash) ⟨m, []⟩ trace s) :
    (∀ e ∈ trace, e.1.UsesLive hash e.2) ↔ ∀ pre e, pre ++ [e] <+: trace →
      e.2.1 = .rollback true → armed (pre.map Prod.snd) = true := by
  induction hrun with
  | nil => exact iff_of_true (List.forall_mem_nil _) forall_prefix_nil
  | snoc hrun hs ih =>
    rw [List.forall_mem_append, List.forall_mem_singleton, ih,
      ((Tracks.open hopen).run hrun).usesLive_iff_set]
    exact forall_prefix_concat_iff.symm

/-- A savepoint is set after `BeginTrans`, with auto-commit off, and gone back to. -/
theorem usesLive_once : ∃ (trace : List (Savepoints × SavepointCall × SavepointEnv))
    (s : Savepoints), Run (step fun _ => 0) ⟨MysqlDB.firstOpened, []⟩ trace s ∧
      trace.map (·.2.1) = [.beginTrans, .setSavePoint, .rollback true] ∧
      ∀ e ∈ trace, e.1.UsesLive (fun _ => 0) e.2 := by
  have hrun : Run (step fun _ => 0) ⟨MysqlDB.firstOpened, []⟩ _ _ :=
    Run.nil.snoc (a := (.beginTrans, {})) rfl |>.snoc (a := (.setSavePoint, {})) rfl
    |>.snoc (a := (.rollback true, {})) rfl
  have hopen : MysqlDB.openDB (fun _ => 0) {} "addr" "user" "passwd" "db" {} =
      (.ok true, MysqlDB.firstOpened) := rfl
  refine ⟨_, _, hrun, rfl, (usesLive_iff hopen hrun).mpr ?_⟩
  refine forall_prefix_concat_iff.mpr ⟨forall_prefix_concat_iff.mpr
    ⟨forall_prefix_concat_iff.mpr ⟨forall_prefix_nil, nofun⟩, nofun⟩, fun _ => ?_⟩
  decide +kernel

/-- `Rollback(true)` passes a null pointer if no savepoint was set, and a savepoint that was
released if it is called again. -/
theorem usesLive_fails : ∃ (trace : List (Savepoints × SavepointCall × SavepointEnv))
    (s : Savepoints), MysqlDB.openDB (fun _ => 0) {} "addr" "user" "passwd" "db" {} =
        (.ok true, MysqlDB.firstOpened) ∧
      Run (step fun _ => 0) ⟨MysqlDB.firstOpened, []⟩ trace s ∧
      trace.map (·.2.1) = [.rollback true, .setSavePoint, .rollback true, .rollback true] ∧
      s.db.log = [.call { num := 0 } (.rollbackTo none),
        .call { num := 0 } (.releaseSavepoint none),
        .call { num := 0 } (.setSavepoint "POINT_0"),
        .call { num := 0 } (.rollbackTo (some ⟨"POINT_0", 0⟩)),
        .call { num := 0 } (.releaseSavepoint (some ⟨"POINT_0", 0⟩)),
        .call { num := 0 } (.rollbackTo (some ⟨"POINT_0", 0⟩)),
        .call { num := 0 } (.releaseSavepoint (some ⟨"POINT_0", 0⟩))] ∧
      (∀ e ∈ trace.head?, ¬ e.1.UsesLive (fun _ => 0) e.2) ∧
      ∀ e ∈ trace.getLast?, ¬ e.1.UsesLive (fun _ => 0) e.2 := by
  have hrun : Run (step fun _ => 0) ⟨MysqlDB.firstOpened, []⟩ _ _ :=
    Run.nil.snoc (a := (.rollback true, {})) rfl |>.snoc (a := (.setSavePoint, {})) rfl
    |>.snoc (a := (.rollback true, {})) rfl |>.snoc (a := (.rollback true, {})) rfl
  refine ⟨_, _, rfl, hrun, rfl, by decide +kernel, fun e he huses => ?_, fun e he huses => ?_⟩
  · obtain rfl := Option.some.inj he
    obtain ⟨p, hp, -⟩ := huses.passed [.call { num := 0 } (.rollbackTo none),
      .call { num := 0 } (.releaseSavepoint none)] rfl { num := 0 } none (.inl (by simp))
    cases hp
  · obtain rfl := Option.some.inj he
    obtain ⟨p, -, -, hlive⟩ := huses.passed
      [.call { num := 0 } (.rollbackTo (some ⟨"POINT_0", 0⟩)),
      .call { num := 0 } (.releaseSavepoint (some ⟨"POINT_0", 0⟩))] (by decide +kernel) { num := 0 }
      (some ⟨"POINT_0", 0⟩) (.inl (by simp))
    revert hlive
    have hnone : ∀ live : List Savepoint, live = [] → p ∉ live := by
      rintro live rfl
      exact List.not_mem_nil
    exact hnone _ (by decide +kernel)

end Savepoints

end SampleTools
