import SampleTools.Database.Transactions

/-!
# What the transaction calls return

`AutoCommit`, `Commit` and `Rollback` look at `ret_code` before they return. The variable is
assigned only if the driver call was not made or threw, so after a call that succeeds they
look at whatever it held before.

## Main definitions

* `TransactionCall`, `TransactionCall.run`: the three methods
* `TransactionCall.Completed`: the driver call was made and threw nothing
* `TransactionCall.ReportsTruth`: the result tells so, and only a lost server is reconnected

## Main results

* `TransactionCall.run_cases`: the common course of the three methods
* `reports_truth_iff`: the result is right unless a completed call finds the code of a lost
  server in the unassigned variable
-/

namespace SampleTools

/-- The methods that begin and end transactions. -/
inductive TransactionCall
  | autoCommit (bflag : Bool)
  | commit
  | rollback (flag : Bool)
  deriving DecidableEq, Repr

namespace TransactionCall

/-- The method. -/
def run (hash : String → UInt64) (c : TransactionCall) (env : CallEnv) (m : MysqlDB) :
    Outcome Int32 × MysqlDB :=
  match c with
  | .autoCommit bflag => m.autoCommit hash bflag env
  | .commit => m.commit hash env
  | .rollback flag => m.rollback hash flag env

/-- What the helper of the method returns and leaves in `ret_code`. -/
def tried (c : TransactionCall) (env : CallEnv) (m : MysqlDB) : Int32 × SQLError :=
  match c with
  | .autoCommit bflag => (m.mysqlAutoCommit bflag env).1
  | .commit => (m.mysqlCommit env).1
  | .rollback flag => (m.mysqlRollback flag env).1

/-- What the driver throws, if anything. -/
def throws (env : CallEnv) : TransactionCall → Option DriverError
  | .autoCommit _ => thrown env.transaction
  | .commit => thrown env.transaction
  | .rollback flag => rollbackThrows flag env

/-- The driver call was made and completed without an exception. -/
def Completed (c : TransactionCall) (env : CallEnv) (m : MysqlDB) : Prop :=
  m.current.isSome ∧ c.throws env = none

/-- The method returns 0 exactly if the driver call completed, and calls `Reconnect` only if
that call threw because the server is gone. -/
structure ReportsTruth (hash : String → UInt64) (c : TransactionCall) (env : CallEnv)
    (m : MysqlDB) : Prop where
  zero : (c.run hash env m).1 = .ok 0 ↔ c.Completed env m
  reconnect : ∀ es, (c.run hash env m).2.log = m.log ++ es → .reconnect ∈ es →
    m.current.isSome ∧ (c.throws env).any DriverError.serverGone

section Run

variable {hash : String → UInt64} {c : TransactionCall} {env : CallEnv} {m : MysqlDB}

theorem tried_of_none (h : m.current = none) : (c.tried env m).1 ≠ 0 ∧
    (c.tried env m).2 = .emptyConnection := by
  cases c <;>
    simp [tried, MysqlDB.mysqlAutoCommit, MysqlDB.mysqlCommit, MysqlDB.mysqlRollback, h]

theorem tried_of_some (c : TransactionCall) (env : CallEnv) (h : m.current.isSome) : c.tried env m =
    (if c.throws env = none then 0 else -1,
      ((c.throws env).map DriverError.code).getD env.retCode) := by
  obtain ⟨conn, h⟩ := Option.isSome_iff_exists.mp h
  cases c with
  | autoCommit bflag =>
    rcases htrans : env.transaction with e | u <;>
      simp [tried, throws, MysqlDB.mysqlAutoCommit, MysqlDB.caught, thrown, h, htrans]
  | commit =>
    rcases htrans : env.transaction with e | u <;>
      simp [tried, throws, MysqlDB.mysqlCommit, MysqlDB.caught, thrown, h, htrans]
  | rollback flag =>
    cases flag with
    | false =>
      rcases htrans : env.transaction with e | u <;>
        simp [tried, throws, MysqlDB.mysqlRollback, MysqlDB.caught, rollbackThrows, h, htrans]
    | true =>
      rcases htrans : env.transaction with e | u
      · simp [tried, throws, MysqlDB.mysqlRollback, MysqlDB.caught, rollbackThrows, h, htrans]
      · rcases hrelease : env.releaseSavepoint with e | u <;>
          simp [tried, throws, MysqlDB.mysqlRollback, MysqlDB.caught, rollbackThrows, thrown, h,
            htrans, hrelease]

/-- The object speaks to its connection, and either returns what its helper returned or goes
on to reconnect. -/
theorem run_cases (hash : String → UInt64) (c : TransactionCall) (env : CallEnv) (m : MysqlDB) :
    ∃ (m₁ : MysqlDB) (es : List DBEvent), m₁.log = m.log ++ es ∧ DBEvent.reconnect ∉ es ∧
      if (c.tried env m).2 = .mysqlServerGoneAway then c.run hash env m = m₁.giveUp hash env
      else (c.run hash env m).1 = .ok (c.tried env m).1 ∧ (c.run hash env m).2.log = m₁.log := by
  have hasks : ∀ {m' : MysqlDB}, m.Asks m' → ∃ es, m'.log = m.log ++ es ∧
      DBEvent.reconnect ∉ es := by
    rintro m' ⟨es, rfl, hes⟩
    refine ⟨es, rfl, fun hmem => ?_⟩
    obtain ⟨_, _, -, heq⟩ := hes _ hmem
    cases heq
  cases c with
  | autoCommit bflag =>
    -- the flag is set before the helper is called, which does not look at it
    have hflag : (({ m with isBeginTrans := !bflag } : MysqlDB).mysqlAutoCommit bflag env).1 =
        (m.mysqlAutoCommit bflag env).1 := by
      simp only [MysqlDB.mysqlAutoCommit, MysqlDB.current]
      cases if m.opened then m.connection else none <;> rfl
    obtain ⟨es, hlog, hes⟩ : ∃ es, (({ m with isBeginTrans := !bflag } : MysqlDB).mysqlAutoCommit
        bflag env).2.log = m.log ++ es ∧ DBEvent.reconnect ∉ es := by
      simp only [MysqlDB.mysqlAutoCommit, MysqlDB.current]
      cases if m.opened then m.connection else none with
      | none => exact ⟨[], (List.append_nil _).symm, List.not_mem_nil⟩
      | some conn =>
        refine ⟨[.call conn (.setAutoCommit bflag)], ?_, by simp⟩
        rcases env.transaction with e | u <;> rfl
    refine ⟨{ (({ m with isBeginTrans := !bflag } : MysqlDB).mysqlAutoCommit bflag env).2 with
      isBeginTrans := false }, es, hlog, hes, ?_⟩
    simp only [run, tried, MysqlDB.autoCommit, ← hflag]
    split
    · simp_all
    · refine ⟨rfl, ?_⟩
      split <;> rfl
  | commit =>
    obtain ⟨es, hlog, hes⟩ : ∃ es, (m.mysqlCommit env).2.log = m.log ++ es ∧
      DBEvent.reconnect ∉ es := hasks MysqlDB.mysqlCommit_asks
    refine ⟨(m.mysqlCommit env).2, es, hlog, hes, ?_⟩
    simp only [run, tried, MysqlDB.commit]
    split <;> simp_all
  | rollback flag =>
    obtain ⟨es, hlog, hes⟩ : ∃ es, (m.mysqlRollback flag env).2.log = m.log ++ es ∧
      DBEvent.reconnect ∉ es := hasks MysqlDB.mysqlRollback_asks
    refine ⟨(m.mysqlRollback flag env).2, es, hlog, hes, ?_⟩
    simp only [run, tried, MysqlDB.rollback]
    split <;> simp_all

theorem giveUp_ne_zero (m : MysqlDB) : (m.giveUp hash env).1 ≠ .ok 0 := by
  unfold MysqlDB.giveUp
  split <;> simp

/-- The helper returns zero exactly if the driver call completes. -/
theorem tried_eq_zero_iff : (c.tried env m).1 = 0 ↔ c.Completed env m := by
  cases hcurrent : m.current with
  | none =>
    refine iff_of_false (tried_of_none hcurrent).1 ?_
    simp [Completed, hcurrent]
  | some conn =>
    have hsome : m.current.isSome := by rw [hcurrent]; rfl
    rw [tried_of_some c env hsome, Completed]
    cases c.throws env <;> simp [hsome]

/-- A completed call leaves the code unassigned. -/
theorem tried_of_completed (h : c.Completed env m) : (c.tried env m).2 = env.retCode := by
  rw [tried_of_some c env h.1, h.2]
  rfl

/-- If a call that is not completed ends with the code of a lost server, the server is lost. -/
theorem lost_of_gone (hcode : (c.tried env m).2 = .mysqlServerGoneAway)
    (hnot : ¬ c.Completed env m) :
    m.current.isSome ∧ (c.throws env).any DriverError.serverGone := by
  have hsome : m.current.isSome := by
    by_contra h
    rw [Option.not_isSome_iff_eq_none] at h
    rw [(tried_of_none h).2] at hcode
    cases hcode
  rw [tried_of_some c env hsome] at hcode
  cases hthrows : c.throws env with
  | none => exact absurd ⟨hsome, hthrows⟩ hnot
  | some e =>
    rw [hthrows] at hcode
    exact ⟨hsome, MysqlDB.code_eq_gone_iff.mp hcode⟩

/-- **The transaction calls report the truth** about the driver call exactly if a completed
call does not find the code of a lost server in the unassigned variable. -/
theorem reports_truth_iff : ReportsTruth hash c env m ↔
    (c.Completed env m → env.retCode ≠ .mysqlServerGoneAway) := by
  obtain ⟨m₁, es, hlog, hes, hrun⟩ := run_cases hash c env m
  by_cases hcode : (c.tried env m).2 = .mysqlServerGoneAway
  -- the method goes on to reconnect and fails
  · rw [if_pos hcode] at hrun
    have hzero : ¬ (c.run hash env m).1 = .ok 0 := by
      rw [hrun]
      exact giveUp_ne_zero m₁
    by_cases hcompleted : c.Completed env m
    · have hret := (tried_of_completed hcompleted).symm.trans hcode
      exact iff_of_false (fun h => hzero (h.zero.mpr hcompleted)) fun h => h hcompleted hret
    · exact iff_of_true
        ⟨iff_of_false hzero hcompleted, fun _ _ _ => lost_of_gone hcode hcompleted⟩
        fun h => absurd h hcompleted
  -- the method returns what its helper returned
  · rw [if_neg hcode] at hrun
    refine iff_of_true ⟨?_, fun es' hes' hmem => ?_⟩ fun hcompleted hret => ?_
    · rw [hrun.1, Except.ok.injEq, tried_eq_zero_iff]
    · rw [hrun.2, hlog, List.append_cancel_left_eq] at hes'
      exact absurd (hes' ▸ hmem) hes
    · exact hcode ((tried_of_completed hcompleted).trans hret)

end Run

/-- A commit succeeds while the unassigned variable holds the code of a lost server: the method
reconnects and says that it failed. -/
theorem commit_misreports :
    let env : CallEnv := { retCode := .mysqlServerGoneAway }
    Completed .commit env MysqlDB.firstOpened ∧
      (MysqlDB.firstOpened.commit (fun _ => 0) env).1 = .ok (-1) ∧
      (MysqlDB.firstOpened.commit (fun _ => 0) env).2.log =
        [.call { num := 0 } .commit, .reconnect] ∧
      ¬ ReportsTruth (fun _ => 0) .commit env MysqlDB.firstOpened := by
  refine ⟨⟨rfl, rfl⟩, rfl, rfl, fun h => ?_⟩
  have hzero := h.zero.mpr ⟨rfl, rfl⟩
  cases hzero

end TransactionCall

end SampleTools
