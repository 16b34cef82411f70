import SampleTools.Database.Transactions

/-!
# Statements that are executed again

`Exec` takes the codes 2006 and 2013 for the same thing and executes the statement again on a new
connection. With 2013 the connection was lost during the statement, which the server may have
applied; the same holds of an error in `getUpdateCount`.

## Main definitions

* `executions`: how often a log has a statement executed
* `MysqlDB.applications`: how often the server applies the statement of one call of `Exec`
* `MysqlDB.AppliesTwice`: the first execution is applied, and so is a second one

## Main results

* `MysqlDB.exec_log`: the executions of one call of `Exec`
* `MysqlDB.applications_le_one_iff`: when a statement is applied at most once
-/

namespace SampleTools

/-- The event executes the statement. -/
def DBEvent.executes (sql : String) : DBEvent → Bool
  | .call _ (.execute sql') => sql' = sql
  | _ => false

/-- How often a log has a statement executed. -/
def executions (sql : String) (log : List DBEvent) : ℕ := log.countP (DBEvent.executes sql)

@[simp] theorem executions_append (sql : String) (log log' : List DBEvent) :
    executions sql (log ++ log') = executions sql log + executions sql log' := List.countP_append

@[simp] theorem executions_replicate_reconnect (sql : String) (n : ℕ) :
    executions sql (List.replicate n .reconnect) = 0 := by
  simp [executions, List.countP_replicate, DBEvent.executes]

namespace MysqlDB

/-- `MysqlExec` executes its statement. -/
def Executes (sql : String) (env : StatementEnv) (m : MysqlDB) : Prop :=
  m.current.isSome ∧ sql.isEmpty = false ∧ env.createStatement = .ok true

instance (sql : String) (env : StatementEnv) (m : MysqlDB) : Decidable (m.Executes sql env) :=
  inferInstanceAs (Decidable (_ ∧ _))

/-- How often the server applies the statement of one call of `Exec`; `applies` tells whether it
does so at the `n`-th execution, whatever the driver then says of it. -/
def applications (hash : String → UInt64) (sql : String) (env : CallEnv) (applies : ℕ → Bool)
    (m : MysqlDB) : ℕ :=
  (List.range (executions sql ((m.exec hash sql env).2.log.drop m.log.length))).countP applies

/-- The statement is executed and applied, the server is taken for gone, a reconnect succeeds
outside of a transaction, and the statement is executed and applied again. -/
def AppliesTwice (sql : String) (env : CallEnv) (applies : ℕ → Bool) (m : MysqlDB) : Prop :=
  m.Executes sql env.first ∧ applies 0 = true ∧ m.TakenForGone (.exec sql) env ∧ m.Reopens env ∧
    m.isBeginTrans = false ∧ env.retry.createStatement = .ok true ∧ applies 1 = true

instance (sql : String) (env : CallEnv) (applies : ℕ → Bool) (m : MysqlDB) :
    Decidable (m.AppliesTwice sql env applies) := by
  unfold AppliesTwice
  infer_instance

section Exec

variable {hash : String → UInt64} {sql : String} {env : CallEnv} {applies : ℕ → Bool} {m : MysqlDB}

/-- One try executes the statement at most once. -/
theorem mysqlExec_log (sql : String) (env : StatementEnv) (m : MysqlDB) :
    ∃ es, (m.mysqlExec sql env).2.log = m.log ++ es ∧
      executions sql es = if m.Executes sql env then 1 else 0 := by
  by_cases hexecutes : m.Executes sql env
  · obtain ⟨hcurrent, hempty, hcreate⟩ := hexecutes
    obtain ⟨conn, hconn⟩ := Option.isSome_iff_exists.mp hcurrent
    refine ⟨[.call conn .createStatement, .call conn (.execute sql)], ?_, ?_⟩
    -- it was executed, whether or not `execute` and `getUpdateCount` throw
    · simp only [mysqlExec, hconn, hempty, Bool.false_eq_true, if_false, hcreate]
      rcases env.execute with e | u
      · simp [ask]
      · rcases env.getUpdateCount with e | n <;> simp [ask]
    · rw [if_pos ⟨hcurrent, hempty, hcreate⟩]
      simp [executions, DBEvent.executes]
  · rw [if_neg hexecutes]
    unfold Executes at hexecutes
    unfold mysqlExec
    cases hconn : m.current with
    | none => exact ⟨[], (List.append_nil _).symm, rfl⟩
    | some conn =>
      cases hempty : sql.isEmpty with
      | true => exact ⟨[], (List.append_nil _).symm, rfl⟩
      | false =>
        refine ⟨[.call conn .createStatement], ?_, rfl⟩
        rcases hcreate : env.createStatement with e | created
        · rfl
        · cases created with
          | false => rfl
          | true => exact absurd ⟨by rw [hconn]; rfl, hempty, hcreate⟩ hexecutes

/-- `Exec` goes on to a second try, which executes the statement. -/
def ExecutesAgain (sql : String) (env : CallEnv) (m : MysqlDB) : Prop :=
  m.TakenForGone (.exec sql) env ∧ m.Reopens env ∧ m.isBeginTrans = false ∧
    env.retry.createStatement = .ok true

instance (sql : String) (env : CallEnv) (m : MysqlDB) : Decidable (m.ExecutesAgain sql env) := by
  unfold ExecutesAgain
  infer_instance

theorem exec_of_not_gone (hash : String → UInt64) (h : ¬ m.TakenForGone (.exec sql) env) :
    (m.exec hash sql env).2 = (m.mysqlExec sql env.first).2 := by
  have hcode : (m.mysqlExec sql env.first).1.2 ≠ .mysqlServerGoneAway :=
    fun hcode => h ((mysqlExec_gone_iff sql env.first m).mp hcode)
  exact congrArg Prod.snd (tryAgain_of_not_gone hash (-1) hcode)

/-- A server that is gone: after the reconnects there is a second try on the new connection, if
there is one and no transaction. -/
theorem exec_of_gone (hash : String → UInt64) (h : m.TakenForGone (.exec sql) env) :
    ∃ m₂ n, m₂.log = (m.mysqlExec sql env.first).2.log ++ List.replicate n .reconnect ∧
      (m.Reopens env → m₂.current.isSome) ∧ (m.exec hash sql env).2 =
        if m.Reopens env ∧ m.isBeginTrans = false then (m₂.mysqlExec sql env.retry).2 else m₂ := by
  have hcode : (m.mysqlExec sql env.first).1.2 = .mysqlServerGoneAway :=
    (mysqlExec_gone_iff sql env.first m).mpr h
  obtain ⟨m₂, n, hlog, heffect, heq, -⟩ :=
    tryAgain_of_gone hash (fun env m => mysqlExec_asks sql env m) (-1) hcode
  refine ⟨m₂, n, hlog, fun hreopens => ?_, heq⟩
  obtain ⟨hconn, hopened⟩ := heffect.fresh hreopens
  rw [current, hopened, if_pos rfl, hconn]
  rfl

/-- `Exec` executes its statement once, and once more on a new connection. -/
theorem exec_log (hash : String → UInt64) (sql : String) (env : CallEnv) (m : MysqlDB) :
    ∃ es, (m.exec hash sql env).2.log = m.log ++ es ∧ executions sql es =
      (if m.Executes sql env.first then 1 else 0) + if m.ExecutesAgain sql env then 1 else 0 := by
  obtain ⟨es, hlog, hexecutions⟩ := mysqlExec_log sql env.first m
  by_cases hgone : m.TakenForGone (.exec sql) env
  · obtain ⟨m₂, n, hlog₂, hcurrent, heq⟩ := exec_of_gone hash hgone
    rw [hlog, List.append_assoc] at hlog₂
    have hsame : executions sql (es ++ List.replicate n .reconnect) =
        if m.Executes sql env.first then 1 else 0 := by
      rw [executions_append, executions_replicate_reconnect, hexecutions, Nat.add_zero]
    rw [heq]
    by_cases hretry : m.Reopens env ∧ m.isBeginTrans = false
    -- the second try, on the new connection
    · obtain ⟨es', hlog', hexecutions'⟩ := mysqlExec_log sql env.retry m₂
      have hagain : m.ExecutesAgain sql env ↔ m₂.Executes sql env.retry :=
        ⟨fun h => ⟨hcurrent hretry.1, hgone.2.1, h.2.2.2⟩,
          fun h => ⟨hgone, hretry.1, hretry.2, h.2.2⟩⟩
      rw [if_pos hretry]
      refine ⟨es ++ List.replicate n .reconnect ++ es', ?_, ?_⟩
      · rw [hlog', hlog₂, List.append_assoc]
      · simp only [executions_append _ _ es', hsame, hexecutions', hagain]
    · have hagain : ¬ m.ExecutesAgain sql env := fun h => hretry ⟨h.2.1, h.2.2.1⟩
      rw [if_neg hretry, if_neg hagain]
      exact ⟨_, hlog₂, hsame⟩
  · have hagain : ¬ m.ExecutesAgain sql env := fun h => hgone h.1
    rw [exec_of_not_gone hash hgone, if_neg hagain]
    exact ⟨es, hlog, hexecutions⟩

/-- **A statement is applied at most once exactly if the retry is not a second application.** For
every statement and whatever driver and server do: exactly if not at once the first execution
was applied, an error 2006 or 2013 came nevertheless, a reconnect succeeded outside of a
transaction, and the statement was executed and applied again. -/
theorem applications_le_one_iff : m.applications hash sql env applies ≤ 1 ↔
    ¬ m.AppliesTwice sql env applies := by
  obtain ⟨es, hlog, hexecutions⟩ := exec_log hash sql env m
  rw [applications, hlog, List.drop_left, hexecutions]
  have htwice : m.AppliesTwice sql env applies ↔
      (m.Executes sql env.first ∧ m.ExecutesAgain sql env) ∧ applies 0 = true ∧
        applies 1 = true := by
    unfold AppliesTwice ExecutesAgain
    tauto
  have hle : ∀ n, (List.range n).countP applies ≤ n := by
    intro n
    have hlength := List.countP_le_length (p := applies) (l := List.range n)
    rwa [List.length_range] at hlength
  rw [htwice]
  split_ifs with hfirst hagain hagain
  · cases h0 : applies 0 <;> cases h1 : applies 1 <;> simp [List.range_succ, hfirst, hagain, h0, h1]
  · exact iff_of_true (hle 1) fun h => hagain h.1.2
  · exact iff_of_true (hle 1) fun h => hfirst h.1.1
  · exact iff_of_true (Nat.zero_le 1) fun h => hfirst h.1.1

end Exec

/-- The connection is lost during the statement. -/
def lostEnv : CallEnv where
  first := { execute := .error (.sqlException 2013) }

/-- The server applies a statement and the connection is lost before the answer: the statement
is applied again, and the caller is told of one changed row. -/
theorem applications_two :
    (firstOpened.exec (fun _ => 0) "UPDATE t" lostEnv).1 = .ok (1, .success) ∧
      firstOpened.applications (fun _ => 0) "UPDATE t" lostEnv (fun _ => true) = 2 := by
  decide +kernel

end MysqlDB

end SampleTools
