import SampleTools.Database.MysqlDB

/-!
# Transactions of a database object

`is_begin_trans_` stands for the auto-commit mode of the connection. A reconnect puts the
object on a new connection, whose mode is on, and does not look at the flag. The calls
that end a transaction look at an error code that is not assigned when the driver call
succeeds.

## Main definitions

* `MysqlCall`, `MysqlDB.after`: the public methods, and the object after a call
* `MysqlDB.FlagMatches`: the flag is the auto-commit mode
* `MysqlDB.KeepsMode`: the calls that keep it so

## Main results

* `MysqlDB.after_effect`: what a call other than `AutoCommit` does
* `MysqlDB.flagMatches_after_iff`: the step lemma
* `MysqlDB.flag_matches_iff`: in a run, the flag is the mode exactly as long as the calls keep it
-/

namespace SampleTools

/-- The public methods of `MysqlDB` that run statements and transactions. -/
inductive MysqlCall
  | autoCommit (bflag : Bool)
  | beginTrans
  | exec (sql : String)
  | query (sql : String)
  | prepared (sql : String)
  | commit
  | rollback (flag : Bool)
  deriving DecidableEq, Repr

theorem MysqlCall.autoCommit_or (call : MysqlCall) :
    (∃ bflag, call = .autoCommit bflag) ∨ ∀ bflag, call ≠ .autoCommit bflag := by
  cases call with
  | autoCommit bflag => exact .inl ⟨bflag, rfl⟩
  | _ => exact .inr fun bflag h => by cases h

/-- What a transaction call throws. -/
def thrown (outcome : Outcome Unit) : Option DriverError :=
  match outcome with
  | .ok () => none
  | .error e => some e

/-- What `MysqlRollback` catches. -/
def rollbackThrows (flag : Bool) (env : CallEnv) : Option DriverError :=
  match env.transaction with
  | .error e => some e
  | .ok () => if flag then thrown env.releaseSavepoint else none

namespace MysqlDB

/-- The object after a call. -/
def after (hash : String → UInt64) (call : MysqlCall) (env : CallEnv) (m : MysqlDB) : MysqlDB :=
  match call with
  | .autoCommit bflag => (m.autoCommit hash bflag env).2
  | .beginTrans => m.beginTrans.2
  | .exec sql => (m.exec hash sql env).2
  | .query sql => (m.query hash sql env).2
  | .prepared sql => (m.prepared hash sql env).2
  | .commit => (m.commit hash env).2
  | .rollback flag => (m.rollback hash flag env).2

/-- The flag is set exactly when the connection has auto-commit switched off. -/
def FlagMatches (m : MysqlDB) : Prop :=
  m.isBeginTrans = true ↔ ∃ conn, m.connection = some conn ∧ conn.autoCommit = false

/-- A statement of a given text, for which the driver throws `e` if anything, ends with the
code of a server that is gone. -/
def StatementGone (sql : String) (e : Option DriverError) (m : MysqlDB) : Prop :=
  m.current.isSome ∧ sql.isEmpty = false ∧ e.any DriverError.serverGone

/-- A transaction call for which the driver throws `e` if anything ends with the code of a
server that is gone. The code is not assigned if nothing is thrown. -/
def TransactionGone (e : Option DriverError) (retCode : SQLError) (m : MysqlDB) : Prop :=
  m.current.isSome ∧ (e.map DriverError.code).getD retCode = .mysqlServerGoneAway

/-- The call takes the server for gone. -/
def TakenForGone (call : MysqlCall) (env : CallEnv) (m : MysqlDB) : Prop :=
  match call with
  | .exec sql => StatementGone sql (execThrows env.first) m
  | .prepared sql => StatementGone sql (preparedThrows env.first) m
  | .query sql => StatementGone sql (queryThrows env.first) m
  | .autoCommit _ => TransactionGone (thrown env.transaction) env.retCode m
  | .commit => TransactionGone (thrown env.transaction) env.retCode m
  | .rollback flag => TransactionGone (rollbackThrows flag env) env.retCode m
  | .beginTrans => False

/-- The calls the method makes inside a transaction are made on the connection the object had
before, and this connection has auto-commit switched off. -/
def StaysOn (hash : String → UInt64) (call : MysqlCall) (env : CallEnv) (m : MysqlDB) : Prop :=
  m.isBeginTrans = true → ∀ es, (m.after hash call env).log = m.log ++ es →
    ∀ conn c, .call conn c ∈ es → m.connection = some conn ∧ conn.autoCommit = false

/-- One of the three reconnects of a call succeeds. -/
def Reopens (env : CallEnv) (m : MysqlDB) : Prop := m.reopensIn env.reconnects 3 = .ok true

/-- The call leaves flag and mode in step: inside a transaction nothing puts the object on a
new connection, and `AutoCommit` does not clear the flag over a connection with the mode off. -/
def KeepsMode (call : MysqlCall) (env : CallEnv) (m : MysqlDB) : Prop :=
  match call with
  | .autoCommit bflag =>
    match env.transaction with
    | .error e => m.isBeginTrans = true → e.serverGone = true ∧ m.Reopens env
    | .ok () => m.current.isSome → env.retCode = .mysqlServerGoneAway → bflag = false →
      m.Reopens env
  | call => m.isBeginTrans = true → ¬ (m.TakenForGone call env ∧ m.Reopens env)

instance (call : MysqlCall) (env : CallEnv) (m : MysqlDB) :
    Decidable (m.TakenForGone call env) := by
  unfold TakenForGone StatementGone TransactionGone
  split <;> infer_instance

instance (env : CallEnv) (m : MysqlDB) : Decidable (m.Reopens env) := by
  unfold Reopens
  infer_instance

instance (call : MysqlCall) (env : CallEnv) (m : MysqlDB) : Decidable (m.KeepsMode call env) := by
  unfold KeepsMode
  split
  · split <;> infer_instance
  · infer_instance

/-! ## What a call does -/

/-- A call that may put the object on a new connection and does not touch the flag. Inside a
transaction it speaks to the old connection only. -/
structure Effect (replaced : Prop) (m m' : MysqlDB) : Prop where
  flag : m'.isBeginTrans = m.isBeginTrans
  fresh : replaced → m'.connection = some { num := m.made } ∧ m'.opened = true
  same : ¬ replaced → m'.connection = m.connection ∧ m'.opened = m.opened
  log : ∃ es, m'.log = m.log ++ es ∧
    (m.isBeginTrans = true → ∀ conn c, .call conn c ∈ es → m.current = some conn)

section Effect

variable {hash : String → UInt64} {m m' : MysqlDB} {env : CallEnv}

theorem Asks.calls {es : List DBEvent}
    (h : ∀ ev ∈ es, ∃ conn c, m.current = some conn ∧ ev = DBEvent.call conn c)
    (conn : Connection) (c : DriverCall) (hmem : .call conn c ∈ es) : m.current = some conn := by
  obtain ⟨_, _, hcurrent, heq⟩ := h _ hmem
  cases heq
  exact hcurrent

/-- How reconnects end does not depend on the calls made before. -/
theorem Asks.reopensIn (h : Asks m m') (reconnects : ℕ → ReconnectEnv) (count : ℕ) :
    m'.reopensIn reconnects count = m.reopensIn reconnects count := by
  obtain ⟨es, rfl, -⟩ := h
  exact reopensIn_congr m { m with log := m.log ++ es } rfl rfl reconnects count

/-- Calls on the connection, then reconnects that end as `m.reopensIn` says. -/
theorem Effect.reconnected (env : CallEnv) {m₁ : MysqlDB} (h : Asks m m₁) (dbSn : UInt64) (n : ℕ) :
    Effect (m.Reopens env) m
      (m₁.reconnected (m.reopensIn env.reconnects 3) dbSn (List.replicate n .reconnect)) := by
  obtain ⟨es, rfl, hes⟩ := h
  have hlog : m.isBeginTrans = true → ∀ conn c,
      .call conn c ∈ es ++ List.replicate n .reconnect → m.current = some conn := by
    intro _ conn c hmem
    rcases List.mem_append.mp hmem with hmem | hmem
    · exact Asks.calls hes conn c hmem
    · cases List.eq_of_mem_replicate hmem
  unfold Reopens
  rcases m.reopensIn env.reconnects 3 with e | ok
  · exact ⟨rfl, (fun h => by cases h), fun _ => ⟨rfl, rfl⟩, _, List.append_assoc _ _ _, hlog⟩
  · cases ok with
    | false =>
      exact ⟨rfl, (fun h => by cases h), fun _ => ⟨rfl, rfl⟩, _, List.append_assoc _ _ _, hlog⟩
    | true =>
      exact ⟨rfl, fun _ => ⟨rfl, rfl⟩, fun h => absurd rfl h, _, List.append_assoc _ _ _, hlog⟩

theorem Effect.asks (h : Asks m m') {replaced : Prop} (hnot : ¬ replaced) :
    Effect replaced m m' := by
  obtain ⟨es, rfl, hes⟩ := h
  exact ⟨rfl, fun h => absurd h hnot, fun _ => ⟨rfl, rfl⟩, es, rfl,
    fun _ => Asks.calls hes⟩

/-- A server that is there: there is no second try. -/
theorem tryAgain_of_not_gone {α : Type} (hash : String → UInt64)
    {run : StatementEnv → MysqlDB → (α × SQLError) × MysqlDB} (failed : α)
    (h : (run env.first m).1.2 ≠ .mysqlServerGoneAway) :
    m.tryAgain hash run failed env = (.ok (run env.first m).1, (run env.first m).2) := if_pos h

/-- A server that is gone: after the reconnects there is a second try on the new connection, if
there is one and no transaction. Only the reconnects throw. -/
theorem tryAgain_of_gone {α : Type} (hash : String → UInt64)
    {run : StatementEnv → MysqlDB → (α × SQLError) × MysqlDB}
    (hasks : ∀ env m, Asks m (run env m).2) (failed : α)
    (h : (run env.first m).1.2 = .mysqlServerGoneAway) : ∃ m₂ n,
      m₂.log = (run env.first m).2.log ++ List.replicate n .reconnect ∧
      Effect (m.Reopens env) m m₂ ∧ (m.tryAgain hash run failed env).2 =
        (if m.Reopens env ∧ m.isBeginTrans = false then (run env.retry m₂).2 else m₂) ∧
      ((∃ e, (m.tryAgain hash run failed env).1 = .error e) ↔
        ∃ e, m.reopensIn env.reconnects 3 = .error e) := by
  obtain ⟨dbSn, n, hloop⟩ := (run env.first m).2.reconnectLoop_eq hash env.reconnects 3
  have hlog := reconnected_log (m := (run env.first m).2) (m.reopensIn env.reconnects 3) dbSn
    (List.replicate n .reconnect)
  have heffect := Effect.reconnected env (hasks env.first m) dbSn n
  rw [(hasks env.first m).reopensIn] at hloop
  refine ⟨_, n, hlog, heffect, ?_⟩
  have hflag := heffect.flag
  unfold tryAgain
  simp only [h, ne_eq, not_true_eq_false, if_false, hloop]
  -- without a new connection there is no second try
  have hnot : ∀ {outcome}, m.reopensIn env.reconnects 3 = outcome → outcome ≠ .ok true →
      ¬ (m.Reopens env ∧ m.isBeginTrans = false) :=
    fun heq hne h => hne (heq.symm.trans h.1)
  rcases houtcome : m.reopensIn env.reconnects 3 with e | ok
  · rw [if_neg (hnot houtcome (by simp))]
    simp
  · cases ok with
    | false =>
      rw [if_neg (hnot houtcome (by simp))]
      simp
    | true =>
      rw [houtcome] at hflag
      dsimp only
      rw [hflag]
      cases htrans : m.isBeginTrans with
      | true =>
        rw [if_pos rfl, if_neg fun h => Bool.noConfusion h.2]
        simp
      | false =>
        rw [if_neg Bool.false_ne_true, if_pos ⟨houtcome, rfl⟩]
        simp

theorem tryAgain_effect {α : Type} (hash : String → UInt64)
    {run : StatementEnv → MysqlDB → (α × SQLError) × MysqlDB}
    (hasks : ∀ env m, Asks m (run env m).2) (failed : α) (env : CallEnv) (m : MysqlDB) :
    Effect ((run env.first m).1.2 = .mysqlServerGoneAway ∧ m.Reopens env) m
      (m.tryAgain hash run failed env).2 := by
  by_cases hgone : (run env.first m).1.2 = .mysqlServerGoneAway
  · obtain ⟨m₂, -, -, heffect, heq, -⟩ := tryAgain_of_gone hash hasks failed hgone
    simp only [hgone, true_and]
    rw [heq]
    split_ifs with hretry
    -- the second try, outside a transaction
    · obtain ⟨es, hsecond, -⟩ := hasks env.retry m₂
      obtain ⟨es', hlog, -⟩ := heffect.log
      rw [hsecond]
      refine ⟨heffect.flag, heffect.fresh, heffect.same, es' ++ es, ?_, fun hflag => ?_⟩
      · rw [← List.append_assoc, ← hlog]
      · exact absurd (hflag.symm.trans hretry.2) (by simp)
    · exact heffect
  · rw [tryAgain_of_not_gone hash failed hgone]
    exact .asks (hasks env.first m) fun h => hgone h.1

theorem giveUp_effect {m₁ : MysqlDB} (h : Asks m m₁) :
    Effect (m.Reopens env) m (m₁.giveUp hash env).2 := by
  obtain ⟨dbSn, n, hloop⟩ := m₁.reconnectLoop_eq hash env.reconnects 3
  have heffect := Effect.reconnected env h dbSn n
  rw [h.reopensIn] at hloop
  unfold Reopens at heffect ⊢
  rw [giveUp, hloop]
  generalize m.reopensIn env.reconnects 3 = outcome at heffect ⊢
  cases outcome with
  | error e => exact heffect
  | ok b => exact heffect

theorem caught_snd {outcome : Outcome Unit} {retCode : SQLError} :
    (caught outcome retCode).2 = ((thrown outcome).map DriverError.code).getD retCode := by
  cases outcome <;> rfl

theorem mysqlCommit_eq : (m.mysqlCommit env).1.2 = .mysqlServerGoneAway ↔
    TransactionGone (thrown env.transaction) env.retCode m := by
  unfold mysqlCommit TransactionGone
  cases m.current <;> simp [caught_snd]

theorem mysqlRollback_eq {flag : Bool} : (m.mysqlRollback flag env).1.2 = .mysqlServerGoneAway ↔
    TransactionGone (rollbackThrows flag env) env.retCode m := by
  unfold mysqlRollback TransactionGone rollbackThrows
  cases m.current with
  | none => simp
  | some conn =>
    cases flag with
    | false => rcases env.transaction with e | u <;> simp [caught]
    | true => rcases env.transaction with e | u <;> simp [caught_snd, thrown]

theorem mysqlCommit_asks : Asks m (m.mysqlCommit env).2 := by
  unfold mysqlCommit
  split
  · exact .refl m
  next conn hcurrent => exact (Asks.refl m).ask hcurrent .commit

theorem mysqlRollback_asks {flag : Bool} : Asks m (m.mysqlRollback flag env).2 := by
  unfold mysqlRollback
  split
  · exact .refl m
  next conn hcurrent =>
    have hto := (Asks.refl m).ask hcurrent (.rollbackTo m.point)
    split
    · dsimp only
      split
      · exact hto
      · exact hto.ask hcurrent (.releaseSavepoint m.point)
    · exact (Asks.refl m).ask hcurrent .rollback

/-- Every call but `AutoCommit` may put the object on a new connection, and does nothing
else to it. -/
theorem after_effect {call : MysqlCall} (hcall : ∀ bflag, call ≠ .autoCommit bflag) :
    Effect (m.TakenForGone call env ∧ m.Reopens env) m (m.after hash call env) := by
  cases call with
  | autoCommit bflag => exact absurd rfl (hcall bflag)
  | beginTrans =>
    exact ⟨rfl, fun h => absurd h.1 not_false, fun _ => ⟨rfl, rfl⟩, [],
      (List.append_nil _).symm, fun _ _ _ h => by cases h⟩
  | exec sql =>
    have h := tryAgain_effect hash (fun env m => mysqlExec_asks sql env m) (-1) env m
    rwa [mysqlExec_gone_iff] at h
  | prepared sql =>
    have h := tryAgain_effect hash (fun env m => mysqlPrepared_asks sql env m) none env m
    rwa [mysqlPrepared_gone_iff] at h
  | query sql =>
    have h := tryAgain_effect hash (fun env m => mysqlQuery_asks sql env m) none env m
    rwa [mysqlQuery_gone_iff] at h
  | commit =>
    have hasks : Asks m (m.mysqlCommit env).2 := mysqlCommit_asks
    simp only [after, commit, TakenForGone, ← mysqlCommit_eq]
    split
    next hgone => exact .asks hasks fun h => hgone h.1
    next hgone =>
      rw [not_not] at hgone
      simpa only [hgone, true_and] using giveUp_effect hasks
  | rollback flag =>
    have hasks : Asks m (m.mysqlRollback flag env).2 := mysqlRollback_asks
    simp only [after, rollback, TakenForGone, ← mysqlRollback_eq]
    split
    next hgone => exact .asks hasks fun h => hgone h.1
    next hgone =>
      rw [not_not] at hgone
      simpa only [hgone, true_and] using giveUp_effect hasks

theorem reconnected_opened (outcome : Outcome Bool) (dbSn : UInt64) (es : List DBEvent)
    (hopened : m.opened = m.connection.isSome) :
    (m.reconnected outcome dbSn es).opened =
      (m.reconnected outcome dbSn es).connection.isSome := by
  rcases outcome with e | ok
  · exact hopened
  · cases ok with
    | false => exact hopened
    | true => rfl

theorem giveUp_eq (hash : String → UInt64) (env : CallEnv) (m : MysqlDB) :
    ∃ dbSn n, (m.giveUp hash env).2 =
      m.reconnected (m.reopensIn env.reconnects 3) dbSn (List.replicate n .reconnect) := by
  obtain ⟨dbSn, n, hloop⟩ := m.reconnectLoop_eq hash env.reconnects 3
  refine ⟨dbSn, n, ?_⟩
  rw [giveUp, hloop]
  generalize m.reopensIn env.reconnects 3 = outcome
  cases outcome <;> rfl

end Effect

/-! ## The flag and the mode -/

section Flag

variable {hash : String → UInt64} {m : MysqlDB} {call : MysqlCall} {env : CallEnv}

theorem flagMatches_of_none (hflag : m.isBeginTrans = false) (hconn : m.connection = none) :
    m.FlagMatches := by
  simp [FlagMatches, hflag, hconn]

theorem flagMatches_congr {m' : MysqlDB} (hflag : m'.isBeginTrans = m.isBeginTrans)
    (hconn : m'.connection = m.connection) : m'.FlagMatches ↔ m.FlagMatches := by
  rw [FlagMatches, FlagMatches, hflag, hconn]

theorem flagMatches_some_iff (conn : Connection) (hconn : m.connection = some conn) :
    m.FlagMatches ↔ m.isBeginTrans = !conn.autoCommit := by
  unfold FlagMatches
  rw [hconn]
  cases m.isBeginTrans <;> cases h : conn.autoCommit <;> simp [h]

/-- With the flag cleared, the reconnects of a call may set the mode on again. -/
theorem flagMatches_giveUp_iff {conn : Connection} (hflag : m.isBeginTrans = false)
    (hconn : m.connection = some conn) :
    (m.giveUp hash env).2.FlagMatches ↔ m.Reopens env ∨ conn.autoCommit = true := by
  obtain ⟨dbSn, n, h⟩ := m.giveUp_eq hash env
  rw [h, Reopens]
  generalize m.reopensIn env.reconnects 3 = outcome
  have hkept : m.FlagMatches ↔ conn.autoCommit = true := by
    rw [flagMatches_some_iff conn hconn]
    simp [hflag]
  rcases outcome with e | ok
  · refine (Iff.trans (flagMatches_congr ?_ ?_) hkept).trans ?_ <;> simp [reconnected]
  · cases ok with
    | false => refine (Iff.trans (flagMatches_congr ?_ ?_) hkept).trans ?_ <;> simp [reconnected]
    | true =>
      have hfresh : (m.reconnected (.ok true) dbSn (List.replicate n .reconnect)).connection =
        some { num := m.made } := rfl
      rw [flagMatches_some_iff _ hfresh]
      simp [reconnected, hflag]

/-- The driver switches the mode. A code that happens to say that the server is gone clears
the flag again. -/
theorem autoCommit_of_ok {bflag : Bool} {conn : Connection} (hcurrent : m.current = some conn)
    (htrans : env.transaction = .ok ()) :
    (m.autoCommit hash bflag env).2 =
      let m' : MysqlDB := { m with
        isBeginTrans := !bflag
        connection := some { conn with autoCommit := bflag }
        log := m.log ++ [.call conn (.setAutoCommit bflag)] }
      if env.retCode = .mysqlServerGoneAway
        then (({ m' with isBeginTrans := false } : MysqlDB).giveUp hash env).2 else m' := by
  rw [current] at hcurrent
  simp only [autoCommit, mysqlAutoCommit, current, hcurrent, htrans, caught, ask]
  by_cases hcode : env.retCode = .mysqlServerGoneAway
  · simp [hcode]
  · simp [hcode]

/-- The driver throws: the flag is cleared. -/
theorem autoCommit_of_error {bflag : Bool} {conn : Connection} {e : DriverError}
    (hcurrent : m.current = some conn) (htrans : env.transaction = .error e) :
    (m.autoCommit hash bflag env).2 =
      let m' : MysqlDB := { m with
        isBeginTrans := false, log := m.log ++ [.call conn (.setAutoCommit bflag)] }
      if e.serverGone then (m'.giveUp hash env).2 else m' := by
  rw [current] at hcurrent
  simp only [autoCommit, mysqlAutoCommit, current, hcurrent, htrans, caught, ask]
  by_cases hgone : e.serverGone = true
  · simp [hgone, code_eq_gone_iff]
  · simp [hgone, code_eq_gone_iff]

theorem flagMatches_autoCommit_iff {bflag : Bool} (hopened : m.opened = m.connection.isSome)
    (hm : m.FlagMatches) :
    (m.autoCommit hash bflag env).2.FlagMatches ↔ m.KeepsMode (.autoCommit bflag) env := by
  cases hconn : m.connection with
  | none =>
    -- without a connection the call changes nothing
    have hcurrent : m.current = none := by simp [current, hconn]
    have hflag : ¬ m.isBeginTrans = true := by
      intro h
      obtain ⟨conn, hsome, -⟩ := hm.mp h
      rw [hconn] at hsome
      cases hsome
    have hafter : (m.autoCommit hash bflag env).2.FlagMatches := by
      refine flagMatches_of_none ?_ ?_ <;> simp [autoCommit, mysqlAutoCommit, current, hconn]
    refine iff_of_true hafter ?_
    simp only [KeepsMode]
    split
    · exact fun h => absurd h hflag
    · simp [hcurrent]
  | some conn =>
    have hopened : m.opened = true := by rw [hopened, hconn]; rfl
    have hcurrent : m.current = some conn := by rw [current, if_pos hopened, hconn]
    have hmode : m.isBeginTrans = !conn.autoCommit := (flagMatches_some_iff conn hconn).mp hm
    simp only [KeepsMode, hcurrent]
    rcases htrans : env.transaction with e | u
    · -- the driver throws: the flag is cleared although the mode of the connection stands
      rw [autoCommit_of_error hcurrent htrans]
      have hreopens := reopensIn_congr m { m with
        isBeginTrans := false, log := m.log ++ [.call conn (.setAutoCommit bflag)] } rfl rfl
        env.reconnects 3
      by_cases hgone : e.serverGone = true
      · simp only [hgone, if_true, true_and, hmode]
        refine Iff.trans (flagMatches_giveUp_iff ?_ hconn) ?_
        · rfl
        · rw [Reopens, hreopens, Reopens]
          cases conn.autoCommit <;> simp
      · simp only [hgone, hmode]
        refine Iff.trans (flagMatches_some_iff conn hconn) ?_
        cases conn.autoCommit <;> simp
    · -- no exception: a retCode of an earlier call can still make it reconnect
      rw [autoCommit_of_ok hcurrent htrans]
      have hreopens := reopensIn_congr m { m with
        isBeginTrans := false
        connection := some { conn with autoCommit := bflag }
        log := m.log ++ [.call conn (.setAutoCommit bflag)] } (by rw [hconn]; rfl) rfl
        env.reconnects 3
      by_cases hcode : env.retCode = .mysqlServerGoneAway
      · simp only [hcode, if_true, Option.isSome_some, forall_const]
        refine Iff.trans (flagMatches_giveUp_iff rfl rfl) ?_
        rw [Reopens, hreopens, Reopens]
        cases bflag <;> simp
      · simp only [hcode, if_false]
        refine iff_of_true ((flagMatches_some_iff _ rfl).mpr rfl) ?_
        simp

theorem giveUp_opened (hopened : m.opened = m.connection.isSome) :
    (m.giveUp hash env).2.opened = (m.giveUp hash env).2.connection.isSome := by
  obtain ⟨dbSn, n, h⟩ := m.giveUp_eq hash env
  rw [h]
  exact reconnected_opened _ _ _ hopened

/-- `open_` says whether there is a connection. -/
theorem after_opened (hopened : m.opened = m.connection.isSome) :
    (m.after hash call env).opened = (m.after hash call env).connection.isSome := by
  rcases call.autoCommit_or with ⟨bflag, rfl⟩ | hcall
  · simp only [after]
    cases hcurrent : m.current with
    | none =>
      rw [current] at hcurrent
      simpa [autoCommit, mysqlAutoCommit, current, hcurrent] using hopened
    | some conn =>
      have hsome : m.opened = true := by
        by_contra h
        simp [current, h] at hcurrent
      rcases htrans : env.transaction with e | u
      · rw [autoCommit_of_error hcurrent htrans]
        dsimp only
        split
        · exact giveUp_opened hopened
        · exact hopened
      · rw [autoCommit_of_ok hcurrent htrans]
        dsimp only
        split
        · exact giveUp_opened hsome
        · exact hsome
  · have heffect : Effect (m.TakenForGone call env ∧ m.Reopens env) m (m.after hash call env) :=
      after_effect hcall
    by_cases hreplaced : m.TakenForGone call env ∧ m.Reopens env
    · rw [(heffect.fresh hreplaced).1, (heffect.fresh hreplaced).2]
      rfl
    · rw [(heffect.same hreplaced).1, (heffect.same hreplaced).2, hopened]

theorem giveUp_log (hash : String → UInt64) (env : CallEnv) (m : MysqlDB) :
    ∃ n, (m.giveUp hash env).2.log = m.log ++ List.replicate n .reconnect := by
  obtain ⟨dbSn, n, heq⟩ := m.giveUp_eq hash env
  exact ⟨n, by rw [heq, reconnected_log]⟩

/-- `AutoCommit` calls the connection once. -/
theorem autoCommit_log (hash : String → UInt64) (bflag : Bool) (env : CallEnv) (m : MysqlDB) :
    ∃ es, (m.autoCommit hash bflag env).2.log = m.log ++ es ∧
      ∀ conn c, .call conn c ∈ es → m.current = some conn := by
  cases hcurrent : m.current with
  | none =>
    rw [current] at hcurrent
    exact ⟨[], by simp [autoCommit, mysqlAutoCommit, current, hcurrent], fun _ _ h => by cases h⟩
  | some conn =>
    have hcalls : ∀ n conn' c, .call conn' c ∈
        DBEvent.call conn (.setAutoCommit bflag) :: List.replicate n .reconnect →
          some conn = some conn' := by
      intro n conn' c hmem
      rcases List.mem_cons.mp hmem with heq | hmem
      · cases heq
        rfl
      · cases List.eq_of_mem_replicate hmem
    rcases htrans : env.transaction with e | u
    · rw [autoCommit_of_error hcurrent htrans]
      dsimp only
      split
      · obtain ⟨n, hlog⟩ := giveUp_log hash env { m with
          isBeginTrans := false, log := m.log ++ [.call conn (.setAutoCommit bflag)] }
        exact ⟨_, hlog.trans (List.append_assoc _ _ _), hcalls n⟩
      · exact ⟨_, rfl, hcalls 0⟩
    · rw [autoCommit_of_ok hcurrent htrans]
      dsimp only
      split
      · obtain ⟨n, hlog⟩ := giveUp_log hash env { m with
          isBeginTrans := false
          connection := some { conn with autoCommit := bflag }
          log := m.log ++ [.call conn (.setAutoCommit bflag)] }
        exact ⟨_, hlog.trans (List.append_assoc _ _ _), hcalls n⟩
      · exact ⟨_, rfl, hcalls 0⟩

/-- Inside a transaction, the calls a method makes are made on the connection the object had,
which has auto-commit off: no statement is tried again on another one. -/
theorem FlagMatches.staysOn (hm : m.FlagMatches) : m.StaysOn hash call env := by
  intro hflag es hes conn c hmem
  have hlog : ∃ es, (m.after hash call env).log = m.log ++ es ∧
      (m.isBeginTrans = true → ∀ conn c, .call conn c ∈ es → m.current = some conn) := by
    rcases call.autoCommit_or with ⟨bflag, rfl⟩ | hcall
    · obtain ⟨es, hes, hcalls⟩ := autoCommit_log hash bflag env m
      exact ⟨es, hes, fun _ => hcalls⟩
    · exact (after_effect hcall).log
  have hcurrent : m.current = some conn := by
    obtain ⟨es', hes', hcalls⟩ := hlog
    rw [hes', List.append_cancel_left_eq] at hes
    exact hcalls hflag conn c (hes ▸ hmem)
  have hconn : m.connection = some conn := by
    rw [current] at hcurrent
    split at hcurrent
    · exact hcurrent
    · cases hcurrent
  obtain ⟨conn', hconn', hoff⟩ := hm.mp hflag
  rw [hconn, Option.some.injEq] at hconn'
  exact ⟨hconn, hconn' ▸ hoff⟩

/-- The step lemma. -/
theorem flagMatches_after_iff (hopened : m.opened = m.connection.isSome) (hm : m.FlagMatches) :
    (m.after hash call env).FlagMatches ↔ m.KeepsMode call env := by
  rcases call.autoCommit_or with ⟨bflag, rfl⟩ | hcall
  · exact flagMatches_autoCommit_iff hopened hm
  · have heffect : Effect (m.TakenForGone call env ∧ m.Reopens env) m (m.after hash call env) :=
      after_effect hcall
    have hkeeps : m.KeepsMode call env ↔
        (m.isBeginTrans = true → ¬ (m.TakenForGone call env ∧ m.Reopens env)) := by
      cases call with
      | autoCommit bflag => exact absurd rfl (hcall bflag)
      | _ => exact Iff.rfl
    rw [hkeeps]
    by_cases hreplaced : m.TakenForGone call env ∧ m.Reopens env
    -- on a new connection
    · rw [flagMatches_some_iff _ (heffect.fresh hreplaced).1, heffect.flag]
      simp [hreplaced]
    · rw [flagMatches_congr heffect.flag (heffect.same hreplaced).1]
      exact iff_of_true hm fun _ => hreplaced

/-- A call in a run. -/
def step (hash : String → UInt64) (m : MysqlDB) (c : MysqlCall × CallEnv) : Option MysqlDB :=
  some (m.after hash c.1 c.2)

theorem openDB_new (hash : String → UInt64) (openEnv : OpenEnv) (addr user passwd db : String) :
    let m := (openDB hash openEnv addr user passwd db {}).2
    m.opened = m.connection.isSome ∧ m.FlagMatches := by
  unfold openDB
  split
  · exact ⟨rfl, flagMatches_of_none rfl rfl⟩
  · rcases openEnv.driver with e | d
    · exact ⟨rfl, flagMatches_of_none rfl rfl⟩
    · cases d with
      | false => exact ⟨rfl, flagMatches_of_none rfl rfl⟩
      | true =>
        rcases openEnv.connect with e | c
        · exact ⟨rfl, flagMatches_of_none rfl rfl⟩
        · cases c with
          | false => exact ⟨rfl, flagMatches_of_none rfl rfl⟩
          | true => exact ⟨rfl, (flagMatches_some_iff _ rfl).mpr rfl⟩

/-- **The flag and the mode.** In a run of calls on a new object, whatever the driver does, the
flag is the auto-commit mode in every state, and the calls of a transaction stay on its
connection, exactly as long as every call keeps the mode: no call inside a transaction puts
the object on a new connection, and `AutoCommit` does not clear the flag over a connection with
the mode off. -/
theorem flag_matches_iff {openEnv : OpenEnv} {addr user passwd db : String}
    {trace : List (MysqlDB × MysqlCall × CallEnv)}
    (hrun : Run (step hash) (openDB hash openEnv addr user passwd db {}).2 trace m) :
    ((∀ e ∈ trace, e.1.FlagMatches ∧ e.1.StaysOn hash e.2.1 e.2.2) ∧ m.FlagMatches) ↔
      ∀ e ∈ trace, e.1.KeepsMode e.2.1 e.2.2 := by
  obtain ⟨hopened, hflag⟩ := openDB_new hash openEnv addr user passwd db
  have hiff := hrun.forall_good_iff (I := fun m => m.opened = m.connection.isSome)
    (P := FlagMatches) (C := fun m c => m.KeepsMode c.1 c.2) hopened
    (fun hI hs => by cases hs; exact after_opened hI) hflag
    (fun hI hm hs => by cases hs; exact flagMatches_after_iff hI hm)
  rw [← hiff]
  constructor
  · rintro ⟨htrace, hm⟩
    exact ⟨fun e he => (htrace e he).1, hm⟩
  · rintro ⟨htrace, hm⟩
    exact ⟨fun e he => ⟨htrace e he, (htrace e he).staysOn⟩, hm⟩

end Flag

/-! ## A transaction that loses its connection -/

/-- The server is gone, and a reconnect succeeds. -/
def goneEnv : CallEnv where
  first := { execute := .error (.sqlException 2006) }
  transaction := .error (.sqlException 2006)

/-- A new object on its first connection. -/
def firstOpened : MysqlDB := (openDB (fun _ => 0) {} "addr" "user" "passwd" "db" {}).2

/-- A transaction that commits. -/
theorem flag_matches_commit :
    ∃ trace m, Run (step fun _ => 0) firstOpened trace m ∧
      trace.map (fun e => e.2.1) =
        [.autoCommit false, .exec "UPDATE t", .commit, .autoCommit true] ∧
      (∀ e ∈ trace, e.1.FlagMatches ∧ e.1.StaysOn (fun _ => 0) e.2.1 e.2.2) ∧ m.FlagMatches := by
  have hrun : Run (step fun _ => 0) firstOpened _ _ :=
    Run.nil.snoc (a := (.autoCommit false, {})) rfl |>.snoc (a := (.exec "UPDATE t", {})) rfl
      |>.snoc (a := (.commit, {})) rfl |>.snoc (a := (.autoCommit true, {})) rfl
  exact ⟨_, _, hrun, rfl, (flag_matches_iff hrun).mpr (by decide +kernel)⟩

/-- The server goes away in a transaction. The statement fails, the next one of the same
transaction is executed on the new connection, which commits it by itself. -/
theorem flag_stays_set_after_reconnect :
    ∃ trace m, Run (step fun _ => 0) firstOpened trace m ∧
      trace.map (fun e => e.2.1) = [.autoCommit false, .exec "UPDATE t", .exec "UPDATE u"] ∧
      ¬ m.FlagMatches ∧ m.isBeginTrans = true ∧
      m.log.getLast? = some (.call { num := 1, autoCommit := true } (.execute "UPDATE u")) := by
  have hrun : Run (step fun _ => 0) firstOpened _ _ :=
    Run.nil.snoc (a := (.autoCommit false, {})) rfl |>.snoc (a := (.exec "UPDATE t", goneEnv)) rfl
      |>.snoc (a := (.exec "UPDATE u", {})) rfl
  refine ⟨_, _, hrun, rfl, ?_, by decide +kernel, by decide +kernel⟩
  intro hm
  -- the flag is set, the second connection has auto-commit on
  obtain ⟨conn, hconn, hoff⟩ := hm.mp rfl
  cases hconn
  cases hoff

end MysqlDB

end SampleTools
