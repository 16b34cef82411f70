import SampleTools.Database.DBMan

/-!
# One database object

`MysqlDB` owns a connection of the driver and opens a new one when the server is gone.
A driver call succeeds or throws; what it does at each place is given with the call. The
object keeps a log of the statements and transaction calls it made on its connections,
and of its reconnects.

## Main definitions

* `MysqlDB`, `DBEvent`: the object and its log
* `MysqlDB.exec`, `MysqlDB.prepared`, `MysqlDB.query`: statements, tried once more after a
  reconnect
* `MysqlDB.autoCommit`, `MysqlDB.commit`, `MysqlDB.rollback`: transactions

## Main results

* `MysqlDB.reconnect_eq`, `MysqlDB.reconnectLoop_eq`: what reconnects do, and when they succeed
* `MysqlDB.mysqlExec_asks` and its like: a statement calls the connection, and does no more
* `MysqlDB.mysqlExec_gone_iff` and its like: when it takes the server for gone
-/

namespace SampleTools

/-- `SQLError`. A variable nobody assigned can also hold a number without a name. -/
inductive SQLError
  | success
  | notConnected
  | emptySql
  | sqlError
  | emptyConnection
  | timeout
  | statmentNull
  | mysqlServerGoneAway
  | sqlException
  | unnamed (value : Int32)
  deriving DecidableEq, Repr

/-- What a driver call throws: an `sql::SQLException` with its code, another
`std::exception`, or anything else. -/
inductive DriverError
  | sqlException (errorCode : Int32)
  | stdException
  | unknown
  deriving DecidableEq, Repr

/-- The server is gone. -/
def DriverError.serverGone : DriverError → Bool
  | .sqlException errorCode => errorCode = 2006 || errorCode = 2013
  | _ => false

/-- The code the `catch` blocks assign. -/
def DriverError.code (e : DriverError) : SQLError :=
  if e.serverGone then .mysqlServerGoneAway else .sqlException

/-- How a driver call ends. -/
abbrev Outcome (α : Type) := Except DriverError α

/-- A connection of the driver, in the order they were opened, with its auto-commit mode. -/
structure Connection where
  num : ℕ
  autoCommit : Bool := true
  deriving DecidableEq, Repr

/-- A savepoint and the connection it was set on. -/
structure Savepoint where
  name : String
  conn : ℕ
  deriving DecidableEq, Repr

/-- A statement, prepared on a connection. -/
structure PreparedStatement where
  conn : ℕ
  sql : String
  deriving DecidableEq, Repr

/-- What is asked of a connection. -/
inductive DriverCall
  | createStatement
  | execute (sql : String)
  | prepareStatement (sql : String)
  | executeQuery (sql : String)
  | setAutoCommit (flag : Bool)
  | setSavepoint (name : String)
  | commit
  | rollback
  | rollbackTo (point : Option Savepoint)
  | releaseSavepoint (point : Option Savepoint)
  deriving DecidableEq, Repr

/-- A call on a connection, or a call of `Reconnect`. -/
inductive DBEvent
  | call (conn : Connection) (c : DriverCall)
  | reconnect
  deriving DecidableEq, Repr

/-- `MysqlDB`. -/
structure MysqlDB where
  addr : String := ""
  user : String := ""
  passwd : String := ""
  db : String := ""
  dbSn : UInt64 := 0
  /-- `open_` -/
  opened : Bool := false
  connection : Option Connection := none
  point : Option Savepoint := none
  isBeginTrans : Bool := false
  idx : Int32 := 0
  /-- how many connections were opened -/
  made : ℕ := 0
  log : List DBEvent := []
  deriving DecidableEq, Repr

/-- What the driver does while a connection is opened: whether there is a driver, and
whether `connect` returns a connection. -/
structure OpenEnv where
  driver : Outcome Bool := .ok true
  connect : Outcome Bool := .ok true
  deriving DecidableEq, Repr

/-- What the driver does during `Reconnect`. -/
structure ReconnectEnv extends OpenEnv where
  isValid : Outcome Bool := .ok false
  close : Outcome Unit := .ok ()
  deriving DecidableEq, Repr

/-- The old connection is closed if it is still valid. -/
def ReconnectEnv.closeOld (env : ReconnectEnv) : Option Connection → Outcome Unit
  | none => .ok ()
  | some _ =>
    match env.isValid with
    | .error e => .error e
    | .ok true => env.close
    | .ok false => .ok ()

/-- What the driver does with a statement; `false` stands for a null pointer. -/
structure StatementEnv where
  createStatement : Outcome Bool := .ok true
  execute : Outcome Unit := .ok ()
  getUpdateCount : Outcome UInt64 := .ok 1
  prepareStatement : Outcome Bool := .ok true
  executeQuery : Outcome Bool := .ok true
  deriving DecidableEq, Repr

/-- What the driver does during a call of a public method. -/
structure CallEnv where
  first : StatementEnv := {}
  /-- the second try, after a reconnect -/
  retry : StatementEnv := {}
  /-- `setAutoCommit`, `commit` or `rollback` -/
  transaction : Outcome Unit := .ok ()
  releaseSavepoint : Outcome Unit := .ok ()
  setSavepoint : Outcome Unit := .ok ()
  /-- the reconnects, by the attempts that remain after them -/
  reconnects : ℕ → ReconnectEnv := fun _ => {}
  /-- what an unassigned `ret_code` holds -/
  retCode : SQLError := .success

namespace MysqlDB

/-! ## Opening and reconnecting -/

/-- `Open` refuses empty parameters. -/
def named (addr user passwd : String) : Bool := !(addr.isEmpty || user.isEmpty || passwd.isEmpty)

/-- `Open`. A new connection has auto-commit on. -/
def openDB (hash : String → UInt64) (env : OpenEnv) (addr user passwd db : String)
    (m : MysqlDB) : Outcome Bool × MysqlDB :=
  if !named addr user passwd then (.ok false, m)
  else
    let m := { m with addr, user, passwd, db, dbSn := DBMan.serialNumber hash addr db }
    match env.driver with
    | .error e => (.error e, m)
    | .ok false => (.ok false, m)
    | .ok true =>
      match env.connect with
      | .ok true =>
        (.ok true, { m with
          connection := some { num := m.made }
          made := m.made + 1
          opened := true })
      | .ok false => (.ok false, m)
      | .error _ => (.ok false, m)

/-- `Reconnect`. The old connection stays if no new one is opened. -/
def reconnect (hash : String → UInt64) (env : ReconnectEnv) (m : MysqlDB) :
    Outcome Bool × MysqlDB :=
  let m := { m with log := m.log ++ [.reconnect] }
  match env.closeOld m.connection with
  | .error e => (.error e, m)
  | .ok () => m.openDB hash env.toOpenEnv m.addr m.user m.passwd m.db

/-- `while (count-- > 0) { if (Reconnect()) ... }`: whether an attempt succeeded. -/
def reconnectLoop (hash : String → UInt64) (env : ℕ → ReconnectEnv) :
    ℕ → MysqlDB → Outcome Bool × MysqlDB
  | 0, m => (.ok false, m)
  | count + 1, m =>
    match m.reconnect hash (env count) with
    | (.ok true, m) => (.ok true, m)
    | (.ok false, m) => reconnectLoop hash env count m
    | (.error e, m) => (.error e, m)

/-! ## Statements -/

/-- The connection the methods use. -/
def current (m : MysqlDB) : Option Connection := if m.opened then m.connection else none

/-- A call on a connection. -/
def ask (conn : Connection) (c : DriverCall) (m : MysqlDB) : MysqlDB :=
  { m with log := m.log ++ [.call conn c] }

/-- `MysqlExec`. -/
def mysqlExec (sql : String) (env : StatementEnv) (m : MysqlDB) : (Int32 × SQLError) × MysqlDB :=
  match m.current with
  | none => ((-1, .emptyConnection), m)
  | some conn =>
    if sql.isEmpty then ((-1, .emptySql), m)
    else
      let m := m.ask conn .createStatement
      match env.createStatement with
      | .error e => ((-1, e.code), m)
      | .ok false => ((-1, .statmentNull), m)
      | .ok true =>
        let m := m.ask conn (.execute sql)
        match env.execute with
        | .error e => ((-1, e.code), m)
        | .ok () =>
          match env.getUpdateCount with
          | .error e => ((-1, e.code), m)
          | .ok n => ((n.toUInt32.toInt32, .success), m)

/-- `MysqlPrepared`. -/
def mysqlPrepared (sql : String) (env : StatementEnv) (m : MysqlDB) :
    (Option PreparedStatement × SQLError) × MysqlDB :=
  match m.current with
  | none => ((none, .notConnected), m)
  | some conn =>
    if sql.isEmpty then ((none, .emptySql), m)
    else
      let m := m.ask conn (.prepareStatement sql)
      match env.prepareStatement with
      | .error e => ((none, e.code), m)
      | .ok false => ((none, .success), m)
      | .ok true => ((some ⟨conn.num, sql⟩, .success), m)

/-- `MysqlQuery`; the result set is that of a statement. -/
def mysqlQuery (sql : String) (env : StatementEnv) (m : MysqlDB) :
    (Option PreparedStatement × SQLError) × MysqlDB :=
  match m.current with
  | none => ((none, .notConnected), m)
  | some conn =>
    if sql.isEmpty then ((none, .emptySql), m)
    else
      match m.mysqlPrepared sql env with
      | ((none, code), m) => ((none, if code = .success then .statmentNull else code), m)
      | ((some stmt, _), m) =>
        let m := m.ask conn (.executeQuery sql)
        match env.executeQuery with
        | .error e => ((none, e.code), m)
        | .ok false => ((none, .success), m)
        | .ok true => ((some stmt, .success), m)

/-- `Exec`, `Prepared` and `Query`: if the server is gone, try again on a new connection, but
not inside a transaction. -/
def tryAgain {α : Type} (hash : String → UInt64)
    (run : StatementEnv → MysqlDB → (α × SQLError) × MysqlDB) (failed : α) (env : CallEnv)
    (m : MysqlDB) : Outcome (α × SQLError) × MysqlDB :=
  let ((ret, code), m) := run env.first m
  if code ≠ .mysqlServerGoneAway then (.ok (ret, code), m)
  else
    match m.reconnectLoop hash env.reconnects 3 with
    | (.error e, m) => (.error e, m)
    | (.ok false, m) => (.ok (failed, code), m)
    | (.ok true, m) =>
      if m.isBeginTrans then (.ok (failed, code), m)
      else
        let (ret, m) := run env.retry m
        (.ok ret, m)

/-- `Exec`. -/
def exec (hash : String → UInt64) (sql : String) (env : CallEnv) (m : MysqlDB) :
    Outcome (Int32 × SQLError) × MysqlDB :=
  m.tryAgain hash (mysqlExec sql) (-1) env

/-- `Prepared`. -/
def prepared (hash : String → UInt64) (sql : String) (env : CallEnv) (m : MysqlDB) :
    Outcome (Option PreparedStatement × SQLError) × MysqlDB :=
  m.tryAgain hash (mysqlPrepared sql) none env

/-- `Query`. -/
def query (hash : String → UInt64) (sql : String) (env : CallEnv) (m : MysqlDB) :
    Outcome (Option PreparedStatement × SQLError) × MysqlDB :=
  m.tryAgain hash (mysqlQuery sql) none env

/-! ## Transactions -/

/-- The `try` block of a transaction call. `ret_code` is assigned on failure only. -/
def caught (outcome : Outcome Unit) (retCode : SQLError) : Int32 × SQLError :=
  match outcome with
  | .ok () => (0, retCode)
  | .error e => (-1, e.code)

/-- `MysqlAutoCommit`. A call that throws leaves the mode as it was. -/
def mysqlAutoCommit (bflag : Bool) (env : CallEnv) (m : MysqlDB) :
    (Int32 × SQLError) × MysqlDB :=
  match m.current with
  | none => ((-1, .emptyConnection), m)
  | some conn =>
    let m := m.ask conn (.setAutoCommit bflag)
    (caught env.transaction env.retCode,
      match env.transaction with
      | .ok () => { m with connection := some { conn with autoCommit := bflag } }
      | .error _ => m)

/-- `MysqlCommit`. -/
def mysqlCommit (env : CallEnv) (m : MysqlDB) : (Int32 × SQLError) × MysqlDB :=
  match m.current with
  | none => ((-1, .emptyConnection), m)
  | some conn => (caught env.transaction env.retCode, m.ask conn .commit)

/-- `MysqlRollback`. -/
def mysqlRollback (flag : Bool) (env : CallEnv) (m : MysqlDB) : (Int32 × SQLError) × MysqlDB :=
  match m.current with
  | none => ((-2, .emptyConnection), m)
  | some conn =>
    if flag then
      let m := m.ask conn (.rollbackTo m.point)
      match env.transaction with
      | .error e => (caught (.error e) env.retCode, m)
      | .ok () => (caught env.releaseSavepoint env.retCode, m.ask conn (.releaseSavepoint m.point))
    else (caught env.transaction env.retCode, m.ask conn .rollback)

/-- The end of `AutoCommit`, `Commit` and `Rollback`: reconnect, and fail in any case. -/
def giveUp (hash : String → UInt64) (env : CallEnv) (m : MysqlDB) : Outcome Int32 × MysqlDB :=
  match m.reconnectLoop hash env.reconnects 3 with
  | (.error e, m) => (.error e, m)
  | (.ok _, m) => (.ok (-1), m)

/-- `AutoCommit`. -/
def autoCommit (hash : String → UInt64) (bflag : Bool) (env : CallEnv) (m : MysqlDB) :
    Outcome Int32 × MysqlDB :=
  let m := { m with isBeginTrans := !bflag }
  let ((ret, code), m) := m.mysqlAutoCommit bflag env
  if code ≠ .mysqlServerGoneAway then
    (.ok ret, if ret ≠ 0 then { m with isBeginTrans := false } else m)
  else
    let m := { m with isBeginTrans := false }
    m.giveUp hash env

/-- `BeginTrans`. -/
def beginTrans (m : MysqlDB) : Int32 × MysqlDB := (0, { m with idx := 0 })

/-- `SetSavePoint`. -/
def setSavePoint (env : CallEnv) (m : MysqlDB) : Int32 × MysqlDB :=
  match m.current with
  | none => (-1, m)
  | some conn =>
    let name := "POINT_" ++ toString m.idx
    let m := { m.ask conn (.setSavepoint name) with idx := m.idx + 1 }
    match env.setSavepoint with
    | .ok () => (0, { m with point := some ⟨name, conn.num⟩ })
    | .error (.sqlException errorCode) => (errorCode, m)
    | .error _ => (-1, m)

/-- `Commit`. -/
def commit (hash : String → UInt64) (env : CallEnv) (m : MysqlDB) : Outcome Int32 × MysqlDB :=
  let ((ret, code), m) := m.mysqlCommit env
  if code ≠ .mysqlServerGoneAway then (.ok ret, m) else m.giveUp hash env

/-- `Rollback`. -/
def rollback (hash : String → UInt64) (flag : Bool) (env : CallEnv) (m : MysqlDB) :
    Outcome Int32 × MysqlDB :=
  let ((ret, code), m) := m.mysqlRollback flag env
  if code ≠ .mysqlServerGoneAway then (.ok ret, m) else m.giveUp hash env

/-! ## What a reconnect does -/

section Reconnect

variable (hash : String → UInt64) (m : MysqlDB)

/-- The object after its reconnects, which end in `outcome`, with their log: it is on a new
connection or keeps the old one. -/
def reconnected (outcome : Outcome Bool) (dbSn : UInt64) (es : List DBEvent) (m : MysqlDB) :
    MysqlDB :=
  match outcome with
  | .ok true =>
    { m with
      dbSn
      connection := some { num := m.made }
      made := m.made + 1
      opened := true
      log := m.log ++ es }
  | _ => { m with dbSn, log := m.log ++ es }

theorem reconnected_log {m : MysqlDB} (outcome : Outcome Bool) (dbSn : UInt64) (es : List DBEvent) :
    (m.reconnected outcome dbSn es).log = m.log ++ es := by
  rcases outcome with e | ok
  · rfl
  · cases ok <;> rfl

/-- How a reconnect ends, from what the driver does. -/
def reopens (env : ReconnectEnv) (m : MysqlDB) : Outcome Bool :=
  match env.closeOld m.connection with
  | .error e => .error e
  | .ok () =>
    if !named m.addr m.user m.passwd then .ok false
    else
      match env.driver with
      | .error e => .error e
      | .ok false => .ok false
      | .ok true =>
        match env.connect with
        | .ok c => .ok c
        | .error _ => .ok false

/-- How several attempts end. -/
def reopensIn (env : ℕ → ReconnectEnv) (m : MysqlDB) : ℕ → Outcome Bool
  | 0 => .ok false
  | count + 1 =>
    match m.reopens (env count) with
    | .ok false => reopensIn env m count
    | outcome => outcome

theorem reconnect_eq (env : ReconnectEnv) : ∃ dbSn, m.reconnect hash env =
    (m.reopens env, m.reconnected (m.reopens env) dbSn [.reconnect]) := by
  simp only [reconnect, reopens, openDB]
  cases env.closeOld m.connection with
  | error e => exact ⟨m.dbSn, rfl⟩
  | ok u =>
    cases named m.addr m.user m.passwd with
    | false => exact ⟨m.dbSn, rfl⟩
    | true =>
      refine ⟨DBMan.serialNumber hash m.addr m.db, ?_⟩
      cases env.driver with
      | error e => rfl
      | ok d =>
        cases d with
        | false => rfl
        | true =>
          rcases env.connect with e | c
          · rfl
          · cases c <;> rfl

/-- A reconnect depends on the parameters of the object, and on whether there is an old
connection. -/
theorem reopens_congr (m m' : MysqlDB) (hconn : m'.connection.isSome = m.connection.isSome)
    (hnamed : named m'.addr m'.user m'.passwd = named m.addr m.user m.passwd)
    (env : ReconnectEnv) : m'.reopens env = m.reopens env := by
  have hclose : env.closeOld m'.connection = env.closeOld m.connection := by
    cases hm' : m'.connection <;> cases hm : m.connection <;> simp_all [ReconnectEnv.closeOld]
  rw [reopens, reopens, hclose, hnamed]

theorem reopensIn_congr (m m' : MysqlDB) (hconn : m'.connection.isSome = m.connection.isSome)
    (hnamed : named m'.addr m'.user m'.passwd = named m.addr m.user m.passwd)
    (env : ℕ → ReconnectEnv) (count : ℕ) : m'.reopensIn env count = m.reopensIn env count := by
  induction count with
  | zero => rfl
  | succ count ih => rw [reopensIn, reopensIn, ih, reopens_congr m m' hconn hnamed]

/-- The loop makes attempts until one succeeds or throws. -/
theorem reconnectLoop_eq (env : ℕ → ReconnectEnv) (count : ℕ) :
    ∃ dbSn n, m.reconnectLoop hash env count = (m.reopensIn env count,
      m.reconnected (m.reopensIn env count) dbSn (List.replicate n .reconnect)) := by
  induction count generalizing m with
  | zero => exact ⟨m.dbSn, 0, by simp [reconnectLoop, reopensIn, reconnected]⟩
  | succ count ih =>
    obtain ⟨dbSn, h⟩ := m.reconnect_eq hash (env count)
    rw [reconnectLoop, reopensIn, h]
    rcases m.reopens (env count) with e | ok
    · exact ⟨dbSn, 1, rfl⟩
    · cases ok with
      | true => exact ⟨dbSn, 1, rfl⟩
      | false =>
        obtain ⟨dbSn', n, ih⟩ := ih (m.reconnected (.ok false) dbSn [.reconnect])
        have hsame := reopensIn_congr m (m.reconnected (.ok false) dbSn [.reconnect]) rfl rfl env
          count
        rw [hsame] at ih
        refine ⟨dbSn', n + 1, ih.trans ?_⟩
        rcases m.reopensIn env count with e | ok
        · simp [reconnected, List.replicate_succ]
        · cases ok <;> simp [reconnected, List.replicate_succ]

end Reconnect

/-! ## What the first try of a statement does -/

/-- `m'` is `m` after some calls on its connection. -/
def Asks (m m' : MysqlDB) : Prop :=
  ∃ es, m' = { m with log := m.log ++ es } ∧
    ∀ ev ∈ es, ∃ conn c, m.current = some conn ∧ ev = .call conn c

theorem Asks.refl (m : MysqlDB) : Asks m m :=
  ⟨[], by simp, List.forall_mem_nil _⟩

theorem Asks.ask {m m' : MysqlDB} {conn : Connection} (h : Asks m m')
    (hcurrent : m.current = some conn) (c : DriverCall) : Asks m (m'.ask conn c) := by
  obtain ⟨es, rfl, hes⟩ := h
  refine ⟨es ++ [.call conn c], by simp [MysqlDB.ask], ?_⟩
  intro ev hev
  rcases List.mem_append.mp hev with hev | hev
  · exact hes ev hev
  · exact ⟨conn, c, hcurrent, List.mem_singleton.mp hev⟩

theorem code_eq_gone_iff {e : DriverError} :
    e.code = .mysqlServerGoneAway ↔ e.serverGone = true := by
  unfold DriverError.code
  cases e.serverGone <;> simp

section Statements

variable (sql : String) (env : StatementEnv) (m : MysqlDB)

theorem mysqlExec_asks : Asks m (m.mysqlExec sql env).2 := by
  unfold mysqlExec
  split
  · exact .refl m
  next conn hcurrent =>
    have hcreate := (Asks.refl m).ask hcurrent .createStatement
    have hexecute := hcreate.ask hcurrent (.execute sql)
    split
    · exact .refl m
    · dsimp only
      repeat' split
      all_goals first | exact hcreate | exact hexecute

theorem mysqlPrepared_asks : Asks m (m.mysqlPrepared sql env).2 := by
  unfold mysqlPrepared
  split
  · exact .refl m
  next conn hcurrent =>
    have hprepare := (Asks.refl m).ask hcurrent (.prepareStatement sql)
    split
    · exact .refl m
    · dsimp only
      split <;> exact hprepare

theorem mysqlQuery_asks : Asks m (m.mysqlQuery sql env).2 := by
  have hprepared : Asks m (m.mysqlPrepared sql env).2 := mysqlPrepared_asks sql env m
  unfold mysqlQuery
  split
  · exact .refl m
  next conn hcurrent =>
    split
    · exact .refl m
    · split
      next heq =>
        rw [heq] at hprepared
        exact hprepared
      next heq =>
        rw [heq] at hprepared
        have hquery := hprepared.ask hcurrent (.executeQuery sql)
        dsimp only
        split <;> exact hquery

/-- What `MysqlExec` catches, if the driver throws. -/
def execThrows (env : StatementEnv) : Option DriverError :=
  match env.createStatement, env.execute, env.getUpdateCount with
  | .error e, _, _ => some e
  | .ok false, _, _ => none
  | .ok true, .error e, _ => some e
  | .ok true, .ok (), .error e => some e
  | .ok true, .ok (), .ok _ => none

/-- What `MysqlPrepared` catches. -/
def preparedThrows (env : StatementEnv) : Option DriverError :=
  match env.prepareStatement with
  | .error e => some e
  | .ok _ => none

/-- What `MysqlQuery` catches. -/
def queryThrows (env : StatementEnv) : Option DriverError :=
  match env.prepareStatement, env.executeQuery with
  | .error e, _ => some e
  | .ok false, _ => none
  | .ok true, .error e => some e
  | .ok true, .ok _ => none

/-- A statement is not tried without a connection or a text: what it does then decides. -/
theorem guarded_gone_iff {α : Type} {unset empty : (α × SQLError) × MysqlDB}
    {body : Connection → (α × SQLError) × MysqlDB} {P : Prop}
    (hunset : unset.1.2 ≠ .mysqlServerGoneAway) (hempty : empty.1.2 ≠ .mysqlServerGoneAway)
    (hbody : ∀ conn, m.current = some conn → sql.isEmpty = false →
      ((body conn).1.2 = .mysqlServerGoneAway ↔ P)) :
    (match m.current with
      | none => unset
      | some conn => if sql.isEmpty then empty else body conn).1.2 = .mysqlServerGoneAway ↔
      m.current.isSome ∧ sql.isEmpty = false ∧ P := by
  cases hcurrent : m.current with
  | none => simp [hunset]
  | some conn =>
    cases hsql : sql.isEmpty with
    | true => simp [hempty]
    | false => simp [hbody conn hcurrent hsql]

theorem mysqlExec_gone_iff : (m.mysqlExec sql env).1.2 = .mysqlServerGoneAway ↔
    m.current.isSome ∧ sql.isEmpty = false ∧ (execThrows env).any DriverError.serverGone := by
  unfold mysqlExec execThrows
  apply guarded_gone_iff sql m (by simp) (by simp)
  intro conn _ _
  rcases env.createStatement with e | created
  · simp [code_eq_gone_iff]
  · cases created with
    | false => simp
    | true =>
      rcases env.execute with e | u
      · simp [code_eq_gone_iff]
      · rcases env.getUpdateCount with e | n
        · simp [code_eq_gone_iff]
        · simp

theorem mysqlPrepared_gone_iff : (m.mysqlPrepared sql env).1.2 = .mysqlServerGoneAway ↔
    m.current.isSome ∧ sql.isEmpty = false ∧ (preparedThrows env).any DriverError.serverGone := by
  unfold mysqlPrepared preparedThrows
  apply guarded_gone_iff sql m (by simp) (by simp)
  intro conn _ _
  rcases env.prepareStatement with e | prepared
  · simp [code_eq_gone_iff]
  · cases prepared <;> simp

theorem mysqlQuery_gone_iff : (m.mysqlQuery sql env).1.2 = .mysqlServerGoneAway ↔
    m.current.isSome ∧ sql.isEmpty = false ∧ (queryThrows env).any DriverError.serverGone := by
  unfold mysqlQuery queryThrows
  apply guarded_gone_iff sql m (by simp) (by simp)
  intro conn hcurrent hsql
  -- the checks of `mysqlPrepared` are passed too
  simp only [mysqlPrepared, hcurrent, hsql, Bool.false_eq_true, if_false]
  rcases env.prepareStatement with e | prepared
  · rw [Option.any_some, ← code_eq_gone_iff]
    dsimp only
    split <;> simp_all
  · cases prepared with
    | false => simp
    | true =>
      rcases env.executeQuery with e | rows
      · simp [code_eq_gone_iff]
      · cases rows <;> simp

end Statements

end MysqlDB

end SampleTools
