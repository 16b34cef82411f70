import SampleTools.Database.Loans
import SampleTools.Database.Transactions
import SampleTools.Library.TextInt

/-!
# Calls through the proxy

`Exec`, `Prepared` and `Query` of `DBProxy` start a task that borrows a connection, calls the
method of the same name on it, and returns it. A call waits three seconds for its task; after
that it says that it timed out, but the destructor of the future still waits for the task. If
the method throws, the task ends before it returns the connection.

## Main definitions

* `DBProxy.task`, `DBProxy.answer`: a task that has a connection, and what its caller gets
* `DBProxies`, `DBProxies.step`: the pools and all calls, and what can happen
* `DBProxies.Returned`: each ended task has returned its connection, and none is missing
* `MysqlDB.behaves`: what a method of a database object does

## Main results

* `MysqlDB.behaves_throws_iff`: when a method throws
* `DBProxies.Pooled.finish_isSome`: a task that returns a connection finds its pools filled
* `DBProxies.returned_iff`: when all connections are returned
-/

namespace SampleTools

open DBMan

/-- `SQL_OPER_TYPE`. -/
inductive SqlOperType
  | query
  | select
  | delete
  | update
  deriving DecidableEq, Repr

/-- `get_sql_flag`. -/
def getSqlFlag : SqlOperType → String
  | .query => "query"
  | .select => "select"
  | .delete => "delete"
  | .update => "update"

/-- The methods of the proxy, which call the method of the same name on a connection. -/
inductive ProxyMethod
  | exec
  | prepared
  | query
  deriving DecidableEq, Repr

/-- What a method returns: a count, or an object. -/
inductive ProxyResult
  | count (n : Int32)
  | object (ptr : Option PreparedStatement)
  deriving DecidableEq, Repr

/-- The name a method gives itself when it throws. -/
def ProxyMethod.name : ProxyMethod → String
  | .exec => "exec"
  | .prepared => "prepared"
  | .query => "query"

/-- What a method returns when it fails. -/
def ProxyMethod.failed : ProxyMethod → ProxyResult
  | .exec => .count (-1)
  | .prepared => .object none
  | .query => .object none

namespace DBProxy

/-! ## One call -/

/-- `StringAssist::ltrim`. -/
def ltrim (str : List Char) : List Char := str.dropWhile TextInt.isSpace

/-- `StringAssist::rtrim`. -/
def rtrim (str : List Char) : List Char := (str.reverse.dropWhile TextInt.isSpace).reverse

/-- The loop of `CheckSql`: a letter of the flag is missing in the statement. -/
def differs : List Char → List Char → Bool
  | [], _ => false
  | _ :: _, [] => true
  | f :: flag, c :: sql => f.toLower ≠ c.toLower || differs flag sql

/-- `CheckSql`: the statement is not of the type. -/
def checkSql (strsql : String) (type : SqlOperType) : Bool :=
  differs (rtrim (ltrim (getSqlFlag type).toList)) (ltrim strsql.toList)

/-- What is behind a statement once `GetDB` has returned `ptr`: how the task ends, and its calls
of `PushDB`. The method of the connection behaves as given. -/
def task (method : ProxyMethod) (behaves : Outcome (ProxyResult × SQLError))
    (ptr : Option BaseDB) : Outcome (ProxyResult × SQLError) × List BaseDB :=
  match ptr with
  | none => (.ok (method.failed, .emptyConnection), [])
  | some ptr =>
    match behaves with
    -- the exception leaves the task before `PushDB`
    | .error e => (.error e, [])
    | .ok result => (.ok result, [ptr])

/-- The text of the exception a method throws; `what` is that of the exception it caught. -/
def excepInfo (what : DriverError → String) (method : ProxyMethod) (e : DriverError) : String :=
  method.name ++ " exception,what():" ++
    match e with
    | .unknown => "unkonwn exception"
    | e => what e

/-- What the caller gets from a task. -/
def answer (what : DriverError → String) (method : ProxyMethod) (timeout : Bool)
    (outcome : Outcome (ProxyResult × SQLError)) : Except String (ProxyResult × SQLError) :=
  if timeout then .ok (method.failed, .timeout)
  else
    match outcome with
    | .ok result => .ok result
    | .error e => .error (excepInfo what method e)

end DBProxy

/-! ## All calls -/

/-- A call: its task asks for a connection, has been given one or `nullptr`, or has ended, with
what it was given, its calls of `PushDB` and what the caller got. -/
inductive DBProxyCall
  | getting (method : ProxyMethod) (times : ℤ)
  | got (method : ProxyMethod) (ptr : Option BaseDB)
  | ended (ptr : Option BaseDB) (pushed : List BaseDB)
    (answer : Except String (ProxyResult × SQLError))

/-- A task that has ended has called `PushDB` once for the connection it was given. -/
def DBProxyCall.Settled (c : DBProxyCall) : Prop :=
  ∀ ptr pushed answer, c = .ended ptr pushed answer → pushed = ptr.toList

/-- The connection of a task that has not ended. -/
def DBProxyCall.held : DBProxyCall → Option BaseDB
  | .got _ ptr => ptr
  | _ => none

/-- What can happen: a call, an attempt of the `i`-th one to get a connection, the end of its
task, and the swap of the check thread. -/
inductive ProxyEvent
  | call (method : ProxyMethod) (sql : String)
  | getDB (i : ℕ)
  | finish (i : ℕ) (behaves : Outcome (ProxyResult × SQLError)) (timeout : Bool)
  | swapDBPool

/-- The pools and the calls. -/
structure DBProxies where
  man : DBMan
  calls : List DBProxyCall := []

namespace DBProxies

open DBProxy

/-- One event. -/
def step (what : DriverError → String) (s : DBProxies) : ProxyEvent → Option DBProxies
  | .call method sql =>
    if method = .exec ∧ checkSql sql .select = false then
      some { s with calls := s.calls ++ [.ended none [] (.ok (.count (-1), .sqlError))] }
    else some { s with calls := s.calls ++ [.getting method 3] }
  | .getDB i =>
    match s.calls[i]? with
    | some (.getting method times) =>
      if times ≤ 0 then some { s with calls := s.calls.set i (.got method none) }
      else
        match s.man.getDB with
        | (some ptr, man) => some { man := man, calls := s.calls.set i (.got method (some ptr)) }
        -- `GetDB(times--)`: the next attempt has the same `times`
        | (none, man) => some { s with man := man }
    | _ => none
  | .finish i behaves timeout =>
    match s.calls[i]? with
    | some (.got method ptr) =>
      let (outcome, pushed) := task method behaves ptr
      let ended := .ended ptr pushed (answer what method timeout outcome)
      (pushed.foldlM (fun (man : DBMan) db => man.pushDB (some db)) s.man).map fun man =>
        { man := man, calls := s.calls.set i ended }
    | _ => none
  | .swapDBPool => some { s with man := s.man.swapDBPool }

/-- The tasks that have ended have returned their connections, and what is not in the pools is
held by a task. -/
structure Returned (initial : DBMan) (s : DBProxies) : Prop where
  once : ∀ c ∈ s.calls, c.Settled
  available : s.man.connections.length + (s.calls.filterMap DBProxyCall.held).length =
    initial.connections.length

/-- A task that ends and has a connection: its method does not throw, and the connection is one
of the main pool's database. -/
def Returns (s : DBProxies) : ProxyEvent → Prop
  | .finish i behaves _ => ∀ ptr ∈ s.calls[i]?.bind DBProxyCall.held,
    behaves.isOk = true ∧ s.man.dbPool.head?.map BaseDB.dbSn = some ptr.dbSn
  | _ => True

instance (s : DBProxies) (event : ProxyEvent) : Decidable (s.Returns event) := by
  unfold Returns
  split <;> infer_instance

/-! ## What one event does -/

/-- Either there are no pools and no connection is held, or no pool is empty; and each pool is
connected to one database. -/
structure Pooled (s : DBProxies) : Prop where
  uniform : s.man.Uniform
  filled : (s.man = {} ∧ ∀ c ∈ s.calls, c.held = none) ∨ ∀ pool ∈ s.man.pools, pool ≠ []

section Step

variable {what : DriverError → String} {s s' : DBProxies} {event : ProxyEvent} {i : ℕ}
  {c c' : DBProxyCall} {initial : DBMan} {db : BaseDB}

/-- The connections held, with one call replaced. -/
theorem held_set (h : s.calls[i]? = some c) (c' : DBProxyCall) :
    ((s.calls.set i c').filterMap DBProxyCall.held).length + c.held.toList.length =
      (s.calls.filterMap DBProxyCall.held).length + c'.held.toList.length := by
  obtain ⟨hi, rfl⟩ := List.getElem?_eq_some_iff.mp h
  have hsplit : s.calls = s.calls.take i ++ s.calls[i] :: s.calls.drop (i + 1) := by
    rw [← List.drop_eq_getElem_cons hi, List.take_append_drop]
  have hcons : ∀ (c : DBProxyCall) (l : List DBProxyCall),
      ((c :: l).filterMap DBProxyCall.held).length =
        c.held.toList.length + (l.filterMap DBProxyCall.held).length := by
    intro c l
    cases hc : c.held <;> simp [hc, Nat.add_comm]
  rw [List.set_eq_take_append_cons_drop, if_pos hi]
  conv => rhs; rw [hsplit]
  simp only [List.filterMap_append, List.length_append, hcons]
  omega

theorem settled_getting (method : ProxyMethod) (times : ℤ) :
    (DBProxyCall.getting method times).Settled := nofun

theorem settled_got (method : ProxyMethod) (ptr : Option BaseDB) :
    (DBProxyCall.got method ptr).Settled := nofun

theorem settled_ended_iff {ptr : Option BaseDB} {pushed : List BaseDB}
    {answer : Except String (ProxyResult × SQLError)} :
    (DBProxyCall.ended ptr pushed answer).Settled ↔ pushed = ptr.toList := by
  constructor
  · intro h
    exact h ptr pushed answer rfl
  · rintro hpushed _ _ _ heq
    cases heq
    exact hpushed

/-- A call goes on: nothing is missing afterwards if it settles, and has or returns what it
had. -/
theorem Returned.set_iff (h : s.Returned initial) (hc : s.calls[i]? = some c) (man : DBMan)
    (c' : DBProxyCall) : Returned initial ⟨man, s.calls.set i c'⟩ ↔ c'.Settled ∧
      man.connections.length + c'.held.toList.length =
        s.man.connections.length + c.held.toList.length := by
  have hheld := held_set hc c'
  have havailable := h.available
  constructor
  · rintro ⟨honce, hcount⟩
    dsimp only at hcount
    refine ⟨honce c' (List.mem_set (List.getElem?_eq_some_iff.mp hc).1 c'), by omega⟩
  · rintro ⟨hsettled, hcount⟩
    refine ⟨fun d hd => ?_, ?_⟩
    · rcases List.mem_or_eq_of_mem_set hd with hd | rfl
      · exact h.once d hd
      · exact hsettled
    · dsimp only
      omega

theorem Pooled.pools_ne_nil (h : s.Pooled) (hc : s.calls[i]? = some c) (hheld : c.held = some db) :
    ∀ pool ∈ s.man.pools, pool ≠ [] := by
  refine h.filled.resolve_left fun hempty => ?_
  cases (hempty.2 c (List.mem_of_getElem? hc)).symm.trans hheld

/-- A call goes on that holds nothing new, while the pools keep their connections. -/
theorem Pooled.set (h : s.Pooled) (hc' : c'.held = none) :
    Pooled { s with calls := s.calls.set i c' } := by
  refine ⟨h.uniform, h.filled.imp_left fun hempty => ⟨hempty.1, fun d hd => ?_⟩⟩
  rcases List.mem_or_eq_of_mem_set hd with hd | rfl
  · exact hempty.2 d hd
  · exact hc'

/-- A connection is lent. -/
theorem Pooled.lend (h : s.Pooled) {next : BaseDB} {pool : BaseDBPool}
    (hpool : s.man.dbPool = db :: next :: pool) (calls : List DBProxyCall) :
    Pooled ⟨{ s.man with dbPool := next :: pool }, calls⟩ ∧
      DBMan.connections { s.man with dbPool := next :: pool } = s.man.connections.tail := by
  have hfilled : ∀ pool ∈ s.man.pools, pool ≠ [] := by
    refine h.filled.resolve_left fun hempty => ?_
    rw [hempty.1] at hpool
    cases hpool
  refine ⟨⟨h.uniform.setMain fun c hc => ⟨c, ?_, rfl⟩, .inr fun p hp => ?_⟩, ?_⟩
  · rw [hpool]
    exact List.mem_cons_of_mem _ hc
  · rcases List.mem_cons.mp hp with rfl | hp
    · exact List.cons_ne_nil _ _
    · exact hfilled p (List.mem_cons_of_mem _ hp)
  · rw [connections_eq s.man, hpool]
    rfl

/-- A connection is taken back, if it is one of the main pool's database, or lost. -/
theorem Pooled.push (h : s.Pooled) (hc : s.calls[i]? = some c) (hheld : c.held = some db)
    (calls : List DBProxyCall) : ∃ man, s.man.pushDB (some db) = some man ∧ Pooled ⟨man, calls⟩ ∧
      man.connections.length = s.man.connections.length +
        if s.man.dbPool.head?.map BaseDB.dbSn = some db.dbSn then 1 else 0 := by
  have hfilled := h.pools_ne_nil hc hheld
  refine ⟨_, pushDB_eq db hfilled, ?_⟩
  split_ifs with hmain
  -- the main pool is that of the connection
  · have hperm := insertBeforeLast_perm s.man.dbPool db
    refine ⟨⟨h.uniform.setMain fun d hd => ?_, .inr fun p hp => ?_⟩, ?_⟩
    · rcases List.mem_cons.mp (hperm.mem_iff.mp hd) with rfl | hd
      · obtain ⟨front, hfront, hsn⟩ := Option.map_eq_some_iff.mp hmain
        exact ⟨front, List.mem_of_head? hfront, hsn.symm⟩
      · exact ⟨d, hd, rfl⟩
    · rcases List.mem_cons.mp hp with rfl | hp
      · exact List.ne_nil_of_mem (hperm.mem_iff.mpr List.mem_cons_self)
      · exact hfilled p (List.mem_cons_of_mem _ hp)
    · rw [connections_eq, connections_eq, List.length_append, List.length_append, hperm.length_eq,
        List.length_cons]
      dsimp only
      omega
  -- the copy of the backup pool gets it, and is dropped
  · exact ⟨⟨h.uniform, .inr hfilled⟩, rfl⟩

theorem Pooled.swapDBPool (h : s.Pooled) : Pooled { s with man := s.man.swapDBPool } := by
  have hperm := s.man.swapDBPool_pools
  refine ⟨h.uniform.swapDBPool, h.filled.imp (fun hempty => ?_) fun hfilled p hp => ?_⟩
  · refine ⟨?_, hempty.2⟩
    dsimp only
    rw [hempty.1]
    rfl
  · exact hfilled p (hperm.mem_iff.mp hp)

/-- The task of a call returns its connection, as far as it returns one, to pools that are
filled. -/
theorem Pooled.finish_isSome (h : s.Pooled) {method : ProxyMethod} {ptr : Option BaseDB}
    (hc : s.calls[i]? = some (.got method ptr)) (behaves : Outcome (ProxyResult × SQLError))
    (timeout : Bool) : (s.step what (.finish i behaves timeout)).isSome := by
  simp only [step, hc, Option.isSome_map]
  match ptr, behaves with
  | none, _ => rfl
  | some _, .error _ => rfl
  | some db, .ok _ =>
    obtain ⟨man, hpush, -⟩ := h.push hc rfl []
    simp [task, hpush]

/-- One event keeps the pools as they should be, and returns what it should exactly if it is
one that does. -/
theorem Pooled.step (h : s.Pooled) (hs : s.step what event = some s') : s'.Pooled ∧
    (s.Returned initial → (s'.Returned initial ↔ s.Returns event)) := by
  cases event with
  | call method sql =>
    have hnew : ∃ c : DBProxyCall, c.held = none ∧ c.Settled ∧
        s' = { s with calls := s.calls ++ [c] } := by
      simp only [DBProxies.step] at hs
      split_ifs at hs
      · exact ⟨_, rfl, settled_ended_iff.mpr rfl, (Option.some.inj hs).symm⟩
      · exact ⟨_, rfl, settled_getting method 3, (Option.some.inj hs).symm⟩
    obtain ⟨c, hheld, hsettled, rfl⟩ := hnew
    refine ⟨⟨h.uniform, h.filled.imp_left fun hempty => ⟨hempty.1, fun d hd => ?_⟩⟩, fun hr => ?_⟩
    · rcases List.mem_append.mp hd with hd | hd
      · exact hempty.2 d hd
      · rwa [List.mem_singleton.mp hd]
    · refine iff_of_true ⟨List.forall_mem_append.mpr ⟨hr.once, ?_⟩, ?_⟩ trivial
      · rwa [List.forall_mem_singleton]
      · simpa [List.filterMap_append, hheld] using hr.available
  | getDB i =>
    simp only [DBProxies.step] at hs
    split at hs
    next method times hc =>
      split_ifs at hs
      · cases hs
        refine ⟨h.set rfl, fun hr => iff_of_true ?_ trivial⟩
        exact (hr.set_iff hc s.man _).mpr ⟨settled_got method none, rfl⟩
      · rcases s.man.getDB_cases with hget | ⟨db, next, pool, hpool, hget⟩
        -- the last connection of a pool is not lent
        · rw [hget] at hs
          cases hs
          exact ⟨h, fun hr => iff_of_true hr trivial⟩
        · rw [hget] at hs
          cases hs
          obtain ⟨hpooled, htail⟩ := h.lend hpool (s.calls.set i (.got method (some db)))
          refine ⟨hpooled, fun hr => iff_of_true ?_ trivial⟩
          refine (hr.set_iff hc _ _).mpr ⟨settled_got method (some db), ?_⟩
          have hlen : 0 < s.man.connections.length := by
            rw [connections_eq, hpool]
            exact Nat.succ_pos _
          rw [htail, List.length_tail]
          simp only [DBProxyCall.held, Option.toList_some, Option.toList_none, List.length_cons,
            List.length_nil]
          omega
    next => cases hs
  | finish i behaves timeout =>
    simp only [DBProxies.step] at hs
    split at hs
    next method ptr hc =>
      match ptr, behaves with
      -- there is nothing to return
      | none, _ =>
        cases hs
        refine ⟨h.set rfl, fun hr => iff_of_true ?_ fun db hdb => ?_⟩
        · exact (hr.set_iff hc s.man _).mpr ⟨settled_ended_iff.mpr rfl, rfl⟩
        · rw [hc] at hdb
          cases hdb
      -- `PushDB` is not reached
      | some db, .error e =>
        cases hs
        refine ⟨h.set rfl, fun hr => iff_of_false (fun hr' => ?_) fun hreturns => ?_⟩
        · have hsettled := ((hr.set_iff hc s.man _).mp hr').1
          cases settled_ended_iff.mp hsettled
        · cases (hreturns db (by rw [hc]; rfl)).1
      | some db, .ok result =>
        obtain ⟨man, hpush, hpooled, hcount⟩ := h.push hc rfl
          (s.calls.set i (.ended (some db) [db] (answer what method timeout (.ok result))))
        simp only [task, List.foldlM_cons, List.foldlM_nil, hpush, Option.bind_eq_bind,
          Option.bind_some, Option.pure_def, Option.map_some, Option.some.injEq] at hs
        subst hs
        refine ⟨hpooled, fun hr => (hr.set_iff hc man _).trans ?_⟩
        rw [hcount]
        constructor
        · rintro ⟨-, hsame⟩ db' hdb'
          rw [hc] at hdb'
          cases hdb'
          refine ⟨rfl, ?_⟩
          by_contra hmain
          rw [if_neg hmain] at hsame
          simp [DBProxyCall.held] at hsame
        · intro hreturns
          rw [if_pos (hreturns db (by rw [hc]; rfl)).2]
          exact ⟨settled_ended_iff.mpr rfl, rfl⟩
    next => cases hs
  | swapDBPool =>
    cases hs
    refine ⟨h.swapDBPool, fun hr => iff_of_true ⟨hr.once, ?_⟩ trivial⟩
    have hlen := s.man.swapDBPool_pools.flatten.length_eq
    have havailable := hr.available
    dsimp only
    rw [connections, hlen]
    exact havailable

end Step

/-! ## Runs -/

section Run

variable {what : DriverError → String} {hash : String → UInt64} {opens : ℕ → Bool}
  {config : List DBConnConfig} {initial : DBMan}

theorem Pooled.init (hinit : DBMan.init hash opens config = some initial) :
    Pooled ⟨initial, []⟩ := by
  obtain ⟨hfilled, huniform, -⟩ := init_made hinit
  exact ⟨huniform, hfilled.imp_left fun hempty => ⟨hempty, nofun⟩⟩

/-- **Connections are returned exactly if no method throws and each goes back to its pool.** In
every run of calls on the pools that `Init` made: after every event each task that has ended has
called `PushDB` once for the connection it was given, and no connection is missing, exactly if
every task that ends with a connection had it from a method that did not throw, and found the
main pool to be that of the connection. -/
theorem returned_iff (hinit : DBMan.init hash opens config = some initial)
    {trace : List (DBProxies × ProxyEvent)} {s : DBProxies}
    (hrun : Run (step what) ⟨initial, []⟩ trace s) :
    ((∀ e ∈ trace, e.1.Returned initial) ∧ s.Returned initial) ↔
      ∀ e ∈ trace, e.1.Returns e.2 := by
  refine hrun.forall_good_iff (Pooled.init hinit) (fun {s a s'} h hs => ?_) ⟨nofun, rfl⟩
    fun h hr hs => (h.step hs).2 hr
  have hstep : s'.Pooled ∧ (s.Returned initial → (s'.Returned initial ↔ s.Returns a)) := h.step hs
  exact hstep.1

end Run

end DBProxies

/-! ## A database object behind the proxy -/

namespace MysqlDB

/-- The call of the method on the object. -/
def proxied (method : ProxyMethod) (sql : String) : MysqlCall :=
  match method with
  | .exec => .exec sql
  | .prepared => .prepared sql
  | .query => .query sql

/-- What a method of the object does. -/
def behaves (hash : String → UInt64) (method : ProxyMethod) (sql : String) (env : CallEnv)
    (m : MysqlDB) : Outcome (ProxyResult × SQLError) :=
  match method with
  | .exec => (m.exec hash sql env).1.map fun r => (.count r.1, r.2)
  | .prepared => (m.prepared hash sql env).1.map fun r => (.object r.1, r.2)
  | .query => (m.query hash sql env).1.map fun r => (.object r.1, r.2)

section Throws

variable {hash : String → UInt64} {env : CallEnv} {m : MysqlDB}

theorem map_eq_error_iff {α β : Type} (f : α → β) (r : Outcome α) :
    (∃ e, r.map f = .error e) ↔ ∃ e, r = .error e := by
  cases r with
  | error e => exact iff_of_true ⟨e, rfl⟩ ⟨e, rfl⟩
  | ok a => exact iff_of_false nofun nofun

/-- A statement throws if its reconnects do: what it does itself is in `try` blocks. -/
theorem tryAgain_throws_iff {α : Type} {run : StatementEnv → MysqlDB → (α × SQLError) × MysqlDB}
    (hasks : ∀ env m, Asks m (run env m).2) (failed : α) :
    (∃ e, (m.tryAgain hash run failed env).1 = .error e) ↔
      (run env.first m).1.2 = .mysqlServerGoneAway ∧
        ∃ e, m.reopensIn env.reconnects 3 = .error e := by
  by_cases hgone : (run env.first m).1.2 = .mysqlServerGoneAway
  · obtain ⟨-, -, -, -, -, hthrows⟩ := tryAgain_of_gone hash hasks failed hgone
    exact hthrows.trans (and_iff_right hgone).symm
  · rw [tryAgain_of_not_gone hash failed hgone]
    exact iff_of_false (fun ⟨_, h⟩ => by cases h) fun h => hgone h.1

/-- A method throws exactly if it takes the server for gone and a reconnect throws. -/
theorem behaves_throws_iff (method : ProxyMethod) (sql : String) :
    (∃ e, m.behaves hash method sql env = .error e) ↔
      m.TakenForGone (proxied method sql) env ∧ ∃ e, m.reopensIn env.reconnects 3 = .error e := by
  cases method with
  | exec =>
    refine (map_eq_error_iff _ _).trans ?_
    refine (tryAgain_throws_iff (fun env m => mysqlExec_asks sql env m) _).trans ?_
    rw [mysqlExec_gone_iff]
    rfl
  | prepared =>
    refine (map_eq_error_iff _ _).trans ?_
    refine (tryAgain_throws_iff (fun env m => mysqlPrepared_asks sql env m) _).trans ?_
    rw [mysqlPrepared_gone_iff]
    rfl
  | query =>
    refine (map_eq_error_iff _ _).trans ?_
    refine (tryAgain_throws_iff (fun env m => mysqlQuery_asks sql env m) _).trans ?_
    rw [mysqlQuery_gone_iff]
    rfl

end Throws

/-- The server is gone, and `isValid` throws. -/
def brokenEnv : CallEnv where
  first := { execute := .error (.sqlException 2006) }
  reconnects := fun _ => { isValid := .error (.sqlException 2006) }

end MysqlDB

namespace DBProxies

/-- Two calls borrow and return, the second one slowly. -/
theorem returned_two_calls :
    ∃ (trace : List (DBProxies × ProxyEvent)) (s : DBProxies),
      Run (step fun _ => "") ⟨mainAndBackupPools, []⟩ trace s ∧
      trace.map Prod.snd = [.call .exec "UPDATE t", .getDB 0, .call .query "SELECT a", .getDB 1,
        .finish 0 (.ok (.count 1, .success)) false, .getDB 1,
        .finish 1 (.ok (.object none, .sqlException)) true] ∧
      s.calls.map DBProxyCall.held = [none, none] ∧ s.Returned mainAndBackupPools := by
  have hrun : Run (step fun _ => "") ⟨mainAndBackupPools, []⟩ _ _ :=
    Run.nil.snoc (a := .call .exec "UPDATE t") rfl |>.snoc (a := .getDB 0) rfl
    |>.snoc (a := .call .query "SELECT a") rfl |>.snoc (a := .getDB 1) rfl
    |>.snoc (a := .finish 0 (.ok (.count 1, .success)) false) rfl |>.snoc (a := .getDB 1) rfl
    |>.snoc (a := .finish 1 (.ok (.object none, .sqlException)) true) rfl
  refine ⟨_, _, hrun, rfl, rfl, ((returned_iff init_mainAndBackup hrun).mpr ?_).2⟩
  decide

/-- The server goes away during a statement and the check of the old connection throws: the
connection is missing from then on. -/
theorem returned_fails :
    ∃ (trace : List (DBProxies × ProxyEvent)) (s : DBProxies),
      DBMan.init (fun s => s.length.toUInt64) (fun _ => true) mainAndBackup =
        some mainAndBackupPools ∧
      Run (step fun _ => "") ⟨mainAndBackupPools, []⟩ trace s ∧
      trace.map Prod.snd = [.call .exec "UPDATE t", .getDB 0, .finish 0
        (MysqlDB.firstOpened.behaves (fun _ => 0) .exec "UPDATE t" MysqlDB.brokenEnv) false] ∧
      s.man.connections.length + 1 = mainAndBackupPools.connections.length ∧
      ¬ s.Returned mainAndBackupPools := by
  have hrun : Run (step fun _ => "") ⟨mainAndBackupPools, []⟩ _ _ :=
    Run.nil.snoc (a := .call .exec "UPDATE t") rfl |>.snoc (a := .getDB 0) rfl
    |>.snoc (a := .finish 0
      (MysqlDB.firstOpened.behaves (fun _ => 0) .exec "UPDATE t" MysqlDB.brokenEnv) false) rfl
  refine ⟨_, _, init_mainAndBackup, hrun, rfl, rfl, fun hr => ?_⟩
  have havailable := hr.available
  revert havailable
  decide

end DBProxies

end SampleTools
