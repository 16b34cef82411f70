import Mathlib.Data.Int.Notation
import Mathlib.Data.List.Perm.Basic
import Mathlib.Tactic.Common
import SampleTools.Library.Run

/-!
# The pools of Redis connections

`RedisMng` keeps a pool for each of 16 databases. A pool has a queue of idle connections,
each under the role it was lent for, and three counters. `GetRedis` takes the first idle
connection of a role, dropping the empty entries it passes, or creates a connection while
the pool is below its limit. `GiveBack` appends a connection to the queue, or a new one in
its place if it is said to be invalid. Sizes are taken to fit their integers.

## Main definitions

* `RedisMng`, `RedisPool`, `Redis`: the manager, a pool, a connection
* `RedisMng.getRedis`, `RedisMng.getRedis2`: borrowing, through the sentinel or directly
* `RedisMng.giveBack`: returning, in its two parts `replace` and `pushBack`

## Main results

* `draw_length`, `draw_perm`, `mem_of_draw`: what the search in a queue does
* `RedisMng.getFrom_cases`, `RedisMng.giveBack_of_poolOf`: what a call can do
-/

namespace SampleTools

/-- `Role`. -/
inductive Role
  | master
  | slave
  deriving DecidableEq, Repr

/-- `RedisConfig`. -/
structure RedisConfig where
  host : String
  port : ℤ
  passwd : String
  masterName : String
  db : ℤ
  connectTimeout : ℤ
  socketTimeout : ℤ
  poolSize : ℤ
  deriving DecidableEq, Repr

/-- `ConnectionOptions`, with the defaults of the library. -/
structure ConnectionOptions where
  host : String := ""
  port : ℤ := 6379
  password : String := ""
  db : ℤ := 0
  keepAlive : Bool := false
  connectTimeout : ℤ := 0
  socketTimeout : ℤ := 0
  deriving DecidableEq, Repr

/-- A `Redis` object: a number that no other object has, the master name and role it was
created for through the sentinel, and its options. -/
structure Redis where
  num : ℕ
  sentinel : Option (String × Role)
  options : ConnectionOptions
  poolSize : ℤ
  deriving DecidableEq, Repr

/-- `RealRedis`: a queue entry. -/
structure RealRedis where
  master : Bool
  redis : Option Redis
  deriving DecidableEq, Repr

/-- `RedisPool`. -/
structure RedisPool where
  totalsize : ℤ := 0
  usesize : ℤ := 0
  idlesize : ℤ := 0
  redisQueue : List RealRedis := []
  deriving DecidableEq, Repr

/-- `RedisMng`. -/
structure RedisMng where
  config : RedisConfig
  /-- there is a `sentinel_` -/
  sentinel : Bool
  /-- `redis_conn_pool_` -/
  pools : List RedisPool
  /-- the number of the next `Redis` object -/
  next : ℕ := 0
  deriving DecidableEq, Repr

/-- How a call ends that does not return: the library throws while it creates a connection, or
`redis_conn_pool_` is indexed outside its size. -/
inductive RedisFault
  | thrown
  | outOfRange
  deriving DecidableEq, Repr

/-- The search in the queue: the connection found, the queue without its entry and without the
empty entries before it, and the number of these. -/
def draw (master : Bool) : List RealRedis → Option Redis × List RealRedis × ℕ
  | [] => (none, [], 0)
  | entry :: queue =>
    match entry.redis with
    | some redis =>
      if entry.master = master then (some redis, queue, 0)
      else
        let (found, queue, purged) := draw master queue
        (found, entry :: queue, purged)
    | none =>
      let (found, queue, purged) := draw master queue
      (found, queue, purged + 1)

namespace RedisMng

/-- `Init`. -/
def init (sentinel : Bool) (config : RedisConfig) : RedisMng where
  config := config
  sentinel := sentinel
  pools := List.replicate 16 {}

/-- The index a `db` argument stands for. -/
def index (m : RedisMng) (db : ℤ) : ℤ := if db = -1 then m.config.db else db

/-- The check of an index. -/
def badIndex (idx : ℤ) : Bool := idx > 16 || idx < 0

/-- Change a pool in place. -/
def setPool (idx : ℤ) (pool : RedisPool) (m : RedisMng) : RedisMng :=
  { m with pools := m.pools.set idx.toNat pool }

/-! ## Creating a connection -/

/-- `std::make_shared<Redis>(connection_opts, pool_opts)`; the library refuses an empty pool. -/
def createDirect (keepAlive : Bool) (idx : ℤ) (m : RedisMng) : Option Redis :=
  if m.config.poolSize = 0 then none
  else
    some {
      num := m.next
      sentinel := none
      options := {
        host := m.config.host
        port := m.config.port
        password := m.config.passwd
        connectTimeout := m.config.connectTimeout
        socketTimeout := m.config.socketTimeout
        db := idx
        keepAlive := keepAlive }
      poolSize := m.config.poolSize }

/-- `std::make_shared<Redis>(sentinel_, master_name, role, ...)`; the library refuses a timeout
of zero. -/
def createSentinel (role : Role) (idx : ℤ) (m : RedisMng) : Option Redis :=
  if m.config.connectTimeout = 0 ∨ m.config.socketTimeout = 0 then none
  else
    some {
      num := m.next
      sentinel := some (m.config.masterName, role)
      options := {
        password := m.config.passwd
        connectTimeout := m.config.connectTimeout
        socketTimeout := m.config.socketTimeout
        db := idx }
      poolSize := m.config.poolSize }

/-! ## Borrowing -/

/-- The locked part of `GetRedis` and `GetRedis2`, which differ in the connection they create. -/
def getFrom (created : Option Redis) (master : Bool) (idx : ℤ) (pool : RedisPool)
    (m : RedisMng) : Except RedisFault (Option Redis) × RedisMng :=
  let (found, queue, purged) := draw master pool.redisQueue
  let pool := { pool with redisQueue := queue, totalsize := pool.totalsize - purged }
  match found with
  | some redis =>
    (.ok (some redis),
      m.setPool idx { pool with usesize := pool.usesize + 1, idlesize := pool.idlesize - 1 })
  | none =>
    if pool.totalsize ≥ m.config.poolSize * 5 then (.ok none, m.setPool idx pool)
    else
      match created with
      | none => (.error .thrown, m.setPool idx pool)
      | some redis =>
        (.ok (some redis),
          { m.setPool idx { pool with
              totalsize := pool.totalsize + 1
              usesize := pool.usesize + 1
              idlesize := 0 } with
            next := m.next + 1 })

/-- `GetRedis2`: a connection straight to the server. -/
def getRedis2 (master : Bool) (db : ℤ) (m : RedisMng) :
    Except RedisFault (Option Redis) × RedisMng :=
  let idx := m.index db
  if badIndex idx then (.ok none, m)
  else
    match m.pools[idx.toNat]? with
    | none => (.error .outOfRange, m)
    | some pool => m.getFrom (m.createDirect true idx) master idx pool

/-- `GetRedis`. -/
def getRedis (master : Bool) (db : ℤ) (m : RedisMng) :
    Except RedisFault (Option Redis) × RedisMng :=
  if !m.sentinel then m.getRedis2 master db
  else
    let idx := m.index db
    if badIndex idx then (.ok none, m)
    else
      match m.pools[idx.toNat]? with
      | none => (.error .outOfRange, m)
      | some pool =>
        m.getFrom (m.createSentinel (if master then .master else .slave) idx) master idx pool

/-! ## Returning -/

/-- The first part of `GiveBack`: an invalid connection is replaced by a new one. -/
def replace (redis : Option Redis) (isvalid : Bool) (idx : ℤ) (m : RedisMng) :
    Except RedisFault (Option Redis) × RedisMng :=
  if isvalid then (.ok redis, m)
  else
    match if m.sentinel then m.createSentinel .master idx else m.createDirect false idx with
    | none => (.error .thrown, m)
    | some redis => (.ok (some redis), { m with next := m.next + 1 })

/-- The locked part of `GiveBack`. -/
def pushBack (entry : RealRedis) (idx : ℤ) (m : RedisMng) : Except RedisFault ℤ × RedisMng :=
  match m.pools[idx.toNat]? with
  | none => (.error .outOfRange, m)
  | some pool =>
    (.ok 0, m.setPool idx { pool with
      redisQueue := pool.redisQueue ++ [entry]
      idlesize := pool.idlesize + 1
      usesize := pool.usesize - 1 })

/-- `GiveBack`. -/
def giveBack (redis : Option Redis) (master isvalid : Bool) (db : ℤ) (m : RedisMng) :
    Except RedisFault ℤ × RedisMng :=
  let idx := m.index db
  if badIndex idx then (.ok (-1), m)
  else
    match m.replace redis isvalid idx with
    | (.error fault, m) => (.error fault, m)
    | (.ok redis, m) => m.pushBack ⟨master, redis⟩ idx

end RedisMng

/-! ## The search -/

section Draw

variable {master : Bool} {queue : List RealRedis}

theorem draw_length (master : Bool) (queue : List RealRedis) : queue.length =
    (draw master queue).2.1.length + (draw master queue).2.2 +
      (draw master queue).1.toList.length := by
  induction queue with
  | nil => rfl
  | cons entry queue ih =>
    rcases hdraw : draw master queue with ⟨found, kept, purged⟩
    rw [hdraw] at ih
    dsimp only at ih
    rcases entry with ⟨flag, _ | redis⟩
    · simp only [draw, hdraw, List.length_cons]
      omega
    · by_cases h : flag = master
      · simp [draw, h]
      · simp only [draw, h, if_false, hdraw, List.length_cons]
        omega

/-- The connections of the queue stay in it, or are found. -/
theorem draw_perm (master : Bool) (queue : List RealRedis) : (queue.filterMap RealRedis.redis).Perm
    ((draw master queue).1.toList ++ (draw master queue).2.1.filterMap RealRedis.redis) := by
  induction queue with
  | nil => exact .refl _
  | cons entry queue ih =>
    rcases entry with ⟨flag, _ | redis⟩
    · simpa [draw] using ih
    · by_cases h : flag = master
      · simp [draw, h]
      · simp only [draw, h, if_false, List.filterMap_cons]
        exact (ih.cons redis).trans List.perm_middle.symm

theorem draw_sublist (master : Bool) (queue : List RealRedis) :
    (draw master queue).2.1.Sublist queue := by
  induction queue with
  | nil => exact .refl _
  | cons entry queue ih =>
    rcases entry with ⟨flag, _ | redis⟩
    · exact ih.cons _
    · by_cases h : flag = master
      · simp [draw, h]
      · simpa [draw, h] using ih

/-- What is found was in the queue under the role asked for. -/
theorem mem_of_draw {redis : Redis} (h : (draw master queue).1 = some redis) :
    ⟨master, some redis⟩ ∈ queue := by
  induction queue with
  | nil => cases h
  | cons entry queue ih =>
    rcases entry with ⟨flag, _ | redis'⟩
    · exact List.mem_cons_of_mem _ (ih h)
    · by_cases hflag : flag = master
      · simp only [draw, hflag, if_true, Option.some.injEq] at h
        rw [hflag, h]
        exact List.mem_cons_self
      · simp only [draw, hflag, if_false] at h
        exact List.mem_cons_of_mem _ (ih h)

/-- An idle connection is kept, unless it is the one that is found. -/
theorem mem_draw_or (master : Bool) {flag : Bool} {redis : Redis} (h : ⟨flag, some redis⟩ ∈ queue) :
    ⟨flag, some redis⟩ ∈ (draw master queue).2.1 ∨
      flag = master ∧ (draw master queue).1 = some redis := by
  induction queue with
  | nil => cases h
  | cons entry queue ih =>
    rcases entry with ⟨flag', _ | redis'⟩
    · rcases List.mem_cons.mp h with heq | h
      · cases heq
      · exact ih h
    · by_cases hflag : flag' = master
      · rcases List.mem_cons.mp h with heq | h
        · cases heq
          exact .inr ⟨hflag, by simp [draw, hflag]⟩
        · exact .inl (by simpa [draw, hflag] using h)
      · rcases List.mem_cons.mp h with heq | h
        · cases heq
          exact .inl (by simp [draw, hflag])
        · refine (ih h).imp (fun h => ?_) fun h => ?_
          · simpa [draw, hflag] using .inr h
          · simpa [draw, hflag] using h

/-- Nothing is found exactly if no connection is idle under the role asked for. -/
theorem draw_eq_none_iff : (draw master queue).1 = none ↔
    ∀ entry ∈ queue, entry.redis.isSome → entry.master ≠ master := by
  induction queue with
  | nil => simp [draw]
  | cons entry queue ih =>
    rcases entry with ⟨flag, _ | redis⟩
    · simpa [draw] using ih
    · by_cases h : flag = master
      · simp [draw, h]
      · simpa [draw, h] using ih

end Draw

/-! ## The calls -/

namespace RedisMng

section Calls

variable {m : RedisMng} {pool : RedisPool} {master isvalid : Bool} {db idx : ℤ}
  {redis : Option Redis}

/-- The pool of a database. -/
def poolOf (db : ℤ) (m : RedisMng) : Option RedisPool :=
  if badIndex (m.index db) then none else m.pools[(m.index db).toNat]?

/-- The connection `GetRedis` creates. -/
def created (master : Bool) (idx : ℤ) (m : RedisMng) : Option Redis :=
  if m.sentinel then m.createSentinel (if master then .master else .slave) idx
  else m.createDirect true idx

/-- The connection `GiveBack` puts in the place of an invalid one. -/
def replacement (idx : ℤ) (m : RedisMng) : Option Redis :=
  if m.sentinel then m.createSentinel .master idx else m.createDirect false idx

theorem getRedis_of_poolOf (h : m.poolOf db = some pool) : m.getRedis master db =
    m.getFrom (m.created master (m.index db)) master (m.index db) pool := by
  rw [poolOf] at h
  split at h
  · cases h
  next hidx =>
    unfold getRedis getRedis2 created
    cases m.sentinel <;> simp [hidx, h]

/-- Without a pool, nothing is lent and nothing changes. -/
theorem getRedis_of_none (master : Bool) (h : m.poolOf db = none) : (m.getRedis master db).2 = m ∧
    ((m.getRedis master db).1 = .ok none ∨ (m.getRedis master db).1 = .error .outOfRange) := by
  rw [poolOf] at h
  unfold getRedis getRedis2
  split at h
  next hidx => cases m.sentinel <;> simp [hidx]
  next hidx => cases m.sentinel <;> simp [hidx, h]

theorem poolOf_init {sentinel : Bool} {config : RedisConfig}
    (h : 0 ≤ (init sentinel config).index db ∧ (init sentinel config).index db < 16) :
    (init sentinel config).poolOf db = some {} := by
  have hidx : badIndex ((init sentinel config).index db) = false := by
    simp only [badIndex, Bool.or_eq_false_iff, decide_eq_false_iff_not]
    omega
  rw [poolOf, hidx]
  exact List.getElem?_replicate_of_lt (by omega)

theorem poolOf_setPool (h : m.poolOf db = some pool) (pool' : RedisPool) :
    (m.setPool (m.index db) pool').poolOf db = some pool' := by
  have hindex : (m.setPool (m.index db) pool').index db = m.index db := rfl
  rw [poolOf] at h
  rw [poolOf, hindex]
  split at h
  · cases h
  next hidx =>
    rw [if_neg hidx, setPool, List.getElem?_set_self]
    exact (List.getElem?_eq_some_iff.mp h).1

/-- A connection is lent out of the queue, none is lent, or one is created. -/
theorem getFrom_cases (created : Option Redis) (master : Bool) (idx : ℤ) (pool : RedisPool)
    (m : RedisMng) : ∃ found queue purged, draw master pool.redisQueue = (found, queue, purged) ∧
      ((∃ redis, found = some redis ∧ m.getFrom created master idx pool =
        (.ok (some redis), m.setPool idx { pool with
          redisQueue := queue
          totalsize := pool.totalsize - purged
          usesize := pool.usesize + 1
          idlesize := pool.idlesize - 1 })) ∨
      (found = none ∧ (pool.totalsize - purged ≥ m.config.poolSize * 5 ∨ created = none) ∧
        ((m.getFrom created master idx pool).1 = .ok none ∨
          (m.getFrom created master idx pool).1 = .error .thrown) ∧
        (m.getFrom created master idx pool).2 = m.setPool idx { pool with
          redisQueue := queue, totalsize := pool.totalsize - purged }) ∨
      (found = none ∧ pool.totalsize - purged < m.config.poolSize * 5 ∧ ∃ redis,
        created = some redis ∧ m.getFrom created master idx pool =
          (.ok (some redis), { m.setPool idx { pool with
            redisQueue := queue
            totalsize := pool.totalsize - purged + 1
            usesize := pool.usesize + 1
            idlesize := 0 } with next := m.next + 1 }))) := by
  rcases hdraw : draw master pool.redisQueue with ⟨found, queue, purged⟩
  refine ⟨found, queue, purged, rfl, ?_⟩
  unfold getFrom
  rw [hdraw]
  cases found with
  | some redis => exact .inl ⟨redis, rfl, rfl⟩
  | none =>
    -- nothing idle of this role: the size decides, then whether the library creates one
    by_cases hfull : pool.totalsize - purged ≥ m.config.poolSize * 5
    · refine .inr (.inl ⟨rfl, .inl hfull, ?_⟩)
      simp [hfull]
    · cases created with
      | none =>
        refine .inr (.inl ⟨rfl, .inr rfl, ?_⟩)
        simp [hfull]
      | some redis =>
        refine .inr (.inr ⟨rfl, Int.not_le.mp hfull, redis, rfl, ?_⟩)
        simp [hfull]

/-- The connection, or a new one, is appended to the queue, or the library throws. -/
theorem giveBack_of_poolOf (redis : Option Redis) (master isvalid : Bool)
    (h : m.poolOf db = some pool) :
    (∃ entry next, (isvalid = true ∧ entry = redis ∨
        isvalid = false ∧ entry.isSome ∧ entry = m.replacement (m.index db)) ∧
      m.giveBack redis master isvalid db =
        (.ok 0, { m.setPool (m.index db) { pool with
          redisQueue := pool.redisQueue ++ [⟨master, entry⟩]
          idlesize := pool.idlesize + 1
          usesize := pool.usesize - 1 } with next := next })) ∨
    (isvalid = false ∧ m.replacement (m.index db) = none ∧
      m.giveBack redis master isvalid db = (.error .thrown, m)) := by
  rw [poolOf] at h
  split at h
  · cases h
  next hidx =>
    unfold giveBack replace pushBack
    cases isvalid with
    | true =>
      refine .inl ⟨redis, m.next, .inl ⟨rfl, rfl⟩, ?_⟩
      simp [hidx, h, setPool]
    | false =>
      -- an invalid connection is replaced by one that is created on the spot
      have hcreated : (if m.sentinel then m.createSentinel .master (m.index db)
        else m.createDirect false (m.index db)) = m.replacement (m.index db) := rfl
      simp only [hcreated, Bool.false_eq_true, if_false]
      cases hreplacement : m.replacement (m.index db) with
      | none =>
        refine .inr ⟨trivial, rfl, ?_⟩
        simp [hidx]
      | some created =>
        refine .inl ⟨some created, m.next + 1, .inr ⟨trivial, rfl, rfl⟩, ?_⟩
        simp [hidx, h, setPool]

end Calls

end RedisMng

end SampleTools
