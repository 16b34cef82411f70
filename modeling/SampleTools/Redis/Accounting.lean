import SampleTools.Redis.RedisMng

/-!
# The counters of a pool

Runs of `GetRedis` and `GiveBack` on one database, each connection returned once, under the
role it was asked for. The total is the connections lent and idle, and is bounded. The count
of idle connections is set to zero when a connection is created, so it is right exactly while
connections are created with an empty queue.

## Main definitions

* `RedisPool.Counted`: what the calls keep of a pool, whatever its count of idle connections
* `RedisLoans`, `RedisLoans.step`: the manager with the connections on loan, and one call
* `RedisPool.Accounted`: the counters agree with the queue and the loans

## Main results

* `RedisMng.getRedis_counted`, `RedisMng.giveBack_counted`: the calls on a counted pool
* `RedisLoans.accounted_iff`: the counters agree exactly if no connection is created while
  one of the other role is idle
-/

namespace SampleTools

/-- The queue has no empty entry, and the total counts the connections in use and the queue,
up to the limit. -/
structure RedisPool.Counted (limit : ℤ) (pool : RedisPool) : Prop where
  filled : ∀ entry ∈ pool.redisQueue, entry.redis.isSome
  total : pool.totalsize = pool.usesize + pool.redisQueue.length
  bound : pool.totalsize ≤ max 0 limit

/-- The law of a pool with `loans` connections on loan. -/
structure RedisPool.Accounted (limit : ℤ) (loans : ℕ) (pool : RedisPool) : Prop where
  idle : pool.idlesize = pool.redisQueue.length
  use : pool.usesize = loans
  total : pool.totalsize = pool.usesize + pool.idlesize
  nonneg : 0 ≤ pool.totalsize
  bound : pool.totalsize ≤ limit

theorem RedisPool.counted_empty (limit : ℤ) : RedisPool.Counted limit {} where
  filled := fun entry hentry => by cases hentry
  total := rfl
  bound := Int.le_max_left _ _

/-! ## The calls on a counted pool -/

theorem draw_of_filled {queue : List RealRedis} (master : Bool)
    (h : ∀ entry ∈ queue, entry.redis.isSome) : (draw master queue).2.2 = 0 := by
  induction queue with
  | nil => rfl
  | cons entry queue ih =>
    obtain ⟨hentry, hqueue⟩ := List.forall_mem_cons.mp h
    rcases entry with ⟨flag, _ | redis⟩
    · cases hentry
    · by_cases hflag : flag = master
      · simp [draw, hflag]
      · simpa [draw, hflag] using ih hqueue

theorem draw_of_none {queue : List RealRedis} (master : Bool)
    (h : ∀ entry ∈ queue, entry.redis.isSome) (hnone : (draw master queue).1 = none) :
    (draw master queue).2.1 = queue := by
  refine (draw_sublist master queue).eq_of_length ?_
  have hlength := draw_length master queue
  rw [hnone, draw_of_filled master h] at hlength
  exact hlength.symm

theorem RedisPool.Counted.idle_other {limit : ℤ} {pool : RedisPool} (h : pool.Counted limit)
    (master : Bool) (hnone : (draw master pool.redisQueue).1 = none) :
    ∀ entry ∈ pool.redisQueue, entry.master ≠ master := fun entry hentry =>
  draw_eq_none_iff.mp hnone entry hentry (h.filled entry hentry)

namespace RedisMng

variable {m : RedisMng} {pool : RedisPool} {master isvalid : Bool} {db : ℤ}
  {redis : Option Redis}

/-- The first idle connection of the role is lent; or there is none, and nothing changes or a
connection is created. -/
theorem getRedis_counted (master : Bool) (hpool : m.poolOf db = some pool)
    (h : pool.Counted (m.config.poolSize * 5)) :
    (∃ redis queue, ⟨master, some redis⟩ ∈ pool.redisQueue ∧ queue.Sublist pool.redisQueue ∧
      queue.length + 1 = pool.redisQueue.length ∧ m.getRedis master db =
        (.ok (some redis), m.setPool (m.index db) { pool with
          redisQueue := queue
          usesize := pool.usesize + 1
          idlesize := pool.idlesize - 1 })) ∨
    ((pool.totalsize ≥ m.config.poolSize * 5 ∨ m.created master (m.index db) = none) ∧
      ((m.getRedis master db).1 = .ok none ∨ (m.getRedis master db).1 = .error .thrown) ∧
      (m.getRedis master db).2 = m.setPool (m.index db) pool) ∨
    ((∀ entry ∈ pool.redisQueue, entry.master ≠ master) ∧
      pool.totalsize < m.config.poolSize * 5 ∧ ∃ redis,
        m.created master (m.index db) = some redis ∧ m.getRedis master db =
          (.ok (some redis), { m.setPool (m.index db) { pool with
            totalsize := pool.totalsize + 1
            usesize := pool.usesize + 1
            idlesize := 0 } with next := m.next + 1 })) := by
  obtain ⟨found, queue, purged, hdraw, hcases⟩ :=
    getFrom_cases (m.created master (m.index db)) master (m.index db) pool m
  have hpurged := draw_of_filled master h.filled
  have hlength := draw_length master pool.redisQueue
  have hsub := draw_sublist master pool.redisQueue
  have hkept := draw_of_none master h.filled
  have hother := h.idle_other master
  rw [hdraw] at hpurged hlength hsub hkept hother
  dsimp only at hpurged hlength hsub hkept hother
  subst hpurged
  -- no entry of the queue is empty, so nothing is purged on the way
  simp only [Int.natCast_zero, Int.sub_zero, ← getRedis_of_poolOf hpool] at hcases
  rcases hcases with ⟨redis, rfl, heq⟩ | ⟨rfl, hwhy, hresult, heq⟩ | ⟨rfl, hroom, redis, hnew, heq⟩
  · refine .inl ⟨redis, queue, mem_of_draw (by rw [hdraw]), hsub, hlength.symm, heq⟩
  · rw [hkept rfl] at heq
    exact .inr (.inl ⟨hwhy, hresult, heq⟩)
  · rw [hkept rfl] at heq
    exact .inr (.inr ⟨hother rfl, hroom, redis, hnew, heq⟩)

/-- A connection is appended, or its replacement, unless the library throws. -/
theorem giveBack_counted (redis : Option Redis) (master isvalid : Bool)
    (hpool : m.poolOf db = some pool)
    (hredis : isvalid = true → redis.isSome) :
    (∃ returned next, m.giveBack redis master isvalid db =
      (.ok 0, { m.setPool (m.index db) { pool with
        redisQueue := pool.redisQueue ++ [⟨master, some returned⟩]
        idlesize := pool.idlesize + 1
        usesize := pool.usesize - 1 } with next := next })) ∨
    m.giveBack redis master isvalid db = (.error .thrown, m) := by
  rcases giveBack_of_poolOf redis master isvalid hpool with
    ⟨entry, next, hentry, heq⟩ | ⟨-, -, heq⟩
  · have hsome : entry.isSome := by
      rcases hentry with ⟨hvalid, rfl⟩ | ⟨-, hsome, -⟩
      · exact hredis hvalid
      · exact hsome
    obtain ⟨returned, rfl⟩ := Option.isSome_iff_exists.mp hsome
    exact .inl ⟨returned, next, heq⟩
  · exact .inr heq

end RedisMng

theorem RedisPool.Counted.lent {limit : ℤ} {pool : RedisPool} (h : pool.Counted limit)
    {queue : List RealRedis} (hsub : queue.Sublist pool.redisQueue)
    (hlength : queue.length + 1 = pool.redisQueue.length) :
    RedisPool.Counted limit { pool with
      redisQueue := queue, usesize := pool.usesize + 1, idlesize := pool.idlesize - 1 } where
  filled := fun entry hentry => h.filled entry (hsub.mem hentry)
  total := by
    have htotal := h.total
    dsimp only
    omega
  bound := h.bound

theorem RedisPool.Counted.created {limit : ℤ} {pool : RedisPool} (h : pool.Counted limit)
    (hroom : pool.totalsize < limit) :
    RedisPool.Counted limit { pool with
      totalsize := pool.totalsize + 1, usesize := pool.usesize + 1, idlesize := 0 } where
  filled := h.filled
  total := by
    have htotal := h.total
    dsimp only
    omega
  bound := by
    dsimp only
    omega

theorem RedisPool.Counted.returned {limit : ℤ} {pool : RedisPool} (h : pool.Counted limit)
    (master : Bool) (redis : Redis) :
    RedisPool.Counted limit { pool with
      redisQueue := pool.redisQueue ++ [⟨master, some redis⟩]
      idlesize := pool.idlesize + 1
      usesize := pool.usesize - 1 } where
  filled := List.forall_mem_append.mpr ⟨h.filled, List.forall_mem_singleton.mpr rfl⟩
  total := by
    have htotal := h.total
    simp only [List.length_append, List.length_singleton]
    omega
  bound := h.bound

/-! ## Runs -/

/-- A call of a public method. -/
inductive RedisCall
  | getRedis (master : Bool)
  | giveBack (redis : Redis) (master isvalid : Bool)

/-- The manager, and the connections lent and not yet returned, each with the role it was asked
for. -/
structure RedisLoans where
  mng : RedisMng
  loans : List (Redis × Bool) := []

namespace RedisLoans

open RedisMng

/-- One call. Only a connection on loan can be returned; after a call that throws it still is. -/
def step (db : ℤ) (s : RedisLoans) : RedisCall → Option RedisLoans
  | .getRedis master =>
    match s.mng.getRedis master db with
    | (.ok redis, mng) => some ⟨mng, redis.toList.map (·, master) ++ s.loans⟩
    | (.error .thrown, mng) => some ⟨mng, s.loans⟩
    | (.error .outOfRange, _) => none
  | .giveBack redis master isvalid =>
    if (redis, master) ∈ s.loans then
      match s.mng.giveBack (some redis) master isvalid db with
      | (.ok _, mng) => some ⟨mng, s.loans.erase (redis, master)⟩
      | (.error .thrown, mng) => some ⟨mng, s.loans⟩
      | (.error .outOfRange, _) => none
    else none

/-- The pool of the database obeys the law. -/
def Accounted (db : ℤ) (s : RedisLoans) : Prop :=
  ∃ pool, s.mng.poolOf db = some pool ∧
    pool.Accounted (s.mng.config.poolSize * 5) s.loans.length

/-- If the call creates a connection (the role has no idle one, the pool has room, the library
does not throw), then no connection is idle. -/
def CreatesOnEmpty (db : ℤ) (s : RedisLoans) : RedisCall → Prop
  | .getRedis master => ∀ pool, s.mng.poolOf db = some pool →
    (∀ entry ∈ pool.redisQueue, entry.master ≠ master) →
    pool.totalsize < s.mng.config.poolSize * 5 →
    (s.mng.created master (s.mng.index db)).isSome → pool.redisQueue = []
  | .giveBack .. => True

/-- What every call keeps: a counted pool, with the loans in use. -/
structure Counted (db : ℤ) (config : RedisConfig) (s : RedisLoans) (pool : RedisPool) : Prop where
  config_eq : s.mng.config = config
  pool_eq : s.mng.poolOf db = some pool
  counted : pool.Counted (config.poolSize * 5)
  use : pool.usesize = s.loans.length

section Run

variable {db : ℤ} {config : RedisConfig} {s s' : RedisLoans} {pool : RedisPool} {a : RedisCall}

/-- On a counted pool with a limit that is not negative, only the count of idle connections can
be wrong. -/
theorem Counted.accounted_iff_idle (h : Counted db config s pool) (hconfig : 0 ≤ config.poolSize) :
    s.Accounted db ↔ pool.idlesize = pool.redisQueue.length := by
  have htotal := h.counted.total
  have hbound := h.counted.bound
  have huse := h.use
  constructor
  · rintro ⟨pool', hpool', haccounted⟩
    cases h.pool_eq.symm.trans hpool'
    exact haccounted.idle
  · intro hidle
    refine ⟨pool, h.pool_eq, hidle, huse, by omega, by omega, ?_⟩
    rw [h.config_eq]
    omega

theorem Counted.getRedis {master : Bool} (h : Counted db config s pool)
    (ha : s.step db (.getRedis master) = some s') :
    ∃ pool', Counted db config s' pool' ∧ (pool.idlesize = pool.redisQueue.length →
      (pool'.idlesize = pool'.redisQueue.length ↔ s.CreatesOnEmpty db (.getRedis master))) := by
  obtain ⟨rfl, hpool, hcounted, huse⟩ := h
  rw [RedisLoans.step] at ha
  rcases getRedis_counted master hpool hcounted with
    ⟨redis, queue, hmem, hsub, hlength, heq⟩ | ⟨hwhy, hresult, heq⟩ |
      ⟨hother, hroom, redis, hnew, heq⟩
  -- an idle connection is lent
  · rw [heq] at ha
    cases ha
    refine ⟨_, ⟨rfl, poolOf_setPool hpool _, hcounted.lent hsub hlength, ?_⟩, fun hidle => ?_⟩
    · simp [huse]
    · have hcreates : s.CreatesOnEmpty db (.getRedis master) := by
        intro pool' hpool' hother
        cases hpool.symm.trans hpool'
        exact absurd rfl (hother _ hmem)
      simp only [hcreates, iff_true]
      omega
  -- none is lent
  · rcases hget : s.mng.getRedis master db with ⟨result, mng⟩
    rw [hget] at ha hresult heq
    dsimp only at hresult heq
    subst heq
    have hs' : s' = ⟨s.mng.setPool (s.mng.index db) pool, s.loans⟩ := by
      rcases hresult with rfl | rfl
      · cases ha
        rfl
      · cases ha
        rfl
    subst hs'
    refine ⟨pool, ⟨rfl, poolOf_setPool hpool _, hcounted, huse⟩, fun hidle => ?_⟩
    have hcreates : s.CreatesOnEmpty db (.getRedis master) := by
      intro pool' hpool' hother hroom hnew
      cases hpool.symm.trans hpool'
      rcases hwhy with hfull | hnone
      · omega
      · rw [hnone] at hnew
        cases hnew
    simp only [hidle, hcreates]
  -- one is created
  · rw [heq] at ha
    cases ha
    refine ⟨_, ⟨rfl, poolOf_setPool hpool _, hcounted.created hroom, ?_⟩, fun hidle => ?_⟩
    · simp [huse]
    · have hcreates : s.CreatesOnEmpty db (.getRedis master) ↔ pool.redisQueue = [] := by
        constructor
        · intro hcreates
          exact hcreates pool hpool hother hroom (by rw [hnew]; rfl)
        · intro hempty pool' hpool' _ _ _
          cases hpool.symm.trans hpool'
          exact hempty
      rw [hcreates, ← List.length_eq_zero_iff]
      dsimp only
      omega

theorem Counted.giveBack {redis : Redis} {master isvalid : Bool}
    (h : Counted db config s pool) (ha : s.step db (.giveBack redis master isvalid) = some s') :
    ∃ pool', Counted db config s' pool' ∧ (pool.idlesize = pool.redisQueue.length →
      pool'.idlesize = pool'.redisQueue.length) := by
  obtain ⟨rfl, hpool, hcounted, huse⟩ := h
  rw [RedisLoans.step] at ha
  split at ha
  next hmem =>
    have hloans : (s.loans.erase (redis, master)).length + 1 = s.loans.length := by
      rw [List.length_erase_of_mem hmem]
      have hpos := List.length_pos_of_mem hmem
      omega
    rcases giveBack_counted (some redis) master isvalid hpool (fun _ => rfl) with
      ⟨returned, next, heq⟩ | heq
    · rw [heq] at ha
      cases ha
      refine ⟨_, ⟨rfl, poolOf_setPool hpool _, hcounted.returned master returned, ?_⟩, ?_⟩
      · dsimp only
        omega
      · intro hidle
        simp [hidle]
    · rw [heq] at ha
      cases ha
      exact ⟨pool, ⟨rfl, hpool, hcounted, huse⟩, id⟩
  · cases ha

/-- A call keeps a counted pool. If its count of idle connections was right, it stays so exactly
if no connection is created while one is idle. -/
theorem Counted.step (h : Counted db config s pool) (ha : s.step db a = some s') :
    ∃ pool', Counted db config s' pool' ∧ (pool.idlesize = pool.redisQueue.length →
      (pool'.idlesize = pool'.redisQueue.length ↔ s.CreatesOnEmpty db a)) := by
  cases a with
  | getRedis master => exact h.getRedis ha
  | giveBack redis master isvalid =>
    obtain ⟨pool', h', hidle⟩ := h.giveBack ha
    exact ⟨pool', h', fun hright => iff_of_true (hidle hright) trivial⟩

theorem Counted.init (sentinel : Bool) (hdb : 0 ≤ (RedisMng.init sentinel config).index db ∧
    (RedisMng.init sentinel config).index db < 16) :
    Counted db config ⟨RedisMng.init sentinel config, []⟩ {} where
  config_eq := rfl
  pool_eq := poolOf_init hdb
  counted := RedisPool.counted_empty _
  use := rfl

/-- **Accounting.** The counters of a pool agree with its queue and the loans in every state of
a run exactly if its limit is not negative and every connection the run creates is created
while none is idle. -/
theorem accounted_iff {sentinel : Bool} (hdb : 0 ≤ (RedisMng.init sentinel config).index db ∧
      (RedisMng.init sentinel config).index db < 16)
    {trace : List (RedisLoans × RedisCall)}
    (hrun : Run (step db) ⟨RedisMng.init sentinel config, []⟩ trace s) :
    ((∀ e ∈ trace, e.1.Accounted db) ∧ s.Accounted db) ↔
      0 ≤ config.poolSize ∧ ∀ e ∈ trace, e.1.CreatesOnEmpty db e.2 := by
  have hinit := Counted.init sentinel hdb
  by_cases hconfig : 0 ≤ config.poolSize
  · rw [and_iff_right hconfig]
    have hgood : ∀ {s pool}, Counted db config s pool →
        (s.Accounted db ↔ pool.idlesize = pool.redisQueue.length) :=
      fun h => h.accounted_iff_idle hconfig
    exact hrun.forall_good_iff_of_tracked hinit rfl hgood fun h ha => h.step ha
  · refine iff_of_false (fun hgood => ?_) fun h => hconfig h.1
    -- the total of the first state is zero, above a negative limit
    obtain ⟨pool, hpool, haccounted⟩ := hrun.of_forall hgood.1 hgood.2
    cases hinit.pool_eq.symm.trans hpool
    have hbound : 0 ≤ config.poolSize * 5 := haccounted.bound
    omega

end Run

/-! ## A pool for one connection -/

/-- A server without a sentinel, with a pool for one connection. -/
def oneConnection : RedisConfig where
  host := "a"
  port := 6379
  passwd := ""
  masterName := ""
  db := 0
  connectTimeout := 0
  socketTimeout := 0
  poolSize := 1

/-- The connection made first for `oneConnection`. -/
def firstRedis : Redis where
  num := 0
  sentinel := none
  options := { host := "a", port := 6379, db := 0, keepAlive := true }
  poolSize := 1

/-- Lent, returned, and lent again under the same role. -/
theorem accounted_lent_again :
    ∃ (trace : List (RedisLoans × RedisCall)) (s : RedisLoans),
      Run (step 0) ⟨RedisMng.init false oneConnection, []⟩ trace s ∧
      trace.map Prod.snd = [.getRedis true, .giveBack firstRedis true true, .getRedis true] ∧
      s.loans = [(firstRedis, true)] ∧ (∀ e ∈ trace, e.1.Accounted 0) ∧ s.Accounted 0 := by
  have hrun : Run (step 0) ⟨RedisMng.init false oneConnection, []⟩ _ _ :=
    Run.nil.snoc (a := .getRedis true) rfl
    |>.snoc (a := .giveBack firstRedis true true) rfl |>.snoc (a := .getRedis true) rfl
  refine ⟨_, _, hrun, rfl, rfl, (accounted_iff (by decide) hrun).mpr ⟨by decide, ?_⟩⟩
  simp only [List.forall_mem_append, List.forall_mem_singleton]
  refine ⟨⟨⟨?_, ?_⟩, trivial⟩, ?_⟩
  · rintro e he
    cases he
  · rintro pool hpool - - -
    cases hpool
    rfl
  · rintro pool hpool hother - -
    cases hpool
    exact absurd rfl (hother _ List.mem_cons_self)

/-- Lent and returned as a master, then one is created for a slave: the first connection is
idle, and none is counted. -/
theorem accounted_fails_on_other_role :
    ∃ (trace : List (RedisLoans × RedisCall)) (s : RedisLoans) (pool : RedisPool),
      Run (step 0) ⟨RedisMng.init false oneConnection, []⟩ trace s ∧
      trace.map Prod.snd =
        [.getRedis true, .giveBack firstRedis true true, .getRedis false] ∧
      s.mng.poolOf 0 = some pool ∧ pool.redisQueue = [⟨true, some firstRedis⟩] ∧
      pool.idlesize = 0 ∧ ¬ s.Accounted 0 := by
  refine ⟨_, _, _, Run.nil.snoc (a := .getRedis true) rfl
    |>.snoc (a := .giveBack firstRedis true true) rfl |>.snoc (a := .getRedis false) rfl,
    rfl, rfl, rfl, rfl, ?_⟩
  rintro ⟨pool, hpool, haccounted⟩
  cases hpool
  exact absurd haccounted.idle (by decide)

end RedisLoans

end SampleTools
