import SampleTools.Redis.Accounting

/-!
# Proxies of connections

A `RedisMngProxy` borrows a connection in its constructor and returns it in its destructor.
A proxy that got none returns the empty pointer as an invalid connection, and `GiveBack` puts
a new connection in its place: the pool grows past its limit, and counts one in use too few.

The copies that the implicit copy constructor of `RedisMngProxy` would make are left out: nothing
makes one.

## Main definitions

* `RedisMngProxy`, with `construct`, `setInvalid` and `destroy`
* `RedisProxies`, `RedisProxies.step`: the manager with the live proxies of one database

## Main results

* `RedisProxies.withinLimit_iff`: the pool keeps its limit exactly if every proxy that is
  destroyed holds a connection
-/

namespace SampleTools

/-- `RedisMngProxy`. -/
structure RedisMngProxy where
  isvalid : Bool
  master : Bool
  db : ℤ
  ptr : Option Redis
  deriving DecidableEq, Repr

namespace RedisMngProxy

/-- `RedisMngProxy::RedisMngProxy`. -/
def construct (master : Bool) (db : ℤ) (m : RedisMng) :
    Except RedisFault RedisMngProxy × RedisMng :=
  match m.getRedis master db with
  | (.ok redis, m) => (.ok { isvalid := true, master := master, db := db, ptr := redis }, m)
  | (.error fault, m) => (.error fault, m)

/-- `SetInvalid`. -/
def setInvalid (proxy : RedisMngProxy) : RedisMngProxy := { proxy with isvalid := false }

/-- `RedisMngProxy::~RedisMngProxy`. -/
def destroy (proxy : RedisMngProxy) (m : RedisMng) : Except RedisFault ℤ × RedisMng :=
  let isvalid := if proxy.ptr.isNone then false else proxy.isvalid
  m.giveBack proxy.ptr proxy.master isvalid proxy.db

end RedisMngProxy

/-- What a program does with its proxies. -/
inductive ProxyCall
  | construct (master : Bool)
  | setInvalid (i : ℕ)
  | destroy (i : ℕ)

/-- The manager, and the live proxies. -/
structure RedisProxies where
  mng : RedisMng
  live : List RedisMngProxy := []

namespace RedisProxies

open RedisMng

/-- One call, on the proxies of one database. A constructor that throws makes no proxy; a
destructor that throws ends the program. -/
def step (db : ℤ) (s : RedisProxies) : ProxyCall → Option RedisProxies
  | .construct master =>
    match RedisMngProxy.construct master db s.mng with
    | (.ok proxy, mng) => some ⟨mng, s.live ++ [proxy]⟩
    | (.error .thrown, mng) => some ⟨mng, s.live⟩
    | (.error .outOfRange, _) => none
  | .setInvalid i =>
    match s.live[i]? with
    | none => none
    | some proxy => some ⟨s.mng, s.live.set i proxy.setInvalid⟩
  | .destroy i =>
    match s.live[i]? with
    | none => none
    | some proxy =>
      match proxy.destroy s.mng with
      | (.ok _, mng) => some ⟨mng, s.live.eraseIdx i⟩
      | (.error _, _) => none

/-- The number of live proxies that hold a connection. -/
def holding (s : RedisProxies) : ℕ := s.live.countP (·.ptr.isSome)

/-- The connections of the database, held and idle, are within the limit, and those held are
counted as in use. -/
def WithinLimit (db : ℤ) (s : RedisProxies) : Prop :=
  ∃ pool, s.mng.poolOf db = some pool ∧
    (s.holding + (pool.redisQueue.filterMap RealRedis.redis).length : ℤ) ≤
      s.mng.config.poolSize * 5 ∧
    pool.usesize = s.holding

/-- If the call destroys a proxy that holds no connection, the pool does not change. -/
def EmptyHarmless (db : ℤ) (s : RedisProxies) (a : ProxyCall) : Prop :=
  ∀ i proxy s', a = .destroy i → s.live[i]? = some proxy → proxy.ptr = none →
    s.step db a = some s' → s'.mng.poolOf db = s.mng.poolOf db

/-- If the call destroys a proxy, it holds a connection. -/
def DestroysHolder (s : RedisProxies) : ProxyCall → Prop
  | .destroy i => ∀ proxy, s.live[i]? = some proxy → proxy.ptr.isSome
  | _ => True

/-- What every call keeps: a counted pool, and proxies of its database. -/
structure Counted (db : ℤ) (config : RedisConfig) (s : RedisProxies) (pool : RedisPool) :
    Prop where
  config_eq : s.mng.config = config
  pool_eq : s.mng.poolOf db = some pool
  counted : pool.Counted (config.poolSize * 5)
  live_db : ∀ proxy ∈ s.live, proxy.db = db

section Run

variable {db : ℤ} {config : RedisConfig} {s s' : RedisProxies} {pool : RedisPool}
  {a : ProxyCall}

/-- On a counted pool with a limit that is not negative, only the connections in use can be
miscounted. -/
theorem Counted.withinLimit_iff_use (h : Counted db config s pool) (hconfig : 0 ≤ config.poolSize) :
    s.WithinLimit db ↔ pool.usesize = s.holding := by
  have htotal := h.counted.total
  have hbound := h.counted.bound
  have hfilled : (pool.redisQueue.filterMap RealRedis.redis).length = pool.redisQueue.length :=
    List.filterMap_length_eq_length.mpr h.counted.filled
  constructor
  · rintro ⟨pool', hpool', -, huse⟩
    cases h.pool_eq.symm.trans hpool'
    exact huse
  · intro huse
    refine ⟨pool, h.pool_eq, ?_, huse⟩
    rw [hfilled, h.config_eq]
    omega

theorem holding_eraseIdx {i : ℕ} {proxy : RedisMngProxy} (h : s.live[i]? = some proxy) :
    s.holding =
      (s.live.eraseIdx i).countP (·.ptr.isSome) + if proxy.ptr.isSome then 1 else 0 := by
  obtain ⟨hi, rfl⟩ := List.getElem?_eq_some_iff.mp h
  rw [holding, ← (List.getElem_cons_eraseIdx_perm hi).countP_eq, List.countP_cons]

theorem holding_setInvalid {i : ℕ} {proxy : RedisMngProxy} (h : s.live[i]? = some proxy) :
    (s.live.set i proxy.setInvalid).countP (·.ptr.isSome) = s.holding := by
  obtain ⟨hi, rfl⟩ := List.getElem?_eq_some_iff.mp h
  have hpos : s.live[i].ptr.isSome → 0 < s.holding := fun hptr =>
    List.countP_pos_iff.mpr ⟨_, List.getElem_mem hi, hptr⟩
  have hptr : s.live[i].setInvalid.ptr = s.live[i].ptr := rfl
  rw [List.countP_set hi, hptr, ← holding]
  split
  next hsome => exact Nat.sub_add_cancel (hpos hsome)
  · rfl

/-- A proxy without connection returns it as invalid. -/
theorem isSome_of_destroy (proxy : RedisMngProxy)
    (h : (if proxy.ptr.isNone then false else proxy.isvalid) = true) : proxy.ptr.isSome := by
  split at h
  · cases h
  next hsome => exact Option.isNone_eq_false_iff.mp (Bool.eq_false_iff.mpr hsome)

theorem Counted.construct {master : Bool} (h : Counted db config s pool)
    (ha : s.step db (.construct master) = some s') :
    ∃ pool', Counted db config s' pool' ∧
      (pool.usesize = s.holding → pool'.usesize = s'.holding) := by
  obtain ⟨rfl, hpool, hcounted, hlive⟩ := h
  have hnew : ∀ proxy : RedisMngProxy, proxy.db = db → ∀ p ∈ s.live ++ [proxy], p.db = db :=
    fun proxy hproxy => List.forall_mem_append.mpr ⟨hlive, List.forall_mem_singleton.mpr hproxy⟩
  simp only [RedisProxies.step, RedisMngProxy.construct] at ha
  rcases getRedis_counted master hpool hcounted with
    ⟨redis, queue, hmem, hsub, hlength, heq⟩ | ⟨hwhy, hresult, heq⟩ |
      ⟨hother, hroom, redis, hcreated, heq⟩
  · rw [heq] at ha
    cases ha
    refine ⟨_, ⟨rfl, poolOf_setPool hpool _, hcounted.lent hsub hlength, hnew _ rfl⟩, ?_⟩
    intro huse
    simp [huse, holding]
  · rcases hget : s.mng.getRedis master db with ⟨result, mng⟩
    rw [hget] at ha hresult heq
    dsimp only at hresult heq
    subst heq
    rcases hresult with rfl | rfl
    · cases ha
      refine ⟨pool, ⟨rfl, poolOf_setPool hpool _, hcounted, hnew _ rfl⟩, fun huse => ?_⟩
      simp [huse, holding]
    · cases ha
      -- the constructor throws: there is no proxy
      exact ⟨pool, ⟨rfl, poolOf_setPool hpool _, hcounted, hlive⟩, id⟩
  · rw [heq] at ha
    cases ha
    refine ⟨_, ⟨rfl, poolOf_setPool hpool _, hcounted.created hroom, hnew _ rfl⟩, fun huse => ?_⟩
    simp [huse, holding]

theorem Counted.setInvalid {i : ℕ} (h : Counted db config s pool)
    (ha : s.step db (.setInvalid i) = some s') :
    Counted db config s' pool ∧ s'.holding = s.holding := by
  obtain ⟨rfl, hpool, hcounted, hlive⟩ := h
  rw [RedisProxies.step] at ha
  split at ha
  · cases ha
  next proxy hproxy =>
    cases ha
    refine ⟨⟨rfl, hpool, hcounted, fun p hp => ?_⟩, holding_setInvalid hproxy⟩
    rcases List.mem_or_eq_of_mem_set hp with hp | rfl
    · exact hlive p hp
    · exact hlive proxy (List.mem_of_getElem? hproxy)

/-- The proxy that is destroyed gives up what is counted in use, and held if it holds one. -/
theorem Counted.destroy {i : ℕ} (h : Counted db config s pool)
    (ha : s.step db (.destroy i) = some s') :
    ∃ pool', Counted db config s' pool' ∧ (pool.usesize = s.holding →
      (pool'.usesize = s'.holding ↔ s.DestroysHolder (.destroy i))) := by
  obtain ⟨rfl, hpool, hcounted, hlive⟩ := h
  rw [RedisProxies.step] at ha
  split at ha
  · cases ha
  next proxy hproxy =>
    rw [RedisMngProxy.destroy, hlive proxy (List.mem_of_getElem? hproxy)] at ha
    rcases giveBack_counted proxy.ptr proxy.master
      (if proxy.ptr.isNone then false else proxy.isvalid) hpool (isSome_of_destroy proxy) with
      ⟨returned, next, heq⟩ | heq
    · rw [heq] at ha
      cases ha
      refine ⟨_, ⟨rfl, poolOf_setPool hpool _, hcounted.returned _ returned, ?_⟩, fun huse => ?_⟩
      · exact fun p hp => hlive p (List.mem_of_mem_eraseIdx hp)
      · -- usesize goes down by one; what is held does so only if the proxy holds a connection
        have hholding := holding_eraseIdx hproxy
        have hdestroys : s.DestroysHolder (.destroy i) ↔ proxy.ptr.isSome := by
          simp [DestroysHolder, hproxy]
        rw [hdestroys]
        split at hholding
        next hsome =>
          simp only [hsome, iff_true, holding]
          omega
        next hnone =>
          simp only [hnone, Bool.false_eq_true, iff_false, holding]
          omega
    · rw [heq] at ha
      cases ha

/-- A call keeps a counted pool. If the connections in use were counted, they stay so exactly
if the call does not destroy a proxy without connection. -/
theorem Counted.step (h : Counted db config s pool) (ha : s.step db a = some s') :
    ∃ pool', Counted db config s' pool' ∧ (pool.usesize = s.holding →
      (pool'.usesize = s'.holding ↔ s.DestroysHolder a)) := by
  cases a with
  | construct master =>
    obtain ⟨pool', h', huse⟩ := h.construct ha
    exact ⟨pool', h', fun hright => iff_of_true (huse hright) trivial⟩
  | setInvalid i =>
    obtain ⟨h', hholding⟩ := h.setInvalid ha
    exact ⟨pool, h', fun hright => iff_of_true (by rw [hright, hholding]) trivial⟩
  | destroy i => exact h.destroy ha

theorem Counted.init (sentinel : Bool) (hdb : 0 ≤ (RedisMng.init sentinel config).index db ∧
    (RedisMng.init sentinel config).index db < 16) :
    Counted db config ⟨RedisMng.init sentinel config, []⟩ {} where
  config_eq := rfl
  pool_eq := poolOf_init hdb
  counted := RedisPool.counted_empty _
  live_db := fun proxy hproxy => by cases hproxy

theorem DestroysHolder.emptyHarmless (h : s.DestroysHolder a) : s.EmptyHarmless db a := by
  rintro i proxy s' rfl hproxy hnone -
  have hsome := h proxy hproxy
  rw [hnone] at hsome
  cases hsome

/-- **The limit under proxies.** In every state of a run the connections of the database are
within the limit and those held are counted as in use, and every proxy without connection is
destroyed without effect on the pool, exactly if the limit is not negative and no proxy without
connection is destroyed. -/
theorem withinLimit_iff {sentinel : Bool} (hdb : 0 ≤ (RedisMng.init sentinel config).index db ∧
      (RedisMng.init sentinel config).index db < 16)
    {trace : List (RedisProxies × ProxyCall)}
    (hrun : Run (step db) ⟨RedisMng.init sentinel config, []⟩ trace s) :
    (((∀ e ∈ trace, e.1.WithinLimit db) ∧ s.WithinLimit db) ∧
        ∀ e ∈ trace, e.1.EmptyHarmless db e.2) ↔
      0 ≤ config.poolSize ∧ ∀ e ∈ trace, e.1.DestroysHolder e.2 := by
  have hinit := Counted.init sentinel hdb
  by_cases hconfig : 0 ≤ config.poolSize
  · have hstates : ((∀ e ∈ trace, e.1.WithinLimit db) ∧ s.WithinLimit db) ↔
        ∀ e ∈ trace, e.1.DestroysHolder e.2 := by
      have hgood : ∀ {s pool}, Counted db config s pool →
          (s.WithinLimit db ↔ pool.usesize = s.holding) :=
        fun h => h.withinLimit_iff_use hconfig
      exact hrun.forall_good_iff_of_tracked hinit rfl hgood fun h ha => h.step ha
    rw [hstates, and_iff_right hconfig, and_iff_left_iff_imp]
    exact fun hdestroys e he => (hdestroys e he).emptyHarmless
  · refine iff_of_false (fun hgood => ?_) fun h => hconfig h.1
    -- no connection is within a negative limit
    obtain ⟨pool, hpool, hbound, -⟩ := hrun.of_forall hgood.1.1 hgood.1.2
    dsimp only [RedisMng.init] at hbound
    omega

end Run

/-! ## Proxies on a pool for one connection -/

open RedisLoans (oneConnection)

/-- A proxy comes and goes, and its connection serves the next. -/
theorem withinLimit_two_proxies :
    ∃ (trace : List (RedisProxies × ProxyCall)) (s : RedisProxies),
      Run (step 0) ⟨RedisMng.init false oneConnection, []⟩ trace s ∧
      trace.map Prod.snd = [.construct true, .setInvalid 0, .destroy 0, .construct true] ∧
      s.holding = 1 ∧ s.WithinLimit 0 := by
  have hrun : Run (step 0) ⟨RedisMng.init false oneConnection, []⟩ _ _ :=
    Run.nil.snoc (a := .construct true) rfl |>.snoc (a := .setInvalid 0) rfl
    |>.snoc (a := .destroy 0) rfl |>.snoc (a := .construct true) rfl
  refine ⟨_, _, hrun, rfl, rfl, ((withinLimit_iff (by decide) hrun).mpr ⟨by decide, ?_⟩).1.2⟩
  simp only [List.forall_mem_append, List.forall_mem_singleton]
  refine ⟨⟨⟨⟨?_, trivial⟩, trivial⟩, ?_⟩, trivial⟩
  · rintro e he
    cases he
  · rintro proxy hproxy
    cases hproxy
    rfl

/-- Five proxies hold the connections of the pool, a sixth gets none and is destroyed: there
are six connections, and one in use is not counted. -/
theorem withinLimit_fails_on_empty_proxy :
    ∃ (trace : List (RedisProxies × ProxyCall)) (s : RedisProxies) (pool : RedisPool),
      Run (step 0) ⟨RedisMng.init false oneConnection, []⟩ trace s ∧
      trace.map Prod.snd = List.replicate 6 (.construct true) ++ [.destroy 5] ∧
      s.mng.poolOf 0 = some pool ∧ s.holding = 5 ∧ pool.redisQueue.length = 1 ∧
      pool.usesize = 4 ∧ ¬ s.WithinLimit 0 := by
  refine ⟨_, _, _, Run.nil.snoc (a := .construct true) rfl |>.snoc (a := .construct true) rfl
    |>.snoc (a := .construct true) rfl |>.snoc (a := .construct true) rfl
    |>.snoc (a := .construct true) rfl |>.snoc (a := .construct true) rfl
    |>.snoc (a := .destroy 5) rfl, rfl, rfl, rfl, rfl, rfl, ?_⟩
  rintro ⟨pool, hpool, -, huse⟩
  cases hpool
  exact absurd huse (by decide)

end RedisProxies

end SampleTools
