import SampleTools.Library.Numbering
import SampleTools.Redis.Accounting

/-!
# Exclusive lending

Any number of holders borrow and return connections of all databases. `GetRedis` is one step,
under the lock of its pool; `GiveBack` is two, since it may create a connection before it
takes the lock. A connection is in one place: with a holder, on its way back, or in a queue.

## Main definitions

* `RedisHolders`, `RedisHolders.step`: the manager, what is held, and what is on its way back
* `RedisHolders.objects`: all connections, each place it is in counted
* `RedisHolders.Exclusive`: nothing is lent twice, or lent and idle, or idle twice

## Main results

* `RedisHolders.Owned.step`: a step moves connections, drops one or adds a new one
* `RedisHolders.exclusive_of_run`: connections are lent exclusively, in every run
-/

namespace SampleTools

open scoped List

namespace RedisMng

variable {m : RedisMng} {pool : RedisPool} {master isvalid : Bool} {idx : ℤ}

/-- The connections in the queues. -/
def idle (m : RedisMng) : List Redis :=
  m.pools.flatMap fun pool => pool.redisQueue.filterMap RealRedis.redis

/-- The connections beside those of one pool, which are not changed in place with it. -/
theorem idle_perm (h : m.pools[idx.toNat]? = some pool) : ∃ others,
    m.idle ~ pool.redisQueue.filterMap RealRedis.redis ++ others ∧
    ∀ (pool' : RedisPool) (m' : RedisMng), m'.pools = (m.setPool idx pool').pools →
      m'.idle ~ pool'.redisQueue.filterMap RealRedis.redis ++ others := by
  obtain ⟨hidx, rfl⟩ := List.getElem?_eq_some_iff.mp h
  refine ⟨(m.pools.eraseIdx idx.toNat).flatMap fun pool =>
    pool.redisQueue.filterMap RealRedis.redis, ?_, fun pool' m' hm' => ?_⟩
  · exact (List.getElem_cons_eraseIdx_perm hidx).symm.flatMap_right _
  · have hset : idx.toNat < (m.pools.set idx.toNat pool').length := by
      rwa [List.length_set]
    have hperm := (List.getElem_cons_eraseIdx_perm hset).symm.flatMap_right
      fun pool => pool.redisQueue.filterMap RealRedis.redis
    rw [List.getElem_set_self, List.eraseIdx_set_eq] at hperm
    rw [idle, hm']
    exact hperm

theorem pools_of_poolOf {db : ℤ} (h : m.poolOf db = some pool) :
    m.pools[(m.index db).toNat]? = some pool := by
  rw [poolOf] at h
  split at h
  · cases h
  · exact h

theorem created_num {redis : Redis} (h : m.created master idx = some redis) :
    redis.num = m.next := by
  unfold created createSentinel createDirect at h
  split at h
  all_goals
    simp only [Option.ite_none_left_eq_some, Option.some.injEq] at h
    obtain ⟨-, rfl⟩ := h
    rfl

theorem replacement_num {redis : Redis} (h : m.replacement idx = some redis) :
    redis.num = m.next := by
  unfold replacement createSentinel createDirect at h
  split at h
  all_goals
    simp only [Option.ite_none_left_eq_some, Option.some.injEq] at h
    obtain ⟨-, rfl⟩ := h
    rfl

/-- A call of `GetRedis` moves a connection from the queues to its answer, or creates it. -/
theorem getRedis_idle (master : Bool) (db : ℤ) (m : RedisMng) :
    ((m.idle ~ (m.getRedis master db).2.idle ∧ ∀ redis,
          (m.getRedis master db).1 ≠ .ok (some redis)) ∨
        ∃ redis, (m.getRedis master db).1 = .ok (some redis) ∧
          m.idle ~ redis :: (m.getRedis master db).2.idle) ∧
      (m.getRedis master db).2.next = m.next ∨
    ∃ redis, (m.getRedis master db).1 = .ok (some redis) ∧ redis.num = m.next ∧
      m.idle ~ (m.getRedis master db).2.idle ∧ (m.getRedis master db).2.next = m.next + 1 := by
  cases hpool : m.poolOf db with
  | none =>
    obtain ⟨heq, hanswer⟩ := getRedis_of_none master hpool
    refine .inl ⟨.inl ⟨by rw [heq], fun redis h => ?_⟩, by rw [heq]⟩
    rcases hanswer with hanswer | hanswer
    · cases hanswer.symm.trans h
    · cases hanswer.symm.trans h
  | some pool =>
    obtain ⟨others, hidle, hset⟩ := idle_perm (pools_of_poolOf hpool)
    obtain ⟨found, queue, purged, hdraw, hcases⟩ :=
      getFrom_cases (m.created master (m.index db)) master (m.index db) pool m
    have hperm := draw_perm master pool.redisQueue
    rw [← getRedis_of_poolOf hpool] at hcases
    rw [hdraw] at hperm
    have hmoved := hidle.trans (hperm.append_right others)
    -- lent out of the queue, refused, or created
    rcases hcases with ⟨redis, rfl, heq⟩ | ⟨rfl, -, hanswer, heq⟩ | ⟨rfl, -, redis, hnew, heq⟩
    · rw [heq]
      refine .inl ⟨.inr ⟨redis, rfl, hmoved.trans (.cons redis ?_)⟩, rfl⟩
      exact .symm (hset _ _ rfl)
    · rw [heq]
      refine .inl ⟨.inl ⟨.symm (.trans (hset _ _ rfl) hmoved.symm), fun redis h => ?_⟩, rfl⟩
      rcases hanswer with hanswer | hanswer
      · cases hanswer.symm.trans h
      · cases hanswer.symm.trans h
    · rw [heq]
      exact .inr ⟨redis, rfl, created_num hnew, .symm (.trans (hset _ _ rfl) hmoved.symm), rfl⟩

/-- The first part of `GiveBack` keeps what it is given, or creates a connection. -/
theorem replace_cases {redis returned : Option Redis} {m' : RedisMng}
    (h : m.replace redis isvalid idx = (.ok returned, m')) :
    (returned = redis ∧ m' = m) ∨ ∃ created, returned = some created ∧ created.num = m.next ∧
      m'.idle = m.idle ∧ m'.next = m.next + 1 := by
  rw [replace] at h
  split at h
  · cases h
    exact .inl ⟨rfl, rfl⟩
  · split at h
    · cases h
    next created hcreated =>
      cases h
      exact .inr ⟨created, rfl, replacement_num hcreated, rfl, rfl⟩

theorem replace_error {redis : Option Redis} {fault : RedisFault} {m' : RedisMng}
    (h : m.replace redis isvalid idx = (.error fault, m')) : m' = m := by
  rw [replace] at h
  split at h
  · cases h
  · split at h
    · cases h
      rfl
    · cases h

/-- The locked part of `GiveBack` puts its entry in a queue. -/
theorem pushBack_idle {entry : RealRedis} {code : ℤ} {m' : RedisMng}
    (h : m.pushBack entry idx = (.ok code, m')) :
    m'.idle ~ entry.redis.toList ++ m.idle ∧ m'.next = m.next := by
  rw [pushBack] at h
  split at h
  · cases h
  next pool hpool =>
    cases h
    obtain ⟨others, hidle, hset⟩ := idle_perm hpool
    have hqueue : (pool.redisQueue ++ [entry]).filterMap RealRedis.redis ~
        entry.redis.toList ++ pool.redisQueue.filterMap RealRedis.redis := by
      rw [List.filterMap_append]
      refine List.perm_append_comm.trans (.append_right _ ?_)
      rw [List.filterMap_cons]
      cases entry.redis <;> exact .refl _
    refine ⟨?_, rfl⟩
    calc idle _ ~ (pool.redisQueue ++ [entry]).filterMap RealRedis.redis ++ others := hset _ _ rfl
      _ ~ entry.redis.toList ++ pool.redisQueue.filterMap RealRedis.redis ++ others :=
        hqueue.append_right others
      _ ~ entry.redis.toList ++ m.idle := by
        rw [List.append_assoc]
        exact hidle.symm.append_left _

end RedisMng

/-! ## Runs -/

/-- A step of a holder: a call of `GetRedis`, the part of a call of `GiveBack` before the lock,
and the locked part of one of those under way. -/
inductive HolderCall
  | getRedis (holder : ℕ) (master : Bool) (db : ℤ)
  | replace (holder : ℕ) (redis : Option Redis) (master isvalid : Bool) (db : ℤ)
  | pushBack (i : ℕ)

/-- The manager, the connections held, each with its holder, and those on their way back, each
with the index of its pool. -/
structure RedisHolders where
  mng : RedisMng
  held : List (ℕ × Redis) := []
  returning : List (RealRedis × ℤ) := []

namespace RedisHolders

open RedisMng

/-- What is held when the holder has given up a connection, if there is one. -/
def release (holder : ℕ) (redis : Option Redis) (held : List (ℕ × Redis)) : List (ℕ × Redis) :=
  match redis with
  | none => held
  | some redis => held.erase (holder, redis)

/-- One step. A holder returns nothing, or what it holds; what `GiveBack` refuses, or throws
on, it still holds. -/
def step (s : RedisHolders) : HolderCall → Option RedisHolders
  | .getRedis holder master db =>
    match s.mng.getRedis master db with
    | (.ok redis, mng) => some { s with mng := mng, held := redis.toList.map (holder, ·) ++ s.held }
    | (.error .thrown, mng) => some { s with mng := mng }
    | (.error .outOfRange, _) => none
  | .replace holder redis master isvalid db =>
    if ∀ held ∈ redis, (holder, held) ∈ s.held then
      let idx := s.mng.index db
      if badIndex idx then some s
      else
        match s.mng.replace redis isvalid idx with
        | (.ok returned, mng) => some {
            mng := mng
            held := release holder redis s.held
            returning := s.returning ++ [(⟨master, returned⟩, idx)] }
        | (.error _, mng) => some { s with mng := mng }
    else none
  | .pushBack i =>
    match s.returning[i]? with
    | none => none
    | some (entry, idx) =>
      match s.mng.pushBack entry idx with
      | (.ok _, mng) => some { s with mng := mng, returning := s.returning.eraseIdx i }
      | (.error _, _) => none

/-- All connections: those held, those on their way back, and those in the queues. -/
def objects (s : RedisHolders) : List Redis :=
  s.held.map Prod.snd ++ (s.returning.filterMap (·.1.redis) ++ s.mng.idle)

/-- No connection is held twice, or held and idle, or idle twice. -/
structure Exclusive (s : RedisHolders) : Prop where
  held : (s.held.map fun held => held.2.num).Nodup
  apart : ∀ held ∈ s.held, ∀ redis ∈ s.mng.idle, held.2.num ≠ redis.num
  idle : (s.mng.idle.map Redis.num).Nodup

/-- The connections are numbered as they are made, and each is in one place. -/
def Owned (s : RedisHolders) : Prop := Numbered Redis.num s.mng.next s.objects

section Run

variable {s s' : RedisHolders} {holder : ℕ} {redis : Option Redis} {master isvalid : Bool}
  {db : ℤ} {a : HolderCall}

theorem Owned.exclusive (h : s.Owned) : s.Exclusive where
  held := by
    have hnodup := h.nodup
    rw [objects, List.map_append, List.map_map] at hnodup
    exact (List.nodup_append.mp hnodup).1
  apart := fun held hheld redis hredis =>
    h.ne_of_append (List.mem_map_of_mem hheld) (List.mem_append_right _ hredis)
  idle := by
    have hnodup := h.nodup
    rw [objects, List.map_append, List.map_append] at hnodup
    exact (List.nodup_append.mp (List.nodup_append.mp hnodup).2.1).2.1

/-- What a holder gives up leaves what is held. -/
theorem release_perm (h : ∀ held ∈ redis, (holder, held) ∈ s.held) :
    s.held.map Prod.snd ~ redis.toList ++ (release holder redis s.held).map Prod.snd := by
  cases redis with
  | none => exact .refl _
  | some redis => exact (List.perm_cons_erase (h redis rfl)).map Prod.snd

/-- What is on its way back, with one more entry. -/
theorem returning_perm (returning : List (RealRedis × ℤ)) (entry : RealRedis) (idx : ℤ) :
    (returning ++ [(entry, idx)]).filterMap (·.1.redis) ~
      entry.redis.toList ++ returning.filterMap (·.1.redis) := by
  rw [List.filterMap_append]
  refine List.perm_append_comm.trans (.append_right _ ?_)
  rw [List.filterMap_cons]
  cases entry.redis <;> exact .refl _

/-- A call of `GiveBack` under way has what it returns beside what is held. -/
theorem objects_perm (s : RedisHolders) (held : List (ℕ × Redis)) (mng : RedisMng)
    (entry : RealRedis) (idx : ℤ) :
    objects ⟨mng, held, s.returning ++ [(entry, idx)]⟩ ~ entry.redis.toList ++
      (held.map Prod.snd ++ (s.returning.filterMap (·.1.redis) ++ mng.idle)) := by
  calc objects ⟨mng, held, s.returning ++ [(entry, idx)]⟩
      ~ held.map Prod.snd ++
          (entry.redis.toList ++ s.returning.filterMap (·.1.redis) ++ mng.idle) :=
        ((returning_perm s.returning entry idx).append_right _).append_left _
    _ ~ entry.redis.toList ++
          (held.map Prod.snd ++ (s.returning.filterMap (·.1.redis) ++ mng.idle)) := by
        rw [List.append_assoc]
        exact List.perm_append_comm_assoc _ _ _

theorem Owned.getRedis (h : s.Owned) (ha : s.step (.getRedis holder master db) = some s') :
    s'.Owned := by
  have hidle := getRedis_idle master db s.mng
  rw [RedisHolders.step] at ha
  split at ha
  next answer mng hget =>
    cases ha
    rw [hget] at hidle
    dsimp only at hidle
    rcases hidle with ⟨⟨hidle, hnone⟩ | ⟨redis, hanswer, hidle⟩, hnext⟩ |
      ⟨redis, hanswer, hnum, hidle, hnext⟩
    -- nothing is lent
    · have hanswer : answer = none := by
        cases answer with
        | none => rfl
        | some redis => exact absurd rfl (hnone redis)
      subst hanswer
      exact h.subperm ((hidle.symm.append_left _).append_left _).subperm (Nat.le_of_eq hnext.symm)
    -- an idle connection is lent
    · cases hanswer
      refine h.subperm (List.Perm.subperm ?_) (Nat.le_of_eq hnext.symm)
      calc redis :: s.held.map Prod.snd ++ (s.returning.filterMap (·.1.redis) ++ mng.idle)
          ~ s.held.map Prod.snd ++ redis :: (s.returning.filterMap (·.1.redis) ++ mng.idle) :=
            List.perm_middle.symm
        _ ~ s.held.map Prod.snd ++ (s.returning.filterMap (·.1.redis) ++ redis :: mng.idle) :=
            List.perm_middle.symm.append_left _
        _ ~ s.objects := (hidle.symm.append_left _).append_left _
    -- a new connection is lent
    · cases hanswer
      have hfresh := h.fresh hnum
        (((hidle.symm.append_left _).append_left _).cons redis).subperm
      rwa [← hnext] at hfresh
  next mng hget =>
    cases ha
    rw [hget] at hidle
    dsimp only at hidle
    rcases hidle with ⟨⟨hidle, -⟩ | ⟨redis, hanswer, -⟩, hnext⟩ | ⟨redis, hanswer, -⟩
    · exact h.subperm ((hidle.symm.append_left _).append_left _).subperm (Nat.le_of_eq hnext.symm)
    · cases hanswer
    · cases hanswer
  · cases ha

theorem Owned.replace (h : s.Owned)
    (ha : s.step (.replace holder redis master isvalid db) = some s') : s'.Owned := by
  rw [RedisHolders.step] at ha
  split at ha
  next hheld =>
    have hrelease := release_perm hheld
    dsimp only at ha
    split at ha
    · cases ha
      exact h
    · split at ha
      next returned mng hreplace =>
        cases ha
        have hmoved := s.objects_perm (release holder redis s.held) mng ⟨master, returned⟩
          (s.mng.index db)
        rcases replace_cases hreplace with ⟨rfl, rfl⟩ | ⟨created, rfl, hnum, hidle, hnext⟩
        -- what was held is on its way back
        · refine h.subperm (hmoved.trans ?_).subperm (Nat.le_refl _)
          rw [← List.append_assoc]
          exact hrelease.symm.append_right _
        -- what was held is dropped, and a new connection is on its way
        · rw [hidle] at hmoved
          have hdropped : (release holder redis s.held).map Prod.snd <+~ s.held.map Prod.snd :=
            (List.sublist_append_right _ _).subperm.trans hrelease.symm.subperm
          have hfresh := h.fresh hnum (hmoved.subperm.trans
            ((List.subperm_cons created).mpr ((List.subperm_append_right _).mpr hdropped)))
          rwa [← hnext] at hfresh
      next mng hreplace =>
        cases ha
        rw [replace_error hreplace]
        exact h
  · cases ha

theorem Owned.pushBack {i : ℕ} (h : s.Owned) (ha : s.step (.pushBack i) = some s') :
    s'.Owned := by
  rw [RedisHolders.step] at ha
  split at ha
  · cases ha
  next entry idx hi =>
    split at ha
    next code mng hpush =>
      cases ha
      obtain ⟨hidle, hnext⟩ := pushBack_idle hpush
      obtain ⟨hlt, hentry⟩ := List.getElem?_eq_some_iff.mp hi
      have hreturning : s.returning.filterMap (·.1.redis) ~
          entry.redis.toList ++ (s.returning.eraseIdx i).filterMap (·.1.redis) := by
        refine ((List.getElem_cons_eraseIdx_perm hlt).symm.filterMap _).trans ?_
        rw [hentry, List.filterMap_cons]
        cases entry.redis <;> exact .refl _
      refine h.subperm (List.Perm.subperm ?_) (Nat.le_of_eq hnext.symm)
      refine List.Perm.append_left _ ?_
      calc (s.returning.eraseIdx i).filterMap (·.1.redis) ++ mng.idle
          ~ (s.returning.eraseIdx i).filterMap (·.1.redis) ++
              (entry.redis.toList ++ s.mng.idle) := hidle.append_left _
        _ ~ entry.redis.toList ++ (s.returning.eraseIdx i).filterMap (·.1.redis) ++
              s.mng.idle := by
            rw [← List.append_assoc]
            exact List.perm_append_comm.append_right _
        _ ~ s.returning.filterMap (·.1.redis) ++ s.mng.idle := hreturning.symm.append_right _
    · cases ha

theorem Owned.step (h : s.Owned) (ha : s.step a = some s') : s'.Owned := by
  cases a with
  | getRedis holder master db => exact h.getRedis ha
  | replace holder redis master isvalid db => exact h.replace ha
  | pushBack i => exact h.pushBack ha

theorem Owned.init (sentinel : Bool) (config : RedisConfig) :
    Owned ⟨RedisMng.init sentinel config, [], []⟩ := Numbered.nil _ _

/-- **Exclusive lending.** In every run of any holders, no connection is held twice, or held
and in a queue, or in the queues twice. -/
theorem exclusive_of_run {sentinel : Bool} {config : RedisConfig}
    {trace : List (RedisHolders × HolderCall)}
    (hrun : Run step ⟨RedisMng.init sentinel config, [], []⟩ trace s) : s.Exclusive :=
  (hrun.invariant (Owned.init sentinel config) Owned.step).exclusive

end Run

open RedisLoans (oneConnection firstRedis) in
/-- Two holders borrow; the first returns its connection as invalid, and a third borrows what
takes its place. -/
theorem exclusive_three_holders :
    ∃ (trace : List (RedisHolders × HolderCall)) (s : RedisHolders),
      Run step ⟨RedisMng.init false oneConnection, [], []⟩ trace s ∧
      trace.map Prod.snd = [.getRedis 0 true 0, .replace 0 (some firstRedis) true false 0,
        .getRedis 1 false 5, .pushBack 0, .getRedis 2 true 0] ∧
      s.held.map (fun held => (held.1, held.2.num)) = [(2, 1), (1, 2)] ∧ s.Exclusive := by
  have hrun : Run step ⟨RedisMng.init false oneConnection, [], []⟩ _ _ :=
    Run.nil.snoc (a := .getRedis 0 true 0) rfl
    |>.snoc (a := .replace 0 (some firstRedis) true false 0) rfl
    |>.snoc (a := .getRedis 1 false 5) rfl |>.snoc (a := .pushBack 0) rfl
    |>.snoc (a := .getRedis 2 true 0) rfl
  exact ⟨_, _, hrun, rfl, rfl, exclusive_of_run hrun⟩

end RedisHolders

end SampleTools
