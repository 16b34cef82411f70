import SampleTools.Redis.RedisMng

/-!
# The roles of connections

With a sentinel a connection is created for a role, and lent under a role. The two agree as
long as `GiveBack` does not replace a connection lent as a slave: what it puts in its place is
always created for the master, and goes to the next call that asks for a slave.

## Main definitions

* `RedisMng.IdleAs`: a connection is idle in a database under a role
* `RedisBorrowers`, `RedisBorrowers.step`: the manager with the answers given, and one call
* `Redis.Fits`: a connection is of a role and a database

## Main results

* `RedisMng.idle_of_getRedis`, `RedisMng.idle_of_giveBack`: where idle connections come from
* `RedisMng.idle_getRedis_or`, `RedisMng.idle_giveBack`: where they go
* `RedisBorrowers.answers_iff`: all answers are of the role asked for exactly if no connection
  lent as a slave is replaced
-/

namespace SampleTools

namespace RedisMng

variable {m : RedisMng} {pool : RedisPool} {master isvalid flag : Bool} {db db' idx : ℤ}
  {redis : Redis} {given : Option Redis}

/-- The connection is idle in the database, under the role. -/
def IdleAs (db : ℤ) (flag : Bool) (redis : Redis) (m : RedisMng) : Prop :=
  ∃ pool, m.poolOf db = some pool ∧ ⟨flag, some redis⟩ ∈ pool.redisQueue

theorem poolOf_setPool_of_ne (h : m.poolOf db = some pool) (hne : m.index db' ≠ m.index db)
    (pool' : RedisPool) : (m.setPool (m.index db) pool').poolOf db' = m.poolOf db' := by
  have hindex : (m.setPool (m.index db) pool').index db' = m.index db' := rfl
  rw [poolOf] at h
  rw [poolOf, poolOf, hindex]
  split at h
  · cases h
  next hidx =>
    split
    · rfl
    next hidx' =>
      simp only [badIndex, Bool.or_eq_true, decide_eq_true_eq] at hidx hidx'
      exact List.getElem?_set_ne (by omega)

/-- A pool that is changed in place holds the entries it is given, and the other pools theirs. -/
theorem idleAs_setPool (h : m.poolOf db = some pool) (pool' : RedisPool) :
    (m.setPool (m.index db) pool').IdleAs db' flag redis ↔
      if m.index db' = m.index db then ⟨flag, some redis⟩ ∈ pool'.redisQueue
      else m.IdleAs db' flag redis := by
  split
  next heq =>
    have hpool : (m.setPool (m.index db) pool').poolOf db' = some pool' := by
      rw [← poolOf_setPool h pool']
      have hindex : (m.setPool (m.index db) pool').index db' =
        (m.setPool (m.index db) pool').index db := heq
      rw [poolOf, poolOf, hindex]
    simp [IdleAs, hpool]
  next hne => rw [IdleAs, poolOf_setPool_of_ne h hne, IdleAs]

theorem idleAs_of_index (h : m.poolOf db = some pool) (heq : m.index db' = m.index db) :
    m.IdleAs db' flag redis ↔ ⟨flag, some redis⟩ ∈ pool.redisQueue := by
  have hpool : m.poolOf db' = some pool := by rw [← h, poolOf, poolOf, heq]
  simp [IdleAs, hpool]

/-- `GetRedis` keeps what its search leaves, and answers what it finds or creates. -/
theorem getRedis_draw (master : Bool) (h : m.poolOf db = some pool) : ∃ pool' next,
    (m.getRedis master db).2 = { m.setPool (m.index db) pool' with next := next } ∧
    pool'.redisQueue = (draw master pool.redisQueue).2.1 ∧
    (∀ redis, (draw master pool.redisQueue).1 = some redis →
      (m.getRedis master db).1 = .ok (some redis)) ∧
    ∀ redis, (m.getRedis master db).1 = .ok (some redis) →
      (draw master pool.redisQueue).1 = some redis ∨
        m.created master (m.index db) = some redis := by
  obtain ⟨found, queue, purged, hdraw, hcases⟩ :=
    getFrom_cases (m.created master (m.index db)) master (m.index db) pool m
  rw [← getRedis_of_poolOf h] at hcases
  rw [hdraw]
  rcases hcases with ⟨redis, rfl, heq⟩ | ⟨rfl, -, hresult, heq⟩ | ⟨rfl, -, redis, hnew, heq⟩
  · rw [heq]
    refine ⟨_, m.next, rfl, rfl, fun r hr => ?_, fun r hr => ?_⟩
    · cases hr
      rfl
    · cases hr
      exact .inl rfl
  · refine ⟨_, m.next, heq, rfl, (fun r hr => by cases hr), fun r hr => ?_⟩
    rcases hresult with hresult | hresult
    · cases hresult.symm.trans hr
    · cases hresult.symm.trans hr
  · rw [heq]
    refine ⟨_, m.next + 1, rfl, rfl, (fun r hr => by cases hr), fun r hr => ?_⟩
    cases hr
    exact .inr hnew

theorem idle_of_getRedis (h : (m.getRedis master db).2.IdleAs db' flag redis) :
    m.IdleAs db' flag redis := by
  cases hpool : m.poolOf db with
  | none => rwa [(getRedis_of_none master hpool).1] at h
  | some pool =>
    obtain ⟨pool', next, heq, hqueue, -, -⟩ := getRedis_draw master hpool
    rw [heq] at h
    have hset := (idleAs_setPool hpool pool').mp h
    split at hset
    next hindex =>
      rw [hqueue] at hset
      exact (idleAs_of_index hpool hindex).mpr ((draw_sublist master _).mem hset)
    · exact hset

theorem idle_getRedis_or (master : Bool) (db : ℤ) (h : m.IdleAs db' flag redis) :
    (m.getRedis master db).2.IdleAs db' flag redis ∨
      m.index db' = m.index db ∧ flag = master ∧
        (m.getRedis master db).1 = .ok (some redis) := by
  cases hpool : m.poolOf db with
  | none =>
    rw [(getRedis_of_none master hpool).1]
    exact .inl h
  | some pool =>
    obtain ⟨pool', next, heq, hqueue, hfound, -⟩ := getRedis_draw master hpool
    rw [heq]
    by_cases hindex : m.index db' = m.index db
    · rcases mem_draw_or master ((idleAs_of_index hpool hindex).mp h) with
        hmem | ⟨hflag, hdraw⟩
      · refine .inl ((idleAs_setPool hpool pool').mpr ?_)
        rw [if_pos hindex, hqueue]
        exact hmem
      · exact .inr ⟨hindex, hflag, hfound _ hdraw⟩
    · refine .inl ((idleAs_setPool hpool pool').mpr ?_)
      rwa [if_neg hindex]

/-- An answer was idle under the role asked for, or is created for it. -/
theorem getRedis_eq_ok (h : (m.getRedis master db).1 = .ok (some redis)) :
    m.IdleAs db master redis ∨ m.created master (m.index db) = some redis := by
  cases hpool : m.poolOf db with
  | none =>
    rcases (getRedis_of_none master hpool).2 with hnone | hnone
    · cases hnone.symm.trans h
    · cases hnone.symm.trans h
  | some pool =>
    obtain ⟨pool', next, -, -, -, hanswer⟩ := getRedis_draw master hpool
    exact (hanswer redis h).imp (fun hdraw => ⟨pool, hpool, mem_of_draw hdraw⟩) id

/-- Without a pool, nothing is taken back. -/
theorem giveBack_of_none (given : Option Redis) (master isvalid : Bool) (h : m.poolOf db = none) :
    ∃ next, (m.giveBack given master isvalid db).2 = { m with next := next } := by
  rw [poolOf] at h
  unfold giveBack replace pushBack
  split at h
  next hidx => exact ⟨m.next, by simp [hidx]⟩
  next hidx =>
    cases isvalid with
    | true => exact ⟨m.next, by simp [hidx, h]⟩
    | false =>
      simp only [hidx, Bool.false_eq_true, if_false]
      cases if m.sentinel then m.createSentinel .master (m.index db)
        else m.createDirect false (m.index db) with
      | none => exact ⟨m.next, rfl⟩
      | some created => exact ⟨m.next + 1, by simp [h]⟩

theorem idle_of_giveBack
    (h : (m.giveBack given master isvalid db).2.IdleAs db' flag redis) :
    m.IdleAs db' flag redis ∨ m.index db' = m.index db ∧ flag = master ∧
      (isvalid = true ∧ given = some redis ∨
        isvalid = false ∧ (m.poolOf db).isSome ∧
          m.replacement (m.index db) = some redis) := by
  cases hpool : m.poolOf db with
  | none =>
    obtain ⟨next, heq⟩ := giveBack_of_none given master isvalid hpool
    rw [heq] at h
    exact .inl h
  | some pool =>
    rcases giveBack_of_poolOf given master isvalid hpool with
      ⟨entry, next, hentry, heq⟩ | ⟨-, -, heq⟩
    · rw [heq] at h
      have hset := (idleAs_setPool hpool _).mp h
      split at hset
      next hindex =>
        rcases List.mem_append.mp hset with hmem | hmem
        · exact .inl ((idleAs_of_index hpool hindex).mpr hmem)
        · cases List.mem_singleton.mp hmem
          refine .inr ⟨hindex, rfl, ?_⟩
          rcases hentry with ⟨hvalid, hgiven⟩ | ⟨hvalid, -, hnew⟩
          · exact .inl ⟨hvalid, hgiven.symm⟩
          · exact .inr ⟨hvalid, rfl, hnew.symm⟩
      · exact .inl hset
    · rw [heq] at h
      exact .inl h

theorem idle_giveBack (h : m.IdleAs db' flag redis) :
    (m.giveBack given master isvalid db).2.IdleAs db' flag redis := by
  cases hpool : m.poolOf db with
  | none =>
    obtain ⟨next, heq⟩ := giveBack_of_none given master isvalid hpool
    rw [heq]
    exact h
  | some pool =>
    rcases giveBack_of_poolOf given master isvalid hpool with
      ⟨entry, next, -, heq⟩ | ⟨-, -, heq⟩
    · rw [heq]
      refine (idleAs_setPool hpool _).mpr ?_
      split
      next hindex =>
        exact List.mem_append_left _ ((idleAs_of_index hpool hindex).mp h)
      · exact h
    · rw [heq]
      exact h

/-- What is put in the place of an invalid connection is idle. -/
theorem idle_giveBack_replacement (hpool : m.poolOf db = some pool)
    (hnew : m.replacement (m.index db) = some redis) :
    (m.giveBack given master false db).2.IdleAs db master redis := by
  rcases giveBack_of_poolOf given master false hpool with
    ⟨entry, next, hentry, heq⟩ | ⟨-, hnone, -⟩
  · rcases hentry with ⟨hvalid, -⟩ | ⟨-, -, rfl⟩
    · cases hvalid
    · rw [heq]
      refine (idleAs_setPool hpool _).mpr ?_
      rw [if_pos rfl, hnew]
      exact List.mem_append_right _ List.mem_cons_self
  · cases hnew.symm.trans hnone

theorem getRedis_config : (m.getRedis master db).2.config = m.config ∧
    (m.getRedis master db).2.sentinel = m.sentinel := by
  cases hpool : m.poolOf db with
  | none =>
    rw [(getRedis_of_none master hpool).1]
    exact ⟨rfl, rfl⟩
  | some pool =>
    obtain ⟨pool', next, heq, -⟩ := getRedis_draw master hpool
    rw [heq]
    exact ⟨rfl, rfl⟩

theorem giveBack_config : (m.giveBack given master isvalid db).2.config = m.config ∧
    (m.giveBack given master isvalid db).2.sentinel = m.sentinel := by
  cases hpool : m.poolOf db with
  | none =>
    obtain ⟨next, heq⟩ := giveBack_of_none given master isvalid hpool
    rw [heq]
    exact ⟨rfl, rfl⟩
  | some pool =>
    rcases giveBack_of_poolOf given master isvalid hpool with
      ⟨entry, next, -, heq⟩ | ⟨-, -, heq⟩
    · rw [heq]
      exact ⟨rfl, rfl⟩
    · rw [heq]
      exact ⟨rfl, rfl⟩

end RedisMng

/-! ## Runs -/

/-- The connection is created for the role, and bound to the database. -/
def Redis.Fits (master : Bool) (idx : ℤ) (redis : Redis) : Prop :=
  redis.sentinel.map Prod.snd = some (if master then .master else .slave) ∧
    redis.options.db = idx

/-- A call of a public method, on any database. -/
inductive RedisDbCall
  | getRedis (master : Bool) (db : ℤ)
  | giveBack (redis : Option Redis) (master isvalid : Bool) (db : ℤ)

/-- The manager, and the answers given, each with the role and the database asked for. -/
structure RedisBorrowers where
  mng : RedisMng
  answers : List (Option Redis × Bool × ℤ) := []

namespace RedisBorrowers

open RedisMng

/-- One call. What is returned was answered, and is returned under what was asked for. -/
def step (s : RedisBorrowers) : RedisDbCall → Option RedisBorrowers
  | .getRedis master db =>
    match s.mng.getRedis master db with
    | (.ok redis, mng) => some ⟨mng, s.answers ++ [(redis, master, db)]⟩
    | (.error .thrown, mng) => some ⟨mng, s.answers⟩
    | (.error .outOfRange, _) => none
  | .giveBack redis master isvalid db =>
    if (redis, master, db) ∈ s.answers then
      match s.mng.giveBack redis master isvalid db with
      | (.ok _, mng) => some ⟨mng, s.answers⟩
      | (.error .thrown, mng) => some ⟨mng, s.answers⟩
      | (.error .outOfRange, _) => none
    else none

/-- If the call asks for a connection, the one it gets fits. -/
def AnswersRole (s : RedisBorrowers) : RedisDbCall → Prop
  | .getRedis master db => ∀ redis, (s.mng.getRedis master db).1 = .ok (some redis) →
    redis.Fits master (s.mng.index db)
  | .giveBack .. => True

/-- If the call replaces a connection, it was lent as a master. -/
def KeepsRole (s : RedisBorrowers) : RedisDbCall → Prop
  | .getRedis .. => True
  | .giveBack _ master isvalid db => isvalid = false → (s.mng.poolOf db).isSome →
    (s.mng.replacement (s.mng.index db)).isSome → master = true

/-- The call is a `GetRedis`. -/
def IsGetRedis : RedisDbCall → Prop
  | .getRedis .. => True
  | .giveBack .. => False

/-- What is idle fits. -/
def IdleFits (m : RedisMng) : Prop :=
  ∀ db flag redis, m.IdleAs db flag redis → redis.Fits flag (m.index db)

/-- What is idle, and what was answered, fits. -/
structure Sound (config : RedisConfig) (s : RedisBorrowers) : Prop where
  config_eq : s.mng.config = config
  sentinel : s.mng.sentinel = true
  idle : IdleFits s.mng
  answers : ∀ redis master db, (some redis, master, db) ∈ s.answers →
    redis.Fits master (s.mng.index db)

section Run

variable {config : RedisConfig} {s s' : RedisBorrowers} {a : RedisDbCall}
  {master isvalid flag : Bool} {db : ℤ} {redis : Redis} {given : Option Redis}

theorem index_eq {m m' : RedisMng} (h : m'.config = m.config) (db : ℤ) :
    m'.index db = m.index db := by
  rw [RedisMng.index, RedisMng.index, h]

theorem created_fits {m : RedisMng} {idx : ℤ} (hsentinel : m.sentinel = true)
    (h : m.created master idx = some redis) : redis.Fits master idx := by
  simp only [created, hsentinel, if_true, createSentinel, Option.ite_none_left_eq_some,
    Option.some.injEq] at h
  obtain ⟨-, rfl⟩ := h
  exact ⟨rfl, rfl⟩

theorem replacement_fits_iff {m : RedisMng} {idx : ℤ} (hsentinel : m.sentinel = true)
    (h : m.replacement idx = some redis) : redis.Fits flag idx ↔ flag = true := by
  simp only [replacement, hsentinel, if_true, createSentinel, Option.ite_none_left_eq_some,
    Option.some.injEq] at h
  obtain ⟨-, rfl⟩ := h
  cases flag <;> simp [Redis.Fits]

theorem step_of_ok (h : (s.mng.getRedis master db).1 = .ok given) :
    s.step (.getRedis master db) =
      some ⟨(s.mng.getRedis master db).2, s.answers ++ [(given, master, db)]⟩ := by
  rcases hget : s.mng.getRedis master db with ⟨answer, mng⟩
  rw [hget] at h
  subst h
  rw [step, hget]

theorem step_getRedis (h : s.step (.getRedis master db) = some s') :
    s'.mng = (s.mng.getRedis master db).2 ∧
      ∀ redis master' db', (some redis, master', db') ∈ s'.answers →
        (some redis, master', db') ∈ s.answers ∨
          master' = master ∧ db' = db ∧ (s.mng.getRedis master db).1 = .ok (some redis) := by
  rw [step] at h
  split at h
  next given mng hget =>
    cases h
    refine ⟨by rw [hget], fun redis master' db' hmem => ?_⟩
    rcases List.mem_append.mp hmem with hmem | hmem
    · exact .inl hmem
    · cases List.mem_singleton.mp hmem
      exact .inr ⟨rfl, rfl, by rw [hget]⟩
  next mng hget =>
    cases h
    exact ⟨by rw [hget], fun redis master' db' hmem => .inl hmem⟩
  · cases h

theorem step_giveBack (h : s.step (.giveBack given master isvalid db) = some s') :
    (given, master, db) ∈ s.answers ∧ s'.mng = (s.mng.giveBack given master isvalid db).2 ∧
      s'.answers = s.answers := by
  rw [step] at h
  split at h
  next hmem =>
    split at h
    next code mng hgive =>
      cases h
      exact ⟨hmem, by rw [hgive], rfl⟩
    next mng hgive =>
      cases h
      exact ⟨hmem, by rw [hgive], rfl⟩
    · cases h
  · cases h

theorem step_config (h : s.step a = some s') :
    s'.mng.config = s.mng.config ∧ s'.mng.sentinel = s.mng.sentinel := by
  cases a with
  | getRedis master db =>
    rw [(step_getRedis h).1]
    exact getRedis_config
  | giveBack given master isvalid db =>
    rw [(step_giveBack h).2.1]
    exact giveBack_config

/-- From what fits, what fits is answered. -/
theorem Sound.answersRole (h : Sound config s) : s.AnswersRole a := by
  cases a with
  | getRedis master db =>
    intro redis hanswer
    rcases getRedis_eq_ok hanswer with hidle | hnew
    · exact h.idle db master redis hidle
    · exact created_fits h.sentinel hnew
  | giveBack => trivial

/-- What fits stays, unless a connection lent as a slave is replaced. -/
theorem Sound.step (h : Sound config s) (ha : s.step a = some s') (hkeeps : s.KeepsRole a) :
    Sound config s' := by
  obtain ⟨hconfig, hsentinel⟩ := step_config ha
  have hindex := index_eq hconfig
  refine ⟨hconfig.trans h.config_eq, hsentinel.trans h.sentinel, ?_, ?_⟩
  · intro db' flag redis hidle
    rw [hindex]
    cases a with
    | getRedis master db =>
      rw [(step_getRedis ha).1] at hidle
      exact h.idle db' flag redis (idle_of_getRedis hidle)
    | giveBack given master isvalid db =>
      obtain ⟨hmem, hmng, -⟩ := step_giveBack ha
      rw [hmng] at hidle
      rcases idle_of_giveBack hidle with
        hidle | ⟨hdb, rfl, ⟨-, rfl⟩ | ⟨hinvalid, hpool, hnew⟩⟩
      · -- idle before, given back as it was, or created in its place
        exact h.idle db' flag redis hidle
      · rw [hdb]
        exact h.answers redis flag db hmem
      · rw [hdb, replacement_fits_iff h.sentinel hnew]
        exact hkeeps hinvalid hpool (by rw [hnew]; rfl)
  · -- the answers: only GetRedis adds one
    intro redis master' db' hmem
    rw [hindex]
    cases a with
    | getRedis master db =>
      rcases (step_getRedis ha).2 redis master' db' hmem with hmem | ⟨rfl, rfl, hanswer⟩
      · exact h.answers redis master' db' hmem
      · exact h.answersRole (a := .getRedis master' db') redis hanswer
    | giveBack given master isvalid db =>
      rw [(step_giveBack ha).2.2] at hmem
      exact h.answers redis master' db' hmem

/-- A connection that does not fit is idle when one lent as a slave is replaced. -/
theorem not_idleFits_of_replaced (hsentinel : s.mng.sentinel = true) (ha : s.step a = some s')
    (hkeeps : ¬ s.KeepsRole a) : ¬ IdleFits s'.mng := by
  cases a with
  | getRedis => exact absurd trivial hkeeps
  | giveBack given master isvalid db =>
    simp only [KeepsRole, Classical.not_imp] at hkeeps
    obtain ⟨rfl, hpool, hnew, hslave⟩ := hkeeps
    obtain ⟨pool, hpool⟩ := Option.isSome_iff_exists.mp hpool
    obtain ⟨redis, hnew⟩ := Option.isSome_iff_exists.mp hnew
    intro hfits
    refine hslave ((replacement_fits_iff hsentinel hnew).mp ?_)
    rw [← index_eq (step_config ha).1]
    refine hfits db master redis ?_
    rw [(step_giveBack ha).2.1]
    exact idle_giveBack_replacement hpool hnew

/-- A connection that does not fit stays idle until it is answered. -/
theorem idleFits_of_step (ha : s.step a = some s') (hanswers : s.AnswersRole a)
    (hfits : IdleFits s'.mng) : IdleFits s.mng := by
  intro db' flag redis hidle
  have hindex := index_eq (step_config ha).1
  cases a with
  | getRedis master db =>
    rcases idle_getRedis_or master db hidle with
      hidle' | ⟨hdb, rfl, hanswer⟩
    · rw [← (step_getRedis ha).1] at hidle'
      rw [← hindex]
      exact hfits db' flag redis hidle'
    · rw [hdb]
      exact hanswers redis hanswer
  | giveBack given master isvalid db =>
    rw [← hindex]
    refine hfits db' flag redis ?_
    rw [(step_giveBack ha).2.1]
    exact idle_giveBack hidle

/-- An idle connection is answered after enough calls that ask for its role. -/
theorem exists_answer (n : ℕ) {pool : RedisPool} (hpool : s.mng.poolOf db = some pool)
    (hn : pool.redisQueue.length = n) (hmem : ⟨flag, some redis⟩ ∈ pool.redisQueue) :
    ∃ trace s', Run step s trace s' ∧ (∀ e ∈ trace, IsGetRedis e.2) ∧
      ∃ e ∈ trace, e.2 = .getRedis flag db ∧ e.1.mng.index db = s.mng.index db ∧
        (e.1.mng.getRedis flag db).1 = .ok (some redis) := by
  induction n using Nat.strongRecOn generalizing s pool with
  | ind n ih =>
    obtain ⟨found, queue, purged, hdraw, hcases⟩ :=
      getFrom_cases (s.mng.created flag (s.mng.index db)) flag (s.mng.index db) pool s.mng
    rw [← getRedis_of_poolOf hpool] at hcases
    have hfound : found ≠ none := by
      rintro rfl
      have hnone : (draw flag pool.redisQueue).1 = none := by rw [hdraw]
      exact draw_eq_none_iff.mp hnone _ hmem rfl rfl
    rcases hcases with ⟨drawn, rfl, heq⟩ | ⟨hnone, -⟩ | ⟨hnone, -⟩
    · have hstep := step_of_ok (s := s) (by rw [heq])
      rcases mem_draw_or flag hmem with hkept | ⟨-, hdrawn⟩
      -- another connection is answered, and the queue is shorter
      · have hlength := draw_length flag pool.redisQueue
        rw [hdraw] at hkept hlength
        rw [heq] at hstep
        simp only [Option.toList_some, List.length_singleton] at hlength
        have hnext := poolOf_setPool hpool { pool with
          redisQueue := queue
          totalsize := pool.totalsize - purged
          usesize := pool.usesize + 1
          idlesize := pool.idlesize - 1 }
        obtain ⟨trace, s', hrun, hget, e, he, hcall, hindex, hanswer⟩ :=
          ih queue.length (by omega) (s := ⟨_, s.answers ++ [(some drawn, flag, db)]⟩) hnext rfl
            hkept
        refine ⟨_, s', hrun.cons hstep, ?_, e, List.mem_cons_of_mem _ he, hcall, ?_, hanswer⟩
        · exact List.forall_mem_cons.mpr ⟨trivial, hget⟩
        · exact hindex
      · rw [hdraw] at hdrawn
        cases hdrawn
        refine ⟨_, _, Run.nil.snoc hstep, ?_, _, List.mem_cons_self, rfl, rfl, ?_⟩
        · exact List.forall_mem_singleton.mpr trivial
        · rw [heq]
    · exact absurd hnone hfound
    · exact absurd hnone hfound

theorem Sound.of_run {s₀ : RedisBorrowers} {trace : List (RedisBorrowers × RedisDbCall)}
    (hinit : Sound config s₀) (hrun : Run RedisBorrowers.step s₀ trace s)
    (hkeeps : ∀ e ∈ trace, e.1.KeepsRole e.2) :
    Sound config s ∧ ∀ e ∈ trace, e.1.AnswersRole e.2 := by
  induction hrun with
  | nil => exact ⟨hinit, fun e he => by cases he⟩
  | snoc _ ha ih =>
    simp only [List.forall_mem_append, List.forall_mem_singleton] at hkeeps ⊢
    obtain ⟨hs, hanswers⟩ := ih hkeeps.1
    exact ⟨hs.step ha hkeeps.2, hanswers, hs.answersRole⟩

/-- The answers of a run fit, and what it leaves idle, exactly if no connection lent as a slave
is replaced. -/
theorem Sound.answers_and_idle_iff {s₀ : RedisBorrowers}
    {trace : List (RedisBorrowers × RedisDbCall)} (hinit : Sound config s₀)
    (hrun : Run RedisBorrowers.step s₀ trace s) :
    (∀ e ∈ trace, e.1.AnswersRole e.2) ∧ IdleFits s.mng ↔ ∀ e ∈ trace, e.1.KeepsRole e.2 := by
  constructor
  · rintro ⟨hanswers, hfits⟩
    induction hrun with
    | nil => exact fun e he => by cases he
    | snoc hrun ha ih =>
      simp only [List.forall_mem_append, List.forall_mem_singleton] at hanswers ⊢
      refine ⟨ih hanswers.1 (idleFits_of_step ha hanswers.2 hfits), ?_⟩
      by_contra hkeeps
      have hsentinel := hrun.invariant (I := fun s => s.mng.sentinel = true) hinit.sentinel
        fun h ha => (step_config ha).2.trans h
      exact not_idleFits_of_replaced hsentinel ha hkeeps hfits
  · intro hkeeps
    obtain ⟨hs, hanswers⟩ := hinit.of_run hrun hkeeps
    exact ⟨hanswers, hs.idle⟩

/-- What is idle fits if all answers of the calls that ask for it do. -/
theorem idleFits_of_answers (h : ∀ {trace s'}, Run step s trace s' →
    (∀ e ∈ trace, IsGetRedis e.2) → ∀ e ∈ trace, e.1.AnswersRole e.2) : IdleFits s.mng := by
  rintro db flag redis ⟨pool, hpool, hmem⟩
  obtain ⟨trace, s', hrun, hget, e, he, hcall, hindex, hanswer⟩ :=
    exists_answer _ hpool rfl hmem
  have hrole := h hrun hget e he
  rw [hcall] at hrole
  rw [← hindex]
  exact hrole redis hanswer

theorem Sound.init (config : RedisConfig) : Sound config ⟨RedisMng.init true config, []⟩ where
  config_eq := rfl
  sentinel := rfl
  idle := by
    rintro db flag redis ⟨pool, hpool, hmem⟩
    have hempty : pool = {} := by
      simp only [poolOf, RedisMng.init, List.getElem?_replicate] at hpool
      split at hpool
      · cases hpool
      · split at hpool
        · exact (Option.some.inj hpool).symm
        · cases hpool
    rw [hempty] at hmem
    cases hmem
  answers := fun redis master db hmem => by cases hmem

/-- **Roles.** With a sentinel, the answers of a run and of any calls of `GetRedis` after it are
of the role and the database asked for exactly if the run replaces no connection lent as a
slave. -/
theorem answers_iff {trace : List (RedisBorrowers × RedisDbCall)}
    (hrun : Run step ⟨RedisMng.init true config, []⟩ trace s) :
    (∀ {trace' s'}, Run step s trace' s' → (∀ e ∈ trace', IsGetRedis e.2) →
        ∀ e ∈ trace ++ trace', e.1.AnswersRole e.2) ↔
      ∀ e ∈ trace, e.1.KeepsRole e.2 := by
  have hinit := Sound.init config
  constructor
  · intro h
    refine (hinit.answers_and_idle_iff hrun).mp ⟨?_, ?_⟩
    · intro e he
      exact h .nil (fun e he => by cases he) e (List.mem_append_left _ he)
    · exact idleFits_of_answers fun hrun' hget e he =>
        h hrun' hget e (List.mem_append_right _ he)
  · intro hkeeps trace' s' hrun' hget
    obtain ⟨hs, hanswers⟩ := hinit.of_run hrun hkeeps
    refine List.forall_mem_append.mpr ⟨hanswers, (hs.of_run hrun' fun e he => ?_).2⟩
    have hcall := hget e he
    rcases hcases : e.2 with ⟨master, db⟩ | ⟨given, master, isvalid, db⟩
    · trivial
    · rw [hcases] at hcall
      cases hcall

end Run

/-! ## A connection lent as a slave -/

/-- A server behind a sentinel, with a pool for one connection. -/
def behindSentinel : RedisConfig where
  host := ""
  port := 0
  passwd := ""
  masterName := "a"
  db := 0
  connectTimeout := 100
  socketTimeout := 100
  poolSize := 1

/-- The connection made first for `behindSentinel`. -/
def firstSlave : Redis where
  num := 0
  sentinel := some ("a", .slave)
  options := { connectTimeout := 100, socketTimeout := 100, db := 3 }
  poolSize := 1

/-- The connection that takes the place of `firstSlave`. -/
def secondMaster : Redis where
  num := 1
  sentinel := some ("a", .master)
  options := { connectTimeout := 100, socketTimeout := 100, db := 3 }
  poolSize := 1

/-- Lent as a slave, returned valid, and lent as a slave again. -/
theorem answers_lent_again :
    ∃ (trace : List (RedisBorrowers × RedisDbCall)) (s : RedisBorrowers),
      Run step ⟨RedisMng.init true behindSentinel, []⟩ trace s ∧
      trace.map Prod.snd = [.getRedis false 3, .giveBack (some firstSlave) false true 3,
        .getRedis false 3] ∧
      s.answers.length = 2 ∧ ∀ e ∈ trace, e.1.AnswersRole e.2 := by
  have hrun : Run step ⟨RedisMng.init true behindSentinel, []⟩ _ _ :=
    Run.nil.snoc (a := .getRedis false 3) rfl
    |>.snoc (a := .giveBack (some firstSlave) false true 3) rfl
    |>.snoc (a := .getRedis false 3) rfl
  refine ⟨_, _, hrun, rfl, rfl, fun e he => ?_⟩
  refine (answers_iff hrun).mpr ?_ .nil (fun e he => by cases he) e (List.mem_append_left _ he)
  simp only [List.forall_mem_append, List.forall_mem_singleton]
  refine ⟨⟨⟨(fun e he => by cases he), trivial⟩, (fun h => by cases h)⟩, trivial⟩

/-- Lent as a slave and returned invalid: the next call for a slave gets a connection created
for the master. -/
theorem answers_fails_after_replaced :
    ∃ (trace : List (RedisBorrowers × RedisDbCall)) (s : RedisBorrowers),
      Run step ⟨RedisMng.init true behindSentinel, []⟩ trace s ∧
      trace.map Prod.snd = [.getRedis false 3, .giveBack (some firstSlave) false false 3,
        .getRedis false 3] ∧
      s.answers = [(some firstSlave, false, 3), (some secondMaster, false, 3)] ∧
      ¬ ∀ e ∈ trace, e.1.AnswersRole e.2 := by
  refine ⟨_, _, Run.nil.snoc (a := .getRedis false 3) rfl
    |>.snoc (a := .giveBack (some firstSlave) false false 3) rfl
    |>.snoc (a := .getRedis false 3) rfl, rfl, rfl, fun h => ?_⟩
  have hrole := h _ (List.mem_append_right _ List.mem_cons_self) secondMaster rfl
  exact absurd hrole.1 (by decide)

end RedisBorrowers

end SampleTools
