import SampleTools.Redis.Lending

/-!
# The check of a database index

There are 16 pools. The index of a database is an argument or the configured one, and each of the
three entry points checks it before it takes a pool, in the same words.

## Main definitions

* `IndexCall`, `IndexCall.step`: a call of an entry point; none after the pools are indexed
  outside their number
* `IndexCall.Checked`: the index is refused and nothing changes, or it is that of a pool

## Main results

* `IndexCall.step_of_bad`, `IndexCall.step_of_pool`: what a call does with a bad and a good index
* `IndexCall.checked_iff`: which indices are checked
-/

namespace SampleTools

/-- A call of an entry point. -/
inductive IndexCall
  | getRedis (master : Bool) (db : ℤ)
  | getRedis2 (master : Bool) (db : ℤ)
  | giveBack (redis : Option Redis) (master isvalid : Bool) (db : ℤ)
  deriving DecidableEq, Repr

namespace IndexCall

/-- The argument. -/
def db : IndexCall → ℤ
  | .getRedis _ db => db
  | .getRedis2 _ db => db
  | .giveBack _ _ _ db => db

/-- The manager after a call that returns or throws. -/
def survived {α : Type} : Except RedisFault α × RedisMng → Option RedisMng
  | (.error .outOfRange, _) => none
  | (_, m) => some m

/-- A call; what comes after the pools are indexed outside their number is not defined. -/
def step (m : RedisMng) : IndexCall → Option RedisMng
  | .getRedis master db => survived (m.getRedis master db)
  | .getRedis2 master db => survived (m.getRedis2 master db)
  | .giveBack redis master isvalid db => survived (m.giveBack redis master isvalid db)

/-- The answer is a null pointer, or -1. -/
def Refused (m : RedisMng) : IndexCall → Prop
  | .getRedis master db => (m.getRedis master db).1 = .ok none
  | .getRedis2 master db => (m.getRedis2 master db).1 = .ok none
  | .giveBack redis master isvalid db => (m.giveBack redis master isvalid db).1 = .ok (-1)

/-- The index is refused and the pools stay as they are, or the call works on one of the pools
that `Init` made. -/
def Checked (m : RedisMng) (call : IndexCall) : Prop :=
  ∃ m', step m call = some m' ∧ (call.Refused m ∧ m'.pools = m.pools ∨
    ∃ i < 16, m.index call.db = (i : ℕ) ∧ ∃ pool, m'.pools = m.pools.set i pool)

/-! ## The calls -/

section Calls

variable {m m' : RedisMng} {pool : RedisPool} {call : IndexCall}

/-- The locked part of `GetRedis` and `GetRedis2` changes its pool. -/
theorem survived_getFrom (created : Option Redis) (master : Bool) (idx : ℤ) (pool : RedisPool)
    (m : RedisMng) : ∃ pool' next, survived (m.getFrom created master idx pool) =
      some { m.setPool idx pool' with next := next } := by
  obtain ⟨found, queue, purged, -, hcases⟩ := RedisMng.getFrom_cases created master idx pool m
  rcases hcases with ⟨redis, -, heq⟩ | ⟨-, -, hresult, heq⟩ | ⟨-, -, redis, -, heq⟩
  -- one of the queue, none, and a new one
  · rw [heq]
    exact ⟨_, m.next, rfl⟩
  · rw [← Prod.eta (m.getFrom created master idx pool), heq]
    rcases hresult with hresult | hresult
    · rw [hresult]
      exact ⟨_, m.next, rfl⟩
    · rw [hresult]
      exact ⟨_, m.next, rfl⟩
  · rw [heq]
    exact ⟨_, m.next + 1, rfl⟩

/-- With a bad index nothing is done. -/
theorem step_of_bad (hbad : RedisMng.badIndex (m.index call.db) = true) :
    step m call = some m ∧ call.Refused m := by
  cases call with
  | getRedis master db =>
    have heq : m.getRedis master db = (.ok none, m) := by
      unfold RedisMng.getRedis RedisMng.getRedis2
      cases m.sentinel <;> exact if_pos hbad
    exact ⟨congrArg survived heq, congrArg Prod.fst heq⟩
  | getRedis2 master db =>
    have heq : m.getRedis2 master db = (.ok none, m) := if_pos hbad
    exact ⟨congrArg survived heq, congrArg Prod.fst heq⟩
  | giveBack redis master isvalid db =>
    have heq : m.giveBack redis master isvalid db = (.ok (-1), m) := if_pos hbad
    exact ⟨congrArg survived heq, congrArg Prod.fst heq⟩

/-- With a good index the call works on the pool. -/
theorem step_of_pool (hpool : m.poolOf call.db = some pool) : ∃ pool' next,
    step m call = some { m.setPool (m.index call.db) pool' with next := next } := by
  cases call with
  | getRedis master db =>
    dsimp only [IndexCall.db] at hpool ⊢
    rw [step, RedisMng.getRedis_of_poolOf hpool]
    exact survived_getFrom _ _ _ _ _
  | getRedis2 master db =>
    dsimp only [IndexCall.db] at hpool ⊢
    have heq : m.getRedis2 master db =
        m.getFrom (m.createDirect true (m.index db)) master (m.index db) pool := by
      rw [RedisMng.poolOf] at hpool
      split_ifs at hpool with hidx
      simp [RedisMng.getRedis2, hidx, hpool]
    rw [step, heq]
    exact survived_getFrom _ _ _ _ _
  | giveBack redis master isvalid db =>
    dsimp only [IndexCall.db] at hpool ⊢
    rw [step]
    rcases RedisMng.giveBack_of_poolOf redis master isvalid hpool with
      ⟨entry, next, -, heq⟩ | ⟨-, -, heq⟩
    · rw [heq]
      exact ⟨_, next, rfl⟩
    · rw [heq]
      -- the library throws before the pool is taken
      refine ⟨pool, m.next, ?_⟩
      obtain ⟨hidx, rfl⟩ := List.getElem?_eq_some_iff.mp (RedisMng.pools_of_poolOf hpool)
      simp [survived, RedisMng.setPool]

/-- With an index that is not that of a pool the pools are indexed outside their number, unless
the library throws before. -/
theorem step_of_none (hbad : RedisMng.badIndex (m.index call.db) = false)
    (hnone : m.pools[(m.index call.db).toNat]? = none) (hstep : step m call = some m') :
    m' = m ∧ ¬ call.Refused m := by
  cases call with
  | getRedis master db =>
    dsimp only [IndexCall.db] at hbad hnone
    have heq : m.getRedis master db = (.error .outOfRange, m) := by
      unfold RedisMng.getRedis RedisMng.getRedis2
      cases m.sentinel <;> simp [hbad, hnone]
    rw [step, heq] at hstep
    cases hstep
  | getRedis2 master db =>
    dsimp only [IndexCall.db] at hbad hnone
    have heq : m.getRedis2 master db = (.error .outOfRange, m) := by
      simp [RedisMng.getRedis2, hbad, hnone]
    rw [step, heq] at hstep
    cases hstep
  | giveBack redis master isvalid db =>
    dsimp only [IndexCall.db] at hbad hnone
    rw [step, RedisMng.giveBack, hbad, if_neg Bool.false_ne_true] at hstep
    rw [Refused, RedisMng.giveBack, hbad, if_neg Bool.false_ne_true]
    -- a connection that is not valid is replaced first, which can throw
    rcases hreplace : m.replace redis isvalid (m.index db) with ⟨fault | redis, m₁⟩
    · have hm₁ := RedisMng.replace_error hreplace
      rw [hreplace] at hstep
      subst hm₁
      cases fault with
      | thrown => exact ⟨(Option.some.inj hstep).symm, nofun⟩
      | outOfRange => cases hstep
    · have hpools : m₁.pools = m.pools := by
        rw [RedisMng.replace] at hreplace
        split at hreplace
        · cases hreplace
          rfl
        · split at hreplace
          · cases hreplace
          · cases hreplace
            rfl
      rw [hreplace] at hstep
      dsimp only at hstep
      rw [RedisMng.pushBack, hpools, hnone] at hstep
      cases hstep

/-- A call keeps the number of the pools, and the configuration. -/
theorem step_keeps (hstep : step m call = some m') :
    m'.pools.length = m.pools.length ∧ m'.config = m.config := by
  cases hbad : RedisMng.badIndex (m.index call.db) with
  | true =>
    obtain rfl := Option.some.inj ((step_of_bad hbad).1.symm.trans hstep)
    exact ⟨rfl, rfl⟩
  | false =>
    cases hpool : m.pools[(m.index call.db).toNat]? with
    | none =>
      obtain ⟨rfl, -⟩ := step_of_none hbad hpool hstep
      exact ⟨rfl, rfl⟩
    | some pool =>
      have hpoolOf : m.poolOf call.db = some pool := by
        rw [RedisMng.poolOf, hbad, if_neg Bool.false_ne_true, hpool]
      obtain ⟨pool', next, heq⟩ := step_of_pool hpoolOf
      obtain rfl := Option.some.inj (heq.symm.trans hstep)
      exact ⟨List.length_set, rfl⟩

/-- With the 16 pools of `Init` one index is taken for good that is not that of a pool. -/
theorem checked_iff_of_length (hlength : m.pools.length = 16) :
    call.Checked m ↔ m.index call.db ≠ 16 := by
  cases hbad : RedisMng.badIndex (m.index call.db) with
  | true =>
    refine iff_of_true ⟨m, (step_of_bad hbad).1, .inl ⟨(step_of_bad hbad).2, rfl⟩⟩ fun heq => ?_
    rw [heq] at hbad
    cases hbad
  | false =>
    -- what the check lets through
    have hrange : 0 ≤ m.index call.db ∧ m.index call.db ≤ 16 := by
      simp only [RedisMng.badIndex, Bool.or_eq_false_iff, decide_eq_false_iff_not] at hbad
      omega
    cases hpool : m.pools[(m.index call.db).toNat]? with
    | none =>
      have h16 : m.index call.db = 16 := by
        have hle := List.getElem?_eq_none_iff.mp hpool
        omega
      refine iff_of_false ?_ (not_not.mpr h16)
      rintro ⟨m', hstep, ⟨hrefused, -⟩ | ⟨i, hi, hindex, -⟩⟩
      · exact (step_of_none hbad hpool hstep).2 hrefused
      · omega
    | some pool =>
      have hlt := (List.getElem?_eq_some_iff.mp hpool).1
      have hpoolOf : m.poolOf call.db = some pool := by
        rw [RedisMng.poolOf, hbad, if_neg Bool.false_ne_true, hpool]
      obtain ⟨pool', next, heq⟩ := step_of_pool hpoolOf
      refine iff_of_true ⟨_, heq, .inr ⟨(m.index call.db).toNat, by omega, by omega, ?_⟩⟩ (by omega)
      exact ⟨pool', rfl⟩

end Calls

/-- **Every index but 16 is checked.** After `Init` and any calls, each entry point refuses an
index and leaves the pools as they are, or works on one of the pools that `Init` made, exactly if
the index, an argument or the configured one, is not 16. -/
theorem checked_iff {sentinel : Bool} {config : RedisConfig}
    {trace : List (RedisMng × IndexCall)} {m : RedisMng}
    (hrun : Run step (RedisMng.init sentinel config) trace m) (call : IndexCall) :
    call.Checked m ↔ (if call.db = -1 then config.db else call.db) ≠ 16 := by
  have hkept : m.pools.length = 16 ∧ m.config = config :=
    hrun.invariant (I := fun m => m.pools.length = 16 ∧ m.config = config) ⟨rfl, rfl⟩
      fun ⟨hlength, hconfig⟩ hstep =>
        ⟨(step_keeps hstep).1.trans hlength, (step_keeps hstep).2.trans hconfig⟩
  rw [checked_iff_of_length hkept.1, RedisMng.index, hkept.2]

/-- The last database, and the sentinel value with a database that is configured. -/
theorem checked_last_and_configured : ∃ (trace : List (RedisMng × IndexCall)) (m : RedisMng),
    Run step (RedisMng.init false RedisLoans.oneConnection) trace m ∧
      trace.map Prod.snd = [.getRedis true 15, .getRedis2 false (-1)] ∧
      (IndexCall.giveBack none true true 15).Checked m ∧
      (IndexCall.getRedis true (-1)).Checked m ∧ (IndexCall.getRedis2 true 17).Checked m := by
  have hrun : Run step (RedisMng.init false RedisLoans.oneConnection) _ _ :=
    Run.nil.snoc (a := .getRedis true 15) rfl |>.snoc (a := .getRedis2 false (-1)) rfl
  refine ⟨_, _, hrun, rfl, ?_, ?_, ?_⟩
  · exact (checked_iff hrun _).mpr (by decide)
  · exact (checked_iff hrun _).mpr (by decide)
  · exact (checked_iff hrun _).mpr (by decide)

/-- Index 16 passes the check, and there is no such pool. -/
theorem checked_fails :
    (RedisMng.init false RedisLoans.oneConnection).pools.length = 16 ∧
      ((RedisMng.init false RedisLoans.oneConnection).getRedis true 16).1 = .error .outOfRange ∧
      ((RedisMng.init false RedisLoans.oneConnection).getRedis2 true 16).1 = .error .outOfRange ∧
      ((RedisMng.init false RedisLoans.oneConnection).giveBack none true true 16).1 =
        .error .outOfRange ∧
      ¬ (IndexCall.getRedis true 16).Checked (RedisMng.init false RedisLoans.oneConnection) := by
  refine ⟨rfl, rfl, rfl, rfl, ?_⟩
  rintro ⟨m', hstep, -⟩
  cases hstep

end IndexCall

end SampleTools
