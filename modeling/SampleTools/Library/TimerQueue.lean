import Mathlib.Data.List.Induction
import Mathlib.Logic.Function.Basic
import Mathlib.Order.Nat
import Mathlib.Tactic.Common

/-!
# A queue of timers

A clock goes on tick by tick, and events wait for a tick. An event is scheduled for a later
tick, is taken back, or is fired at its tick; the clock goes on only when no event is left that
waits for the tick it shows.

## Main definitions

* `TimerQueue`, `TimerCall`: the clock with what waits, and what can happen
* `TimerQueue.replay q log`: what is recorded happens, in order
* `lastAbout a log`: what happened to an event last

## Main results

* `TimerQueue.due_of_replay`: an event waits for the tick it was scheduled for last
* `TimerQueue.fire_of_replay`: an event is fired at the tick it was scheduled for last
* `TimerQueue.fired_once_of_replay`: an event that nobody touches is fired once, at its tick
-/

variable {α : Type*}

/-- A clock, and the tick that each waiting event waits for. -/
@[ext]
structure TimerQueue (α : Type*) where
  now : ℕ
  due : α → Option ℕ

/-- What can happen to a queue. -/
inductive QueueCall (α : Type*)
  | schedule (a : α) (t : ℕ)
  | cancel (a : α)
  | tick
  | fire (a : α)
  deriving DecidableEq, Repr

namespace QueueCall

/-- The event it happens to. -/
def event : QueueCall α → Option α
  | .schedule a _ => some a
  | .cancel a => some a
  | .tick => none
  | .fire a => some a

/-- The tick an event waits for after what happened to it. -/
def tickFor : QueueCall α → Option ℕ
  | .schedule _ t => some t
  | _ => none

end QueueCall

/-- How often the clock went on. -/
def ticksIn (log : List (QueueCall α)) : ℕ :=
  log.countP fun
    | .tick => true
    | _ => false

/-- What happened last to an event. -/
def lastAbout [DecidableEq α] (a : α) (log : List (QueueCall α)) : Option (QueueCall α) :=
  (log.filter fun c => c.event = some a).getLast?

namespace TimerQueue

variable [DecidableEq α]

/-- The queue after a change for one event. -/
def put (a : α) (t : Option ℕ) (q : TimerQueue α) : TimerQueue α :=
  { q with due := Function.update q.due a t }

/-- No event waits for the tick that the clock shows. -/
def Idle (q : TimerQueue α) : Prop := ∀ a, q.due a ≠ some q.now

/-- Events wait for the tick that the clock shows or for later ones. -/
def Ahead (q : TimerQueue α) : Prop := ∀ a t, q.due a = some t → q.now ≤ t

open Classical in
/-- What a call does, if it can happen. -/
noncomputable def step (q : TimerQueue α) : QueueCall α → Option (TimerQueue α)
  | .schedule a t => if q.now < t then some (q.put a (some t)) else none
  | .cancel a => some (q.put a none)
  | .tick => if q.Idle then some { q with now := q.now + 1 } else none
  | .fire a => if q.due a = some q.now then some (q.put a none) else none

/-- What is recorded happens in order. -/
noncomputable def replay (q : TimerQueue α) (log : List (QueueCall α)) : Option (TimerQueue α) :=
  log.foldlM step q

variable {q q' q'' : TimerQueue α} {log log' : List (QueueCall α)} {c : QueueCall α} {a : α} {t : ℕ}

@[simp] theorem replay_nil (q : TimerQueue α) : q.replay [] = some q := rfl

theorem replay_append (q : TimerQueue α) (log log' : List (QueueCall α)) :
    q.replay (log ++ log') = (q.replay log).bind fun q => q.replay log' := List.foldlM_append

theorem replay_singleton (q : TimerQueue α) (c : QueueCall α) : q.replay [c] = q.step c := by
  show (q.step c).bind some = q.step c
  exact Option.bind_fun_some _

theorem replay_trans (h : q.replay log = some q') (h' : q'.replay log' = some q'') :
    q.replay (log ++ log') = some q'' := by
  rw [replay_append, h, Option.bind_some, h']

/-- A record can be cut anywhere. -/
theorem replay_append_eq_some_iff :
    q.replay (log ++ log') = some q'' ↔
      ∃ q', q.replay log = some q' ∧ q'.replay log' = some q'' := by
  rw [replay_append, Option.bind_eq_some_iff]

/-! ## What one call does -/

/-- Everything a call does: the clock goes on, or one event waits for another tick or for none. -/
theorem step_cases (h : q.step c = some q') :
    (c = .tick ∧ q.Idle ∧ q' = { q with now := q.now + 1 }) ∨
      ∃ a, c.event = some a ∧ q' = q.put a c.tickFor ∧ (∀ t, c.tickFor = some t → q.now < t) ∧
        (c = .fire a → q.due a = some q.now) := by
  cases c with
  | schedule a t =>
    obtain ⟨hlt, heq⟩ := Option.ite_none_right_eq_some.mp h
    cases heq
    refine .inr ⟨a, rfl, rfl, fun t' ht' => ?_, nofun⟩
    cases ht'
    exact hlt
  | cancel a =>
    cases h
    exact .inr ⟨a, rfl, rfl, nofun, nofun⟩
  | tick =>
    obtain ⟨hidle, heq⟩ := Option.ite_none_right_eq_some.mp h
    cases heq
    exact .inl ⟨rfl, hidle, rfl⟩
  | fire a =>
    obtain ⟨hdue, heq⟩ := Option.ite_none_right_eq_some.mp h
    cases heq
    refine .inr ⟨a, rfl, rfl, nofun, fun heq => ?_⟩
    cases heq
    exact hdue

theorem put_due_self (a : α) (t : Option ℕ) (q : TimerQueue α) : (q.put a t).due a = t :=
  Function.update_self ..

theorem put_due_of_ne {b : α} (h : b ≠ a) (t : Option ℕ) (q : TimerQueue α) :
    (q.put a t).due b = q.due b := Function.update_of_ne h ..

theorem step_now (h : q.step c = some q') : q'.now = q.now + ticksIn [c] := by
  rcases step_cases h with ⟨rfl, -, rfl⟩ | ⟨a, ha, rfl, -⟩
  · rfl
  · cases c <;> first | cases ha; done | rfl

/-- The tick an event waits for changes by what happens to it. -/
theorem step_due (h : q.step c = some q') (a : α) :
    q'.due a = if c.event = some a then c.tickFor else q.due a := by
  rcases step_cases h with ⟨rfl, -, rfl⟩ | ⟨b, hb, rfl, -⟩
  · rfl
  · rw [hb]
    by_cases hab : a = b
    · rw [hab, put_due_self, if_pos rfl]
    · rw [put_due_of_ne hab, if_neg fun heq => hab (Option.some.inj heq).symm]

/-! ## What a record tells -/

theorem now_of_replay (h : q.replay log = some q') : q'.now = q.now + ticksIn log := by
  induction log using List.reverseRecOn generalizing q' with
  | nil =>
    cases h
    rfl
  | append_singleton log c ih =>
    obtain ⟨q₁, hlog, hc⟩ := replay_append_eq_some_iff.mp h
    rw [replay_singleton] at hc
    rw [step_now hc, ih hlog, ticksIn, ticksIn, ticksIn, List.countP_append, Nat.add_assoc]

theorem lastAbout_concat (a : α) (log : List (QueueCall α)) (c : QueueCall α) :
    lastAbout a (log ++ [c]) = if c.event = some a then some c else lastAbout a log := by
  unfold lastAbout
  rw [List.filter_append]
  split_ifs with h <;> simp [h]

/-- An event waits for the tick it was scheduled for last, unless something else happened to it
since. -/
theorem due_of_replay (h : q.replay log = some q') (a : α) :
    q'.due a = (lastAbout a log).elim (q.due a) QueueCall.tickFor := by
  induction log using List.reverseRecOn generalizing q' with
  | nil =>
    cases h
    rfl
  | append_singleton log c ih =>
    obtain ⟨q₁, hlog, hc⟩ := replay_append_eq_some_iff.mp h
    rw [replay_singleton] at hc
    rw [step_due hc, lastAbout_concat, ih hlog]
    split_ifs <;> rfl

/-- An event is fired at the tick it waits for. -/
theorem fire_of_replay {post : List (QueueCall α)}
    (h : q.replay (log ++ .fire a :: post) = some q') :
    (lastAbout a log).elim (q.due a) QueueCall.tickFor = some (q.now + ticksIn log) := by
  obtain ⟨q₁, hlog, hrest⟩ := replay_append_eq_some_iff.mp h
  rw [← due_of_replay hlog, ← now_of_replay hlog]
  obtain ⟨q₂, hfire, -⟩ := Option.bind_eq_some_iff.mp hrest
  exact (Option.ite_none_right_eq_some.mp hfire).1

/-- Nobody schedules an event or takes it back. -/
def Untouched (a : α) (log : List (QueueCall α)) : Prop :=
  ∀ c ∈ log, c.event = some a → c = .fire a

/-- An event that waits and that nobody touches goes on waiting, or is fired once at its tick. -/
theorem fired_once_of_replay (hdue : q.due a = some t) (h : q.replay log = some q')
    (hlog : Untouched a log) :
    (.fire a ∉ log ∧ q'.due a = some t) ∨
      ∃ pre post, log = pre ++ .fire a :: post ∧ q.now + ticksIn pre = t ∧ .fire a ∉ pre ∧
        .fire a ∉ post ∧ q'.due a = none := by
  induction log using List.reverseRecOn generalizing q' with
  | nil =>
    cases h
    exact .inl ⟨List.not_mem_nil, hdue⟩
  | append_singleton log c ih =>
    obtain ⟨q₁, hlog₁, hc⟩ := replay_append_eq_some_iff.mp h
    rw [replay_singleton] at hc
    have hbefore := ih hlog₁ fun c' hc' => hlog c' (List.mem_append_left _ hc')
    have hc_untouched := hlog c (List.mem_append_right _ List.mem_cons_self)
    by_cases hevent : c.event = some a
    · -- it is fired now: at its tick, and not before
      obtain rfl := hc_untouched hevent
      obtain ⟨hnow, hq'⟩ := Option.ite_none_right_eq_some.mp hc
      rcases hbefore with ⟨hnot, hdue₁⟩ | ⟨-, -, -, -, -, -, hdue₁⟩
      · rw [hdue₁] at hnow
        refine .inr ⟨log, [], rfl, ?_, hnot, List.not_mem_nil, ?_⟩
        · rw [← now_of_replay hlog₁]
          exact (Option.some.inj hnow).symm
        · cases hq'
          exact put_due_self ..
      · rw [hdue₁] at hnow
        cases hnow
    · -- another entry leaves it as it is
      have hne : .fire a ≠ c := by
        rintro rfl
        exact hevent rfl
      have hstay : q'.due a = q₁.due a := by rw [step_due hc, if_neg hevent]
      rcases hbefore with ⟨hnot, hdue₁⟩ | ⟨pre, post, rfl, htick, hpre, hpost, hdue₁⟩
      · exact .inl ⟨by simp [hnot, hne], hstay.trans hdue₁⟩
      · refine .inr ⟨pre, post ++ [c], by simp, htick, hpre, ?_, hstay.trans hdue₁⟩
        simp [hpost, hne]

end TimerQueue
