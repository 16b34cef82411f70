import Mathlib.Algebra.BigOperators.Group.List.Basic
import SampleTools.Library.Run
import SampleTools.MyBase.WheelAdvance

/-!
# What programs can rely on

A program calls `schedule`, `schedule_in_range`, `cancel` and `advance` in any order, the first
three also in callbacks. Its calls of `advance` limit the number of events as they like.

The calls are those that the comments of the code allow, within bounds that are not in the comments:
the ticks fit 64 bits, up to a last tick that the clock does not get past, and ranges end below
`2 ^ 56`.

## Main definitions

* `WheelStep`, `WheelState.step`: the calls of a program
* `WheelStep.Allowed`: the calls as the comments of the code demand them, within these bounds

## Main results

* `WheelState.run_good`: no assertion fails, and the wheel goes as far as it is told to
* `WheelState.run_in_range`: the ticks that `schedule_in_range` takes
* `WheelState.run_executes`: every event is executed at the tick it was scheduled for last, and
  once
-/

namespace SampleTools

variable {α S : Type}

/-- The calls of a program. -/
inductive WheelStep (α : Type)
  | call (c : WheelCall α)
  | advance (delta maxExecute : ℕ)
  deriving DecidableEq, Repr

/-- The ticks that a call of `advance` asks for. -/
def WheelStep.delta : WheelStep α → ℕ
  | .call _ => 0
  | .advance delta _ => delta

/-- Allowed calls; "delta should be non-0. The only exception is if the previous call to advance()
returned false". Besides, the clock must not get past a last tick. -/
def WheelStep.Allowed (horizon : ℕ) (w : TimerWheel α) : WheelStep α → Prop
  | .call c => c.Allowed (w.now 0)
  | .advance delta _ => (delta ≠ 0 ∨ w.ticksPending ≠ 0) ∧ w.target + delta ≤ horizon

instance (horizon : ℕ) (w : TimerWheel α) : DecidablePred (WheelStep.Allowed horizon w)
  | .call c => inferInstanceAs (Decidable (c.Allowed _))
  | .advance .. => inferInstanceAs (Decidable (_ ∧ _))

namespace WheelState

variable [DecidableEq α]

/-- The constructor of the wheel, and the state of the program. -/
def start (now : ℕ) (scheduledAt : α → ℕ) (client : S) : WheelState α S where
  wheel := .create now scheduledAt
  client := client
  log := []

/-- A call of the program. -/
def step (callback : Callback α S) (r : WheelState α S) : WheelStep α → Option (WheelState α S)
  | .call c => r.call c
  | .advance delta maxExecute => (advance callback delta maxExecute r).map Prod.snd

variable {callback : Callback α S} {Inv : S → Prop} {horizon now : ℕ} {scheduledAt : α → ℕ}
  {client : S} {r : WheelState α S}

omit [DecidableEq α] in
theorem start_good {Inv : TimerQueue α → S → Prop}
    (hclient : Inv (start now scheduledAt client).wheel.queue client) :
    (start now scheduledAt client).Good Inv where
  client := hclient
  clocked level _ := by
    show now / 2 ^ (widthBits * level) = now / 2 ^ (widthBits * 0) / numSlots ^ level
    rw [Nat.mul_zero, Nat.pow_zero, Nat.div_one, Nat.pow_mul]
    rfl
  placed _ _ hslot := by cases hslot
  started hne := absurd rfl hne

/-- An allowed call. -/
theorem step_good (hsafe : callback.Safe Inv horizon) (hhorizon : horizon < 2 ^ 64)
    (hgood : r.Good fun _ => Inv) {c : WheelStep α} (hc : c.Allowed horizon r.wheel) :
    ∃ r', r.step callback c = some r' ∧ (r'.Good fun _ => Inv) ∧ r.Follows r' ∧
      r'.wheel.target = r.wheel.target + c.delta := by
  cases c with
  | call c =>
    obtain ⟨r', hcall, hwithin⟩ := call_within hgood.clocked hgood.placed hc
    refine ⟨r', hcall, ⟨?_, hwithin.clocked hgood.clocked, ?_, ?_⟩, hwithin.follows, ?_⟩
    · rw [call_client hcall]
      exact hgood.client
    · rw [hwithin.pending]
      exact hwithin.placed
    · rw [hwithin.pending, hwithin.now]
      exact hgood.started
    · show _ = r.wheel.target
      unfold TimerWheel.target
      rw [hwithin.pending, hwithin.now]
  | advance delta maxExecute =>
    obtain ⟨through, r', hadvance, hgood', hfollows, htarget, -⟩ :=
      advance_spec (keeps_of_safe hsafe) hhorizon hgood hc.1 hc.2 maxExecute
    exact ⟨r', congrArg (Option.map Prod.snd) hadvance, hgood', hfollows, htarget⟩

theorem run_keeps {trace : List (WheelState α S × WheelStep α)}
    (hsafe : callback.Safe Inv horizon) (hhorizon : horizon < 2 ^ 64) (hclient : Inv client)
    (h : Run (step callback) (start now scheduledAt client) trace r)
    (hallowed : ∀ e ∈ trace, e.2.Allowed horizon e.1.wheel) :
    (r.Good fun _ => Inv) ∧ (start now scheduledAt client).Follows r ∧
      r.wheel.target = now + (trace.map fun e => e.2.delta).sum := by
  induction h with
  | nil =>
    refine ⟨start_good hclient, .refl _, ?_⟩
    show now / 2 ^ (widthBits * 0) + 0 = now + 0
    rw [Nat.mul_zero, Nat.pow_zero, Nat.div_one]
  | @snoc trace r r' c hrun hstep ih =>
    obtain ⟨htrace, hc⟩ := List.forall_mem_append.mp hallowed
    obtain ⟨hgood, hfollows, htarget⟩ := ih htrace
    obtain ⟨r₁, hstep₁, hgood₁, hfollows₁, htarget₁⟩ :=
      step_good hsafe hhorizon hgood (hc _ List.mem_cons_self)
    obtain rfl : r₁ = r' := Option.some.inj (hstep₁.symm.trans hstep)
    refine ⟨hgood₁, hfollows.trans hfollows₁, ?_⟩
    rw [htarget₁, htarget, List.map_append, List.sum_append, Nat.add_assoc]
    simp

/-- In every run of allowed calls, all that happened is what happens to a queue of timers, the wheel
is to go as far as it was told to in all (`ticks_pending_` counts the tick that it is at), and no
assertion fails in a call that is allowed. -/
theorem run_good {trace : List (WheelState α S × WheelStep α)}
    (hsafe : callback.Safe Inv horizon) (hhorizon : horizon < 2 ^ 64) (hclient : Inv client)
    (h : Run (step callback) (start now scheduledAt client) trace r)
    (hallowed : ∀ e ∈ trace, e.2.Allowed horizon e.1.wheel) :
    (start now scheduledAt client).Follows r ∧
      r.wheel.target = now + (trace.map fun e => e.2.delta).sum ∧
      ∀ c : WheelStep α, c.Allowed horizon r.wheel → (r.step callback c).isSome = true := by
  obtain ⟨hgood, hfollows, htarget⟩ := run_keeps hsafe hhorizon hclient h hallowed
  refine ⟨hfollows, htarget, fun c hc => ?_⟩
  obtain ⟨r', hstep, -⟩ := step_good hsafe hhorizon hgood hc
  rw [hstep]
  rfl

/-- A program whose callbacks do nothing. -/
def idle : Callback ℕ Unit := fun _ _ s => (s, [])

theorem idle_safe (horizon : ℕ) : idle.Safe (fun _ => True) horizon :=
  fun _ _ _ _ _ => ⟨trivial, fun _ hc => absurd hc List.not_mem_nil⟩

/-- The clock starts at 250, an event waits for the tick 510, and the clock passes 256: the event
moves to an inner slot. -/
theorem run_good_promoted : ∃ (trace : List (WheelState ℕ Unit × WheelStep ℕ))
    (r : WheelState ℕ Unit), Run (step idle) (start 250 (fun _ => 0) ()) trace r ∧
      trace.map Prod.snd = [.call (.schedule 7 260), .advance 8 10] ∧
      r.wheel.slots.slot 7 = some (0, 254) ∧ r.wheel.target = 250 + 8 ∧
      ∀ c : WheelStep ℕ, c.Allowed 1000 r.wheel → (r.step idle c).isSome = true := by
  have hrun : Run (step idle) (start 250 (fun _ => 0) ()) _ _ :=
    Run.nil.snoc (a := .call (.schedule 7 260)) rfl |>.snoc (a := .advance 8 10) rfl
  exact ⟨_, _, hrun, rfl, rfl,
    (run_good (idle_safe 1000) (by decide) trivial hrun (by decide)).2⟩

/-! ## Ranges -/

/-- In every state a program can reach, `schedule_in_range` sees to it that an event waits for a
tick of the range exactly if it did so before, or the range ends below `2 ^ 56`; and the delta it
chooses then has as many bytes clear as any in the range. -/
theorem run_in_range {trace : List (WheelState α S × WheelStep α)}
    (hsafe : callback.Safe Inv horizon) (hhorizon : horizon < 2 ^ 64) (hclient : Inv client)
    (h : Run (step callback) (start now scheduledAt client) trace r)
    (hallowed : ∀ e ∈ trace, e.2.Allowed horizon e.1.wheel) (event : α) {first last : ℕ}
    (hlt : first < last) (hlast : r.wheel.now 0 + last < 2 ^ 64) :
    ((∃ w', r.wheel.scheduleInRange event first last = some w' ∧ w'.InRange event first last) ↔
      r.wheel.InRange event first last ∨ last < 2 ^ 56) ∧
    (¬ r.wheel.InRange event first last → last < 2 ^ 56 →
      ∃ w' delta m, r.wheel.scheduleInRange event first last = some w' ∧
        w'.queue = r.wheel.queue.put event (some (r.wheel.now 0 + delta)) ∧
        numSlots ^ m ∣ delta ∧
        ∀ delta', first < delta' → delta' ≤ last → ¬ numSlots ^ (m + 1) ∣ delta') := by
  have hgood := (run_keeps hsafe hhorizon hclient h hallowed).1
  have hdecides := TimerWheel.inRange_iff hgood.placed event first last
  have hlast' : last < 2 ^ 64 := by omega
  rw [TimerWheel.scheduleInRange, if_neg (not_not_intro hlt)]
  dsimp only
  by_cases hin : r.wheel.InRange event first last
  · rw [if_pos (hdecides.mpr hin)]
    exact ⟨iff_of_true ⟨_, rfl, hin⟩ (.inl hin), fun hnot => absurd hin hnot⟩
  · rw [if_neg fun h => hin (hdecides.mp h), or_iff_right hin]
    have hle : TimerWheel.rangeDelta first last ≤ last := Nat.and_le_left
    have hput : TimerWheel.rangeDelta first last ≠ 0 →
        ∃ w', r.wheel.schedule event (TimerWheel.rangeDelta first last) = some w' ∧
          w'.queue = r.wheel.queue.put event
            (some (r.wheel.now 0 + TimerWheel.rangeDelta first last)) := by
      intro hne
      obtain ⟨level, -, -, hschedule⟩ := TimerWheel.schedule_eq hgood.clocked event
        (TimerWheel.rangeDelta first last) (Nat.pos_of_ne_zero hne) (by omega)
      exact ⟨_, hschedule, TimerWheel.queue_putAt ..⟩
    refine ⟨⟨?_, fun hsmall => ?_⟩, fun _ hsmall => ?_⟩
    · rintro ⟨w', hschedule, t, hdue, hlow, -⟩
      -- a range from 2 ^ 56 on: the mask leaves zero or a delta before the range
      by_contra hlarge
      rcases TimerWheel.rangeDelta_of_large hlast' hlt (by omega) with hzero | hbelow
      · rw [hzero] at hschedule
        cases hschedule
      · by_cases hzero : TimerWheel.rangeDelta first last = 0
        · rw [hzero] at hschedule
          cases hschedule
        · obtain ⟨w₁, hschedule₁, hqueue⟩ := hput hzero
          obtain rfl : w₁ = w' := Option.some.inj (hschedule₁.symm.trans hschedule)
          rw [hqueue, TimerQueue.put_due_self] at hdue
          have hnow : w₁.now 0 = r.wheel.now 0 := congrArg TimerQueue.now hqueue
          cases hdue
          omega
    · -- in a small range the masked delta lies above its beginning
      obtain ⟨hlow, -⟩ := (TimerWheel.rangeDelta_mem_iff hlast' hlt).mpr hsmall
      obtain ⟨w', hschedule, hqueue⟩ := hput (Nat.ne_of_gt (Nat.zero_lt_of_lt hlow))
      have hnow : w'.now 0 = r.wheel.now 0 := congrArg TimerQueue.now hqueue
      refine ⟨w', hschedule, _, by rw [hqueue, TimerQueue.put_due_self], ?_, ?_⟩ <;> omega
    · obtain ⟨hlow, -⟩ := (TimerWheel.rangeDelta_mem_iff hlast' hlt).mpr hsmall
      obtain ⟨w', hschedule, hqueue⟩ := hput (Nat.ne_of_gt (Nat.zero_lt_of_lt hlow))
      obtain ⟨m, hdvd, hround⟩ := TimerWheel.rangeDelta_roundest hsmall hlt
      exact ⟨w', _, m, hschedule, hqueue, hdvd, hround⟩

/-- An event waits for the tick 7. Of the ticks from 10 to 600, with the clock at 3, the wheel
takes `3 + 512`. -/
theorem run_in_range_rounded : ∃ (trace : List (WheelState ℕ Unit × WheelStep ℕ))
    (r : WheelState ℕ Unit), Run (step idle) (start 0 (fun _ => 0) ()) trace r ∧
      trace.map Prod.snd = [.call (.schedule 5 7), .advance 3 10] ∧
      TimerWheel.rangeDelta 10 600 = 512 ∧
      ((∃ w', r.wheel.scheduleInRange 5 10 600 = some w' ∧ w'.InRange 5 10 600) ↔
        r.wheel.InRange 5 10 600 ∨ 600 < 2 ^ 56) := by
  have hrun : Run (step idle) (start 0 (fun _ => 0) ()) _ _ :=
    Run.nil.snoc (a := .call (.schedule 5 7)) rfl |>.snoc (a := .advance 3 10) rfl
  exact ⟨_, _, hrun, rfl, rfl,
    (run_in_range (idle_safe 1000) (by decide) trivial hrun (by decide) 5 (by decide)
      (by decide)).1⟩

/-! ## Every event at its tick -/

/-- What an event waits for was recorded last. -/
theorem lastAbout_of_tickFor {a : α} {log : List (QueueCall α)} {t : ℕ}
    (h : (lastAbout a log).elim none QueueCall.tickFor = some t) :
    lastAbout a log = some (.schedule a t) := by
  cases hlast : lastAbout a log with
  | none =>
    rw [hlast] at h
    cases h
  | some c =>
    rw [hlast] at h
    have hmem := List.mem_of_getLast? hlast
    have hevent := of_decide_eq_true (List.mem_filter.mp hmem).2
    cases c with
    | schedule b t' =>
      cases h
      cases hevent
      rfl
    | _ => cases h

/-- In every run, an event is executed only at the tick it was scheduled for last; and an event
that was scheduled, and not touched since, is executed at its tick, and once. -/
theorem run_executes {trace : List (WheelState α S × WheelStep α)}
    (hsafe : callback.Safe Inv horizon) (hhorizon : horizon < 2 ^ 64) (hclient : Inv client)
    (h : Run (step callback) (start now scheduledAt client) trace r)
    (hallowed : ∀ e ∈ trace, e.2.Allowed horizon e.1.wheel) (a : α) :
    (∀ pre post, r.log = pre ++ .fire a :: post →
      lastAbout a pre = some (.schedule a (now + ticksIn pre))) ∧
    ∀ pre t post, r.log = pre ++ .schedule a t :: post → TimerQueue.Untouched a post →
      r.wheel.ticksPending = 0 →
      (r.wheel.now 0 < t ∧ .fire a ∉ post) ∨
        t ≤ r.wheel.now 0 ∧ ∃ mid rest, post = mid ++ .fire a :: rest ∧
          now + ticksIn (pre ++ mid) = t ∧ .fire a ∉ mid ∧ .fire a ∉ rest := by
  obtain ⟨hgood, ⟨log, hlog, hreplay⟩, -⟩ := run_keeps hsafe hhorizon hclient h hallowed
  obtain rfl : r.log = log := hlog
  have hzero : (start now scheduledAt client).wheel.queue.now = now := Nat.div_one now
  constructor
  · intro pre post hsplit
    rw [hsplit] at hreplay
    have hfire := TimerQueue.fire_of_replay hreplay
    rw [hzero] at hfire
    exact lastAbout_of_tickFor hfire
  · intro pre t post hsplit huntouched hpending
    rw [hsplit] at hreplay
    -- the log is cut at the call that scheduled a, and the queue is followed from there on
    obtain ⟨q₁, hpre, hrest⟩ := TimerQueue.replay_append_eq_some_iff.mp hreplay
    obtain ⟨q₂, hstep, hpost⟩ := Option.bind_eq_some_iff.mp hrest
    have hdue : q₂.due a = some t := by
      rw [TimerQueue.step_due hstep]
      exact if_pos rfl
    have hnow₂ : q₂.now = now + ticksIn pre := by
      rw [TimerQueue.step_now hstep, TimerQueue.now_of_replay hpre, hzero]
      rfl
    have hend : r.wheel.now 0 = q₂.now + ticksIn post := TimerQueue.now_of_replay hpost
    rcases TimerQueue.fired_once_of_replay hdue hpost huntouched with
      ⟨hnot, hwaits⟩ | ⟨mid, rest, rfl, htick, hmid, hrest', -⟩
    · -- it still waits, and the wheel has left nothing behind
      obtain ⟨slot, hslot, rfl⟩ := Option.map_eq_some_iff.mp hwaits
      have hplaced := hgood.placed
      rw [if_pos hpending] at hplaced
      rcases (hplaced a slot hslot).when with hahead | ⟨hfalse, -⟩
      · exact .inl ⟨hahead.lt, hnot⟩
      · exact absurd hfalse (Nat.not_lt_zero _)
    · -- it was executed; the ticks up to that entry add up to the tick it waited for
      refine .inr ⟨?_, mid, rest, rfl, ?_, hmid, hrest'⟩
      · rw [hend, ← htick, ticksIn, ticksIn, List.countP_append]
        omega
      · rw [← htick, hnow₂, ticksIn, ticksIn, ticksIn, List.countP_append, Nat.add_assoc]

/-- An event is moved from the tick 300 to the tick 2, and the clock goes on by three. -/
theorem run_executes_moved : ∃ (trace : List (WheelState ℕ Unit × WheelStep ℕ))
    (r : WheelState ℕ Unit), Run (step idle) (start 0 (fun _ => 0) ()) trace r ∧
      trace.map Prod.snd = [.call (.schedule 7 300), .call (.schedule 7 2), .advance 3 10] ∧
      r.log = [.schedule 7 300, .schedule 7 2, .tick, .tick, .fire 7, .tick] ∧
      ∀ pre post, r.log = pre ++ .fire 7 :: post →
        lastAbout 7 pre = some (.schedule 7 (0 + ticksIn pre)) := by
  have hrun : Run (step idle) (start 0 (fun _ => 0) ()) _ _ :=
    Run.nil.snoc (a := .call (.schedule 7 300)) rfl |>.snoc (a := .call (.schedule 7 2)) rfl
    |>.snoc (a := .advance 3 10) rfl
  exact ⟨_, _, hrun, rfl, rfl,
    (run_executes (idle_safe 1000) (by decide) trivial hrun (by decide) 7).1⟩

end WheelState

end SampleTools
