import Mathlib.Algebra.Ring.Int.Defs
import Mathlib.Data.List.Range
import Mathlib.Logic.Function.Basic
import SampleTools.Library.Run

/-!
# The timers of `TimerMan`

`setTimer` allocates a `TMEvent` and schedules it on the timer wheel; `stopTimer` cancels an
event and deletes it. When the wheel reaches the tick an event is scheduled for, it takes the
event out and calls `onTimer`, which calls the callback, counts, and schedules the event again.
A callback may set and stop timers, and so may other threads while it runs.

Events are numbered as they are allocated, and a handle is a number: two allocations at one address
have different handles here. A call that uses an event after it was deleted leaves nothing that
could be relied on: the state only says so, and no call follows.

The execution of an event is one step. In the code `run` advances the wheel without the mutex that
`setTimer` and `stopTimer` take, so that another thread may also come in the middle of `onTimer`;
of this only the calls in and during the callback are modelled.

## Main definitions

* `TMEvent`, `TimerImpl`: the events and what the manager knows
* `TimerImpl.set`, `TimerImpl.cancel`, `TimerImpl.onTimer`: the functions of the code
* `TimerCall`, `TimerImpl.step`: what can happen

## Main results

* `TimerImpl.applyAll_extends`: what a callback leaves as it is
* `TimerImpl.applyAll_isSome_iff`: when a callback uses no deleted event
* `TimerImpl.execute_cases`, `TimerImpl.step_cases`: everything an execution and a call can do
-/

namespace SampleTools

/-! ## Events -/

/-- What `setTimer` was called with: the tick, the arguments, and what the memory of the new
event holds where `cnts_` is. -/
structure TimerRequest where
  start : ℕ
  ms : Int32
  cnt : Int32
  memory : Int32
  deriving DecidableEq, Repr

/-- An `int32_t` converted to a number of ticks. -/
def ticksOf (ms : Int32) : ℕ := (ms.toInt % 2 ^ 64).toNat

/-- `TMEvent`, with the tick it is scheduled for on the wheel. -/
structure TMEvent where
  ms : Int32
  cnts : Int32
  maxCnts : Int32
  canceled : Bool
  scheduledAt : Option ℕ
  deriving DecidableEq, Repr

namespace TMEvent

/-- A new event after `start`; `cnts_` is what the memory held. -/
def start (r : TimerRequest) : TMEvent where
  ms := r.ms
  cnts := r.memory
  maxCnts := r.cnt
  canceled := false
  scheduledAt := some (r.start + ticksOf r.ms)

/-- `cancel`. -/
def cancel (evt : TMEvent) : TMEvent := { evt with canceled := true, scheduledAt := none }

/-- `pop_event` of the wheel. -/
def pop (evt : TMEvent) : TMEvent := { evt with scheduledAt := none }

/-- `onTimer` after the callback. -/
def countOne (now : ℕ) (evt : TMEvent) : TMEvent :=
  let evt := { evt with cnts := evt.cnts + 1 }
  if evt.canceled = false ∧ evt.cnts < evt.maxCnts then
    { evt with scheduledAt := some (now + ticksOf evt.ms) }
  else evt

end TMEvent

/-! ## The manager -/

/-- `setTimer` and `stopTimer`; a null handle is `none`. -/
inductive TimerOp
  | set (ms cnt memory : Int32)
  | stop (htimer : Option ℕ)
  deriving DecidableEq, Repr

/-- `_TimerImpl` with its wheel, what timers were set, which callbacks were called at which
tick, and whether an event was used after it was deleted. -/
structure TimerImpl where
  now : ℕ := 0
  requests : List TimerRequest := []
  event : ℕ → Option TMEvent := fun _ => none
  timers : List ℕ := []
  fired : List (ℕ × ℕ) := []
  misused : Bool := false

namespace TimerImpl

/-- The event at an address. -/
def put (h : ℕ) (evt : Option TMEvent) (s : TimerImpl) : TimerImpl :=
  { s with event := Function.update s.event h evt }

/-- `set`. -/
def set (ms cnt memory : Int32) (s : TimerImpl) : TimerImpl :=
  let r : TimerRequest := ⟨s.now, ms, cnt, memory⟩
  let htimer := s.requests.length
  { s.put htimer (some (.start r)) with
    requests := s.requests ++ [r], timers := htimer :: s.timers }

/-- `cancel`, unless the event was deleted before. -/
def cancel (htimer : Option ℕ) (s : TimerImpl) : Option TimerImpl :=
  match htimer with
  | none => some s
  | some h =>
    (s.event h).map fun evt =>
      -- `evt->cancel()`, then `delete evt`
      let s := s.put h (some evt.cancel)
      { s with timers := s.timers.erase h }.put h none

/-- `setTimer` or `stopTimer`. -/
def apply (s : TimerImpl) : TimerOp → Option TimerImpl
  | .set ms cnt memory => some (s.set ms cnt memory)
  | .stop htimer => s.cancel htimer

/-- Calls one after another. -/
def applyAll (s : TimerImpl) : List TimerOp → Option TimerImpl
  | [] => some s
  | op :: ops => (s.apply op).bind fun s => s.applyAll ops

/-- `onTimer`; `ops` are the calls made while the callback runs. -/
def onTimer (h : ℕ) (ops : List TimerOp) (s : TimerImpl) : Option TimerImpl :=
  ({ s with fired := s.fired ++ [(h, s.now)] }.applyAll ops).bind fun s : TimerImpl =>
    (s.event h).map fun evt : TMEvent => s.put h (some (evt.countOne s.now))

/-- The wheel takes an event out and executes it. -/
def execute (h : ℕ) (ops : List TimerOp) (s : TimerImpl) : Option TimerImpl :=
  (s.event h).bind fun evt => (s.put h (some evt.pop)).onTimer h ops

/-- The tick a timer is scheduled for. -/
def scheduledAt (s : TimerImpl) (h : ℕ) : Option ℕ := (s.event h).bind TMEvent.scheduledAt

/-- The wheel has reached the tick of a timer. -/
def Due (s : TimerImpl) (h : ℕ) : Prop := s.scheduledAt h = some s.now

instance (s : TimerImpl) (h : ℕ) : Decidable (s.Due h) := inferInstanceAs (Decidable (_ = _))

/-- The event was allocated and deleted. -/
def Stopped (s : TimerImpl) (h : ℕ) : Prop := h < s.requests.length ∧ s.event h = none

instance (s : TimerImpl) (h : ℕ) : Decidable (s.Stopped h) :=
  inferInstanceAs (Decidable (_ ∧ _))

end TimerImpl

/-- Calls that a program can make after `n` calls of `setTimer`: no delay of zero, at which
`schedule` aborts, and only handles that were returned. -/
def opsValid : ℕ → List TimerOp → Bool
  | _, [] => true
  | n, .set ms _ _ :: ops => ticksOf ms ≠ 0 && opsValid (n + 1) ops
  | n, .stop none :: ops => opsValid n ops
  | n, .stop (some h) :: ops => h < n && opsValid n ops

/-- The handles that are stopped. -/
def stops (ops : List TimerOp) : List ℕ :=
  ops.filterMap fun
    | .set .. => none
    | .stop htimer => htimer

/-- What can happen: a call of `setTimer` or `stopTimer`, the wheel goes on by a tick, or it
executes an event. An advance of the wheel is ticks, with executions after each. -/
inductive TimerCall
  | op (o : TimerOp)
  | tick
  | fire (h : ℕ) (ops : List TimerOp)
  deriving DecidableEq, Repr

namespace TimerImpl

/-- When a call can happen. The wheel goes on when it has executed all events of its tick. -/
def Enabled (s : TimerImpl) : TimerCall → Prop
  | .op o => opsValid s.requests.length [o] = true
  | .tick => ∀ h < s.requests.length, ¬ s.Due h
  | .fire h ops => s.Due h ∧ opsValid s.requests.length ops = true

instance (s : TimerImpl) : DecidablePred s.Enabled
  | .op _ => inferInstanceAs (Decidable (_ = true))
  | .tick => inferInstanceAs (Decidable (∀ h < _, _))
  | .fire _ _ => inferInstanceAs (Decidable (_ ∧ _))

/-- What a call does, unless it uses a deleted event. -/
def perform (s : TimerImpl) : TimerCall → Option TimerImpl
  | .op o => s.apply o
  | .tick => some { s with now := s.now + 1 }
  | .fire h ops => s.execute h ops

/-- The state afterwards. -/
def step (s : TimerImpl) (c : TimerCall) : Option TimerImpl :=
  if s.misused = false ∧ s.Enabled c then
    some ((s.perform c).getD { s with misused := true })
  else none

variable {s s' : TimerImpl} {ops : List TimerOp}

@[simp] theorem put_event_self (h : ℕ) (evt : Option TMEvent) (s : TimerImpl) :
    (s.put h evt).event h = evt := Function.update_self ..

theorem put_event_of_ne {h h' : ℕ} (hne : h' ≠ h) (evt : Option TMEvent) (s : TimerImpl) :
    (s.put h evt).event h' = s.event h' := Function.update_of_ne hne ..

@[simp] theorem set_length (ms cnt memory : Int32) (s : TimerImpl) :
    (s.set ms cnt memory).requests.length = s.requests.length + 1 := List.length_append

/-! ## What calls leave as it is -/

/-- Calls of `setTimer` and `stopTimer` have led from the first state to the second: events are
deleted, and new ones are as `start` leaves them. -/
structure Extends (s s' : TimerImpl) : Prop where
  now : s'.now = s.now
  fired : s'.fired = s.fired
  misused : s'.misused = s.misused
  requests : s.requests <+: s'.requests
  event : ∀ {h evt}, s'.event h = some evt → s.event h = some evt ∨
    ∃ r, s'.requests[h]? = some r ∧ s.requests.length ≤ h ∧ r.start = s.now ∧ ticksOf r.ms ≠ 0 ∧
      evt = .start r

theorem Extends.request (h : Extends s s') {i : ℕ} {r : TimerRequest}
    (hr : s.requests[i]? = some r) : s'.requests[i]? = some r := by
  obtain ⟨hlt, hget⟩ := List.getElem?_eq_some_iff.mp hr
  rw [List.prefix_iff_getElem?.mp h.requests i hlt, hget]

theorem Extends.refl (s : TimerImpl) : Extends s s := ⟨rfl, rfl, rfl, List.prefix_rfl, .inl⟩

theorem Extends.trans {s'' : TimerImpl} (h : Extends s s') (h' : Extends s' s'') :
    Extends s s'' where
  now := h'.now.trans h.now
  fired := h'.fired.trans h.fired
  misused := h'.misused.trans h.misused
  requests := h.requests.trans h'.requests
  event hevt := by
    rcases h'.event hevt with hevt' | ⟨r, hr, hlen, hstart, hms, rfl⟩
    · rcases h.event hevt' with hold | ⟨r, hr, hnew⟩
      · exact .inl hold
      · exact .inr ⟨r, h'.request hr, hnew⟩
    · exact .inr ⟨r, hr, h.requests.length_le.trans hlen, hstart.trans h.now, hms, rfl⟩

theorem set_extends {ms : Int32} (hms : ticksOf ms ≠ 0) (cnt memory : Int32) (s : TimerImpl) :
    Extends s (s.set ms cnt memory) where
  now := rfl
  fired := rfl
  misused := rfl
  requests := List.prefix_append _ _
  event {h evt} hevt := by
    by_cases hh : h = s.requests.length
    · subst hh
      have hnew : some _ = some evt := (put_event_self ..).symm.trans hevt
      cases hnew
      exact .inr ⟨_, List.getElem?_concat_length, le_refl _, rfl, hms, rfl⟩
    · exact .inl ((put_event_of_ne hh _ s).symm.trans hevt)

theorem cancel_event {htimer : Option ℕ} (hs : s.cancel htimer = some s') (h : ℕ) :
    s'.event h = if htimer = some h then none else s.event h := by
  cases htimer with
  | none =>
    cases hs
    rw [if_neg nofun]
  | some h' =>
    obtain ⟨evt, -, rfl⟩ := Option.map_eq_some_iff.mp hs
    by_cases hh : h = h'
    · rw [if_pos (congrArg some hh.symm), hh]
      exact put_event_self ..
    · rw [if_neg fun heq => hh (Option.some.inj heq).symm]
      exact (put_event_of_ne hh ..).trans (put_event_of_ne hh ..)

theorem cancel_requests {htimer : Option ℕ} (hs : s.cancel htimer = some s') :
    s'.requests = s.requests := by
  cases htimer with
  | none =>
    cases hs
    rfl
  | some h =>
    obtain ⟨evt, -, rfl⟩ := Option.map_eq_some_iff.mp hs
    rfl

theorem cancel_extends {htimer : Option ℕ} (hs : s.cancel htimer = some s') : Extends s s' := by
  have hevent := cancel_event hs
  cases htimer with
  | none =>
    cases hs
    exact .refl s
  | some h =>
    obtain ⟨evt, -, rfl⟩ := Option.map_eq_some_iff.mp hs
    refine ⟨rfl, rfl, rfl, List.prefix_rfl, fun {h' evt'} hevt => .inl ?_⟩
    rw [hevent] at hevt
    split_ifs at hevt
    exact hevt

theorem cancel_isSome_iff (h : ℕ) (s : TimerImpl) :
    (s.cancel (some h)).isSome = true ↔ s.event h ≠ none := by
  rw [cancel, Option.isSome_map, ← Option.ne_none_iff_isSome]

theorem applyAll_extends (hv : opsValid s.requests.length ops = true)
    (hs : s.applyAll ops = some s') : Extends s s' := by
  induction ops generalizing s with
  | nil =>
    cases hs
    exact .refl _
  | cons op ops ih =>
    obtain ⟨s₁, hop, hops⟩ := Option.bind_eq_some_iff.mp hs
    cases op with
    | set ms cnt memory =>
      cases hop
      obtain ⟨hms, hv⟩ := Bool.and_eq_true_iff.mp hv
      refine (set_extends (of_decide_eq_true hms) cnt memory _).trans (ih ?_ hops)
      rwa [set_length]
    | stop htimer =>
      have hlen := cancel_requests hop
      refine (cancel_extends hop).trans (ih ?_ hops)
      rw [hlen]
      cases htimer with
      | none => exact hv
      | some h => exact (Bool.and_eq_true_iff.mp hv).2

/-! ## Deleted events -/

@[simp] theorem stops_set (ms cnt memory : Int32) (ops : List TimerOp) :
    stops (.set ms cnt memory :: ops) = stops ops := rfl

@[simp] theorem stops_stop_none (ops : List TimerOp) : stops (.stop none :: ops) = stops ops := rfl

@[simp] theorem stops_stop_some (h : ℕ) (ops : List TimerOp) :
    stops (.stop (some h) :: ops) = h :: stops ops := rfl

theorem set_stopped_iff {ms cnt memory : Int32} {x : ℕ} :
    (s.set ms cnt memory).Stopped x ↔ s.Stopped x := by
  unfold Stopped
  rw [set_length]
  by_cases hx : x = s.requests.length
  · subst hx
    have hnew : (s.set ms cnt memory).event s.requests.length ≠ none := by
      show (s.put _ (some _)).event _ ≠ none
      rw [put_event_self]
      exact Option.some_ne_none _
    exact iff_of_false (fun h => hnew h.2) fun h => absurd h.1 (lt_irrefl _)
  · have hold : (s.set ms cnt memory).event x = s.event x := put_event_of_ne hx _ s
    rw [hold]
    exact and_congr_left fun _ => by omega

theorem cancel_stopped_iff {h : ℕ} (hlt : h < s.requests.length)
    (hs : s.cancel (some h) = some s') {x : ℕ} : s'.Stopped x ↔ x = h ∨ s.Stopped x := by
  unfold Stopped
  rw [cancel_requests hs, cancel_event hs]
  by_cases hx : x = h
  · subst hx
    simp [hlt]
  · have hne : ¬ some h = some x := fun heq => hx (Option.some.inj heq).symm
    rw [if_neg hne]
    exact (or_iff_right hx).symm

/-- Calls use no deleted event exactly if they stop no timer twice, and none that was stopped
before. -/
theorem applyAll_isSome_iff (hv : opsValid s.requests.length ops = true) :
    (s.applyAll ops).isSome = true ↔ (stops ops).Nodup ∧ ∀ x ∈ stops ops, ¬ s.Stopped x := by
  induction ops generalizing s with
  | nil => exact iff_of_true rfl ⟨.nil, nofun⟩
  | cons op ops ih =>
    cases op with
    | set ms cnt memory =>
      have hv' : opsValid (s.set ms cnt memory).requests.length ops = true :=
        set_length .. ▸ (Bool.and_eq_true_iff.mp hv).2
      rw [stops_set]
      refine (ih hv').trans (and_congr_right fun _ => forall₂_congr fun x _ => ?_)
      rw [set_stopped_iff]
    | stop htimer =>
      cases htimer with
      | none => exact ih hv
      | some h =>
        obtain ⟨hlt, hv⟩ := Bool.and_eq_true_iff.mp hv
        have hlt := of_decide_eq_true hlt
        rw [stops_stop_some, List.nodup_cons, List.forall_mem_cons]
        show ((s.cancel (some h)).bind fun s => s.applyAll ops).isSome = true ↔ _
        cases hcancel : s.cancel (some h) with
        | none =>
          have hdeleted : s.Stopped h := by
            refine ⟨hlt, ?_⟩
            by_contra hne
            have hsome := (cancel_isSome_iff h s).mpr hne
            rw [hcancel] at hsome
            cases hsome
          exact iff_of_false nofun fun hall => hall.2.1 hdeleted
        | some s₁ =>
          have halive : ¬ s.Stopped h := fun hstopped =>
            (cancel_isSome_iff h s).mp (by rw [hcancel]; rfl) hstopped.2
          rw [Option.bind_some, ih (cancel_requests hcancel ▸ hv)]
          simp only [cancel_stopped_iff hlt hcancel, not_or, forall_and, halive,
            not_false_eq_true, true_and]
          constructor
          · rintro ⟨hnodup, hne, hstopped⟩
            exact ⟨⟨fun hmem => hne h hmem rfl, hnodup⟩, hstopped⟩
          · rintro ⟨⟨hnot, hnodup⟩, hstopped⟩
            exact ⟨hnodup, fun x hx hxh => hnot (hxh ▸ hx), hstopped⟩

/-- The events of earlier timers, after calls. -/
theorem applyAll_event (hs : s.applyAll ops = some s') {x : ℕ} (hx : x < s.requests.length) :
    s'.event x = if x ∈ stops ops then none else s.event x := by
  induction ops generalizing s with
  | nil =>
    cases hs
    rfl
  | cons op ops ih =>
    obtain ⟨s₁, hop, hops⟩ := Option.bind_eq_some_iff.mp hs
    cases op with
    | set ms cnt memory =>
      cases hop
      have hold : (s.set ms cnt memory).event x = s.event x := put_event_of_ne hx.ne _ s
      rw [ih hops (by rw [set_length]; omega), hold]
      rfl
    | stop htimer =>
      have hevent := cancel_event hop x
      rw [ih hops (cancel_requests hop ▸ hx), hevent]
      cases htimer with
      | none => rw [if_neg (by nofun : ¬ none = some x)]; rfl
      | some h =>
        rw [stops_stop_some]
        by_cases hxh : x = h
        · subst hxh
          simp
        · simp [hxh, Ne.symm hxh]

/-! ## What a call can do -/

/-- Only timers that were set have events. -/
def Known (s : TimerImpl) : Prop := ∀ h, s.event h ≠ none → h < s.requests.length

theorem Known.empty : Known {} := fun _ h => absurd rfl h

theorem Known.put (hknown : s.Known) {h : ℕ} (hh : s.event h ≠ none) (evt : TMEvent) :
    (s.put h (some evt)).Known := by
  intro h' hh'
  by_cases heq : h' = h
  · rw [heq]
    exact hknown h hh
  · rw [put_event_of_ne heq] at hh'
    exact hknown h' hh'

theorem Extends.known (hext : Extends s s') (hknown : s.Known) : s'.Known := by
  intro h hh
  obtain ⟨evt, hevt⟩ := Option.ne_none_iff_exists'.mp hh
  rcases hext.event hevt with hold | ⟨r, hr, -⟩
  · have hlt := hknown h (by rw [hold]; exact Option.some_ne_none evt)
    exact hlt.trans_le hext.requests.length_le
  · exact (List.getElem?_eq_some_iff.mp hr).1

/-- The state in which a callback runs: its event is taken out of the wheel. -/
def inCallback (h : ℕ) (evt : TMEvent) (s : TimerImpl) : TimerImpl :=
  { s.put h (some evt.pop) with fired := s.fired ++ [(h, s.now)] }

theorem inCallback_event_self (h : ℕ) (evt : TMEvent) (s : TimerImpl) :
    (s.inCallback h evt).event h = some evt.pop := put_event_self ..

theorem inCallback_event_of_ne {h h' : ℕ} (hne : h' ≠ h) (evt : TMEvent) (s : TimerImpl) :
    (s.inCallback h evt).event h' = s.event h' := put_event_of_ne hne ..

theorem execute_eq {h : ℕ} {evt : TMEvent} (hevt : s.event h = some evt) (ops : List TimerOp) :
    s.execute h ops = ((s.inCallback h evt).applyAll ops).bind fun s₁ =>
      (s₁.event h).map fun evt => s₁.put h (some (evt.countOne s₁.now)) := by
  rw [execute, hevt, Option.bind_some]
  rfl

/-- An execution: the callback makes its calls and leaves its own event, which counts. -/
theorem execute_cases {h : ℕ} (hknown : s.Known) (hv : opsValid s.requests.length ops = true)
    (hs : s.execute h ops = some s') :
    ∃ evt s₁, s.event h = some evt ∧ Extends (s.inCallback h evt) s₁ ∧
      s₁.event h = some evt.pop ∧ s' = s₁.put h (some (evt.pop.countOne s.now)) := by
  obtain ⟨evt, hevt, -⟩ := Option.bind_eq_some_iff.mp hs
  have hlt : h < (s.inCallback h evt).requests.length :=
    hknown h (by rw [hevt]; exact Option.some_ne_none evt)
  rw [execute_eq hevt] at hs
  obtain ⟨s₁, hops, hlast⟩ := Option.bind_eq_some_iff.mp hs
  obtain ⟨evt₁, hevt₁, rfl⟩ := Option.map_eq_some_iff.mp hlast
  have hext := applyAll_extends (s := s.inCallback h evt) hv hops
  have hevent := applyAll_event hops hlt
  rw [hevt₁, inCallback_event_self] at hevent
  split_ifs at hevent
  cases hevent
  exact ⟨evt, s₁, hevt, hext, hevt₁, by rw [hext.now]; rfl⟩

/-- A call: calls of `setTimer` and `stopTimer`, a tick, an execution, or a use of a deleted
event. -/
theorem step_cases {c : TimerCall} (hs : s.step c = some s') :
    s.misused = false ∧ s.Enabled c ∧
      (s.perform c = some s' ∨ s.perform c = none ∧ s' = { s with misused := true }) := by
  unfold step at hs
  split at hs
  · rename_i hc
    cases hs
    refine ⟨hc.1, hc.2, ?_⟩
    cases hperform : s.perform c with
    | some s₁ => exact .inl rfl
    | none => exact .inr ⟨rfl, rfl⟩
  · cases hs

theorem apply_extends {o : TimerOp} (hv : opsValid s.requests.length [o] = true)
    (hs : s.apply o = some s') : Extends s s' :=
  applyAll_extends hv (by rw [applyAll, hs]; rfl)

theorem Known.step (hknown : s.Known) {c : TimerCall} (hs : s.step c = some s') : s'.Known := by
  obtain ⟨-, hc, hs | ⟨-, rfl⟩⟩ := step_cases hs
  · cases c with
    | op o => exact (apply_extends hc hs).known hknown
    | tick =>
      cases hs
      exact hknown
    | fire h ops =>
      obtain ⟨evt, s₁, hevt, hext, hevt₁, rfl⟩ := execute_cases hknown hc.2 hs
      have hcallback : (s.inCallback h evt).Known :=
        hknown.put (by rw [hevt]; exact Option.some_ne_none evt) evt.pop
      exact (hext.known hcallback).put (by rw [hevt₁]; exact Option.some_ne_none _) _
  · exact hknown

end TimerImpl

end SampleTools
