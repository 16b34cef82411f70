import SampleTools.MyBase.Timers

/-!
# Timer handles after `stopTimer`

`stopTimer` deletes the event behind a handle. A second `stopTimer` with the handle cancels the
deleted event, and a callback that stops its own timer returns into `onTimer`, which goes on to
count in it. Calls and executions come one after another, and handles are told apart by allocation,
as in `Timers`.

## Main definitions

* `TimerImpl.UsesLive`: no timer is stopped twice, and none by its own callback

## Main results

* `TimerImpl.perform_isSome_iff`: when a call uses no deleted event
* `TimerImpl.handles_alive_iff`: when a run uses none
-/

namespace SampleTools

namespace TimerImpl

/-- The timers a call stops are different, none of them was stopped before, and none of them is
the one whose callback runs. -/
def UsesLive (s : TimerImpl) : TimerCall → Prop
  | .op o => ∀ x ∈ stops [o], ¬ s.Stopped x
  | .tick => True
  | .fire h ops => (h :: stops ops).Nodup ∧ ∀ x ∈ stops ops, ¬ s.Stopped x

instance (s : TimerImpl) : DecidablePred s.UsesLive
  | .op o => inferInstanceAs (Decidable (∀ x ∈ stops [o], _))
  | .tick => .isTrue trivial
  | .fire _ _ => inferInstanceAs (Decidable (_ ∧ _))

variable {s s' : TimerImpl}

theorem nodup_stops_singleton (o : TimerOp) : (stops [o]).Nodup := by
  cases o with
  | set => exact .nil
  | stop htimer =>
    cases htimer with
    | none => exact .nil
    | some h => exact List.pairwise_singleton _ h

/-- An execution uses no deleted event exactly if its callback does not, and leaves its own
event. -/
theorem execute_isSome_iff {h : ℕ} {ops : List TimerOp} (hknown : s.Known) (hdue : s.Due h)
    (hv : opsValid s.requests.length ops = true) :
    (s.execute h ops).isSome = true ↔ s.UsesLive (.fire h ops) := by
  obtain ⟨evt, hevt, -⟩ := Option.bind_eq_some_iff.mp hdue
  have hlt : h < (s.inCallback h evt).requests.length :=
    hknown h (by rw [hevt]; exact Option.some_ne_none evt)
  have hstopped : ∀ x, (s.inCallback h evt).Stopped x ↔ s.Stopped x := by
    intro x
    by_cases hx : x = h
    · subst hx
      refine iff_of_false (fun hx => ?_) fun hx => ?_
      · rw [Stopped, inCallback_event_self] at hx
        cases hx.2
      · rw [Stopped, hevt] at hx
        cases hx.2
    · rw [Stopped, inCallback_event_of_ne hx]
      rfl
  have hops := applyAll_isSome_iff (s := s.inCallback h evt) hv
  simp only [hstopped] at hops
  rw [execute_eq hevt, UsesLive, List.nodup_cons, and_assoc, ← hops]
  cases hcalls : (s.inCallback h evt).applyAll ops with
  | none => exact iff_of_false nofun fun hall => nomatch hall.2
  | some s₁ =>
    have hevent := applyAll_event hcalls hlt
    rw [inCallback_event_self] at hevent
    rw [Option.bind_some, Option.isSome_map, hevent]
    split_ifs with hmem
    · exact iff_of_false nofun fun hall => hall.1 hmem
    · exact iff_of_true rfl ⟨hmem, rfl⟩

theorem perform_isSome_iff (hknown : s.Known) {c : TimerCall} (hc : s.Enabled c) :
    (s.perform c).isSome = true ↔ s.UsesLive c := by
  cases c with
  | op o =>
    have hops := applyAll_isSome_iff hc
    have hone : s.applyAll [o] = s.apply o := Option.bind_fun_some _
    rw [hone] at hops
    exact hops.trans (and_iff_right (nodup_stops_singleton o))
  | tick => exact iff_of_true rfl trivial
  | fire h ops => exact execute_isSome_iff hknown hc.1 hc.2

/-- What a call does leaves no trace of a use it did not make. -/
theorem perform_misused (hknown : s.Known) {c : TimerCall} (hc : s.Enabled c)
    (hs : s.perform c = some s') : s'.misused = s.misused := by
  cases c with
  | op o => exact (apply_extends hc hs).misused
  | tick =>
    cases hs
    rfl
  | fire h ops =>
    obtain ⟨evt, s₁, -, hext, -, rfl⟩ := execute_cases hknown hc.2 hs
    exact hext.misused

theorem step_misused_iff (hknown : s.Known) {c : TimerCall} (hs : s.step c = some s') :
    s'.misused = false ↔ s.UsesLive c := by
  obtain ⟨hfirst, hc, hperform⟩ := step_cases hs
  rw [← perform_isSome_iff hknown hc]
  rcases hperform with hperform | ⟨hnone, rfl⟩
  · rw [perform_misused hknown hc hperform, hperform]
    exact iff_of_true hfirst rfl
  · rw [hnone]
    exact iff_of_false nofun nofun

/-- **Handles are used while their timers live exactly if no timer is stopped twice, and none by
its own callback.** In every state of a run no deleted event has been used exactly if every
call of the run stops only timers that were not stopped before, no two times the same, and not
the timer whose callback is running. -/
theorem handles_alive_iff {trace : List (TimerImpl × TimerCall)} (hrun : Run step {} trace s) :
    ((∀ e ∈ trace, e.1.misused = false) ∧ s.misused = false) ↔ ∀ e ∈ trace, e.1.UsesLive e.2 :=
  hrun.forall_good_iff (P := fun s => s.misused = false) Known.empty
    (fun hknown hs => hknown.step hs) rfl fun hknown _ hs => step_misused_iff hknown hs

/-- A timer is stopped by the callback of another one, which is stopped after its last call. -/
theorem handles_alive_two_timers :
    ∃ (trace : List (TimerImpl × TimerCall)) (s : TimerImpl), Run step {} trace s ∧
      trace.map Prod.snd = [.op (.set 1 1 0), .op (.set 1 5 0), .tick, .fire 0 [.stop (some 1)],
        .tick, .op (.stop (some 0))] ∧
      (∀ e ∈ trace, e.1.misused = false) ∧ s.misused = false := by
  have hrun : Run step {} _ _ :=
    Run.nil.snoc (a := .op (.set 1 1 0)) rfl |>.snoc (a := .op (.set 1 5 0)) rfl
    |>.snoc (a := .tick) rfl |>.snoc (a := .fire 0 [.stop (some 1)]) rfl
    |>.snoc (a := .tick) rfl |>.snoc (a := .op (.stop (some 0))) rfl
  exact ⟨_, _, hrun, rfl, (handles_alive_iff hrun).mpr (by decide)⟩

/-- A callback stops its own timer; a timer is stopped twice. -/
theorem handles_dangle :
    (∃ (trace : List (TimerImpl × TimerCall)) (s : TimerImpl), Run step {} trace s ∧
      trace.map Prod.snd = [.op (.set 1 1 0), .tick, .fire 0 [.stop (some 0)]] ∧
      s.misused = true) ∧
    ∃ (trace : List (TimerImpl × TimerCall)) (s : TimerImpl), Run step {} trace s ∧
      trace.map Prod.snd = [.op (.set 1 1 0), .op (.stop (some 0)), .op (.stop (some 0))] ∧
      s.misused = true := by
  constructor
  · have hrun : Run step {} _ _ :=
      Run.nil.snoc (a := .op (.set 1 1 0)) rfl |>.snoc (a := .tick) rfl
      |>.snoc (a := .fire 0 [.stop (some 0)]) rfl
    exact ⟨_, _, hrun, rfl, rfl⟩
  · have hrun : Run step {} _ _ :=
      Run.nil.snoc (a := .op (.set 1 1 0)) rfl |>.snoc (a := .op (.stop (some 0))) rfl
      |>.snoc (a := .op (.stop (some 0))) rfl
    exact ⟨_, _, hrun, rfl, rfl⟩

end TimerImpl

end SampleTools
