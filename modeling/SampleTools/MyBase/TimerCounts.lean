import Mathlib.Tactic.Linarith
import SampleTools.MyBase.Timers

/-!
# How often a timer calls back

`start` does not set `cnts_`, so `onTimer` counts on from whatever the memory of the new event
held there. A timer that has called back `k` times is scheduled again exactly if the memory
plus `k`, as an `int32_t`, is below the count it was set to.

## Main definitions

* `TimerRequest.firings`, `TimerRequest.ticks`: the ticks of the first calls, and those a timer
  should call back at up to a tick
* `TimerImpl.callsOf`: the ticks a timer has called back at
* `TimerImpl.Tracks`: a timer that has called back a number of times
* `TimerImpl.FiresRight`: what a timer that was set should do in every run

## Main results

* `TimerRequest.exact_iff`: which memory brings the counter to its limit at the last call
* `TimerImpl.Counted.step`: timers stay where their calls have brought them
* `TimerImpl.callsOf_of_stopped`: a stopped timer does not call back
* `TimerImpl.firesRight_iff`: which memory makes a timer call back as often as it should
-/

namespace SampleTools

/-- An event that was executed is not due again at the same tick. -/
theorem TMEvent.countOne_not_due {evt : TMEvent} (hms : ticksOf evt.ms ≠ 0) (now : ℕ) :
    (evt.pop.countOne now).scheduledAt ≠ some now := by
  unfold TMEvent.countOne
  dsimp only
  split_ifs with hagain
  · intro hdue
    have hnow : now + ticksOf evt.ms = now := Option.some.inj hdue
    omega
  · exact nofun

namespace TimerRequest

/-- The ticks of the first `k` calls. -/
def firings (r : TimerRequest) (k : ℕ) : List ℕ :=
  (List.range k).map fun j => r.start + (j + 1) * ticksOf r.ms

/-- The ticks up to `now` at which the callback should be called. -/
def ticks (r : TimerRequest) (now : ℕ) : List ℕ :=
  (r.firings r.cnt.toInt.toNat).filter (· ≤ now)

/-- After the `k`-th call the event is scheduled again. -/
def Continues (r : TimerRequest) (k : ℕ) : Prop := r.memory + .ofNat k < r.cnt

instance (r : TimerRequest) (k : ℕ) : Decidable (r.Continues k) :=
  inferInstanceAs (Decidable (_ < _))

/-- The event after `k` calls. -/
def eventAfter (r : TimerRequest) (k : ℕ) : TMEvent where
  ms := r.ms
  cnts := r.memory + .ofNat k
  maxCnts := r.cnt
  canceled := false
  scheduledAt :=
    if k = 0 ∨ r.Continues k then some (r.start + (k + 1) * ticksOf r.ms) else none

variable {r : TimerRequest} {k : ℕ}

theorem firings_succ (r : TimerRequest) (k : ℕ) :
    r.firings (k + 1) = r.firings k ++ [r.start + (k + 1) * ticksOf r.ms] := by
  rw [firings, List.range_succ, List.map_append]
  rfl

theorem eventAfter_zero (r : TimerRequest) : r.eventAfter 0 = .start r := by
  rw [eventAfter, if_pos (.inl rfl), Nat.zero_add, Nat.one_mul]
  congr 1
  exact Int32.add_zero _

/-- The event is scheduled for the next call, if there is one. -/
theorem eventAfter_scheduledAt_iff {t : ℕ} : (r.eventAfter k).scheduledAt = some t ↔
    (k = 0 ∨ r.Continues k) ∧ r.start + (k + 1) * ticksOf r.ms = t := by
  rw [eventAfter]
  dsimp only
  split_ifs with hk
  · exact Option.some.injEq .. |>.to_iff.trans (and_iff_right hk).symm
  · exact iff_of_false nofun fun h => hk h.1

theorem eventAfter_countOne (r : TimerRequest) (k : ℕ) :
    (r.eventAfter k).pop.countOne (r.start + (k + 1) * ticksOf r.ms) = r.eventAfter (k + 1) := by
  have hcnts : r.memory + Int32.ofNat k + 1 = r.memory + Int32.ofNat (k + 1) := by
    rw [Int32.add_assoc, Int32.ofNat_add]
    rfl
  have hnext : r.start + (k + 1) * ticksOf r.ms + ticksOf r.ms =
      r.start + (k + 1 + 1) * ticksOf r.ms := by
    rw [Nat.add_mul (k + 1), Nat.one_mul, Nat.add_assoc]
  simp only [TMEvent.countOne, TMEvent.pop, eventAfter, hcnts, hnext, true_and, Nat.succ_ne_zero,
    false_or]
  unfold Continues
  split_ifs with hlt
  · simp only [hlt, if_true]
  · simp only [hlt, if_false]

/-- Of the ticks of all calls, those that the wheel has passed are the ticks of the first `k`. -/
theorem filter_firings {n t : ℕ} (hk : k ≤ n) (hle : r.start + k * ticksOf r.ms ≤ t)
    (hlt : k < n → t < r.start + (k + 1) * ticksOf r.ms) :
    (r.firings n).filter (· ≤ t) = r.firings k := by
  induction n, hk using Nat.le_induction with
  | base =>
    refine List.filter_eq_self.mpr fun x hx => decide_eq_true ?_
    obtain ⟨j, hj, rfl⟩ := List.mem_map.mp hx
    have hmul := Nat.mul_le_mul_right (ticksOf r.ms) (Nat.succ_le_of_lt (List.mem_range.mp hj))
    exact (Nat.add_le_add_left hmul _).trans hle
  | succ n hkn ih =>
    have hnext := hlt (Nat.lt_succ_of_le hkn)
    have hmul : (k + 1) * ticksOf r.ms ≤ (n + 1) * ticksOf r.ms :=
      Nat.mul_le_mul_right _ (Nat.succ_le_succ hkn)
    rw [firings_succ, List.filter_append, ih fun _ => hnext]
    have hlast : ¬ r.start + (n + 1) * ticksOf r.ms ≤ t := by omega
    rw [List.filter_singleton, decide_eq_false hlast]
    exact List.append_nil _

theorem continues_iff (hk : k < 2 ^ 31) :
    r.Continues k ↔ (r.memory.toInt + k).bmod (2 ^ 32) < r.cnt.toInt := by
  rw [Continues, Int32.lt_iff_toInt_lt, Int32.toInt_add, Int32.toInt_ofNat_of_lt hk]

/-- The event is scheduled after every call but the last exactly if the memory was zero; a
timer that calls back once leaves some more room. -/
theorem exact_iff (hcnt : 1 ≤ r.cnt) :
    ((∀ j, 0 < j → j < r.cnt.toInt.toNat → r.Continues j) ∧ ¬ r.Continues r.cnt.toInt.toNat) ↔
      r.memory = 0 ∨ r.cnt = 1 ∧ 0 ≤ r.memory ∧ r.memory ≠ Int32.maxValue := by
  have hpos : 1 ≤ r.cnt.toInt := Int32.le_iff_toInt_le.mp hcnt
  have hlimit := r.cnt.toInt_lt
  have hmax := r.memory.toInt_lt
  have hmin := r.memory.le_toInt
  have hmaxValue : Int32.maxValue.toInt = 2 ^ 31 - 1 := rfl
  have hzero : (0 : Int32).toInt = 0 := rfl
  have hone : (1 : Int32).toInt = 1 := rfl
  rw [← Int32.toInt_inj, ← Int32.toInt_inj, Int32.le_iff_toInt_le, Ne, ← Int32.toInt_inj,
    hmaxValue, hzero, hone]
  obtain ⟨n, hn⟩ := Int.eq_ofNat_of_zero_le (by omega : 0 ≤ r.cnt.toInt)
  have hcont : ∀ k ≤ n, r.Continues k ↔ (r.memory.toInt + k).bmod (2 ^ 32) < n := by
    intro k hk
    rw [continues_iff (by omega), hn]
  rw [hn, Int.toNat_natCast, hcont n le_rfl]
  constructor
  · rintro ⟨hall, hlast⟩
    by_cases hn1 : n = 1
    · subst hn1
      rw [Int.bmod_def] at hlast
      omega
    · have hprev := (hcont _ (by omega)).mp (hall (n - 1) (by omega) (by omega))
      rw [Int.bmod_def] at hlast hprev
      omega
  · intro hmemory
    refine ⟨fun j hj hjn => (hcont j hjn.le).mpr ?_, ?_⟩ <;>
    · rw [Int.bmod_def]
      omega

end TimerRequest

namespace TimerImpl

variable {s s' : TimerImpl} {h : ℕ} {r : TimerRequest} {k : ℕ}

/-- The ticks at which the callback of a timer was called. -/
def callsOf (s : TimerImpl) (h : ℕ) : List ℕ := (s.fired.filter (·.1 = h)).map Prod.snd

/-- The last tick at which the wheel has dealt with a timer. -/
def passed (s : TimerImpl) (h : ℕ) : ℕ := if s.Due h then s.now - 1 else s.now

/-- A timer that was not stopped has called back `k` times, each time in order and on its tick,
and the wheel has not passed the tick it is scheduled for. -/
structure Tracks (s : TimerImpl) (h : ℕ) (r : TimerRequest) (k : ℕ) : Prop where
  request : s.requests[h]? = some r
  delay : ticksOf r.ms ≠ 0
  event : s.event h = some (r.eventAfter k)
  calls : s.callsOf h = r.firings k
  continues : ∀ j, 0 < j → j < k → r.Continues j
  passed : r.start + k * ticksOf r.ms ≤ s.now
  pending : ∀ t ∈ (r.eventAfter k).scheduledAt, s.now ≤ t

/-- Every timer that was not stopped is where its calls have brought it. -/
structure Counted (s : TimerImpl) : Prop where
  fired : ∀ e ∈ s.fired, e.1 < s.requests.length
  tracks : ∀ h, s.event h ≠ none → ∃ r k, s.Tracks h r k

theorem Counted.empty : Counted {} := ⟨nofun, fun _ h => absurd rfl h⟩

theorem Counted.known (hs : s.Counted) : s.Known := by
  intro h hh
  obtain ⟨r, k, htracks⟩ := hs.tracks h hh
  exact (List.getElem?_eq_some_iff.mp htracks.request).1

/-- A timer that was just set has not called back. -/
theorem callsOf_eq_nil (hs : ∀ e ∈ s.fired, e.1 < s.requests.length)
    (hh : s.requests.length ≤ h) : s.callsOf h = [] := by
  rw [callsOf, List.filter_eq_nil_iff.mpr, List.map_nil]
  intro e he
  have hlt := hs e he
  simp only [decide_eq_true_eq]
  omega

/-- Calls of `setTimer` and `stopTimer` leave the other timers where they are, and new ones at
their beginning. -/
theorem Extends.tracks (hext : Extends s s') (hfired : ∀ e ∈ s.fired, e.1 < s.requests.length)
    (hh : s'.event h ≠ none) :
    (s.event h ≠ none ∧ s'.event h = s.event h) ∨ ∃ r, s'.Tracks h r 0 := by
  obtain ⟨evt, hevt⟩ := Option.ne_none_iff_exists'.mp hh
  rcases hext.event hevt with hold | ⟨r, hr, hlen, hstart, hms, rfl⟩
  · left
    rw [hold, hevt]
    exact ⟨Option.some_ne_none evt, rfl⟩
  · right
    refine ⟨r, hr, hms, by rw [hevt, r.eventAfter_zero], ?_, nofun, ?_, ?_⟩
    · rw [callsOf, hext.fired]
      exact callsOf_eq_nil hfired hlen
    · rw [Nat.zero_mul, hstart, hext.now]
      exact le_refl _
    · intro t ht
      obtain ⟨-, rfl⟩ := TimerRequest.eventAfter_scheduledAt_iff.mp ht
      rw [hstart, hext.now]
      exact Nat.le_add_right _ _

/-- Whether a timer is where its calls have brought it depends on its request, its event, its
calls and the tick. -/
theorem Tracks.congr (htracks : s.Tracks h r k) (hrequest : s'.requests[h]? = some r)
    (hevent : s'.event h = s.event h) (hcalls : s'.callsOf h = s.callsOf h)
    (hnow : s'.now = s.now) : s'.Tracks h r k :=
  ⟨hrequest, htracks.delay, hevent.trans htracks.event, hcalls.trans htracks.calls,
    htracks.continues, hnow ▸ htracks.passed, hnow ▸ htracks.pending⟩

theorem Tracks.extends (htracks : s.Tracks h r k) (hext : Extends s s')
    (hevent : s'.event h = s.event h) : s'.Tracks h r k :=
  htracks.congr (hext.request htracks.request) hevent (by rw [callsOf, hext.fired]; rfl) hext.now

theorem Counted.extends (hs : s.Counted) (hext : Extends s s') : s'.Counted where
  fired e he := by
    rw [hext.fired] at he
    exact (hs.fired e he).trans_le hext.requests.length_le
  tracks h hh := by
    rcases hext.tracks hs.fired hh with ⟨hold, hevent⟩ | ⟨r, hnew⟩
    · obtain ⟨r, k, htracks⟩ := hs.tracks h hold
      exact ⟨r, k, htracks.extends hext hevent⟩
    · exact ⟨r, 0, hnew⟩

theorem callsOf_fired_self (s : TimerImpl) (h : ℕ) :
    ({ s with fired := s.fired ++ [(h, s.now)] } : TimerImpl).callsOf h =
      s.callsOf h ++ [s.now] := by
  simp [callsOf, List.filter_append]

theorem callsOf_fired_of_ne {h' : ℕ} (hne : h' ≠ h) (s : TimerImpl) :
    ({ s with fired := s.fired ++ [(h, s.now)] } : TimerImpl).callsOf h' = s.callsOf h' := by
  simp [callsOf, List.filter_append, hne.symm]

/-- A timer that is due is executed at its next tick. -/
theorem Tracks.due (htracks : s.Tracks h r k) (hdue : s.Due h) :
    (k = 0 ∨ r.Continues k) ∧ s.now = r.start + (k + 1) * ticksOf r.ms := by
  rw [Due, scheduledAt, htracks.event] at hdue
  obtain ⟨hk, hnow⟩ := TimerRequest.eventAfter_scheduledAt_iff.mp hdue
  exact ⟨hk, hnow.symm⟩

/-- A timer that calls back one more time. -/
theorem Tracks.fire (htracks : s.Tracks h r k) (hdue : s.Due h) {s₁ : TimerImpl}
    (hext : Extends (s.inCallback h (r.eventAfter k)) s₁) :
    (s₁.put h (some ((r.eventAfter k).pop.countOne s.now))).Tracks h r (k + 1) := by
  obtain ⟨hk, hnow⟩ := htracks.due hdue
  have hnow₁ : s₁.now = s.now := hext.now
  refine ⟨hext.request htracks.request, htracks.delay, ?_, ?_, ?_, ?_, ?_⟩
  · rw [put_event_self, hnow, r.eventAfter_countOne]
  · have hcalls : s₁.callsOf h = s.callsOf h ++ [s.now] := by
      rw [callsOf, hext.fired]
      exact callsOf_fired_self s h
    rw [r.firings_succ, ← htracks.calls, ← hnow]
    exact hcalls
  · intro j hj hjk
    rcases Nat.lt_succ_iff_lt_or_eq.mp hjk with hlt | rfl
    · exact htracks.continues j hj hlt
    · exact hk.resolve_left hj.ne'
  · exact (hnow₁.trans hnow).ge
  · intro t ht
    obtain ⟨-, rfl⟩ := TimerRequest.eventAfter_scheduledAt_iff.mp ht
    show s₁.now ≤ _
    rw [hnow₁, hnow]
    exact Nat.add_le_add_left (Nat.mul_le_mul_right _ (by omega)) _

theorem Counted.step (hs : s.Counted) {c : TimerCall} (hc : s.step c = some s') : s'.Counted := by
  obtain ⟨-, henabled, hperform | ⟨-, rfl⟩⟩ := step_cases hc
  · cases c with
    | op o => exact hs.extends (apply_extends henabled hperform)
    | tick =>
      cases hperform
      refine ⟨hs.fired, fun h hh => ?_⟩
      obtain ⟨r, k, htracks⟩ := hs.tracks h hh
      refine ⟨r, k, ⟨htracks.request, htracks.delay, htracks.event, htracks.calls,
        htracks.continues, Nat.le_succ_of_le htracks.passed, fun t ht => ?_⟩⟩
      -- the wheel goes on only when no timer is due
      have hlt : h < s.requests.length := hs.known h hh
      have hne : t ≠ s.now := by
        rintro rfl
        exact henabled h hlt (by rw [Due, scheduledAt, htracks.event]; exact ht)
      have hle := htracks.pending t ht
      show s.now + 1 ≤ t
      omega
    | fire h ops =>
      obtain ⟨evt, s₁, hevt, hext, -, rfl⟩ := execute_cases hs.known henabled.2 hperform
      have hh : s.event h ≠ none := by rw [hevt]; exact Option.some_ne_none evt
      have hlt := hs.known h hh
      have hfired : ∀ e ∈ (s.inCallback h evt).fired, e.1 < s.requests.length := by
        intro e he
        rcases List.mem_append.mp he with he | he
        · exact hs.fired e he
        · rw [List.mem_singleton.mp he]
          exact hlt
      constructor
      · intro e he
        have he : e ∈ s₁.fired := he
        rw [hext.fired] at he
        exact (hfired e he).trans_le hext.requests.length_le
      · intro h' hh'
        by_cases hne : h' = h
        · subst hne
          obtain ⟨r, k, htracks⟩ := hs.tracks h' hh
          have heq := Option.some.inj (hevt.symm.trans htracks.event)
          subst heq
          exact ⟨r, k + 1, htracks.fire henabled.1 hext⟩
        · have hevent := put_event_of_ne hne (some (evt.pop.countOne s.now)) s₁
          rw [hevent] at hh'
          obtain ⟨r, k, htracks⟩ : ∃ r k, s₁.Tracks h' r k := by
            rcases hext.tracks hfired hh' with ⟨hold, hevent₁⟩ | ⟨r, hnew⟩
            · rw [inCallback_event_of_ne hne] at hold
              obtain ⟨r, k, htracks⟩ := hs.tracks h' hold
              have hcallback : (s.inCallback h evt).Tracks h' r k :=
                htracks.congr htracks.request (inCallback_event_of_ne hne ..)
                  (callsOf_fired_of_ne hne s) rfl
              exact ⟨r, k, hcallback.extends hext hevent₁⟩
            · exact ⟨r, 0, hnew⟩
          exact ⟨r, k, htracks.congr htracks.request hevent rfl rfl⟩
  · refine ⟨hs.fired, fun h hh => ?_⟩
    obtain ⟨r, k, htracks⟩ := hs.tracks h hh
    exact ⟨r, k, htracks.congr htracks.request rfl rfl rfl⟩

theorem Counted.of_run {trace : List (TimerImpl × TimerCall)}
    (hrun : Run TimerImpl.step {} trace s) :
    s.Counted := hrun.invariant Counted.empty fun hs hc => hs.step hc

/-! ## Stopped timers -/

theorem Extends.stopped (hext : Extends s s') (hstopped : s.Stopped h) : s'.Stopped h := by
  refine ⟨hstopped.1.trans_le hext.requests.length_le, ?_⟩
  by_contra hne
  obtain ⟨evt, hevt⟩ := Option.ne_none_iff_exists'.mp hne
  rcases hext.event hevt with hold | ⟨r, -, hlen, -⟩
  · rw [hstopped.2] at hold
    cases hold
  · exact absurd hstopped.1 hlen.not_gt

/-- A stopped timer stays stopped, and is not called. -/
theorem Stopped.step (hstopped : s.Stopped h) (hknown : s.Known) {c : TimerCall}
    (hc : s.step c = some s') : s'.Stopped h ∧ s'.callsOf h = s.callsOf h := by
  obtain ⟨-, henabled, hperform | ⟨-, rfl⟩⟩ := step_cases hc
  · cases c with
    | op o =>
      have hext := apply_extends henabled hperform
      exact ⟨hext.stopped hstopped, by rw [callsOf, hext.fired]; rfl⟩
    | tick =>
      cases hperform
      exact ⟨hstopped, rfl⟩
    | fire h' ops =>
      obtain ⟨evt, s₁, hevt, hext, -, rfl⟩ := execute_cases hknown henabled.2 hperform
      have hne : h ≠ h' := by
        rintro rfl
        rw [hstopped.2] at hevt
        cases hevt
      have hcallback : (s.inCallback h' evt).Stopped h :=
        ⟨hstopped.1, (inCallback_event_of_ne hne ..).trans hstopped.2⟩
      obtain ⟨hlt, hevent⟩ := hext.stopped hcallback
      refine ⟨⟨hlt, (put_event_of_ne hne ..).trans hevent⟩, ?_⟩
      have hcalls : s₁.callsOf h = (s.inCallback h' evt).callsOf h := by
        rw [callsOf, hext.fired]
        rfl
      exact hcalls.trans (callsOf_fired_of_ne hne s)
  · exact ⟨hstopped, rfl⟩

/-- After a timer was stopped its callback is not called. -/
theorem callsOf_of_stopped {trace : List (TimerImpl × TimerCall)} (hrun : Run step {} trace s) :
    ∀ e ∈ trace, e.1.Stopped h → s.Stopped h ∧ s.callsOf h = e.1.callsOf h := by
  induction hrun with
  | nil => nofun
  | snoc hrun hc ih =>
    have hknown := (Counted.of_run hrun).known
    intro e he hstopped
    rcases List.mem_append.mp he with he | he
    · obtain ⟨hnow, hcalls⟩ := ih e he hstopped
      obtain ⟨hnext, hlast⟩ := hnow.step hknown hc
      exact ⟨hnext, hlast.trans hcalls⟩
    · cases List.mem_singleton.mp he
      exact hstopped.step hknown hc

/-! ## Timers that were not stopped -/

/-- Until the wheel has dealt with its last call, a timer is scheduled for the next one. -/
theorem Tracks.callsOf_eq (htracks : s.Tracks h r k) (hcnt : 1 ≤ r.cnt)
    (hall : ∀ j, 0 < j → j < r.cnt.toInt.toNat → r.Continues j)
    (hlast : ¬ r.Continues r.cnt.toInt.toNat) : s.callsOf h = r.ticks (s.passed h) := by
  have hpos : 1 ≤ r.cnt.toInt := Int32.le_iff_toInt_le.mp hcnt
  have hk : k ≤ r.cnt.toInt.toNat := by
    by_contra hgt
    exact hlast (htracks.continues _ (by omega) (by omega))
  have hpassed := htracks.passed
  have hdelay := Nat.pos_of_ne_zero htracks.delay
  rw [htracks.calls, TimerRequest.ticks]
  refine (TimerRequest.filter_firings hk ?_ fun hlt => ?_).symm
  · rw [TimerImpl.passed]
    split_ifs with hdue
    · obtain ⟨-, hnow⟩ := htracks.due hdue
      rw [Nat.add_mul] at hnow
      omega
    · exact hpassed
  · have hscheduled : (r.eventAfter k).scheduledAt = some (r.start + (k + 1) * ticksOf r.ms) :=
      TimerRequest.eventAfter_scheduledAt_iff.mpr
        ⟨k.eq_zero_or_pos.imp_right fun hk => hall k hk hlt, rfl⟩
    have hle := htracks.pending _ hscheduled
    rw [TimerImpl.passed]
    split_ifs with hdue
    · obtain ⟨-, hnow⟩ := htracks.due hdue
      rw [Nat.add_mul] at hnow ⊢
      omega
    · refine lt_of_le_of_ne hle fun heq => hdue ?_
      rw [Due, scheduledAt, htracks.event, heq]
      exact hscheduled

/-- A single timer, whose callback makes no calls, goes on until any tick. -/
theorem exists_run_alone (r : TimerRequest) (hstart : r.start = 0) (hdelay : ticksOf r.ms ≠ 0)
    (now : ℕ) : ∃ (trace : List (TimerImpl × TimerCall)) (s : TimerImpl), Run step {} trace s ∧
      s.requests = [r] ∧ s.event 0 ≠ none ∧ s.now = now ∧ ¬ s.Due 0 ∧ s.misused = false := by
  induction now with
  | zero =>
    have hset : step {} (.op (.set r.ms r.cnt r.memory)) =
        some (({} : TimerImpl).set r.ms r.cnt r.memory) := by
      refine if_pos ⟨rfl, ?_⟩
      show (ticksOf r.ms ≠ 0 && true) = true
      simpa using hdelay
    have hr : r = ⟨0, r.ms, r.cnt, r.memory⟩ := by rw [← hstart]
    refine ⟨_, _, Run.nil.snoc hset, ?_, Option.some_ne_none _, rfl, ?_, rfl⟩
    · rw [hr]
      rfl
    · intro hdue
      have hzero : 0 + ticksOf r.ms = 0 := Option.some.inj hdue
      omega
  | succ now ih =>
    obtain ⟨trace, s, hrun, hrequests, hevent, hnow, hdue, hmisused⟩ := ih
    have htick : s.step .tick = some { s with now := s.now + 1 } := by
      refine if_pos ⟨hmisused, fun h hh => ?_⟩
      rw [hrequests] at hh
      rwa [Nat.lt_one_iff.mp hh]
    set s₁ : TimerImpl := { s with now := s.now + 1 }
    have hnow₁ : s₁.now = now + 1 := congrArg (· + 1) hnow
    by_cases hdue₁ : s₁.Due 0
    · obtain ⟨evt, hevt⟩ := Option.ne_none_iff_exists'.mp hevent
      have hfire : s₁.step (.fire 0 []) =
          some ((s₁.inCallback 0 evt).put 0 (some (evt.pop.countOne s₁.now))) := by
        refine (if_pos ⟨hmisused, hdue₁, rfl⟩).trans ?_
        rw [perform, execute_eq (s := s₁) hevt, applyAll, Option.bind_some, inCallback_event_self]
        rfl
      refine ⟨_, _, (hrun.snoc htick).snoc hfire, hrequests, ?_, hnow₁, ?_, hmisused⟩
      · rw [put_event_self]
        exact Option.some_ne_none _
      · obtain ⟨r', k, htracks⟩ := (Counted.of_run hrun).tracks 0 hevent
        have heq := Option.some.inj (hevt.symm.trans htracks.event)
        rw [Due, scheduledAt, put_event_self, heq]
        exact TMEvent.countOne_not_due htracks.delay s₁.now
    · exact ⟨_, s₁, hrun.snoc htick, hrequests, hevent, hnow₁, hdue₁, hmisused⟩

/-- A timer that was set with these arguments, on memory with this content, is called exactly at
its ticks that the wheel has dealt with, and not after it was stopped. -/
def FiresRight (ms cnt memory : Int32) : Prop :=
  ∀ {trace : List (TimerImpl × TimerCall)} {s : TimerImpl}, Run step {} trace s →
    ∀ h r, s.requests[h]? = some r → r.ms = ms → r.cnt = cnt → r.memory = memory →
      (s.event h ≠ none → s.callsOf h = r.ticks (s.passed h)) ∧
        ∀ e ∈ trace, e.1.Stopped h → s.callsOf h = e.1.callsOf h

/-- A timer whose memory is right schedules its event after every call but the last. -/
theorem FiresRight.exact (hfires : FiresRight r.ms r.cnt r.memory) (hstart : r.start = 0)
    (hdelay : ticksOf r.ms ≠ 0) (hcnt : 1 ≤ r.cnt) :
    (∀ j, 0 < j → j < r.cnt.toInt.toNat → r.Continues j) ∧
      ¬ r.Continues r.cnt.toInt.toNat := by
  set n := r.cnt.toInt.toNat with hn
  have hpos : 1 ≤ r.cnt.toInt := Int32.le_iff_toInt_le.mp hcnt
  -- a state after the tick of the last call
  obtain ⟨trace, s, hrun, hrequests, hevent, hnow, hdue, -⟩ :=
    exists_run_alone r hstart hdelay ((n + 1) * ticksOf r.ms)
  have hrequest : s.requests[0]? = some r := by rw [hrequests]; rfl
  obtain ⟨r', k, htracks⟩ := (Counted.of_run hrun).tracks 0 hevent
  cases Option.some.inj (hrequest.symm.trans htracks.request)
  have hcalls := (hfires hrun 0 r hrequest rfl rfl rfl).1 hevent
  have hticks : r.ticks (s.passed 0) = r.firings n := by
    refine TimerRequest.filter_firings le_rfl ?_ fun hlt => absurd hlt (lt_irrefl _)
    rw [TimerImpl.passed, if_neg hdue, hnow, hstart, Nat.add_mul]
    omega
  rw [htracks.calls, hticks] at hcalls
  have hk : k = n := by simpa [TimerRequest.firings] using congrArg List.length hcalls
  subst hk
  refine ⟨htracks.continues, fun hlast => hdue ?_⟩
  have hscheduled := TimerRequest.eventAfter_scheduledAt_iff.mpr ⟨.inr hlast, rfl⟩
  rw [Due, scheduledAt, htracks.event, hnow]
  refine hscheduled.trans ?_
  rw [hstart, Nat.zero_add]

/-- **A timer calls back as often as it was set to exactly if its memory was right.** With a
delay and a count of at least one, in every run: exactly if the memory of the new event held
zero where `cnts_` is, or, for a count of one, any other value that does not overflow. -/
theorem firesRight_iff {ms cnt memory : Int32} (hms : 1 ≤ ms) (hcnt : 1 ≤ cnt) :
    FiresRight ms cnt memory ↔
      memory = 0 ∨ cnt = 1 ∧ 0 ≤ memory ∧ memory ≠ Int32.maxValue := by
  constructor
  · intro hfires
    have hdelay : ticksOf ms ≠ 0 := by
      have hpos : 1 ≤ ms.toInt := Int32.le_iff_toInt_le.mp hms
      have hlimit := ms.toInt_lt
      unfold ticksOf
      omega
    have hexact := FiresRight.exact (r := ⟨0, ms, cnt, memory⟩) hfires rfl hdelay hcnt
    exact (TimerRequest.exact_iff hcnt).mp hexact
  · rintro hmemory trace s hrun h r hrequest rfl rfl rfl
    obtain ⟨hall, hlast⟩ := (TimerRequest.exact_iff hcnt).mpr hmemory
    refine ⟨fun hevent => ?_, fun e he hstopped => (callsOf_of_stopped hrun e he hstopped).2⟩
    obtain ⟨r', k, htracks⟩ := (Counted.of_run hrun).tracks h hevent
    cases Option.some.inj (hrequest.symm.trans htracks.request)
    exact htracks.callsOf_eq hcnt hall hlast

/-- A timer with a delay of ten ticks and three calls, on memory that was zero. -/
theorem firesRight_zeroed : FiresRight 10 3 0 :=
  (firesRight_iff (by decide) (by decide)).mpr (.inl rfl)

/-- The memory of the event held a five: a timer that should call back at the ticks 1, 2 and 3
has called back at the first only. -/
theorem fires_once :
    ¬ FiresRight 1 3 5 ∧ TimerRequest.ticks ⟨0, 1, 3, 5⟩ 3 = [1, 2, 3] ∧
      ∃ (trace : List (TimerImpl × TimerCall)) (s : TimerImpl), Run step {} trace s ∧
        trace.map Prod.snd = [.op (.set 1 3 5), .tick, .fire 0 [], .tick, .tick] ∧
        s.requests = [⟨0, 1, 3, 5⟩] ∧ s.event 0 ≠ none ∧ s.passed 0 = 3 ∧ s.callsOf 0 = [1] := by
  have hrun : Run step {} _ _ :=
    Run.nil.snoc (a := .op (.set 1 3 5)) rfl |>.snoc (a := .tick) rfl
    |>.snoc (a := .fire 0 []) rfl |>.snoc (a := .tick) rfl |>.snoc (a := .tick) rfl
  refine ⟨fun hfires => ?_, by decide, _, _, hrun, rfl, rfl, by decide, by decide, by decide⟩
  have hcalls := (hfires hrun 0 ⟨0, 1, 3, 5⟩ rfl rfl rfl rfl).1 (by decide)
  exact absurd hcalls (by decide)

end TimerImpl

end SampleTools
