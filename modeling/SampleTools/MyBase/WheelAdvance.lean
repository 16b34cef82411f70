import SampleTools.MyBase.WheelRefines

/-!
# The timer wheel goes on

A tick of the core wheel takes the clocks of the outer levels with it where a rotation is
complete, outermost slots are cleared first, and what is left of a tick that was stopped is
processed by the next call. Whatever the limits on the number of events are, the wheel is a queue
of timers.

## Main definitions

* `TimerWheel.Behind`: the clocks outside a level have yet to go on
* `WheelState.Good`: the invariant of the wheel
* `TimerWheel.target`: the tick that the calls of `advance` ask for

## Main results

* `WheelState.processCurrentSlot_spec`: the slots of a tick are cleared, from the outermost on
* `WheelState.advance_spec`: what a call of `advance` does
-/

namespace SampleTools

variable {α S : Type}

namespace TimerWheel

/-- The clocks outside a level show the tick before. -/
def Behind (level : ℕ) (w : TimerWheel α) : Prop :=
  0 < w.now 0 ∧ ∀ l < numLevels,
    w.now l = (if l ≤ level then w.now 0 else w.now 0 - 1) / numSlots ^ l

/-- The tick that the calls of `advance` so far ask for. -/
def target (w : TimerWheel α) : ℕ := w.now 0 + (w.ticksPending - 1)

/-- The wheel with another number of pending ticks. -/
def withPending (p : ℕ) (w : TimerWheel α) : TimerWheel α := { w with ticksPending := p }

variable {w : TimerWheel α} {level opened : ℕ}

/-- Without a carry the clocks outside are right. -/
theorem Behind.clocked (h : w.Behind level) (hcarry : ¬ numSlots ^ (level + 1) ∣ w.now 0) :
    w.Clocked := by
  intro l hl
  rw [h.2 l hl]
  split_ifs with hle
  · rfl
  · have hdvd : ¬ numSlots ^ l ∣ w.now 0 - 1 + 1 := by
      rw [Nat.sub_add_cancel h.1]
      exact fun hdvd => hcarry ((pow_dvd_pow _ (by omega)).trans hdvd)
    rw [← Nat.succ_div_of_not_dvd hdvd, Nat.sub_add_cancel h.1]

theorem Behind.now_self (h : w.Behind level) (hlevel : level < numLevels) :
    w.now level = w.now 0 / numSlots ^ level := by
  rw [h.2 level hlevel, if_pos le_rfl]

theorem Behind.clocked_of_le (h : w.Behind level) (hlevel : maxLevel ≤ level) : w.Clocked := by
  intro l hl
  have hmax : numLevels = maxLevel + 1 := rfl
  rw [h.2 l hl, if_pos (by omega)]

theorem goOn_now_of_ne {l : ℕ} (h : l ≠ level) (w : TimerWheel α) :
    (w.goOn level).now l = w.now l := Function.update_of_ne h ..

/-- A clock outside goes on with the carry. -/
theorem Behind.goOn (h : w.Behind level) (hlt : w.now 0 < 2 ^ 64)
    (hcarry : numSlots ^ (level + 1) ∣ w.now 0) :
    (w.goOn (level + 1)).Behind (level + 1) := by
  have hzero : (w.goOn (level + 1)).now 0 = w.now 0 := goOn_now_of_ne (by omega) w
  refine ⟨hzero ▸ h.1, fun l hl => ?_⟩
  rw [hzero]
  by_cases heq : l = level + 1
  · subst heq
    have hself : (w.goOn (level + 1)).now (level + 1) = toTick (w.now (level + 1) + 1) :=
      Function.update_self ..
    have hdvd : numSlots ^ (level + 1) ∣ w.now 0 - 1 + 1 := by
      rwa [Nat.sub_add_cancel h.1]
    have hsucc := Nat.succ_div_of_dvd hdvd
    rw [Nat.sub_add_cancel h.1] at hsucc
    have hself' : w.now 0 / numSlots ^ (level + 1) ≤ w.now 0 := Nat.div_le_self ..
    rw [hself, h.2 _ hl, if_neg (by omega), ← hsucc, if_pos le_rfl, toTick,
      Nat.mod_eq_of_lt (by omega)]
  · rw [goOn_now_of_ne heq, h.2 l hl]
    congr 1
    simp only [show l ≤ level ↔ l ≤ level + 1 by omega]

theorem goOn_now_zero (hlt : w.now 0 + 1 < 2 ^ 64) : (w.goOn 0).now 0 = w.now 0 + 1 := by
  show Function.update w.now 0 (toTick (w.now 0 + 1)) 0 = _
  rw [Function.update_self, toTick, Nat.mod_eq_of_lt hlt]

/-- A tick of the core wheel. -/
theorem Clocked.goOn (h : w.Clocked) (hlt : w.now 0 + 1 < 2 ^ 64) : (w.goOn 0).Behind 0 := by
  have hself := goOn_now_zero hlt
  refine ⟨hself ▸ Nat.succ_pos _, fun l hl => ?_⟩
  rw [hself]
  rcases Nat.eq_zero_or_pos l with rfl | hpos
  · rw [hself, if_pos le_rfl, Nat.pow_zero, Nat.div_one]
  · rw [goOn_now_of_ne hpos.ne', h l hl, if_neg (by omega), Nat.add_sub_cancel]

/-- At a tick, events for it may be in the slots the clocks reach. -/
theorem Placed.goOn (h : w.Placed 0) (hlt : w.now 0 + 1 < 2 ^ 64) :
    (w.goOn 0).Placed numLevels := by
  intro event slot hslot
  have hself := goOn_now_zero hlt
  obtain ⟨hlevel, hindex, ht, hahead | ⟨hfalse, -⟩⟩ := h event slot hslot
  · rw [hself]
    exact ⟨hlevel, hindex, ht, hahead.succ.imp_right fun hreached => ⟨hlevel, hreached⟩⟩
  · exact absurd hfalse (Nat.not_lt_zero _)

/-- Without a carry no slot outside was reached. -/
theorem Placed.of_not_dvd (h : w.Placed opened) (hcarry : ¬ numSlots ^ level ∣ w.now 0) :
    w.Placed level := by
  intro event slot hslot
  obtain ⟨hlevel, hindex, ht, hwhen⟩ := h event slot hslot
  refine ⟨hlevel, hindex, ht, hwhen.imp_right fun hreached => ⟨?_, hreached.2⟩⟩
  by_contra hle
  exact hcarry ((pow_dvd_pow _ (not_lt.mp hle)).trans hreached.2.1)

/-- A level is cleared. -/
theorem Placed.of_empty (h : w.Placed (level + 1))
    (hempty : w.slots.list (w.currentSlot level) = []) : w.Placed level := by
  intro event slot hslot
  obtain ⟨hlevel, hindex, ht, hwhen⟩ := h event slot hslot
  refine ⟨hlevel, hindex, ht, hwhen.imp_right fun ⟨hle, hreached⟩ => ⟨?_, hreached⟩⟩
  refine lt_of_le_of_ne (Nat.le_of_lt_succ hle) fun heq => ?_
  have hcurrent : slot = w.currentSlot level := by
    refine Prod.ext heq ?_
    rw [hindex, hreached.2, heq]
    rfl
  have hmem : event ∈ w.slots.list (w.currentSlot level) := by
    rw [w.slots.mem_iff, hslot, hcurrent]
  rw [hempty] at hmem
  cases hmem

end TimerWheel

namespace WheelState

variable [DecidableEq α] {callback : Callback α S} {Inv : TimerQueue α → S → Prop}
  {horizon level : ℕ} {r r' r'' : WheelState α S}

/-- What processing the slots from a level on does, if it got through or was stopped. -/
structure Passes (Inv : TimerQueue α → S → Prop) (level : ℕ) (r : WheelState α S) (through : Bool)
    (r' : WheelState α S) : Prop where
  client : Inv r'.wheel.queue r'.client
  clocked : r'.wheel.Clocked
  now : r'.wheel.now 0 = r.wheel.now 0
  placed : r'.wheel.Placed (if through then level else numLevels)
  pending : through = true ∨ r.wheel.ticksPending ≠ 0 →
    r'.wheel.ticksPending = r.wheel.ticksPending
  follows : r.Follows r'

/-- The slot of a level is cleared after all slots outside. -/
theorem Passes.processSlot (hkeeps : callback.Keeps Inv horizon)
    (hnow : r.wheel.now 0 ≤ horizon) (hlevel : level < numLevels)
    (hdvd : numSlots ^ level ∣ r.wheel.now 0) (h : r.Passes Inv (level + 1) true r')
    (maxEvents : ℕ) :
    ∃ through r'', WheelState.processSlot callback maxEvents (r.wheel.currentSlot level) r' =
      some (through, r'') ∧ r.Passes Inv level through r'' := by
  have hslot : r'.wheel.currentSlot level = r.wheel.currentSlot level := by
    unfold TimerWheel.currentSlot
    rw [h.now]
  obtain ⟨through, r'', hrun, hclient, hwithin, hempty⟩ :=
    processEvents_spec hkeeps (h.now ▸ hdvd) h.clocked h.placed h.client (h.now ▸ hnow) le_rfl
      maxEvents
  have hslot' := (hwithin.currentSlot level).trans hslot
  rw [hslot] at hrun hempty
  refine ⟨through, r'', hrun, hclient, hwithin.clocked h.clocked, ?_, ?_, ?_,
    h.follows.trans hwithin.follows⟩
  · rw [hwithin.now, h.now]
  · split_ifs with hthrough
    · exact hwithin.placed.of_empty (hslot' ▸ hempty hthrough)
    · exact hwithin.placed.mono hlevel
  · intro _
    rw [hwithin.pending, h.pending (.inl rfl)]

/-- The clocks when the slots from a level on are processed: in a tick that was stopped they all
show its time, and in a new one those outside are behind. -/
def ClocksAt (level : ℕ) (w : TimerWheel α) : Prop :=
  if w.ticksPending = 0 then w.Behind level else w.Clocked

/-- The state with another number of pending ticks. -/
def withPending (p : ℕ) (r : WheelState α S) : WheelState α S :=
  { r with wheel := r.wheel.withPending p }

omit [DecidableEq α] in
/-- The clock of an outer level goes on. -/
theorem queue_goOn (hlevel : level ≠ 0) (r : WheelState α S) :
    (r.goOn level).wheel.queue = r.wheel.queue :=
  TimerQueue.ext (TimerWheel.goOn_now_of_ne hlevel.symm r.wheel) rfl

theorem follows_goOn (hlevel : level ≠ 0) (r : WheelState α S) : r.Follows (r.goOn level) := by
  refine ⟨[], ?_, ?_⟩
  · rw [List.append_nil]
    exact if_neg hlevel
  · rw [TimerQueue.replay_nil, queue_goOn hlevel]

omit [DecidableEq α] in
/-- The next level is processed after its clock goes on, or after it has gone on before. -/
theorem advanceOn_eq (process : ℕ → WheelState α S → Progress α S) (hlt : r.wheel.now 0 < 2 ^ 64)
    (hlevel : level + 1 < numLevels) (hcarry : numSlots ^ (level + 1) ∣ r.wheel.now 0)
    (hclocks : ClocksAt level r.wheel) (hplaced : r.wheel.Placed numLevels) :
    ∃ r₁ : WheelState α S, (r₁ = r ∨ r₁ = r.goOn (level + 1)) ∧
      ClocksAt (level + 1) r₁.wheel ∧ r₁.wheel.Placed numLevels ∧
      advanceOn process (level + 1) 1 r =
        (process (r₁.wheel.now 0 / numSlots ^ (level + 1)) r₁).map fun x =>
          (x.1, if x.1 = true ∨ r.wheel.ticksPending ≠ 0 then x.2 else x.2.withPending 1) := by
  unfold advanceOn
  by_cases hpending : r.wheel.ticksPending = 0
  · rw [ClocksAt, if_pos hpending] at hclocks
    have hbehind := hclocks.goOn hlt hcarry
    have hzero : (r.goOn (level + 1)).wheel.now 0 = r.wheel.now 0 :=
      TimerWheel.goOn_now_of_ne (Nat.succ_ne_zero level).symm r.wheel
    have hnow : (r.goOn (level + 1)).wheel.now (level + 1) =
        (r.goOn (level + 1)).wheel.now 0 / numSlots ^ (level + 1) := hbehind.now_self hlevel
    refine ⟨r.goOn (level + 1), .inr rfl, (if_pos hpending).mpr hbehind, ?_, ?_⟩
    · intro event slot hslot
      rw [hzero]
      exact hplaced event slot hslot
    · rw [if_neg (not_not_intro hpending), if_neg Nat.one_ne_zero, advanceLoop]
      dsimp only
      rw [hnow]
      cases process ((r.goOn (level + 1)).wheel.now 0 / numSlots ^ (level + 1))
        (r.goOn (level + 1)) with
      | none => rfl
      | some x =>
        obtain ⟨through, r'⟩ := x
        cases through with
        | true => rfl
        | false =>
          rw [Option.map_some, if_neg (by simpa using hpending)]
          rfl
  · -- a stopped tick has moved the clock of the next level already
    have hclocked := hclocks
    rw [ClocksAt, if_neg hpending] at hclocked
    refine ⟨r, .inl rfl, (if_neg hpending).mpr hclocked, hplaced, ?_⟩
    rw [if_pos hpending, if_neg (Nat.succ_ne_zero level)]
    dsimp only
    rw [hclocked _ hlevel]
    cases process (r.wheel.now 0 / numSlots ^ (level + 1)) r with
    | none => rfl
    | some x =>
      rw [Option.map_some, if_pos (.inr hpending)]
      obtain ⟨through, r'⟩ := x
      cases through <;> rfl

omit [DecidableEq α] in
theorem next_now {r₁ : WheelState α S} (hr₁ : r₁ = r ∨ r₁ = r.goOn (level + 1)) :
    r₁.wheel.now 0 = r.wheel.now 0 := by
  rcases hr₁ with rfl | rfl
  · rfl
  · exact TimerWheel.goOn_now_of_ne (Nat.succ_ne_zero level).symm r.wheel

omit [DecidableEq α] in
theorem next_client {r₁ : WheelState α S} (hr₁ : r₁ = r ∨ r₁ = r.goOn (level + 1))
    (h : Inv r.wheel.queue r.client) : Inv r₁.wheel.queue r₁.client := by
  rcases hr₁ with rfl | rfl
  · exact h
  · rw [queue_goOn (Nat.succ_ne_zero level)]
    exact h

/-- What the next level passes on. -/
theorem Passes.of_next {through : Bool} {r₁ : WheelState α S}
    (hr₁ : r₁ = r ∨ r₁ = r.goOn (level + 1)) (h : r₁.Passes Inv (level + 1) through r') :
    r.Passes Inv (level + 1) through
      (if through = true ∨ r.wheel.ticksPending ≠ 0 then r' else r'.withPending 1) := by
  have hpending : r₁.wheel.ticksPending = r.wheel.ticksPending := by
    rcases hr₁ with rfl | rfl <;> rfl
  have hnow := next_now hr₁
  have hfollows : r.Follows r₁ := by
    rcases hr₁ with rfl | rfl
    · exact .refl r₁
    · exact follows_goOn (Nat.succ_ne_zero level) r
  by_cases hkeep : through = true ∨ r.wheel.ticksPending ≠ 0
  · rw [if_pos hkeep]
    exact ⟨h.client, h.clocked, h.now.trans hnow, h.placed,
      fun hc => (h.pending (hpending ▸ hc)).trans hpending, hfollows.trans h.follows⟩
  · rw [if_neg hkeep]
    exact ⟨h.client, h.clocked, h.now.trans hnow, h.placed, fun hc => absurd hc hkeep,
      hfollows.trans h.follows⟩

/-- The slots of a tick are cleared from the outermost level on. -/
theorem processCurrentSlot_spec (hkeeps : callback.Keeps Inv horizon) (hhorizon : horizon < 2 ^ 64)
    (maxEvents outer level : ℕ) (hlevel : outer + level = maxLevel)
    (hdvd : numSlots ^ level ∣ r.wheel.now 0) (hclient : Inv r.wheel.queue r.client)
    (hclocks : ClocksAt level r.wheel) (hplaced : r.wheel.Placed numLevels)
    (hnow : r.wheel.now 0 ≤ horizon) :
    ∃ through r', processCurrentSlot callback maxEvents outer level
        (r.wheel.now 0 / numSlots ^ level) r = some (through, r') ∧
      r.Passes Inv level through r' := by
  have hmax : numLevels = maxLevel + 1 := rfl
  induction outer generalizing level r with
  -- the outermost level: nothing further out has to be spread first
  | zero =>
    have hclocked : r.wheel.Clocked := by
      unfold ClocksAt at hclocks
      split_ifs at hclocks
      · exact hclocks.clocked_of_le (by omega)
      · exact hclocks
    have hplaced₁ : r.wheel.Placed (level + 1) := hplaced.mono (by omega)
    have hstart : r.Passes Inv (level + 1) true r :=
      ⟨hclient, hclocked, rfl, hplaced₁, fun _ => rfl, .refl r⟩
    exact hstart.processSlot hkeeps hnow (by omega) hdvd maxEvents
  | succ outer ih =>
    rw [processCurrentSlot]
    split
    next hmask =>
      -- the slot index is zero, so the next level turns on and its slot is spread before this one
      have hcarry : numSlots ^ (level + 1) ∣ r.wheel.now 0 := (pow_succ_dvd_iff hdvd).mpr hmask
      obtain ⟨r₁, hr₁, hclocks₁, hplaced₁, heq⟩ :=
        advanceOn_eq (processCurrentSlot callback maxEvents outer (level + 1))
          (hnow.trans_lt hhorizon) (by omega) hcarry hclocks hplaced
      have hzero := next_now hr₁
      obtain ⟨through, r', hrun, hpasses⟩ :=
        ih (level + 1) (r := r₁) (by omega) (hzero ▸ hcarry) (next_client hr₁ hclient) hclocks₁
          hplaced₁ (hzero ▸ hnow)
      have hpasses := hpasses.of_next hr₁
      rw [heq, hrun, Option.map_some]
      dsimp only
      cases through with
      | false => exact ⟨false, _, rfl, { hpasses with placed := hpasses.placed }⟩
      | true =>
        rw [if_pos (.inl rfl)] at hpasses ⊢
        exact hpasses.processSlot hkeeps hnow (by omega) hdvd maxEvents
    next hmask =>
      -- no carry: the clock further out stands and this slot is next
      have hcarry : ¬ numSlots ^ (level + 1) ∣ r.wheel.now 0 := fun hcarry =>
        hmask ((pow_succ_dvd_iff hdvd).mp hcarry)
      have hclocked : r.wheel.Clocked := by
        unfold ClocksAt at hclocks
        split_ifs at hclocks
        · exact hclocks.clocked hcarry
        · exact hclocks
      have hstart : r.Passes Inv (level + 1) true r :=
        ⟨hclient, hclocked, rfl, hplaced.of_not_dvd hcarry, fun _ => rfl, .refl r⟩
      exact hstart.processSlot hkeeps hnow (by omega) hdvd maxEvents

/-! ## Calls of `advance` -/

/-- The invariant of a wheel and its program: the clocks agree, and events are in their slots,
those of the tick that was stopped among them. -/
structure Good (Inv : TimerQueue α → S → Prop) (r : WheelState α S) : Prop where
  client : Inv r.wheel.queue r.client
  clocked : r.wheel.Clocked
  placed : r.wheel.Placed (if r.wheel.ticksPending = 0 then 0 else numLevels)
  started : r.wheel.ticksPending ≠ 0 → 0 < r.wheel.now 0

/-- A new tick, when all events of the tick before are executed. -/
theorem Good.goOn (hkeeps : callback.Keeps Inv horizon) (hhorizon : horizon < 2 ^ 64)
    (h : r.Good Inv) (hpending : r.wheel.ticksPending = 0) (hnow : r.wheel.now 0 < horizon) :
    (r.goOn 0).wheel.now 0 = r.wheel.now 0 + 1 ∧
      Inv (r.goOn 0).wheel.queue (r.goOn 0).client ∧ ClocksAt 0 (r.goOn 0).wheel ∧
      (r.goOn 0).wheel.Placed numLevels ∧ r.Follows (r.goOn 0) := by
  have hlt : r.wheel.now 0 + 1 < 2 ^ 64 := by omega
  have hplaced := h.placed
  rw [if_pos hpending] at hplaced
  have hzero : (r.goOn 0).wheel.now 0 = r.wheel.now 0 + 1 := TimerWheel.goOn_now_zero hlt
  have hqueue : (r.goOn 0).wheel.queue = { r.wheel.queue with now := r.wheel.queue.now + 1 } :=
    TimerQueue.ext hzero rfl
  refine ⟨hzero, ?_, (if_pos hpending).mpr (h.clocked.goOn hlt), hplaced.goOn hlt, ?_⟩
  · rw [hqueue]
    exact hkeeps.tick r.wheel.queue r.client h.client hplaced.idle hnow
  · refine .of_step (c := .tick) rfl ?_
    rw [hqueue]
    exact if_pos hplaced.idle

/-- A tick is complete. -/
theorem Passes.good (h : r.Passes Inv 0 true r') (hpending : r'.wheel.ticksPending = 0) :
    r'.Good Inv where
  client := h.client
  clocked := h.clocked
  placed := by
    rw [if_pos hpending]
    exact h.placed
  started hne := absurd hpending hne

/-- The loop of `advance` on the core wheel. -/
theorem advanceLoop_spec (hkeeps : callback.Keeps Inv horizon) (hhorizon : horizon < 2 ^ 64)
    (maxEvents delta : ℕ) (hgood : r.Good Inv) (hpending : r.wheel.ticksPending = 0)
    (hnow : r.wheel.now 0 + delta ≤ horizon) :
    ∃ through r', advanceLoop (processCurrentSlot callback maxEvents maxLevel 0) 0 delta r =
        some (through, r') ∧
      r'.Good Inv ∧ r.Follows r' ∧ r'.wheel.target = r.wheel.now 0 + delta ∧
      (through = true ↔ r'.wheel.ticksPending = 0) := by
  induction delta generalizing r with
  | zero =>
    refine ⟨true, r, rfl, hgood, .refl r, ?_, iff_of_true rfl hpending⟩
    rw [TimerWheel.target, hpending]
  | succ delta ih =>
    obtain ⟨hzero, hclient, hclocks, hplaced, htick⟩ :=
      hgood.goOn hkeeps hhorizon hpending (by omega)
    obtain ⟨through, r', hrun, hpasses⟩ :=
      processCurrentSlot_spec hkeeps hhorizon maxEvents maxLevel 0 (r := r.goOn 0) rfl
        (one_dvd _) hclient hclocks hplaced (by rw [hzero]; omega)
    rw [Nat.pow_zero, Nat.div_one] at hrun
    have hnow' : r'.wheel.now 0 = r.wheel.now 0 + 1 := hpasses.now.trans hzero
    rw [advanceLoop]
    dsimp only
    rw [hrun]
    cases through with
    | true =>
      have hpending' : r'.wheel.ticksPending = 0 := (hpasses.pending (.inl rfl)).trans hpending
      obtain ⟨through, r'', hrest, hgood'', hfollows, htarget, hiff⟩ :=
        ih (hpasses.good hpending') hpending' (by omega)
      refine ⟨through, r'', hrest, hgood'', (htick.trans hpasses.follows).trans hfollows, ?_, hiff⟩
      rw [htarget, hnow']
      omega
    | false =>
      -- stopped: this tick and the ones not begun are counted as pending
      refine ⟨false, _, rfl, ⟨hpasses.client, hpasses.clocked, ?_, fun _ => ?_⟩,
        htick.trans hpasses.follows, ?_, iff_of_false nofun (Nat.succ_ne_zero delta)⟩
      · rw [if_neg (Nat.succ_ne_zero delta)]
        exact hpasses.placed
      · show 0 < r'.wheel.now 0
        omega
      · show r'.wheel.now 0 + (delta + 1 - 1) = _
        omega

omit [DecidableEq α] in
/-- What is processed when a tick was stopped: the ticks asked for are added to those pending. -/
theorem Good.resume (h : r.Good Inv) (hpending : r.wheel.ticksPending ≠ 0) {delta : ℕ}
    (hlt : r.wheel.target + delta < 2 ^ 64) :
    toTick (r.wheel.ticksPending + delta) = r.wheel.ticksPending + delta ∧
      toTick (r.wheel.ticksPending + delta + 2 ^ 64 - 1) = r.wheel.ticksPending + delta - 1 ∧
      r.wheel.target + delta = r.wheel.now 0 + (r.wheel.ticksPending + delta - 1) ∧
      ClocksAt 0 (r.withPending (r.wheel.ticksPending + delta)).wheel ∧
      r.wheel.Placed numLevels := by
  have hstarted := h.started hpending
  have hplaced := h.placed
  rw [if_neg hpending] at hplaced
  unfold TimerWheel.target at hlt ⊢
  have hsplit : r.wheel.ticksPending + delta + 2 ^ 64 - 1 =
      r.wheel.ticksPending + delta - 1 + 2 ^ 64 := by omega
  have hne : (r.withPending (r.wheel.ticksPending + delta)).wheel.ticksPending ≠ 0 := fun hzero =>
    hpending (Nat.add_eq_zero_iff.mp hzero).1
  refine ⟨Nat.mod_eq_of_lt (by omega), ?_, by omega, (if_neg hne).mpr h.clocked, hplaced⟩
  rw [hsplit, toTick, Nat.add_mod_right, Nat.mod_eq_of_lt (by omega)]

/-- `advance` goes on to the tick that is asked for, or stops on the way there. -/
theorem advance_spec (hkeeps : callback.Keeps Inv horizon) (hhorizon : horizon < 2 ^ 64)
    {delta : ℕ} (hgood : r.Good Inv) (hdelta : delta ≠ 0 ∨ r.wheel.ticksPending ≠ 0)
    (htarget : r.wheel.target + delta ≤ horizon) (maxExecute : ℕ) :
    ∃ through r', advance callback delta maxExecute r = some (through, r') ∧ r'.Good Inv ∧
      r.Follows r' ∧ r'.wheel.target = r.wheel.target + delta ∧
      (through = true ↔ r'.wheel.ticksPending = 0) := by
  unfold advance advanceOn
  by_cases hpending : r.wheel.ticksPending = 0
  · have hne : delta ≠ 0 := hdelta.resolve_right (not_not_intro hpending)
    have hnow : r.wheel.target = r.wheel.now 0 := by
      rw [TimerWheel.target, hpending]
      rfl
    rw [if_neg (not_not_intro hpending), if_neg hne, hnow]
    exact advanceLoop_spec hkeeps hhorizon maxExecute delta hgood hpending (hnow ▸ htarget)
  · -- after a stop the slots of the old tick come first, under the ticks asked for in sum
    obtain ⟨hsum, hminus, hasked, hclocks, hplaced⟩ := hgood.resume hpending
      (htarget.trans_lt hhorizon)
    have hpending₀ : r.wheel.ticksPending + delta ≠ 0 := fun hzero =>
      hpending (Nat.add_eq_zero_iff.mp hzero).1
    obtain ⟨through, r', hrun, hpasses⟩ :=
      processCurrentSlot_spec hkeeps hhorizon maxExecute maxLevel 0
        (r := r.withPending (r.wheel.ticksPending + delta)) rfl (one_dvd _) hgood.client hclocks
        hplaced (show r.wheel.now 0 ≤ horizon by omega)
    have hpending' : r'.wheel.ticksPending = r.wheel.ticksPending + delta :=
      hpasses.pending (.inr hpending₀)
    have hnow' : r'.wheel.now 0 = r.wheel.now 0 := hpasses.now
    have hfollows : r.Follows r' := hpasses.follows
    have hrun' : processCurrentSlot callback maxExecute maxLevel 0 (r.wheel.now 0)
        (r.withPending (r.wheel.ticksPending + delta)) = some (through, r') := by
      rw [Nat.pow_zero, Nat.div_one] at hrun
      exact hrun
    rw [if_pos hpending, if_pos rfl, hsum]
    show ∃ through r', Progress.andThen (processCurrentSlot callback maxExecute maxLevel 0
      (r.wheel.now 0) (r.withPending (r.wheel.ticksPending + delta))) _ = _ ∧ _
    rw [hrun']
    cases through with
    | true =>
      -- through with the old tick; the others are run from a wheel without pending ticks
      have hgood' : Good Inv (r'.withPending 0) :=
        ⟨hpasses.client, hpasses.clocked, hpasses.placed, fun hne => absurd rfl hne⟩
      obtain ⟨through, r'', hrest, hgood'', hfollows', htarget', hiff⟩ :=
        advanceLoop_spec hkeeps hhorizon maxExecute (r.wheel.ticksPending + delta - 1) hgood' rfl
          (show r'.wheel.now 0 + _ ≤ _ by omega)
      refine ⟨through, r'', ?_, hgood'', hfollows.trans hfollows', ?_, hiff⟩
      · rw [andThen_true, if_pos rfl]
        dsimp only
        rw [hpending', hminus]
        exact hrest
      · rw [htarget', hasked]
        show r'.wheel.now 0 + _ = _
        rw [hnow']
    | false =>
      have hne : r'.wheel.ticksPending ≠ 0 := hpending' ▸ hpending₀
      rw [andThen_false]
      refine ⟨false, r', rfl, ⟨hpasses.client, hpasses.clocked, ?_, fun _ => ?_⟩,
        hfollows, ?_, iff_of_false nofun hne⟩
      · rw [if_neg hne]
        exact hpasses.placed
      · rw [hnow']
        exact hgood.started hpending
      · rw [hasked, TimerWheel.target, hnow', hpending']

end WheelState

end SampleTools
