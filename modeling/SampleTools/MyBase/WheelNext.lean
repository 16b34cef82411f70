import SampleTools.MyBase.WheelRuns

/-!
# How long a program may sleep

`ticks_to_next_event` looks for the first event without advancing the wheel: level by level, on
each from the slot after the clock on, and where a level comes to its first slot also into the
slot that the level outside it would then process.

## Main definitions

* `TimerWheel.nextOnLevel`, `TimerWheel.ticksToNextEvent`: the search
* `TimerWheel.Found`: what the search on a level tells

## Main results

* `WheelState.run_next_event`: the answer is not too small, and it is exact unless a dial outside
  the core wheel is about to turn
-/

namespace SampleTools

namespace TimerWheel

variable {α : Type}

/-- `event->scheduled_at() - now`. -/
def ticksTo (w : TimerWheel α) (event : α) : ℕ :=
  toTick (w.scheduledAt event + 2 ^ 64 - w.now 0)

/-- The loop over the events of a slot. -/
def soonest (w : TimerWheel α) : (min : ℕ) → List α → ℕ
  | min, [] => min
  | min, event :: events => w.soonest (Nat.min min (w.ticksTo event)) events

/-- `(now_[level] + 1 + i) & MASK`, as the index of a slot of the level. -/
def slotAfter (w : TimerWheel α) (level i : ℕ) : ℕ × ℕ :=
  (level, mask (toTick (w.now level + 1 + i)))

/-- The loop over the slots of a level, with the number of slots left and the index of the next
one: what is returned, if an event is found. -/
def nextOnLevel (w : TimerWheel α) (level : ℕ) : (left i min : ℕ) → Option ℕ
  | 0, _, _ => none
  | left + 1, i, min =>
    let slot := w.slotAfter level i
    let min :=
      if slot.2 = 0 ∧ level < maxLevel ∧ (0 < level ∨ w.slots.list slot = []) then
        w.soonest min (w.slots.list (w.slotAfter (level + 1) 0))
      else min
    match w.slots.list slot with
    | [] => w.nextOnLevel level left (i + 1) min
    | event :: events =>
      -- "in the core wheel [...] it's enough to just look at the first one"
      some (w.soonest min (if level = 0 then [event] else event :: events))

/-- `ticks_to_next_event` from a level on, with the number of levels there are from it. -/
def nextFrom (w : TimerWheel α) (max : ℕ) : (levels level : ℕ) → ℕ
  | 0, _ => max
  | levels + 1, level =>
    match w.nextOnLevel level numSlots 0 max with
    | some min => min
    | none =>
      -- `max >> (WIDTH_BITS * level + 1)`
      if level < maxLevel ∧ 0 < max >>> (widthBits * level + 1) then
        w.nextFrom max levels (level + 1)
      else max

/-- `ticks_to_next_event`. -/
def ticksToNextEvent (w : TimerWheel α) (max : ℕ) : ℕ :=
  if w.ticksPending ≠ 0 then 0 else w.nextFrom max numLevels 0

variable {w : TimerWheel α} {event : α} {min d level i : ℕ}

theorem soonest_le (w : TimerWheel α) (min : ℕ) (events : List α) :
    w.soonest min events ≤ min := by
  induction events generalizing min with
  | nil => exact le_rfl
  | cons event events ih => exact (ih _).trans (Nat.min_le_left ..)

theorem soonest_le_of_mem {events : List α} (h : event ∈ events) :
    w.soonest min events ≤ w.ticksTo event := by
  induction events generalizing min with
  | nil => exact absurd h List.not_mem_nil
  | cons event' events ih =>
    rcases List.mem_cons.mp h with heq | h
    · exact (soonest_le w _ events).trans (heq ▸ Nat.min_le_right min _)
    · exact ih h

theorem soonest_eq (w : TimerWheel α) (min : ℕ) (events : List α) :
    w.soonest min events = min ∨ ∃ event ∈ events, w.soonest min events = w.ticksTo event := by
  induction events generalizing min with
  | nil => exact .inl rfl
  | cons event events ih =>
    rcases ih (Nat.min min (w.ticksTo event)) with heq | ⟨event', hmem, heq⟩
    · rw [soonest, heq]
      rcases Nat.le_total min (w.ticksTo event) with hle | hle
      · exact .inl (Nat.min_eq_left hle)
      · exact .inr ⟨event, List.mem_cons_self, Nat.min_eq_right hle⟩
    · exact .inr ⟨event', List.mem_cons_of_mem _ hmem, heq⟩

/-- There are no events in the slots of a level from one index on before another. -/
def EmptyTill (w : TimerWheel α) (level i j : ℕ) : Prop :=
  ∀ k, i ≤ k → k < j → w.slots.list (w.slotAfter level k) = []

/-- What the search on a level tells, from a slot on: an event is found at the first slot that has
events, and the slot of the next level was looked into if the clock goes on there before. -/
structure Found (w : TimerWheel α) (level i min d : ℕ) : Prop where
  le : d ≤ min
  real : d = min ∨ ∃ slot, ∃ event ∈ w.slots.list slot, d = w.ticksTo event
  first : ∃ j, i ≤ j ∧ j < numSlots ∧ w.EmptyTill level i j ∧
    (∃ event ∈ w.slots.list (w.slotAfter level j), d ≤ w.ticksTo event) ∧
    (0 < level → ∀ event ∈ w.slots.list (w.slotAfter level j), d ≤ w.ticksTo event) ∧
    ∀ c, i ≤ c → c ≤ j → (w.slotAfter level c).2 = 0 → level < maxLevel →
      (level = 0 ∧ c = j) ∨ ∀ event ∈ w.slots.list (w.slotAfter (level + 1) 0), d ≤ w.ticksTo event

/-- What is found in events of some slots. -/
theorem soonest_real (hreal : min = d ∨ ∃ slot, ∃ event ∈ w.slots.list slot, min = w.ticksTo event)
    (slot : ℕ × ℕ) {events : List α} (hsub : ∀ event ∈ events, event ∈ w.slots.list slot) :
    w.soonest min events = d ∨
      ∃ slot, ∃ event ∈ w.slots.list slot, w.soonest min events = w.ticksTo event := by
  rcases w.soonest_eq min events with heq | ⟨event, hmem, heq⟩
  · rw [heq]
    exact hreal
  · exact .inr ⟨slot, event, hsub event hmem, heq⟩

theorem nextOnLevel_none {left : ℕ} (hleft : left + i = numSlots)
    (h : w.nextOnLevel level left i min = none) : w.EmptyTill level i numSlots := by
  induction left generalizing i min with
  | zero =>
    intro k hik hk
    omega
  | succ left ih =>
    rw [nextOnLevel] at h
    cases hlist : w.slots.list (w.slotAfter level i) with
    | nil =>
      rw [hlist] at h
      intro k hik hk
      rcases hik.eq_or_lt with rfl | hlt
      · exact hlist
      · exact ih (by omega) h k hlt hk
    | cons event events =>
      rw [hlist] at h
      exact absurd h (Option.some_ne_none _)

theorem nextOnLevel_found {left : ℕ} (hleft : left + i = numSlots)
    (h : w.nextOnLevel level left i min = some d) : w.Found level i min d := by
  induction left generalizing i min with
  | zero => exact absurd h.symm (Option.some_ne_none d)
  | succ left ih =>
    rw [nextOnLevel] at h
    -- min' is what the look at the outer slot leaves; it is taken on the first slot of a turn only
    generalize hup : (if (w.slotAfter level i).2 = 0 ∧ level < maxLevel ∧
      (0 < level ∨ w.slots.list (w.slotAfter level i) = []) then
        w.soonest min (w.slots.list (w.slotAfter (level + 1) 0)) else min) = min' at h
    have hle : min' ≤ min := by
      rw [← hup]
      split_ifs
      · exact soonest_le ..
      · exact le_rfl
    have hreal : min' = min ∨ ∃ slot, ∃ event ∈ w.slots.list slot, min' = w.ticksTo event := by
      rw [← hup]
      split_ifs
      · exact soonest_real (.inl rfl) _ fun _ hmem => hmem
      · exact .inl rfl
    have hlooked : (w.slotAfter level i).2 = 0 → level < maxLevel →
        (level = 0 ∧ w.slots.list (w.slotAfter level i) ≠ []) ∨
          ∀ event ∈ w.slots.list (w.slotAfter (level + 1) 0), min' ≤ w.ticksTo event := by
      intro hzero hlevel
      by_cases hcore : level = 0 ∧ w.slots.list (w.slotAfter level i) ≠ []
      · exact .inl hcore
      · have hcase : 0 < level ∨ w.slots.list (w.slotAfter level i) = [] := by
          by_contra hnot
          rw [not_or] at hnot
          exact hcore ⟨by omega, hnot.2⟩
        rw [if_pos ⟨hzero, hlevel, hcase⟩] at hup
        exact .inr fun event hmem => hup ▸ soonest_le_of_mem hmem
    cases hlist : w.slots.list (w.slotAfter level i) with
    -- an empty slot: the rest of the turn decides, and this slot joins the empty ones
    | nil =>
      rw [hlist] at h
      obtain ⟨hd, hreal', j, hij, hj, hempty, hsome, hall, hcross⟩ := ih (by omega) h
      refine ⟨hd.trans hle, ?_, j, by omega, hj, fun k hik hk => ?_, hsome, hall,
        fun c hic hc hzero hlevel => ?_⟩
      · rcases hreal' with rfl | hreal'
        · exact hreal
        · exact .inr hreal'
      · rcases hik.eq_or_lt with rfl | hlt
        · exact hlist
        · exact hempty k hlt hk
      · rcases hic.eq_or_lt with rfl | hlt
        · rcases hlooked hzero hlevel with ⟨-, hne⟩ | hup'
          · exact absurd hlist hne
          · exact .inr fun event hmem => hd.trans (hup' event hmem)
        · exact hcross c hlt hc hzero hlevel
    | cons event events =>
      rw [hlist] at h
      -- on the core level the front event is enough: a slot there holds events of one tick
      obtain rfl := Option.some.inj h
      have hmem : event ∈ if level = 0 then [event] else event :: events := by
        split_ifs <;> exact List.mem_cons_self
      refine ⟨(soonest_le ..).trans hle, soonest_real hreal (w.slotAfter level i) ?_,
        i, le_rfl, by omega, fun k hik hk => absurd hik (Nat.not_le_of_lt hk), ?_, ?_, ?_⟩
      · intro event' hmem'
        rw [hlist]
        split_ifs at hmem'
        · exact List.mem_cons.mpr (.inl (List.mem_singleton.mp hmem'))
        · exact hmem'
      · exact ⟨event, hlist ▸ List.mem_cons_self, soonest_le_of_mem hmem⟩
      · intro hpos event' hmem'
        rw [if_neg hpos.ne']
        exact soonest_le_of_mem (hlist ▸ hmem')
      · intro c hic hc hzero hlevel
        obtain rfl : i = c := le_antisymm hic hc
        rcases hlooked hzero hlevel with ⟨hcore, -⟩ | hup'
        · exact .inl ⟨hcore, rfl⟩
        · exact .inr fun event' hmem' => (soonest_le ..).trans (hup' event' hmem')

/-! ## Where the first event is -/

theorem slotAfter_eq (hclocked : w.Clocked) (hlevel : level < numLevels) (i : ℕ) :
    w.slotAfter level i = (level, mask (w.now 0 / numSlots ^ level + 1 + i)) := by
  rw [slotAfter, hclocked level hlevel]
  exact congrArg (Prod.mk level) (Nat.mod_mod_of_dvd _ (by decide : numSlots ∣ 2 ^ 64))

/-- The events in a slot. -/
theorem mem_slotAfter (hclocked : w.Clocked) (hplaced : w.Placed 0) (hlevel : level < numLevels)
    (hi : i < numSlots) (h : event ∈ w.slots.list (w.slotAfter level i)) :
    w.scheduledAt event / numSlots ^ level = w.now 0 / numSlots ^ level + 1 + i ∧
      w.ticksTo event = w.scheduledAt event - w.now 0 ∧ w.now 0 < w.scheduledAt event ∧
      w.queue.due event = some (w.scheduledAt event) := by
  have hslot := (w.slots.mem_iff event _).mp h
  have hplace := hplaced event _ hslot
  rw [slotAfter_eq hclocked hlevel] at hslot hplace
  obtain ⟨-, hindex, hlt, hahead | ⟨hfalse, -⟩⟩ := hplace
  · refine ⟨?_, ?_, hahead.lt, ?_⟩
    · obtain ⟨hlow, hhigh⟩ := hahead
      have hmod : (w.now 0 / numSlots ^ level + 1 + i) % 256 =
        w.scheduledAt event / numSlots ^ level % 256 := hindex
      have hslots : numSlots = 256 := rfl
      dsimp only at hlow hhigh
      omega
    · have hback := hahead.lt
      have hdelta : w.scheduledAt event + 2 ^ 64 - w.now 0 =
          w.scheduledAt event - w.now 0 + 2 ^ 64 := by omega
      rw [ticksTo, hdelta, toTick, Nat.add_mod_right, Nat.mod_eq_of_lt (by omega)]
    · show (w.slots.slot event).map _ = _
      rw [hslot]
      rfl
  · exact absurd hfalse (Nat.not_lt_zero _)

/-- The slot of an event, as the search comes to it. -/
theorem slot_eq_slotAfter (hclocked : w.Clocked) (hplaced : w.Placed 0) {slot : ℕ × ℕ}
    (hslot : w.slots.slot event = some slot) :
    slot.1 < numLevels ∧
      ∃ i < numSlots, event ∈ w.slots.list (w.slotAfter slot.1 i) := by
  obtain ⟨hlevel, hindex, -, hahead | ⟨hfalse, -⟩⟩ := hplaced event slot hslot
  · obtain ⟨hlow, hhigh⟩ := hahead
    refine ⟨hlevel, w.scheduledAt event / numSlots ^ slot.1 - w.now 0 / numSlots ^ slot.1 - 1,
      by omega, ?_⟩
    have hback : w.now 0 / numSlots ^ slot.1 + 1 +
        (w.scheduledAt event / numSlots ^ slot.1 - w.now 0 / numSlots ^ slot.1 - 1) =
          w.scheduledAt event / numSlots ^ slot.1 := by omega
    rw [w.slots.mem_iff, slotAfter_eq hclocked hlevel, hback, ← hindex]
    exact hslot
  · exact absurd hfalse (Nat.not_lt_zero _)

/-- What is found on a level is not later than any event, if the levels inside have none and the
next level is not at its last slot. -/
theorem Found.exact {max : ℕ} (hfound : w.Found level 0 max d) (hclocked : w.Clocked)
    (hplaced : w.Placed 0) (hlevel : level < numLevels)
    (hinside : ∀ level' < level, w.EmptyTill level' 0 numSlots)
    (hdial : level + 1 < maxLevel → mask (w.now (level + 1)) ≠ 255) {slot : ℕ × ℕ}
    (hslot : w.slots.slot event = some slot) : w.now 0 + d ≤ w.scheduledAt event := by
  obtain ⟨hslotLevel, i, hi, hmem⟩ := slot_eq_slotAfter hclocked hplaced hslot
  obtain ⟨j, -, hj, hempty, ⟨found, hfoundMem, hle⟩, hall, hcross⟩ := hfound.first
  have hslots : numSlots = 256 := rfl
  have hlevels : numLevels = maxLevel + 1 := rfl
  obtain ⟨ht, hto, hlater, -⟩ := mem_slotAfter hclocked hplaced hslotLevel hi hmem
  obtain ⟨ht', hto', hlater', -⟩ := mem_slotAfter hclocked hplaced hlevel hj hfoundMem
  -- an event is not before the one that was found
  have hafter : w.scheduledAt found ≤ w.scheduledAt event → w.now 0 + d ≤ w.scheduledAt event := by
    omega
  -- the next dial, where the event that was found is on it
  have hnext : w.scheduledAt found / numSlots ^ (level + 1) =
      (w.now 0 / numSlots ^ level + 1 + j) / 256 := by
    rw [Nat.pow_succ, ← Nat.div_div_eq_div_mul, ht']
    rfl
  have hnow : w.now 0 / numSlots ^ (level + 1) = w.now 0 / numSlots ^ level / 256 := by
    rw [Nat.pow_succ, ← Nat.div_div_eq_div_mul]
    rfl
  rcases Nat.lt_trichotomy slot.1 level with hlt | heq | hgt
  · exact absurd hmem ((hinside _ hlt i (Nat.zero_le i) hi) ▸ List.not_mem_nil)
  · rw [heq] at ht hmem
    rcases Nat.lt_trichotomy i j with hij | rfl | hij
    · exact absurd hmem ((hempty i (Nat.zero_le i) hij) ▸ List.not_mem_nil)
    · rcases Nat.eq_zero_or_pos level with rfl | hpos
      · refine hafter (Nat.le_of_eq ?_)
        rw [Nat.pow_zero, Nat.div_one, Nat.div_one] at ht ht'
        rw [ht, ht']
      · have hsame := hall hpos event hmem
        omega
    · exact hafter (Nat.lt_of_div_lt_div (by rw [ht, ht']; omega)).le
  · have hahead : ∀ l ≤ slot.1, w.now 0 / numSlots ^ l < w.scheduledAt event / numSlots ^ l :=
      fun l hl => div_pow_lt_of_le hl (by rw [ht]; omega)
    have hone := hahead (level + 1) hgt
    by_cases hcarry : 255 - w.now 0 / numSlots ^ level % 256 ≤ j ∧
        w.scheduledAt event / numSlots ^ (level + 1) = w.now 0 / numSlots ^ (level + 1) + 1
    · obtain ⟨hc, heq⟩ := hcarry
      have hzero : (w.slotAfter level (255 - w.now 0 / numSlots ^ level % 256)).2 = 0 := by
        rw [slotAfter_eq hclocked hlevel]
        show (_ : ℕ) % 256 = 0
        omega
      rcases hcross _ (Nat.zero_le _) hc hzero (by omega) with ⟨rfl, hcj⟩ | hup
      · -- it was found at the tick at which the next dial goes on
        have hpow : numSlots ^ (0 + 1) = 256 := rfl
        rw [hpow] at heq
        rw [Nat.pow_zero, Nat.div_one] at hcj
        rw [Nat.pow_zero, Nat.div_one, Nat.div_one] at ht'
        refine hafter ?_
        omega
      · have hlevel' : level + 1 < numLevels := by omega
        rcases Nat.lt_or_ge (level + 1) slot.1 with houter | hinner
        · -- the dial after the next would have to go on as well
          have htwo := hahead (level + 1 + 1) houter
          have hshown : mask (w.now (level + 1)) ≠ 255 := hdial (by omega)
          rw [hclocked (level + 1) hlevel'] at hshown
          rw [Nat.pow_succ _ (level + 1), ← Nat.div_div_eq_div_mul, ← Nat.div_div_eq_div_mul, heq,
            hslots] at htwo
          have hstay : ∀ x, x % 256 ≠ 255 → (x + 1) / 256 = x / 256 := fun x hx => by omega
          exact absurd htwo ((hstay _ hshown) ▸ lt_irrefl _)
        · obtain hsame : slot.1 = level + 1 := by omega
          rw [hsame] at ht hmem
          obtain rfl : i = 0 := by omega
          have := hup event hmem
          omega
    · refine hafter (Nat.lt_of_div_lt_div (c := numSlots ^ (level + 1)) ?_).le
      rw [hnext]
      omega

/-- The dials outside the core wheel are not about to turn; `max` tells how near that would be. -/
def Unturned (w : TimerWheel α) (max : ℕ) : Prop :=
  ∀ level, 0 < level → level < maxLevel → mask (w.now level) < 254 ∨
    mask (w.now level) = 254 ∧ 2 ^ (widthBits * level + 1) ≤ max

instance (w : TimerWheel α) (max : ℕ) : Decidable (w.Unturned max) :=
  decidable_of_iff (∀ level < maxLevel, 0 < level → mask (w.now level) < 254 ∨
      mask (w.now level) = 254 ∧ 2 ^ (widthBits * level + 1) ≤ max)
    ⟨fun h level hpos hlt => h level hlt hpos, fun h level hlt hpos => h level hpos hlt⟩

/-- On an outer level all events are further away than the search looks that ends before it. -/
theorem far_of_outer {max : ℕ} (hclocked : w.Clocked) (hplaced : w.Placed 0)
    (hunturned : w.Unturned max) (hlevel : level < maxLevel)
    (hmax : max < 2 ^ (widthBits * level + 1)) {slot : ℕ × ℕ}
    (hslot : w.slots.slot event = some slot) (houter : level < slot.1) :
    w.now 0 + max ≤ w.scheduledAt event := by
  obtain ⟨hslotLevel, i, hi, hmem⟩ := slot_eq_slotAfter hclocked hplaced hslot
  obtain ⟨ht, -, hlater, -⟩ := mem_slotAfter hclocked hplaced hslotLevel hi hmem
  have hone : w.now 0 / numSlots ^ (level + 1) < w.scheduledAt event / numSlots ^ (level + 1) :=
    div_pow_lt_of_le houter (by rw [ht]; omega)
  have hpow : 2 ^ (widthBits * level + 1) = numSlots ^ level * 2 := by
    rw [Nat.pow_succ, Nat.pow_mul]
    rfl
  rw [hpow] at hmax
  rcases Nat.eq_zero_or_pos level with rfl | hpos
  · rw [Nat.pow_zero] at hmax
    omega
  · have hdial : w.now 0 / numSlots ^ level % 256 < 254 := by
      have hshown := hunturned level hpos hlevel
      rw [hclocked level (hlevel.trans (Nat.lt_succ_self _)), hpow] at hshown
      exact hshown.resolve_right fun h => absurd h.2 (Nat.not_le_of_lt hmax)
    rw [Nat.pow_succ, ← Nat.div_div_eq_div_mul, ← Nat.div_div_eq_div_mul] at hone
    have hthree : ∀ n t, n % 256 < 254 → n / 256 < t / 256 → n + 3 ≤ t := by omega
    have hgap := hthree _ _ hdial hone
    have hblock : 0 < numSlots ^ level := Nat.pow_pos (by decide)
    calc w.now 0 + max
        ≤ (w.now 0 / numSlots ^ level + 1) * numSlots ^ level + numSlots ^ level * 2 := by
          have hmod := Nat.div_add_mod (w.now 0) (numSlots ^ level)
          have hlt := Nat.mod_lt (w.now 0) hblock
          rw [Nat.add_mul, Nat.mul_comm, Nat.one_mul]
          omega
      _ = (w.now 0 / numSlots ^ level + 3) * numSlots ^ level := by
          rw [Nat.mul_comm (numSlots ^ level) 2, ← Nat.add_mul]
      _ ≤ w.scheduledAt event / numSlots ^ level * numSlots ^ level :=
          Nat.mul_le_mul_right _ hgap
      _ ≤ w.scheduledAt event := Nat.div_mul_le_self ..

theorem nextFrom_spec (hclocked : w.Clocked) (hplaced : w.Placed 0) (max levels level : ℕ)
    (hlevels : levels + level = numLevels)
    (hinside : ∀ level' < level, w.EmptyTill level' 0 numSlots) :
    w.nextFrom max levels level ≤ max ∧
    (w.nextFrom max levels level = max ∨
      ∃ event, w.queue.due event = some (w.now 0 + w.nextFrom max levels level)) ∧
    (w.Unturned max → ∀ event slot, w.slots.slot event = some slot →
      w.now 0 + w.nextFrom max levels level ≤ w.scheduledAt event) := by
  -- an event is on no level without events
  have hnot : ∀ {event slot}, w.slots.slot event = some slot →
      ¬ w.EmptyTill slot.1 0 numSlots := by
    intro event slot hslot hempty
    obtain ⟨-, i, hi, hmem⟩ := slot_eq_slotAfter hclocked hplaced hslot
    exact absurd hmem ((hempty i (Nat.zero_le i) hi) ▸ List.not_mem_nil)
  induction levels generalizing level with
  | zero =>
    refine ⟨le_rfl, .inl rfl, fun _ event slot hslot => absurd ?_ (hnot hslot)⟩
    have hslotLevel := (slot_eq_slotAfter hclocked hplaced hslot).1
    exact hinside slot.1 (by omega)
  | succ levels ih =>
    have hlevel : level < numLevels := by omega
    have hlast : numLevels = maxLevel + 1 := rfl
    rw [nextFrom]
    cases hsearch : w.nextOnLevel level numSlots 0 max with
    | some d =>
      have hfound := nextOnLevel_found (Nat.add_zero _) hsearch
      refine ⟨hfound.le, hfound.real.imp_right ?_, fun hunturned event slot hslot => ?_⟩
      · rintro ⟨slot, event, hmem, rfl⟩
        have hslot := (w.slots.mem_iff event slot).mp hmem
        obtain ⟨hslotLevel, i, hi, hmem'⟩ := slot_eq_slotAfter hclocked hplaced hslot
        obtain ⟨-, hto, hlater, hdue⟩ := mem_slotAfter hclocked hplaced hslotLevel hi hmem'
        refine ⟨event, ?_⟩
        rw [hdue, hto, Nat.add_sub_cancel' hlater.le]
      · refine hfound.exact hclocked hplaced hlevel hinside (fun hlt => ?_) hslot
        have hshown := hunturned (level + 1) (Nat.succ_pos level) hlt
        omega
    | none =>
      have hempty := nextOnLevel_none (Nat.add_zero _) hsearch
      have hinside' : ∀ level' < level + 1, w.EmptyTill level' 0 numSlots := by
        intro level' hlt
        rcases Nat.lt_succ_iff_lt_or_eq.mp hlt with hlt | rfl
        · exact hinside level' hlt
        · exact hempty
      dsimp only
      split
      next => exact ih (level + 1) (by omega) hinside'
      next hstop =>
        refine ⟨le_rfl, .inl rfl, fun hunturned event slot hslot => ?_⟩
        have hslotLevel := (slot_eq_slotAfter hclocked hplaced hslot).1
        have houter : level < slot.1 := by
          by_contra hle
          exact hnot hslot (hinside' slot.1 (by omega))
        have hmax : max < 2 ^ (widthBits * level + 1) := by
          by_contra hle
          refine hstop ⟨by omega, ?_⟩
          rw [Nat.shiftRight_eq_div_pow]
          exact Nat.div_pos (Nat.le_of_not_lt hle) (Nat.pow_pos (by decide))
        exact far_of_outer hclocked hplaced hunturned (by omega) hmax hslot houter

end TimerWheel

namespace WheelState

variable {α S : Type} [DecidableEq α] {callback : Callback α S} {Inv : S → Prop}
  {horizon now : ℕ} {scheduledAt : α → ℕ} {client : S} {r : WheelState α S}

/-- In every state a program can reach, `ticks_to_next_event` says that there is nothing to wait
for while a tick is pending. Else it is at most `max`, and unless it is `max` there is an event
at that time; and there is none before, if no dial outside the core wheel is about to turn. -/
theorem run_next_event {trace : List (WheelState α S × WheelStep α)}
    (hsafe : callback.Safe Inv horizon) (hhorizon : horizon < 2 ^ 64) (hclient : Inv client)
    (h : Run (step callback) (start now scheduledAt client) trace r)
    (hallowed : ∀ e ∈ trace, e.2.Allowed horizon e.1.wheel) (max : ℕ) :
    (r.wheel.ticksPending ≠ 0 → r.wheel.ticksToNextEvent max = 0) ∧
    (r.wheel.ticksPending = 0 →
      r.wheel.ticksToNextEvent max ≤ max ∧
      (r.wheel.ticksToNextEvent max = max ∨
        ∃ event, r.wheel.queue.due event = some (r.wheel.now 0 + r.wheel.ticksToNextEvent max)) ∧
      (r.wheel.Unturned max → ∀ event t, r.wheel.queue.due event = some t →
        r.wheel.now 0 + r.wheel.ticksToNextEvent max ≤ t)) := by
  have hgood := (run_keeps hsafe hhorizon hclient h hallowed).1
  refine ⟨fun hpending => if_pos hpending, fun hpending => ?_⟩
  have hplaced := hgood.placed
  rw [if_pos hpending] at hplaced
  rw [TimerWheel.ticksToNextEvent, if_neg (not_not_intro hpending)]
  obtain ⟨hle, hreal, hexact⟩ := TimerWheel.nextFrom_spec hgood.clocked hplaced max numLevels 0 rfl
    fun level hlt => absurd hlt (Nat.not_lt_zero level)
  refine ⟨hle, hreal, fun hunturned event t hdue => ?_⟩
  obtain ⟨slot, hslot, rfl⟩ := Option.map_eq_some_iff.mp hdue
  exact hexact hunturned event slot hslot

/-- The clock is at 250, and an event waits for the tick 510. The core wheel has no event. -/
theorem run_next_event_outer : ∃ (trace : List (WheelState ℕ Unit × WheelStep ℕ))
    (r : WheelState ℕ Unit), Run (step idle) (start 247 (fun _ => 0) ()) trace r ∧
      trace.map Prod.snd = [.call (.schedule 7 263), .advance 3 10] ∧
      r.wheel.ticksToNextEvent (2 ^ 64 - 1) = 260 ∧
      ∀ event t, r.wheel.queue.due event = some t →
        r.wheel.now 0 + r.wheel.ticksToNextEvent (2 ^ 64 - 1) ≤ t := by
  have hrun : Run (step idle) (start 247 (fun _ => 0) ()) _ _ :=
    Run.nil.snoc (a := .call (.schedule 7 263)) rfl |>.snoc (a := .advance 3 10) rfl
  exact ⟨_, _, hrun, rfl, by decide,
    ((run_next_event (idle_safe 1000) (by decide) trivial hrun (by decide) _).2 rfl).2.2
      (by decide)⟩

end WheelState

end SampleTools
