import SampleTools.MyBase.WheelRange

/-!
# The slots of the timer wheel

Every event is in the slot of its tick, on a level where the tick is ahead of the clock by less
than a turn. Only while a tick is processed can there be events in the slots the clocks have just
reached, and a level is cleared after all levels outside it.

## Main definitions

* `TimerWheel.queue`: the clock of the wheel, and the tick of each event in a slot
* `TimerWheel.Placed`: where the events are
* `WheelState.Follows`: what was recorded leads the queue from one state to the other
* `WheelCall.Allowed`, `Callback.Safe`: calls as the comments of the code demand them, with times
  in the range of the clock, and ranges that end below `2 ^ 56`

## Main results

* `WheelState.call_within`: what a call of the program does
* `WheelState.processEvent_spec`, `WheelState.processEvents_spec`: a slot is cleared
-/

namespace SampleTools

variable {α S : Type} [DecidableEq α]

namespace TimerWheel

/-- The clock, and the tick of each event in a slot. -/
def queue (w : TimerWheel α) : TimerQueue α where
  now := w.now 0
  due event := (w.slots.slot event).map fun _ => w.scheduledAt event

/-- An event for the tick `t` is in its slot. On the levels below `opened` it may be in the slot
that the clock has just reached. -/
structure PlacedAt (opened now t : ℕ) (slot : ℕ × ℕ) : Prop where
  level_lt : slot.1 < numLevels
  index_eq : slot.2 = mask (t / numSlots ^ slot.1)
  lt : t < 2 ^ 64
  when : AheadOn numSlots now slot.1 t ∨ slot.1 < opened ∧ ReachedOn numSlots now slot.1 t

/-- Every event is in the slot of its tick. -/
def Placed (opened : ℕ) (w : TimerWheel α) : Prop :=
  ∀ event slot, w.slots.slot event = some slot →
    PlacedAt opened (w.now 0) (w.scheduledAt event) slot

/-- The slot of a level that the clock shows. -/
def currentSlot (w : TimerWheel α) (level : ℕ) : ℕ × ℕ :=
  (level, mask (w.now 0 / numSlots ^ level))

variable {w : TimerWheel α} {event : α} {t level opened : ℕ}

omit [DecidableEq α] in
theorem Placed.mono {opened' : ℕ} (h : w.Placed opened) (hle : opened ≤ opened') :
    w.Placed opened' := by
  intro event slot hslot
  obtain ⟨hlevel, hindex, hlt, hwhen⟩ := h event slot hslot
  exact ⟨hlevel, hindex, hlt, hwhen.imp_right fun hreached => ⟨hreached.1.trans_le hle, hreached.2⟩⟩

omit [DecidableEq α] in
theorem Placed.ahead (h : w.Placed opened) : w.queue.Ahead := by
  intro event t hdue
  obtain ⟨slot, hslot, rfl⟩ := Option.map_eq_some_iff.mp hdue
  rcases (h event slot hslot).when with hahead | ⟨-, hreached⟩
  · exact hahead.lt.le
  · exact hreached.le

omit [DecidableEq α] in
theorem Placed.idle (h : w.Placed 0) : w.queue.Idle := by
  intro event hdue
  obtain ⟨slot, hslot, heq⟩ := Option.map_eq_some_iff.mp hdue
  rcases (h event slot hslot).when with hahead | ⟨hfalse, -⟩
  · exact absurd heq hahead.lt.ne'
  · exact absurd hfalse (Nat.not_lt_zero _)

theorem Placed.putAt (h : w.Placed opened) (hlevel : level < numLevels) (ht : t < 2 ^ 64)
    (hahead : AheadOn numSlots (w.now 0) level t) (event : α) :
    (w.putAt event t level).Placed opened := by
  intro event' slot hslot
  have hslots : (w.putAt event t level).slots.slot event' =
      if event' = event then some (level, mask (t / numSlots ^ level))
      else w.slots.slot event' := SlotLists.slot_relink ..
  rw [hslots] at hslot
  show PlacedAt opened (w.now 0) (Function.update w.scheduledAt event t event') slot
  split_ifs at hslot with heq
  · cases hslot
    rw [heq, Function.update_self]
    exact ⟨hlevel, rfl, ht, .inl hahead⟩
  · rw [Function.update_of_ne heq]
    exact h event' slot hslot

theorem Placed.cancel (h : w.Placed opened) (event : α) : (w.cancel event).Placed opened := by
  intro event' slot hslot
  have hslots : (w.cancel event).slots.slot event' =
      if event' = event then none else w.slots.slot event' := SlotLists.slot_relink ..
  rw [hslots] at hslot
  split_ifs at hslot
  exact h event' slot hslot

/-- An event waits for the tick it is put into a slot for, whatever the slot. -/
theorem queue_relink (event : α) (t : ℕ) (slot : ℕ × ℕ) (w : TimerWheel α) :
    TimerWheel.queue { w with
      scheduledAt := Function.update w.scheduledAt event t
      slots := w.slots.relink event (some slot) } = w.queue.put event (some t) := by
  refine TimerQueue.ext rfl (funext fun event' => ?_)
  show ((w.slots.relink event (some slot)).slot event').map
    (fun _ => Function.update w.scheduledAt event t event') =
      (w.queue.put event (some t)).due event'
  rw [SlotLists.slot_relink]
  by_cases heq : event' = event
  · rw [heq, if_pos rfl, Function.update_self, TimerQueue.put_due_self]
    rfl
  · rw [if_neg heq, Function.update_of_ne heq, TimerQueue.put_due_of_ne heq]
    rfl

theorem queue_putAt (event : α) (t level : ℕ) (w : TimerWheel α) :
    (w.putAt event t level).queue = w.queue.put event (some t) := queue_relink ..

theorem queue_cancel (event : α) (w : TimerWheel α) :
    (w.cancel event).queue = w.queue.put event none := by
  refine TimerQueue.ext rfl (funext fun event' => ?_)
  show ((w.slots.relink event none).slot event').map (fun _ => w.scheduledAt event') =
    (w.queue.put event none).due event'
  rw [SlotLists.slot_relink]
  by_cases heq : event' = event
  · rw [heq, if_pos rfl, TimerQueue.put_due_self]
    rfl
  · rw [if_neg heq, TimerQueue.put_due_of_ne heq]
    rfl

/-- An event for a tick ahead is not put into a slot the clocks show. -/
theorem length_putAt_le (hahead : AheadOn numSlots (w.now 0) level t) (event : α) (level' : ℕ) :
    ((w.putAt event t level).slots.list (w.currentSlot level')).length ≤
      (w.slots.list (w.currentSlot level')).length := by
  refine SlotLists.length_relink_le fun heq => hahead.mark_ne ?_
  obtain ⟨hlevel, hmark⟩ := Prod.mk.inj (Option.some.inj heq)
  rw [hlevel] at hmark ⊢
  exact hmark

/-- An event waits for a tick of a range. -/
def InRange (event : α) (first last : ℕ) (w : TimerWheel α) : Prop :=
  ∃ t, w.queue.due event = some t ∧ w.now 0 + first ≤ t ∧ t ≤ w.now 0 + last

omit [DecidableEq α] in
/-- The event that `schedule_in_range` leaves where it is. -/
theorem inRange_iff (hplaced : w.Placed opened) (event : α) (first last : ℕ) :
    (w.active event = true ∧ first ≤ toTick (w.scheduledAt event + 2 ^ 64 - w.now 0) ∧
      toTick (w.scheduledAt event + 2 ^ 64 - w.now 0) ≤ last) ↔ w.InRange event first last := by
  have hdue : w.queue.due event = (w.slots.slot event).map fun _ => w.scheduledAt event := rfl
  unfold InRange TimerWheel.active
  rw [hdue]
  cases hslot : w.slots.slot event with
  | none =>
    refine iff_of_false (fun h => Bool.false_ne_true h.1) ?_
    rintro ⟨t, hnone, -⟩
    cases hnone
  | some slot =>
    have hle : w.now 0 ≤ w.scheduledAt event := hplaced.ahead event _ (by rw [hdue, hslot]; rfl)
    have ht := (hplaced event slot hslot).lt
    have hcurrent : toTick (w.scheduledAt event + 2 ^ 64 - w.now 0) =
        w.scheduledAt event - w.now 0 := by
      have hdelta : w.scheduledAt event + 2 ^ 64 - w.now 0 =
          w.scheduledAt event - w.now 0 + 2 ^ 64 := by omega
      rw [toTick, hdelta, Nat.add_mod_right, Nat.mod_eq_of_lt (by omega)]
    rw [hcurrent]
    constructor
    · rintro ⟨-, hlow, hhigh⟩
      exact ⟨w.scheduledAt event, rfl, by omega, by omega⟩
    · rintro ⟨t, heq, hlow, hhigh⟩
      obtain rfl : w.scheduledAt event = t := Option.some.inj heq
      exact ⟨rfl, by omega, by omega⟩

end TimerWheel

/-! ## What a program calls -/

/-- What the comments of the code demand: deltas that are not zero, and a range that is not
empty. Besides, which no comment says, the times must be in the range of the clock, and a range must
end below `2 ^ 56`: of a longer one the mask can leave the delta 0, which `schedule` refuses. -/
def WheelCall.Allowed (now : ℕ) : WheelCall α → Prop
  | .schedule _ delta => 0 < delta ∧ now + delta < 2 ^ 64
  | .scheduleInRange _ first last =>
    0 < first ∧ first < last ∧ last < 2 ^ 56 ∧ now + last < 2 ^ 64
  | .cancel _ => True

instance (now : ℕ) : DecidablePred (WheelCall.Allowed (α := α) now)
  | .schedule .. => inferInstanceAs (Decidable (_ ∧ _))
  | .scheduleInRange .. => inferInstanceAs (Decidable (_ ∧ _))
  | .cancel _ => inferInstanceAs (Decidable True)

/-- Up to a tick, callbacks keep what the program relies on, and make allowed calls. -/
def Callback.Safe (callback : Callback α S) (Inv : S → Prop) (horizon : ℕ) : Prop :=
  ∀ event (w : TimerWheel α) s, Inv s → w.now 0 ≤ horizon →
    Inv (callback event w s).1 ∧ ∀ c ∈ (callback event w s).2, c.Allowed (w.now 0)

/-- The state when an event was taken out of its slot. -/
def WheelState.takeOut (event : α) (r : WheelState α S) : WheelState α S :=
  { r with wheel := r.wheel.cancel event }

/-- The same for what the program relies on of its state and of the timers together: it is kept by
the clock, and by callbacks at the tick of their event, which make allowed calls. -/
structure Callback.Keeps (callback : Callback α S) (Inv : TimerQueue α → S → Prop)
    (horizon : ℕ) : Prop where
  tick : ∀ q s, Inv q s → q.Idle → q.now < horizon → Inv { q with now := q.now + 1 } s
  allowed : ∀ event (w : TimerWheel α) s, Inv w.queue s → w.now 0 ≤ horizon →
    w.queue.due event = some (w.now 0) →
    ∀ c ∈ (callback event (w.cancel event) s).2, c.Allowed (w.now 0)
  fire : ∀ event (r r' : WheelState α S), Inv r.wheel.queue r.client → r.wheel.now 0 ≤ horizon →
    r.wheel.queue.due event = some (r.wheel.now 0) →
    (r.takeOut event).execute callback event = some r' → Inv r'.wheel.queue r'.client

namespace WheelState

/-- What was recorded leads the queue from one state to the other. -/
def Follows (r r' : WheelState α S) : Prop :=
  ∃ log, r'.log = r.log ++ log ∧ r.wheel.queue.replay log = some r'.wheel.queue

variable {r r' r'' : WheelState α S} {opened : ℕ}

theorem Follows.refl (r : WheelState α S) : r.Follows r := ⟨[], by simp, rfl⟩

theorem Follows.trans (h : r.Follows r') (h' : r'.Follows r'') : r.Follows r'' := by
  obtain ⟨log, hlog, hreplay⟩ := h
  obtain ⟨log', hlog', hreplay'⟩ := h'
  exact ⟨log ++ log', by rw [hlog', hlog, List.append_assoc],
    TimerQueue.replay_trans hreplay hreplay'⟩

theorem Follows.of_step {c : QueueCall α} (hlog : r'.log = r.log ++ [c])
    (hstep : r.wheel.queue.step c = some r'.wheel.queue) : r.Follows r' :=
  ⟨[c], hlog, by rwa [TimerQueue.replay_singleton]⟩

/-- What goes on within a tick: the clocks stay, events stay in their slots, and the slots that
the clocks show get no events. -/
structure Within (opened : ℕ) (r r' : WheelState α S) : Prop where
  now : r'.wheel.now = r.wheel.now
  pending : r'.wheel.ticksPending = r.wheel.ticksPending
  placed : r'.wheel.Placed opened
  length : ∀ level, (r'.wheel.slots.list (r.wheel.currentSlot level)).length ≤
    (r.wheel.slots.list (r.wheel.currentSlot level)).length
  follows : r.Follows r'

theorem Within.refl (h : r.wheel.Placed opened) : r.Within opened r :=
  ⟨rfl, rfl, h, fun _ => le_rfl, .refl r⟩

theorem Within.trans (h : r.Within opened r') (h' : r'.Within opened r'') :
    r.Within opened r'' where
  now := h'.now.trans h.now
  pending := h'.pending.trans h.pending
  placed := h'.placed
  length level := by
    have hlen := h'.length level
    have hslot : r'.wheel.currentSlot level = r.wheel.currentSlot level := by
      unfold TimerWheel.currentSlot
      rw [h.now]
    rw [hslot] at hlen
    exact hlen.trans (h.length level)
  follows := h.follows.trans h'.follows

theorem Within.clocked (h : r.Within opened r') (hr : r.wheel.Clocked) : r'.wheel.Clocked := by
  unfold TimerWheel.Clocked
  rw [h.now]
  exact hr

/-- An event is scheduled for a tick ahead. -/
theorem within_putAt {level t : ℕ} (hplaced : r.wheel.Placed opened) (hlevel : level < numLevels)
    (hahead : AheadOn numSlots (r.wheel.now 0) level t) (ht : t < 2 ^ 64) (event : α) :
    r.Within opened { r with
      wheel := r.wheel.putAt event t level
      log := r.log ++ [.schedule event t] } where
  now := rfl
  pending := rfl
  placed := hplaced.putAt hlevel ht hahead event
  length := TimerWheel.length_putAt_le hahead event
  follows := by
    refine .of_step rfl ?_
    rw [TimerWheel.queue_putAt]
    exact if_pos hahead.lt

/-- A call does not change the state of the program. -/
theorem call_client {c : WheelCall α} (h : r.call c = some r') : r'.client = r.client := by
  cases c with
  | schedule event delta =>
    obtain ⟨w, -, rfl⟩ := Option.map_eq_some_iff.mp h
    rfl
  | scheduleInRange event first last =>
    obtain ⟨w, -, rfl⟩ := Option.map_eq_some_iff.mp h
    rfl
  | cancel event =>
    cases h
    rfl

theorem calls_client {calls : List (WheelCall α)} (h : calls.foldlM call r = some r') :
    r'.client = r.client := by
  induction calls generalizing r with
  | nil =>
    cases h
    rfl
  | cons c calls ih =>
    obtain ⟨r₁, hc, hrest⟩ := Option.bind_eq_some_iff.mp h
    exact (ih hrest).trans (call_client hc)

/-- A call of the program. -/
theorem call_within (hclocked : r.wheel.Clocked) (hplaced : r.wheel.Placed opened)
    {c : WheelCall α} (hc : c.Allowed (r.wheel.now 0)) :
    ∃ r', r.call c = some r' ∧ r.Within opened r' := by
  cases c with
  | schedule event delta =>
    obtain ⟨hpos, hlt⟩ := hc
    obtain ⟨level, hlevel, hahead, hschedule⟩ :=
      TimerWheel.schedule_eq hclocked event delta hpos hlt
    have hat : (r.wheel.putAt event (r.wheel.now 0 + delta) level).scheduledAt event =
        r.wheel.now 0 + delta := Function.update_self ..
    rw [call, hschedule, Option.map_some, hat]
    exact ⟨_, rfl, within_putAt hplaced hlevel hahead hlt event⟩
  | scheduleInRange event first last =>
    obtain ⟨hfirst, hlt, hsmall, hlast⟩ := hc
    obtain ⟨hlow, hhigh⟩ := (TimerWheel.rangeDelta_mem_iff (by omega) hlt).mpr hsmall
    rw [call, TimerWheel.scheduleInRange, if_neg (not_not_intro hlt)]
    dsimp only
    split
    next hskip =>
      -- the event waits for a tick of the range
      obtain ⟨t, hdue, hlow, -⟩ := (TimerWheel.inRange_iff hplaced event first last).mp hskip
      obtain ⟨slot, -, rfl⟩ := Option.map_eq_some_iff.mp hdue
      refine ⟨_, rfl, rfl, rfl, hplaced, fun _ => le_rfl, .of_step rfl ?_⟩
      refine (if_pos (show r.wheel.now 0 < _ by omega)).trans (congrArg some ?_)
      exact TimerQueue.ext rfl (Function.update_eq_self_iff.mpr hdue.symm)
    next =>
      obtain ⟨level, hlevel, hahead, hschedule⟩ :=
        TimerWheel.schedule_eq hclocked event (TimerWheel.rangeDelta first last)
          (hfirst.trans hlow) (by omega)
      have hat : (r.wheel.putAt event
          (r.wheel.now 0 + TimerWheel.rangeDelta first last) level).scheduledAt event =
            r.wheel.now 0 + TimerWheel.rangeDelta first last := Function.update_self ..
      rw [hschedule, Option.map_some, hat]
      exact ⟨_, rfl, within_putAt hplaced hlevel hahead (by omega) event⟩
  | cancel event =>
    refine ⟨_, rfl, rfl, rfl, hplaced.cancel event, fun level => ?_, .of_step rfl ?_⟩
    · exact SlotLists.length_relink_none_le ..
    · rw [TimerWheel.queue_cancel]
      rfl

/-- The calls of a callback. -/
theorem calls_within (hclocked : r.wheel.Clocked) (hplaced : r.wheel.Placed opened)
    {calls : List (WheelCall α)} (hcalls : ∀ c ∈ calls, c.Allowed (r.wheel.now 0)) :
    ∃ r', calls.foldlM call r = some r' ∧ r.Within opened r' := by
  induction calls generalizing r with
  | nil => exact ⟨r, rfl, .refl hplaced⟩
  | cons c calls ih =>
    rw [List.forall_mem_cons] at hcalls
    obtain ⟨r₁, hc, hwithin⟩ := call_within hclocked hplaced hcalls.1
    obtain ⟨r₂, hrest, hwithin'⟩ :=
      ih (hwithin.clocked hclocked) hwithin.placed (hwithin.now ▸ hcalls.2)
    exact ⟨r₂, by rw [List.foldlM_cons, hc]; exact hrest, hwithin.trans hwithin'⟩

theorem Within.currentSlot (h : r.Within opened r') (level : ℕ) :
    r'.wheel.currentSlot level = r.wheel.currentSlot level := by
  unfold TimerWheel.currentSlot
  rw [h.now]

/-- What a program relies on of its own state, callbacks keep at every tick. -/
theorem keeps_of_safe {callback : Callback α S} {Inv : S → Prop} {horizon : ℕ}
    (hsafe : callback.Safe Inv horizon) : callback.Keeps (fun _ => Inv) horizon where
  tick _ _ hs _ _ := hs
  allowed event w s hs hnow _ := (hsafe event (w.cancel event) s hs hnow).2
  fire event r r' hs hnow _ hrun := by
    have hclient := calls_client hrun
    rw [hclient]
    exact (hsafe event (r.takeOut event).wheel r.client hs hnow).1

/-! ## A slot is cleared -/

section Events

variable {callback : Callback α S} {Inv : TimerQueue α → S → Prop} {horizon level : ℕ}
  {event : α}

omit [DecidableEq α] in
/-- An event in a slot that the clock shows waits for a tick that has the clock's mark there. -/
theorem reachedOn_of_slot {w : TimerWheel α} (hplaced : w.Placed opened)
    (hslot : w.slots.slot event = some (w.currentSlot level)) :
    ReachedOn numSlots (w.now 0) level (w.scheduledAt event) := by
  obtain ⟨-, hindex, -, hahead | ⟨-, hreached⟩⟩ := hplaced event _ hslot
  · exact absurd hindex.symm hahead.mark_ne
  · exact hreached

/-- What is done with an event that was taken out of its slot. -/
structure Processed (opened : ℕ) (event : α) (r r' : WheelState α S) : Prop where
  within : r.Within opened r'
  length : ∀ level, (r'.wheel.slots.list (r.wheel.currentSlot level)).length ≤
    ((r.takeOut event).wheel.slots.list (r.wheel.currentSlot level)).length

/-- The callback of an event whose tick has come. -/
theorem execute_processed (hkeeps : callback.Keeps Inv horizon) (hclocked : r.wheel.Clocked)
    (hplaced : r.wheel.Placed opened) (hinv : Inv r.wheel.queue r.client)
    (hnow : r.wheel.now 0 ≤ horizon)
    (hdue : r.wheel.queue.due event = some (r.wheel.now 0)) :
    ∃ r', (r.takeOut event).execute callback event = some r' ∧ Inv r'.wheel.queue r'.client ∧
      r.Processed opened event r' := by
  have hallowed := hkeeps.allowed event r.wheel r.client hinv hnow hdue
  let r₁ : WheelState α S :=
    { r.takeOut event with
      client := (callback event (r.takeOut event).wheel r.client).1
      log := r.log ++ [.fire event] }
  have hfire : r.Within opened r₁ := by
    refine ⟨rfl, rfl, hplaced.cancel event, fun level => ?_, .of_step rfl ?_⟩
    · exact SlotLists.length_relink_none_le ..
    · show r.wheel.queue.step (.fire event) = some (r.wheel.cancel event).queue
      rw [TimerWheel.queue_cancel]
      exact if_pos hdue
  obtain ⟨r', hcalls, hwithin⟩ := calls_within (r := r₁) hclocked hfire.placed hallowed
  exact ⟨r', hcalls, hkeeps.fire event r r' hinv hnow hdue hcalls, hfire.trans hwithin,
    hwithin.length⟩

/-- An event whose tick is still ahead moves to a slot inside. -/
theorem promote_processed (hclocked : r.wheel.Clocked) (hplaced : r.wheel.Placed opened)
    {slot : ℕ × ℕ} (hslot : r.wheel.slots.slot event = some slot)
    (hahead : r.wheel.now 0 < r.wheel.scheduledAt event) :
    ∃ w', (r.wheel.cancel event).schedule event
        (toTick (r.wheel.scheduledAt event + 2 ^ 64 - r.wheel.now 0)) = some w' ∧
      w'.queue = r.wheel.queue ∧ r.Processed opened event { r with wheel := w' } := by
  have ht := (hplaced event slot hslot).lt
  have hdelta : toTick (r.wheel.scheduledAt event + 2 ^ 64 - r.wheel.now 0) =
      r.wheel.scheduledAt event - r.wheel.now 0 := by
    have hsum : r.wheel.scheduledAt event + 2 ^ 64 - r.wheel.now 0 =
        r.wheel.scheduledAt event - r.wheel.now 0 + 2 ^ 64 := by omega
    rw [toTick, hsum, Nat.add_mod_right, Nat.mod_eq_of_lt (by omega)]
  have hback : r.wheel.now 0 + (r.wheel.scheduledAt event - r.wheel.now 0) =
      r.wheel.scheduledAt event := by omega
  obtain ⟨level, hlevel, hahead', hschedule⟩ :=
    TimerWheel.schedule_eq (w := r.wheel.cancel event) hclocked event
      (r.wheel.scheduledAt event - r.wheel.now 0) (by omega)
      (show r.wheel.now 0 + _ < _ by omega)
  have hnow : (r.wheel.cancel event).now 0 = r.wheel.now 0 := rfl
  rw [hnow, hback] at hahead' hschedule
  have hlength := TimerWheel.length_putAt_le (w := r.wheel.cancel event) hahead' event
  -- it waits for the same tick as before
  have hqueue : ((r.wheel.cancel event).putAt event (r.wheel.scheduledAt event) level).queue =
      r.wheel.queue := by
    have hdue : r.wheel.queue.due event = some (r.wheel.scheduledAt event) := by
      show (r.wheel.slots.slot event).map _ = _
      rw [hslot]
      rfl
    rw [TimerWheel.queue_putAt, TimerWheel.queue_cancel]
    refine TimerQueue.ext rfl (funext fun event' => ?_)
    by_cases heq : event' = event
    · rw [heq, TimerQueue.put_due_self, hdue]
    · rw [TimerQueue.put_due_of_ne heq, TimerQueue.put_due_of_ne heq]
  refine ⟨(r.wheel.cancel event).putAt event (r.wheel.scheduledAt event) level,
    hdelta ▸ hschedule, hqueue, ⟨rfl, rfl, ?_, fun level' => ?_, ⟨[], by simp, ?_⟩⟩, hlength⟩
  · exact (hplaced.cancel event).putAt hlevel ht hahead' event
  · exact (hlength level').trans (SlotLists.length_relink_none_le ..)
  · rw [TimerQueue.replay_nil, ← hqueue]

theorem processEvent_spec (hkeeps : callback.Keeps Inv horizon)
    (hdvd : numSlots ^ level ∣ r.wheel.now 0) (hclocked : r.wheel.Clocked)
    (hplaced : r.wheel.Placed opened) (hinv : Inv r.wheel.queue r.client)
    (hnow : r.wheel.now 0 ≤ horizon)
    (hslot : r.wheel.slots.slot event = some (r.wheel.currentSlot level)) :
    ∃ executed r', processEvent callback level event (r.takeOut event) = some (executed, r') ∧
      Inv r'.wheel.queue r'.client ∧ r.Processed opened event r' := by
  have hreached := reachedOn_of_slot hplaced hslot
  -- the assertion on the outer levels
  have hassert : ¬ (0 < level ∧ mask ((r.takeOut event).wheel.now 0) ≠ 0) := by
    rintro ⟨hpos, hne⟩
    exact hne (Nat.dvd_iff_mod_eq_zero.mp ((dvd_pow_self numSlots hpos.ne').trans hdvd))
  rw [processEvent, if_neg hassert]
  split
  next hpromote =>
    obtain ⟨w', hschedule, hqueue, hprocessed⟩ :=
      promote_processed hclocked hplaced hslot hpromote.2
    exact ⟨false, _, congrArg (Option.map _) hschedule, hqueue ▸ hinv, hprocessed⟩
  next hexecute =>
    have heq : r.wheel.scheduledAt event = r.wheel.now 0 := by
      rcases Nat.eq_zero_or_pos level with rfl | hpos
      · exact hreached.zero
      · exact le_antisymm (not_lt.mp fun hlt => hexecute ⟨hpos, hlt⟩) hreached.le
    have hdue : r.wheel.queue.due event = some (r.wheel.now 0) := by
      show (r.wheel.slots.slot event).map _ = _
      rw [hslot, Option.map_some, heq]
    obtain ⟨r', hrun, hinv', hprocessed⟩ :=
      execute_processed hkeeps hclocked hplaced hinv hnow hdue
    exact ⟨true, r', congrArg (Option.map _) hrun, hinv', hprocessed⟩

/-- The loop over the events of a slot ends; if it was not stopped, the slot is empty. -/
theorem processEvents_spec (hkeeps : callback.Keeps Inv horizon)
    (hdvd : numSlots ^ level ∣ r.wheel.now 0) (hclocked : r.wheel.Clocked)
    (hplaced : r.wheel.Placed opened) (hinv : Inv r.wheel.queue r.client)
    (hnow : r.wheel.now 0 ≤ horizon)
    {rounds : ℕ} (hrounds : (r.wheel.slots.list (r.wheel.currentSlot level)).length ≤ rounds)
    (maxEvents : ℕ) :
    ∃ through r', processEvents callback (r.wheel.currentSlot level) rounds maxEvents r =
        some (through, r') ∧ Inv r'.wheel.queue r'.client ∧ r.Within opened r' ∧
      (through = true → r'.wheel.slots.list (r.wheel.currentSlot level) = []) := by
  induction rounds generalizing r maxEvents with
  | zero =>
    have hnil := List.length_eq_zero_iff.mp (Nat.le_zero.mp hrounds)
    refine ⟨true, r, ?_, hinv, .refl hplaced, fun _ => hnil⟩
    rw [processEvents, hnil]
    rfl
  | succ rounds ih =>
    rw [processEvents]
    cases hpop : r.wheel.slots.pop (r.wheel.currentSlot level) with
    | none => exact ⟨true, r, rfl, hinv, .refl hplaced, fun _ => SlotLists.pop_eq_none_iff.mp hpop⟩
    | some popped =>
      -- the front is taken off first, so the slot gets shorter whatever its callback does
      obtain ⟨event, slots⟩ := popped
      obtain ⟨rfl, l, hl, hrest⟩ := SlotLists.pop_eq_some_iff.mp hpop
      have hslot : r.wheel.slots.slot event = some (r.wheel.currentSlot level) := by
        rw [← SlotLists.mem_iff, hl]
        exact List.mem_cons_self
      obtain ⟨executed, r₁, hevent, hinv₁, hwithin, hlength⟩ :=
        processEvent_spec hkeeps hdvd hclocked hplaced hinv hnow hslot
      have hleft : (r₁.wheel.slots.list (r₁.wheel.currentSlot level)).length ≤ rounds := by
        rw [hwithin.currentSlot]
        refine (hlength level).trans ?_
        rw [hl] at hrounds
        show ((r.wheel.slots.relink event none).list _).length ≤ rounds
        rw [hrest]
        exact Nat.le_of_succ_le_succ hrounds
      have hevent' : processEvent callback (r.wheel.currentSlot level).1 event
          { r with wheel := { r.wheel with slots := r.wheel.slots.relink event none } } =
            some (executed, r₁) := hevent
      dsimp only
      rw [hevent', Option.bind_some]
      dsimp only
      generalize (if executed = true then toTick (maxEvents + 2 ^ 64 - 1) else maxEvents) = left
      split
      next => exact ⟨false, r₁, rfl, hinv₁, hwithin, nofun⟩
      next =>
        obtain ⟨through, r', hagain, hinv', hwithin', hempty⟩ :=
          ih (r := r₁) (hwithin.now ▸ hdvd) (hwithin.clocked hclocked) hwithin.placed hinv₁
            (hwithin.now ▸ hnow) hleft _
        rw [hwithin.currentSlot] at hagain hempty
        exact ⟨through, r', hagain, hinv', hwithin.trans hwithin', hempty⟩

end Events

end WheelState

end SampleTools
