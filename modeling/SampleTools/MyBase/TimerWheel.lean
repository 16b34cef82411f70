import SampleTools.Library.Dials
import SampleTools.Library.SlotLists
import SampleTools.Library.TimerQueue

/-!
# The timer wheel

The wheel of `timer-wheel.h` keeps events in the slots of eight levels. The core wheel has a slot
for each of the next 256 ticks, and a slot of an outer wheel holds the events of 256 slots of the
wheel inside it; when an inner wheel begins a rotation, the slot of the outer one is emptied, and
its events are executed or promoted. `advance` moves the clock tick by tick. It can be told how
many events to execute; then it stops in the middle of a tick, and goes on from there when it is
called again.

A program schedules and cancels events, also while one of its callbacks runs.

## Main definitions

* `TimerWheel`: the wheel; `TimerWheel.schedule`, `TimerWheel.scheduleInRange`
* `WheelCall`, `Callback`: what a program calls, and what it does when an event is executed
* `WheelState`: the wheel, the state of the program, and a record of what happened
* `processEvents`, `processCurrentSlot`, `advance`: the functions of the code

## Main results

* `TimerWheel.schedule_eq`: where an event is put
-/

namespace SampleTools

/-- What a `Tick`, a 64-bit number, keeps of a number. -/
def toTick (n : ℕ) : ℕ := n % 2 ^ 64

/-- `WIDTH_BITS`. -/
def widthBits : ℕ := 8

/-- `NUM_LEVELS`. -/
def numLevels : ℕ := (64 + widthBits - 1) / widthBits

/-- `MAX_LEVEL`. -/
def maxLevel : ℕ := numLevels - 1

/-- `NUM_SLOTS`. -/
def numSlots : ℕ := 2 ^ widthBits

/-- `x & MASK`. -/
def mask (x : ℕ) : ℕ := x % numSlots

/-! ## The wheel -/

/-- `TimerWheel`, with `scheduled_at_` of the events. A slot is its level and its index. -/
structure TimerWheel (α : Type) where
  now : ℕ → ℕ
  ticksPending : ℕ
  slots : SlotLists (ℕ × ℕ) α
  scheduledAt : α → ℕ

namespace TimerWheel

variable {α : Type}

/-- The constructor. -/
def create (now : ℕ) (scheduledAt : α → ℕ) : TimerWheel α where
  now level := now / 2 ^ (widthBits * level)
  ticksPending := 0
  slots := .empty
  scheduledAt := scheduledAt

/-- `active`. -/
def active (event : α) (w : TimerWheel α) : Bool := (w.slots.slot event).isSome

/-- The loop of `schedule`, from a level on, with the number of levels there are from it: the
level and the delta it ends with. Past the last level there is no slot. -/
def findLevel (now : ℕ → ℕ) : (levels level delta : ℕ) → Option (ℕ × ℕ)
  | 0, _, _ => none
  | levels + 1, level, delta =>
    if numSlots ≤ delta then
      findLevel now levels (level + 1) (toTick (delta + mask (now level)) / 2 ^ widthBits)
    else some (level, delta)

variable [DecidableEq α]

/-- `schedule`. -/
def schedule (event : α) (delta : ℕ) (w : TimerWheel α) : Option (TimerWheel α) :=
  if delta = 0 then none
  else
    let scheduledAt := Function.update w.scheduledAt event (toTick (w.now 0 + delta))
    (findLevel w.now numLevels 0 delta).map fun (level, delta) =>
      let slotIndex := mask (toTick (w.now level + delta))
      { w with
        scheduledAt := scheduledAt
        slots := w.slots.relink event (some (level, slotIndex)) }

/-- The loop of `schedule_in_range`: "zero as many bits as possible from end". The mask is zero
after as many rounds as there are levels. -/
def rangeMask (first last : ℕ) : (rounds bits : ℕ) → ℕ
  | 0, bits => bits
  | rounds + 1, bits =>
    if first &&& bits ≠ last &&& bits then
      rangeMask first last rounds (toTick (bits <<< widthBits))
    else bits

/-- The delta that `schedule_in_range` chooses. -/
def rangeDelta (first last : ℕ) : ℕ :=
  last &&& rangeMask first last numLevels (2 ^ 64 - 1) >>> widthBits

/-- `schedule_in_range`. -/
def scheduleInRange (event : α) (first last : ℕ) (w : TimerWheel α) :
    Option (TimerWheel α) :=
  if ¬ first < last then none
  else
    let current := toTick (w.scheduledAt event + 2 ^ 64 - w.now 0)
    if w.active event ∧ first ≤ current ∧ current ≤ last then some w
    else w.schedule event (rangeDelta first last)

/-- `cancel` of an event. -/
def cancel (event : α) (w : TimerWheel α) : TimerWheel α :=
  { w with slots := w.slots.relink event none }

/-- `++now_[level]`. -/
def goOn (level : ℕ) (w : TimerWheel α) : TimerWheel α :=
  { w with now := Function.update w.now level (toTick (w.now level + 1)) }

/-! ### Where an event is put -/

/-- The clocks of all levels show the time of the core wheel. -/
def Clocked (w : TimerWheel α) : Prop :=
  ∀ level < numLevels, w.now level = w.now 0 / numSlots ^ level

/-- The event is put into the slot of its tick on a level. -/
def putAt (event : α) (t : ℕ) (level : ℕ) (w : TimerWheel α) : TimerWheel α :=
  { w with
    scheduledAt := Function.update w.scheduledAt event t
    slots := w.slots.relink event (some (level, mask (t / numSlots ^ level))) }

omit [DecidableEq α] in
/-- The loop of `schedule` finds a level where the tick is ahead by less than a turn. -/
theorem findLevel_eq {w : TimerWheel α} (hw : w.Clocked) {t : ℕ} (hle : w.now 0 ≤ t)
    (ht : t < 2 ^ 64) (levels level : ℕ) (hlevels : levels + level = numLevels)
    (hpos : w.now 0 / numSlots ^ level < t / numSlots ^ level) :
    ∃ level' < numLevels, AheadOn numSlots (w.now 0) level' t ∧
      findLevel w.now levels level (t / numSlots ^ level - w.now 0 / numSlots ^ level) =
        some (level', t / numSlots ^ level' - w.now 0 / numSlots ^ level') := by
  induction levels generalizing level with
  | zero =>
    -- no time is that far
    have hzero : t / numSlots ^ level = 0 := by
      rw [Nat.zero_add] at hlevels
      rw [hlevels]
      exact Nat.div_eq_of_lt ht
    rw [hzero] at hpos
    exact absurd hpos (Nat.not_lt_zero _)
  | succ levels ih =>
    have hlevel : level < numLevels := by omega
    rw [findLevel, hw level hlevel]
    split_ifs with hfar
    · have hstep : toTick (t / numSlots ^ level - w.now 0 / numSlots ^ level +
            mask (w.now 0 / numSlots ^ level)) / 2 ^ widthBits =
          t / numSlots ^ (level + 1) - w.now 0 / numSlots ^ (level + 1) := by
        have hmod : mask (w.now 0 / numSlots ^ level) ≤ w.now 0 / numSlots ^ level := Nat.mod_le ..
        have hself : t / numSlots ^ level ≤ t := Nat.div_le_self ..
        rw [toTick, Nat.mod_eq_of_lt (by omega)]
        exact div_sub_div_pow_succ (by decide) hle level
      rw [hstep]
      exact ih (level + 1) (by omega) (div_pow_succ_lt_of_le (by decide) hfar)
    · exact ⟨level, hlevel, ⟨hpos, by omega⟩, rfl⟩

theorem schedule_eq {w : TimerWheel α} (hw : w.Clocked) (event : α) (delta : ℕ)
    (hdelta : 0 < delta) (hlt : w.now 0 + delta < 2 ^ 64) :
    ∃ level < numLevels, AheadOn numSlots (w.now 0) level (w.now 0 + delta) ∧
      w.schedule event delta = some (w.putAt event (w.now 0 + delta) level) := by
  obtain ⟨level, hlevel, hahead, hfind⟩ := findLevel_eq hw (Nat.le_add_right _ delta) hlt
    numLevels 0 rfl (by simpa using hdelta)
  refine ⟨level, hlevel, hahead, ?_⟩
  have hstart : (w.now 0 + delta) / numSlots ^ 0 - w.now 0 / numSlots ^ 0 = delta := by simp
  rw [hstart] at hfind
  have hslot : w.now 0 / numSlots ^ level +
      ((w.now 0 + delta) / numSlots ^ level - w.now 0 / numSlots ^ level) =
        (w.now 0 + delta) / numSlots ^ level := by
    have hlow := hahead.1
    omega
  have hself : (w.now 0 + delta) / numSlots ^ level ≤ w.now 0 + delta := Nat.div_le_self ..
  rw [schedule, if_neg hdelta.ne', hfind, toTick, Nat.mod_eq_of_lt hlt]
  dsimp only [Option.map_some]
  rw [hw level hlevel, hslot, toTick, Nat.mod_eq_of_lt (by omega)]
  rfl

end TimerWheel

/-! ## A program with a wheel -/

/-- What a program calls, also in a callback. -/
inductive WheelCall (α : Type)
  | schedule (event : α) (delta : ℕ)
  | scheduleInRange (event : α) (first last : ℕ)
  | cancel (event : α)
  deriving DecidableEq, Repr

/-- What a program does when an event is executed: it changes its state, and calls the wheel. -/
def Callback (α S : Type) : Type := α → TimerWheel α → S → S × List (WheelCall α)

/-- The wheel, the state of the program, and what happened so far. -/
structure WheelState (α S : Type) where
  wheel : TimerWheel α
  client : S
  log : List (QueueCall α)

namespace WheelState

variable {α S : Type} [DecidableEq α]

/-- A call of the program. -/
def call (r : WheelState α S) : WheelCall α → Option (WheelState α S)
  | .schedule event delta =>
    (r.wheel.schedule event delta).map fun w =>
      { r with wheel := w, log := r.log ++ [.schedule event (w.scheduledAt event)] }
  | .scheduleInRange event first last =>
    (r.wheel.scheduleInRange event first last).map fun w =>
      { r with wheel := w, log := r.log ++ [.schedule event (w.scheduledAt event)] }
  | .cancel event =>
    some { r with wheel := r.wheel.cancel event, log := r.log ++ [.cancel event] }

/-- `execute`: the callback of the program. -/
def execute (callback : Callback α S) (event : α) (r : WheelState α S) :
    Option (WheelState α S) :=
  let (client, calls) := callback event r.wheel r.client
  calls.foldlM call { r with client := client, log := r.log ++ [.fire event] }

/-- The result of a function: a `bool`, which tells whether it got through, and the state. -/
abbrev Progress (α S : Type) := Option (Bool × WheelState α S)

/-- Goes on if the first part got through. -/
def Progress.andThen (x : Progress α S) (next : WheelState α S → Progress α S) : Progress α S :=
  x.bind fun (through, r) => if through then next r else some (false, r)

omit [DecidableEq α] in
@[simp] theorem andThen_true (r : WheelState α S) (next : WheelState α S → Progress α S) :
    Progress.andThen (some (true, r)) next = next r := rfl

omit [DecidableEq α] in
@[simp] theorem andThen_false (r : WheelState α S) (next : WheelState α S → Progress α S) :
    Progress.andThen (some (false, r)) next = some (false, r) := rfl

/-- What the loop of `process_current_slot` does with an event that it took out of a slot, and
whether that counts as an execution; `none` is a failed assertion. -/
def processEvent (callback : Callback α S) (level : ℕ) (event : α) (r : WheelState α S) :
    Progress α S :=
  if 0 < level ∧ mask (r.wheel.now 0) ≠ 0 then none
  else if 0 < level ∧ r.wheel.now 0 < r.wheel.scheduledAt event then
    -- promotion
    let delta := toTick (r.wheel.scheduledAt event + 2 ^ 64 - r.wheel.now 0)
    (r.wheel.schedule event delta).map fun w => (false, { r with wheel := w })
  else (r.execute callback event).map fun r => (true, r)

/-- The loop of `process_current_slot` over the events of a slot, in as many rounds as there are
events; `none` is a failed assertion, or that there are events left after these rounds. -/
def processEvents (callback : Callback α S) (slot : ℕ × ℕ) :
    (rounds maxEvents : ℕ) → WheelState α S → Progress α S
  | 0, _, r => if (r.wheel.slots.list slot).isEmpty then some (true, r) else none
  | rounds + 1, maxEvents, r =>
    match r.wheel.slots.pop slot with
    | none => some (true, r)
    | some (event, slots) =>
      let r := { r with wheel := { r.wheel with slots := slots } }
      (processEvent callback slot.1 event r).bind fun (executed, r) =>
        let maxEvents := if executed then toTick (maxEvents + 2 ^ 64 - 1) else maxEvents
        if executed ∧ maxEvents = 0 then some (false, r)
        else processEvents callback slot rounds maxEvents r

/-- `++now_[level]`; the clock of the core wheel is that of the program. -/
def goOn (level : ℕ) (r : WheelState α S) : WheelState α S :=
  { r with
    wheel := r.wheel.goOn level
    log := if level = 0 then r.log ++ [.tick] else r.log }

/-- The loop of `advance` on a level; `process` is `process_current_slot` there. -/
def advanceLoop (process : ℕ → WheelState α S → Progress α S) (level : ℕ) :
    (delta : ℕ) → WheelState α S → Progress α S
  | 0, r => some (true, r)
  | delta + 1, r =>
    let r := r.goOn level
    match process (r.wheel.now level) r with
    | none => none
    | some (true, r) => advanceLoop process level delta r
    | some (false, r) =>
      some (false, { r with wheel := { r.wheel with ticksPending := delta + 1 } })

/-- `advance` on a level. -/
def advanceOn (process : ℕ → WheelState α S → Progress α S) (level : ℕ) (delta : ℕ)
    (r : WheelState α S) : Progress α S :=
  if r.wheel.ticksPending ≠ 0 then
    let r := if level = 0 then
        { r with wheel :=
          { r.wheel with ticksPending := toTick (r.wheel.ticksPending + delta) } }
      else r
    (process (r.wheel.now level) r).andThen fun r =>
      if level = 0 then
        let delta := toTick (r.wheel.ticksPending + 2 ^ 64 - 1)
        advanceLoop process level delta { r with wheel := { r.wheel with ticksPending := 0 } }
      else some (true, r)
  else if delta = 0 then none
  else advanceLoop process level delta r

/-- The loop of `process_current_slot`. -/
def processSlot (callback : Callback α S) (maxEvents : ℕ) (slot : ℕ × ℕ) (r : WheelState α S) :
    Progress α S :=
  processEvents callback slot (r.wheel.slots.list slot).length maxEvents r

/-- `process_current_slot` on a level, with the number of levels outside it. -/
def processCurrentSlot (callback : Callback α S) (maxEvents : ℕ) :
    (outer level now : ℕ) → WheelState α S → Progress α S
  | 0, level, now, r => processSlot callback maxEvents (level, mask now) r
  | outer + 1, level, now, r =>
    if mask now = 0 then
      (advanceOn (processCurrentSlot callback maxEvents outer (level + 1)) (level + 1) 1 r).andThen
        (processSlot callback maxEvents (level, mask now))
    else processSlot callback maxEvents (level, mask now) r

/-- `advance`. -/
def advance (callback : Callback α S) (delta : ℕ) (maxExecute : ℕ) (r : WheelState α S) :
    Progress α S :=
  advanceOn (processCurrentSlot callback maxExecute maxLevel 0) 0 delta r

end WheelState

end SampleTools
