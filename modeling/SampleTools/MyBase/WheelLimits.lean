import SampleTools.MyBase.WheelRuns

/-!
# The limits of `advance` change nothing

The plain way to go on by a tick is to set all clocks, and to clear the slots they have reached,
from the outermost to that of the core wheel. `advance` does the same across its calls, in
whatever portions its limits cut the work: what is left to do after a call is what was left before
it. It is assumed that callbacks do not look at `ticks_pending_`, as those do that call
`ticks_to_next_event`.

## Main definitions

* `plainAdvance`: the plain way
* `WheelState.settle`: what is left to do, done the plain way

## Main results

* `WheelState.settle_advance`: a call of `advance` leaves what is to be done as it is
* `WheelState.advances_agree`: calls that ask for as many ticks in all lead to the same state
-/

namespace SampleTools

variable {α S : Type}

/-- Callbacks do not depend on `ticks_pending_`. -/
def Callback.Blind (callback : Callback α S) : Prop :=
  ∀ event (w : TimerWheel α) p s, callback event (w.withPending p) s = callback event w s

namespace WheelState

variable [DecidableEq α]

/-! ## The plain way -/

/-- The events of a slot, in as many rounds. -/
def plainEvents (callback : Callback α S) (slot : ℕ × ℕ) :
    (rounds : ℕ) → WheelState α S → Option (WheelState α S)
  | 0, r => if (r.wheel.slots.list slot).isEmpty then some r else none
  | rounds + 1, r =>
    match r.wheel.slots.pop slot with
    | none => some r
    | some (event, _) =>
      (processEvent callback slot.1 event (r.takeOut event)).bind fun (_, r) =>
        plainEvents callback slot rounds r

/-- The slot of a level that the clock has just reached. -/
def clearSlot (callback : Callback α S) (level : ℕ) (r : WheelState α S) :
    Option (WheelState α S) :=
  if numSlots ^ level ∣ r.wheel.now 0 then
    plainEvents callback (r.wheel.currentSlot level)
      (r.wheel.slots.list (r.wheel.currentSlot level)).length r
  else some r

/-- The slots from a level on, the outermost first. -/
def clearSlots (callback : Callback α S) :
    (outer level : ℕ) → WheelState α S → Option (WheelState α S)
  | 0, level, r => clearSlot callback level r
  | outer + 1, level, r =>
    (clearSlots callback outer (level + 1) r).bind (clearSlot callback level)

/-- All clocks show the time of the core wheel, and nothing is pending. -/
def sync (r : WheelState α S) : WheelState α S :=
  { r with wheel :=
    { r.wheel with
      now := fun level =>
        if level < numLevels then r.wheel.now 0 / numSlots ^ level else r.wheel.now level
      ticksPending := 0 } }

/-- Ticks, one after another. -/
def plainAdvance (callback : Callback α S) : ℕ → WheelState α S → Option (WheelState α S)
  | 0, r => some r
  | delta + 1, r =>
    (clearSlots callback maxLevel 0 (r.goOn 0).sync).bind (plainAdvance callback delta)

/-- What is left to do: the tick that was stopped, and the ticks after it. -/
def settle (callback : Callback α S) (delta : ℕ) (r : WheelState α S) :
    Option (WheelState α S) :=
  if r.wheel.ticksPending = 0 then plainAdvance callback delta r
  else
    (clearSlots callback maxLevel 0 r.sync).bind
      (plainAdvance callback (r.wheel.ticksPending - 1 + delta))

/-! ## What is pending does not matter -/

variable {callback : Callback α S} {Inv : TimerQueue α → S → Prop} {horizon opened level : ℕ}
  {r r' : WheelState α S} {event : α}

theorem schedule_withPending (p : ℕ) (event : α) (delta : ℕ) (w : TimerWheel α) :
    (w.withPending p).schedule event delta =
      (w.schedule event delta).map (TimerWheel.withPending p) := by
  unfold TimerWheel.schedule
  split
  · rfl
  · have hnow : (w.withPending p).now = w.now := rfl
    rw [hnow]
    dsimp only
    cases TimerWheel.findLevel w.now numLevels 0 delta <;> rfl

theorem call_withPending (p : ℕ) (r : WheelState α S) (c : WheelCall α) :
    (r.withPending p).call c = (r.call c).map (withPending p) := by
  cases c with
  | schedule event delta =>
    show ((r.wheel.withPending p).schedule event delta).map _ =
      ((r.wheel.schedule event delta).map _).map _
    rw [schedule_withPending, Option.map_map, Option.map_map]
    rfl
  | scheduleInRange event first last =>
    have hrange : (r.wheel.withPending p).scheduleInRange event first last =
        (r.wheel.scheduleInRange event first last).map (TimerWheel.withPending p) := by
      have hactive : (r.wheel.withPending p).active event = r.wheel.active event := rfl
      have hat : (r.wheel.withPending p).scheduledAt = r.wheel.scheduledAt := rfl
      have hnow : (r.wheel.withPending p).now = r.wheel.now := rfl
      unfold TimerWheel.scheduleInRange
      rw [schedule_withPending, hactive, hat, hnow]
      split
      · rfl
      · rw [apply_ite (Option.map (TimerWheel.withPending p))]
        rfl
    show ((r.wheel.withPending p).scheduleInRange event first last).map _ =
      ((r.wheel.scheduleInRange event first last).map _).map _
    rw [hrange, Option.map_map, Option.map_map]
    rfl
  | cancel event => rfl

theorem calls_withPending (p : ℕ) (r : WheelState α S) (calls : List (WheelCall α)) :
    calls.foldlM call (r.withPending p) = (calls.foldlM call r).map (withPending p) := by
  induction calls generalizing r with
  | nil => rfl
  | cons c calls ih =>
    rw [List.foldlM_cons, List.foldlM_cons, call_withPending]
    cases r.call c with
    | none => rfl
    | some r₁ => exact ih r₁

theorem execute_withPending (hblind : callback.Blind) (p : ℕ) (r : WheelState α S) :
    (r.withPending p).execute callback event = (r.execute callback event).map (withPending p) := by
  have happly : callback event (r.withPending p).wheel r.client =
      callback event r.wheel r.client := hblind event r.wheel p r.client
  unfold execute
  dsimp only
  have hclient : (r.withPending p).client = r.client := rfl
  rw [hclient, happly, ← calls_withPending]
  rfl

theorem processEvent_withPending (hblind : callback.Blind) (p : ℕ) (r : WheelState α S) :
    processEvent callback level event (r.withPending p) =
      (processEvent callback level event r).map (Prod.map id (withPending p)) := by
  unfold processEvent
  have hnow : (r.withPending p).wheel.now = r.wheel.now := rfl
  have hat : (r.withPending p).wheel.scheduledAt = r.wheel.scheduledAt := rfl
  rw [hnow, hat]
  split
  · rfl
  · split
    · show ((r.wheel.withPending p).schedule event _).map _ =
        ((r.wheel.schedule event _).map _).map _
      rw [schedule_withPending, Option.map_map, Option.map_map]
      rfl
    · rw [execute_withPending hblind, Option.map_map, Option.map_map]
      rfl

/-! ## One slot -/

/-- What is needed to clear a slot: the invariant within a tick. -/
structure Ready (Inv : TimerQueue α → S → Prop) (horizon opened level : ℕ)
    (r : WheelState α S) : Prop where
  dvd : numSlots ^ level ∣ r.wheel.now 0
  clocked : r.wheel.Clocked
  placed : r.wheel.Placed opened
  client : Inv r.wheel.queue r.client
  now_le : r.wheel.now 0 ≤ horizon

/-- A slot is empty, or its first event can be processed, and all is as before with one event
less in the slot. -/
theorem Ready.cases (h : r.Ready Inv horizon opened level) (hkeeps : callback.Keeps Inv horizon) :
    r.wheel.slots.pop (r.wheel.currentSlot level) = none ∨
      ∃ event executed r₁, r.wheel.slots.pop (r.wheel.currentSlot level) =
          some (event, r.wheel.slots.relink event none) ∧
        processEvent callback level event (r.takeOut event) = some (executed, r₁) ∧
        r₁.Ready Inv horizon opened level ∧
        r₁.wheel.currentSlot level = r.wheel.currentSlot level ∧
        (r₁.wheel.slots.list (r.wheel.currentSlot level)).length <
          (r.wheel.slots.list (r.wheel.currentSlot level)).length := by
  cases hpop : r.wheel.slots.pop (r.wheel.currentSlot level) with
  | none => exact .inl rfl
  | some popped =>
    obtain ⟨event, slots⟩ := popped
    obtain ⟨rfl, l, hl, hrest⟩ := SlotLists.pop_eq_some_iff.mp hpop
    have hslot : r.wheel.slots.slot event = some (r.wheel.currentSlot level) := by
      rw [← SlotLists.mem_iff, hl]
      exact List.mem_cons_self
    obtain ⟨executed, r₁, hevent, hinv₁, hwithin, hlength⟩ :=
      processEvent_spec hkeeps h.dvd h.clocked h.placed h.client h.now_le hslot
    refine .inr ⟨event, executed, r₁, rfl, hevent, ⟨hwithin.now ▸ h.dvd,
      hwithin.clocked h.clocked, hwithin.placed, hinv₁, hwithin.now ▸ h.now_le⟩,
      hwithin.currentSlot level, (hlength level).trans_lt ?_⟩
    show ((r.wheel.slots.relink event none).list _).length < _
    rw [hrest, hl]
    exact Nat.lt_succ_self _

theorem plainEvents_of_empty {slot : ℕ × ℕ} (h : r.wheel.slots.pop slot = none) (rounds : ℕ) :
    plainEvents callback slot rounds r = some r := by
  cases rounds with
  | zero =>
    rw [plainEvents, SlotLists.pop_eq_none_iff.mp h]
    rfl
  | succ rounds => rw [plainEvents, h]

/-- More rounds than there are events make no difference. -/
theorem Ready.plainEvents_eq (h : r.Ready Inv horizon opened level)
    (hkeeps : callback.Keeps Inv horizon) {rounds rounds' : ℕ}
    (hle : (r.wheel.slots.list (r.wheel.currentSlot level)).length ≤ rounds)
    (hle' : (r.wheel.slots.list (r.wheel.currentSlot level)).length ≤ rounds') :
    plainEvents callback (r.wheel.currentSlot level) rounds r =
      plainEvents callback (r.wheel.currentSlot level) rounds' r := by
  induction rounds generalizing r rounds' with
  | zero =>
    have hnone := SlotLists.pop_eq_none_iff.mpr (List.length_eq_zero_iff.mp (Nat.le_zero.mp hle))
    rw [plainEvents_of_empty hnone, plainEvents_of_empty hnone]
  | succ rounds ih =>
    rcases h.cases hkeeps with hnone | ⟨event, executed, r₁, hpop, hevent, h₁, hcurrent, hlt⟩
    · rw [plainEvents_of_empty hnone, plainEvents_of_empty hnone]
    · cases rounds' with
      | zero => omega
      | succ rounds' =>
        have hevent' : processEvent callback (r.wheel.currentSlot level).1 event
            (r.takeOut event) = some (executed, r₁) := hevent
        rw [plainEvents, plainEvents, hpop]
        dsimp only
        rw [hevent', Option.bind_some, Option.bind_some]
        have hlt' : (r₁.wheel.slots.list (r₁.wheel.currentSlot level)).length <
            (r.wheel.slots.list (r.wheel.currentSlot level)).length := hcurrent ▸ hlt
        rw [← hcurrent]
        exact ih h₁ (by omega) (by omega)

/-- What the loop over a slot leaves to do is what is left of it. -/
theorem Ready.processEvents (h : r.Ready Inv horizon opened level)
    (hkeeps : callback.Keeps Inv horizon) (hblind : callback.Blind) {rounds maxEvents : ℕ}
    {through : Bool}
    (hle : (r.wheel.slots.list (r.wheel.currentSlot level)).length ≤ rounds)
    (hrun : WheelState.processEvents callback (r.wheel.currentSlot level) rounds maxEvents r =
      some (through, r')) :
    plainEvents callback (r.wheel.currentSlot level) rounds (r.withPending 0) =
      if through then some (r'.withPending 0)
      else plainEvents callback (r.wheel.currentSlot level)
        (r'.wheel.slots.list (r.wheel.currentSlot level)).length (r'.withPending 0) := by
  induction rounds generalizing r maxEvents with
  | zero =>
    have hnil := List.length_eq_zero_iff.mp (Nat.le_zero.mp hle)
    rw [WheelState.processEvents, hnil] at hrun
    cases hrun
    exact plainEvents_of_empty (r := r'.withPending 0) (SlotLists.pop_eq_none_iff.mpr hnil) 0
  | succ rounds ih =>
    rw [WheelState.processEvents] at hrun
    rcases h.cases hkeeps with hnone | ⟨event, executed, r₁, hpop, hevent, h₁, hcurrent, hlt⟩
    · rw [hnone] at hrun
      cases hrun
      exact plainEvents_of_empty (r := r'.withPending 0) hnone _
    · have hevent₁ : WheelState.processEvent callback (r.wheel.currentSlot level).1 event
          { r with wheel := { r.wheel with slots := r.wheel.slots.relink event none } } =
            some (executed, r₁) := hevent
      have hevent₂ : WheelState.processEvent callback (r.wheel.currentSlot level).1 event
          ((r.withPending 0).takeOut event) = some (executed, r₁.withPending 0) :=
        (processEvent_withPending hblind 0 (r.takeOut event)).trans (congrArg (Option.map _) hevent)
      have hpop' : (r.withPending 0).wheel.slots.pop (r.wheel.currentSlot level) =
        some (event, r.wheel.slots.relink event none) := hpop
      rw [hpop] at hrun
      dsimp only at hrun
      rw [hevent₁, Option.bind_some] at hrun
      dsimp only at hrun
      rw [plainEvents, hpop']
      dsimp only
      rw [hevent₂, Option.bind_some]
      generalize (if executed = true then toTick (maxEvents + 2 ^ 64 - 1) else maxEvents) = left
        at hrun
      have hle' : (r₁.wheel.slots.list (r₁.wheel.currentSlot level)).length ≤ rounds := by
        rw [hcurrent]
        omega
      rw [← hcurrent] at hrun ⊢
      split at hrun
      next =>
        -- stopped: the events left are those of the slot
        obtain ⟨rfl, rfl⟩ := Prod.mk.inj (Option.some.inj hrun)
        have h₀ : (r₁.withPending 0).Ready Inv horizon opened level :=
          ⟨h₁.dvd, h₁.clocked, h₁.placed, h₁.client, h₁.now_le⟩
        exact h₀.plainEvents_eq hkeeps hle' le_rfl
      next => exact ih h₁ hle' hrun

/-! ## The slots of a tick -/

omit [DecidableEq α] in
theorem sync_of_clocked (h : r.wheel.Clocked) : r.sync = r.withPending 0 := by
  have hnow : (fun level => if level < numLevels then r.wheel.now 0 / numSlots ^ level
      else r.wheel.now level) = r.wheel.now := by
    funext level
    split_ifs with hlevel
    · exact (h level hlevel).symm
    · rfl
  unfold sync
  rw [hnow]
  rfl

omit [DecidableEq α] in
theorem sync_goOn (hpos : level ≠ 0) (hlevel : level < numLevels) (r : WheelState α S) :
    (r.goOn level).sync = r.sync := by
  have hzero : (r.wheel.goOn level).now 0 = r.wheel.now 0 :=
    TimerWheel.goOn_now_of_ne hpos.symm r.wheel
  have hnow : (fun l => if l < numLevels then (r.wheel.goOn level).now 0 / numSlots ^ l
      else (r.wheel.goOn level).now l) = fun l =>
        if l < numLevels then r.wheel.now 0 / numSlots ^ l else r.wheel.now l := by
    funext l
    rw [hzero]
    split_ifs with hl
    · rfl
    · exact TimerWheel.goOn_now_of_ne (by omega) r.wheel
  have hlog : (r.goOn level).log = r.log := if_neg hpos
  unfold sync
  rw [hlog]
  show WheelState.mk { r.wheel with now := _, ticksPending := 0 } _ _ = _
  rw [← hnow]
  rfl

/-- The slots of levels that are not open are empty. -/
theorem clearSlots_of_placed (h : r.wheel.Placed level) (outer : ℕ) :
    clearSlots callback outer level r = some r := by
  have hclear : ∀ l, level ≤ l → clearSlot callback l r = some r := by
    intro l hl
    unfold clearSlot
    split
    · have hempty : r.wheel.slots.list (r.wheel.currentSlot l) = [] := by
        refine List.eq_nil_iff_forall_not_mem.mpr fun event hmem => ?_
        have hslot := (r.wheel.slots.mem_iff _ _).mp hmem
        obtain ⟨-, hindex, -, hahead | ⟨hopen, -⟩⟩ := h event _ hslot
        · exact hahead.mark_ne hindex.symm
        · exact absurd hopen (not_lt.mpr hl)
      exact plainEvents_of_empty (SlotLists.pop_eq_none_iff.mpr hempty) _
    · rfl
  suffices hall : ∀ l, level ≤ l → clearSlots callback outer l r = some r from hall level le_rfl
  induction outer with
  | zero => exact hclear
  | succ outer ih =>
    intro l hl
    rw [clearSlots, ih (l + 1) (by omega), Option.bind_some, hclear l hl]

/-- The slot of a level, when those outside are cleared. -/
theorem Ready.processSlot (h : r.Ready Inv horizon (level + 1) level)
    (hkeeps : callback.Keeps Inv horizon) (hblind : callback.Blind) {maxEvents : ℕ} {through : Bool}
    (hrun : WheelState.processSlot callback maxEvents (r.wheel.currentSlot level) r =
      some (through, r')) :
    r'.wheel.Clocked ∧ r'.wheel.Placed (level + 1) ∧
      clearSlot callback level r.sync =
        if through then some r'.sync else clearSlot callback level r'.sync := by
  obtain ⟨through₁, r₁, hspec, -, hwithin, -⟩ :=
    processEvents_spec hkeeps h.dvd h.clocked h.placed h.client h.now_le le_rfl maxEvents
  obtain ⟨rfl, rfl⟩ := Prod.mk.inj (Option.some.inj (hspec.symm.trans hrun))
  have hclocked := hwithin.clocked h.clocked
  have hleft := h.processEvents hkeeps hblind le_rfl hrun
  refine ⟨hclocked, hwithin.placed, ?_⟩
  rw [sync_of_clocked h.clocked, sync_of_clocked hclocked]
  have hthis : clearSlot callback level (r.withPending 0) =
      plainEvents callback (r.wheel.currentSlot level)
        (r.wheel.slots.list (r.wheel.currentSlot level)).length (r.withPending 0) :=
    if_pos h.dvd
  have hnext : clearSlot callback level (r₁.withPending 0) =
      plainEvents callback (r.wheel.currentSlot level)
        (r₁.wheel.slots.list (r.wheel.currentSlot level)).length (r₁.withPending 0) := by
    have hdvd : numSlots ^ level ∣ (r₁.withPending 0).wheel.now 0 := by
      show numSlots ^ level ∣ r₁.wheel.now 0
      rw [hwithin.now]
      exact h.dvd
    rw [clearSlot, if_pos hdvd, ← hwithin.currentSlot]
    rfl
  rw [hthis, hnext, hleft]

/-- The slots from a level on: what is left to do is what was left before. -/
theorem clearSlots_processSlot {outer maxEvents : ℕ} {r₁ : WheelState α S} {through : Bool}
    (hkeeps : callback.Keeps Inv horizon) (hblind : callback.Blind)
    (h : r₁.Ready Inv horizon (level + 1) level)
    (hclear : clearSlots callback outer (level + 1) r.sync = some r₁.sync)
    (hrun : WheelState.processSlot callback maxEvents (r₁.wheel.currentSlot level) r₁ =
      some (through, r')) :
    clearSlots callback (outer + 1) level r.sync =
      if through then some r'.sync else clearSlots callback (outer + 1) level r'.sync := by
  obtain ⟨hclocked, hplaced, hleft⟩ := h.processSlot hkeeps hblind hrun
  have hempty : clearSlots callback outer (level + 1) r'.sync = some r'.sync := by
    rw [sync_of_clocked hclocked]
    exact clearSlots_of_placed (r := r'.withPending 0) hplaced outer
  rw [clearSlots, clearSlots, hclear, hempty, Option.bind_some, Option.bind_some, hleft]

/-- The slots of a tick, whether they are cleared in one call or not. -/
theorem clearSlots_processCurrentSlot (hkeeps : callback.Keeps Inv horizon)
    (hhorizon : horizon < 2 ^ 64) (hblind : callback.Blind) (outer level : ℕ) {maxEvents : ℕ}
    {through : Bool} (hlevel : outer + level = maxLevel) (hdvd : numSlots ^ level ∣ r.wheel.now 0)
    (hclient : Inv r.wheel.queue r.client) (hclocks : ClocksAt level r.wheel)
    (hplaced : r.wheel.Placed numLevels) (hnow : r.wheel.now 0 ≤ horizon)
    (hrun : processCurrentSlot callback maxEvents outer level
      (r.wheel.now 0 / numSlots ^ level) r = some (through, r')) :
    clearSlots callback outer level r.sync =
      if through then some r'.sync else clearSlots callback outer level r'.sync := by
  have hmax : numLevels = maxLevel + 1 := rfl
  induction outer generalizing level r r' through with
  | zero =>
    have hclocked : r.wheel.Clocked := by
      unfold ClocksAt at hclocks
      split_ifs at hclocks
      · exact hclocks.clocked_of_le (by omega)
      · exact hclocks
    have hplaced₁ : r.wheel.Placed (level + 1) := hplaced.mono (by omega)
    exact (Ready.processSlot ⟨hdvd, hclocked, hplaced₁, hclient, hnow⟩ hkeeps hblind hrun).2.2
  | succ outer ih =>
    rw [processCurrentSlot] at hrun
    split at hrun
    next hmask =>
      have hcarry : numSlots ^ (level + 1) ∣ r.wheel.now 0 := (pow_succ_dvd_iff hdvd).mpr hmask
      obtain ⟨r₁, hr₁, hclocks₁, hplaced₁, heq⟩ :=
        advanceOn_eq (processCurrentSlot callback maxEvents outer (level + 1))
          (hnow.trans_lt hhorizon) (by omega) hcarry hclocks hplaced
      have hzero := next_now hr₁
      have hdvd₁ := hzero ▸ hcarry
      have hclient₁ := next_client hr₁ hclient
      obtain ⟨through₁, r₂, hrun₁, hpasses⟩ :=
        processCurrentSlot_spec hkeeps hhorizon maxEvents outer (level + 1) (by omega) hdvd₁
          hclient₁ hclocks₁ hplaced₁ (hzero ▸ hnow)
      have hleft := ih (level + 1) (by omega) hdvd₁ hclient₁ hclocks₁ hplaced₁ (hzero ▸ hnow) hrun₁
      have hpasses := hpasses.of_next hr₁
      have hsync : r₁.sync = r.sync := by
        rcases hr₁ with rfl | rfl
        · rfl
        · exact sync_goOn (Nat.succ_ne_zero level) (by omega) r
      rw [hsync] at hleft
      rw [heq, hrun₁, Option.map_some] at hrun
      dsimp only at hrun
      cases through₁ with
      | false =>
        -- stopped on a level outside
        rw [andThen_false] at hrun
        obtain ⟨rfl, rfl⟩ := Prod.mk.inj (Option.some.inj hrun)
        have hsame : (if false = true ∨ r.wheel.ticksPending ≠ 0 then r₂
            else r₂.withPending 1).sync = r₂.sync := by
          split_ifs <;> rfl
        rw [hsame]
        exact congrArg (Option.bind · (clearSlot callback level)) hleft
      | true =>
        rw [if_pos (.inl rfl)] at hpasses hrun
        rw [andThen_true] at hrun
        have hslot : r₂.wheel.currentSlot level =
            (level, mask (r.wheel.now 0 / numSlots ^ level)) := by
          unfold TimerWheel.currentSlot
          rw [hpasses.now]
        rw [← hslot] at hrun
        exact clearSlots_processSlot hkeeps hblind ⟨hpasses.now ▸ hdvd, hpasses.clocked,
          hpasses.placed, hpasses.client, hpasses.now ▸ hnow⟩ hleft hrun
    next hmask =>
      have hcarry : ¬ numSlots ^ (level + 1) ∣ r.wheel.now 0 := fun hcarry =>
        hmask ((pow_succ_dvd_iff hdvd).mp hcarry)
      have hclocked : r.wheel.Clocked := by
        unfold ClocksAt at hclocks
        split_ifs at hclocks
        · exact hclocks.clocked hcarry
        · exact hclocks
      have hplaced₁ : r.wheel.Placed (level + 1) := hplaced.of_not_dvd hcarry
      refine clearSlots_processSlot hkeeps hblind ⟨hdvd, hclocked, hplaced₁, hclient, hnow⟩ ?_ hrun
      rw [sync_of_clocked hclocked]
      exact clearSlots_of_placed (r := r.withPending 0) hplaced₁ outer

/-! ## Calls of `advance` -/

theorem plainAdvance_add (m n : ℕ) (r : WheelState α S) :
    plainAdvance callback (m + n) r =
      (plainAdvance callback m r).bind (plainAdvance callback n) := by
  induction m generalizing r with
  | zero => rw [Nat.zero_add]; rfl
  | succ m ih =>
    rw [Nat.succ_add, plainAdvance, plainAdvance, Option.bind_assoc]
    exact congrArg _ (funext ih)

theorem settle_add (m n : ℕ) (r : WheelState α S) :
    settle callback (m + n) r = (settle callback m r).bind (plainAdvance callback n) := by
  unfold settle
  split
  · exact plainAdvance_add m n r
  · rw [Option.bind_assoc, ← Nat.add_assoc]
    exact congrArg _ (funext fun r => plainAdvance_add _ n r)

/-- The loop of `advance`, whether it got through or was stopped. -/
theorem plainAdvance_advanceLoop (hkeeps : callback.Keeps Inv horizon)
    (hhorizon : horizon < 2 ^ 64) (hblind : callback.Blind) (maxEvents delta : ℕ)
    {through : Bool} (hgood : r.Good Inv) (hpending : r.wheel.ticksPending = 0)
    (hnow : r.wheel.now 0 + delta ≤ horizon)
    (hrun : advanceLoop (processCurrentSlot callback maxEvents maxLevel 0) 0 delta r =
      some (through, r')) :
    plainAdvance callback delta r = settle callback 0 r' := by
  induction delta generalizing r with
  | zero =>
    cases hrun
    rw [settle, if_pos hpending]
  | succ delta ih =>
    obtain ⟨hzero, hclient, hclocks, hplaced, -⟩ :=
      hgood.goOn hkeeps hhorizon hpending (by omega)
    have hnow₀ : (r.goOn 0).wheel.now 0 ≤ horizon := by
      rw [hzero]
      omega
    obtain ⟨through₁, r₁, hrun₁, hpasses⟩ :=
      processCurrentSlot_spec hkeeps hhorizon maxEvents maxLevel 0 (r := r.goOn 0) rfl
        (one_dvd _) hclient hclocks hplaced hnow₀
    have hleft := clearSlots_processCurrentSlot hkeeps hhorizon hblind maxLevel 0 (r := r.goOn 0)
      rfl (one_dvd _) hclient hclocks hplaced hnow₀ hrun₁
    rw [Nat.pow_zero, Nat.div_one] at hrun₁
    rw [advanceLoop] at hrun
    dsimp only at hrun
    rw [hrun₁] at hrun
    rw [plainAdvance, hleft]
    cases through₁ with
    -- stopped in this tick: what is left of it is left to settle
    | false =>
      cases hrun
      rw [settle, if_neg (Nat.succ_ne_zero delta)]
      rfl
    | true =>
      have hpending₁ : r₁.wheel.ticksPending = 0 := (hpasses.pending (.inl rfl)).trans hpending
      have hsync : r₁.sync = r₁ := by
        rw [sync_of_clocked hpasses.clocked, withPending, TimerWheel.withPending, ← hpending₁]
      have hnow₁ : r₁.wheel.now 0 = r.wheel.now 0 + 1 := hpasses.now.trans hzero
      rw [if_pos rfl, Option.bind_some, hsync]
      exact ih (hpasses.good hpending₁) hpending₁ (by omega) hrun

/-- A call of `advance` leaves to do what it does not do itself. -/
theorem settle_advance (hkeeps : callback.Keeps Inv horizon) (hhorizon : horizon < 2 ^ 64)
    (hblind : callback.Blind) {delta maxExecute : ℕ} {through : Bool} (hgood : r.Good Inv)
    (htarget : r.wheel.target + delta ≤ horizon)
    (hrun : advance callback delta maxExecute r = some (through, r')) :
    settle callback 0 r' = settle callback delta r := by
  unfold advance advanceOn at hrun
  by_cases hpending : r.wheel.ticksPending = 0
  · have hnow : r.wheel.target = r.wheel.now 0 := by
      rw [TimerWheel.target, hpending]
      rfl
    rw [if_neg (not_not_intro hpending)] at hrun
    split at hrun
    next => cases hrun
    next =>
      rw [settle.eq_def callback delta, if_pos hpending]
      exact (plainAdvance_advanceLoop hkeeps hhorizon hblind maxExecute delta hgood hpending
        (hnow ▸ htarget) hrun).symm
  · -- a stopped tick: its slots are cleared first, then the ticks left over follow
    obtain ⟨hsum, hminus, -, hclocks, hplaced⟩ := hgood.resume hpending
      (htarget.trans_lt hhorizon)
    have hnow : r.wheel.now 0 ≤ horizon := (Nat.le_add_right ..).trans
      ((Nat.le_add_right ..).trans htarget)
    obtain ⟨through₁, r₁, hrun₁, hpasses⟩ :=
      processCurrentSlot_spec hkeeps hhorizon maxExecute maxLevel 0
        (r := r.withPending (r.wheel.ticksPending + delta)) rfl (one_dvd _) hgood.client hclocks
        hplaced hnow
    have hleft := clearSlots_processCurrentSlot hkeeps hhorizon hblind maxLevel 0
      (r := r.withPending (r.wheel.ticksPending + delta)) rfl (one_dvd _) hgood.client hclocks
      hplaced hnow hrun₁
    have hpending₁ : r₁.wheel.ticksPending = r.wheel.ticksPending + delta :=
      hpasses.pending (.inr fun hzero => hpending (Nat.add_eq_zero_iff.mp hzero).1)
    have hrun₂ : processCurrentSlot callback maxExecute maxLevel 0 (r.wheel.now 0)
        (r.withPending (r.wheel.ticksPending + delta)) = some (through₁, r₁) := by
      rw [Nat.pow_zero, Nat.div_one] at hrun₁
      exact hrun₁
    rw [if_pos hpending, if_pos rfl, hsum] at hrun
    change Progress.andThen (processCurrentSlot callback maxExecute maxLevel 0 (r.wheel.now 0)
      (r.withPending (r.wheel.ticksPending + delta))) _ = _ at hrun
    rw [hrun₂] at hrun
    have hask : r.wheel.ticksPending - 1 + delta = r.wheel.ticksPending + delta - 1 := by omega
    have hstart : settle callback delta r = (clearSlots callback maxLevel 0 r.sync).bind
        (plainAdvance callback (r.wheel.ticksPending + delta - 1)) := by
      rw [settle, if_neg hpending, hask]
    have hleft' : clearSlots callback maxLevel 0 r.sync =
        if through₁ then some r₁.sync else clearSlots callback maxLevel 0 r₁.sync := hleft
    rw [hstart, hleft']
    cases through₁ with
    -- stopped again inside the same tick
    | false =>
      rw [andThen_false] at hrun
      obtain ⟨rfl, rfl⟩ := Prod.mk.inj (Option.some.inj hrun)
      rw [settle, if_neg (by rw [hpending₁]; omega), hpending₁]
      rfl
    -- the tick is through: the rest is the loop from a wheel that is not stopped
    | true =>
      rw [andThen_true, if_pos rfl] at hrun
      dsimp only at hrun
      rw [hpending₁, hminus] at hrun
      rw [if_pos rfl, Option.bind_some, sync_of_clocked hpasses.clocked]
      have hgood₁ : Good Inv (r₁.withPending 0) :=
        ⟨hpasses.client, hpasses.clocked, hpasses.placed, fun hne => absurd rfl hne⟩
      have hnow₁ : r₁.wheel.now 0 = r.wheel.now 0 := hpasses.now
      refine (plainAdvance_advanceLoop hkeeps hhorizon hblind maxExecute _ hgood₁ rfl ?_ hrun).symm
      show r₁.wheel.now 0 + _ ≤ _
      unfold TimerWheel.target at htarget
      omega

/-- Whatever limits the calls of `advance` have: what is left to do in the end is what was to be
done at the beginning, and the ticks that were asked for. -/
theorem settle_run {trace : List (WheelState α S × WheelStep α)}
    (hkeeps : callback.Keeps Inv horizon) (hhorizon : horizon < 2 ^ 64) (hblind : callback.Blind)
    (hgood : r.Good Inv) (h : Run (step callback) r trace r')
    (hallowed : ∀ e ∈ trace, e.2.Allowed horizon e.1.wheel)
    (hadvance : ∀ e ∈ trace, ∃ delta maxExecute, e.2 = .advance delta maxExecute) :
    r'.Good Inv ∧
      settle callback 0 r' = settle callback (trace.map fun e => e.2.delta).sum r := by
  induction h with
  | nil => exact ⟨hgood, rfl⟩
  | @snoc trace r₁ r₂ c hrun hstep ih =>
    obtain ⟨htrace, hc⟩ := List.forall_mem_append.mp hallowed
    obtain ⟨hadvances, hlast⟩ := List.forall_mem_append.mp hadvance
    obtain ⟨hgood₁, hsettle⟩ := ih htrace hadvances
    have hc := hc _ List.mem_cons_self
    obtain ⟨delta, maxExecute, rfl⟩ : ∃ delta maxExecute, c = .advance delta maxExecute :=
      hlast _ List.mem_cons_self
    obtain ⟨⟨through, r₂⟩, hcall, rfl⟩ := Option.map_eq_some_iff.mp hstep
    obtain ⟨through', r₃, hcall', hgood₃, -⟩ :=
      advance_spec hkeeps hhorizon hgood₁ hc.1 hc.2 maxExecute
    obtain ⟨rfl, rfl⟩ := Prod.mk.inj (Option.some.inj (hcall'.symm.trans hcall))
    have hnext := settle_advance hkeeps hhorizon hblind hgood₁ hc.2 hcall
    have hsum : ((trace ++ [(r₁, WheelStep.advance delta maxExecute)]).map
        fun e : WheelState α S × WheelStep α => e.2.delta).sum =
          (trace.map fun e => e.2.delta).sum + delta := by
      rw [List.map_append, List.sum_append]
      simp [WheelStep.delta]
    refine ⟨hgood₃, ?_⟩
    rw [hsum, settle_add, ← hsettle, ← settle_add, Nat.zero_add]
    exact hnext

/-- Calls of `advance` that ask for as many ticks in all, and leave nothing pending, lead to the
same state, with whatever limits and in whatever portions. -/
theorem advances_agree {trace₁ trace₂ : List (WheelState α S × WheelStep α)}
    {r₁ r₂ : WheelState α S} (hkeeps : callback.Keeps Inv horizon) (hhorizon : horizon < 2 ^ 64)
    (hblind : callback.Blind) (hgood : r.Good Inv)
    (h₁ : Run (step callback) r trace₁ r₁) (h₂ : Run (step callback) r trace₂ r₂)
    (hallowed : ∀ e ∈ trace₁ ++ trace₂, e.2.Allowed horizon e.1.wheel)
    (hadvance : ∀ e ∈ trace₁ ++ trace₂, ∃ delta maxExecute, e.2 = .advance delta maxExecute)
    (hsum : (trace₁.map fun e => e.2.delta).sum = (trace₂.map fun e => e.2.delta).sum)
    (hdone₁ : r₁.wheel.ticksPending = 0) (hdone₂ : r₂.wheel.ticksPending = 0) : r₁ = r₂ := by
  obtain ⟨hallowed₁, hallowed₂⟩ := List.forall_mem_append.mp hallowed
  obtain ⟨hadvance₁, hadvance₂⟩ := List.forall_mem_append.mp hadvance
  have hleft₁ := (settle_run hkeeps hhorizon hblind hgood h₁ hallowed₁ hadvance₁).2
  have hleft₂ := (settle_run hkeeps hhorizon hblind hgood h₂ hallowed₂ hadvance₂).2
  rw [settle, if_pos hdone₁] at hleft₁
  rw [settle, if_pos hdone₂] at hleft₂
  exact Option.some.inj (hleft₁.trans (by rw [hsum, ← hleft₂]; rfl))

/-- Two events wait for the tick 2. -/
def twoWaiting : WheelState ℕ Unit where
  wheel := ((TimerWheel.create 0 fun _ => 0).putAt 5 2 0).putAt 6 2 0
  client := ()
  log := [.schedule 5 2, .schedule 6 2]

/-- Calls that execute one event at a time do what calls without a limit do. -/
theorem advances_agree_one_by_one : ∃ (trace₁ trace₂ : List (WheelState ℕ Unit × WheelStep ℕ))
    (r₁ r₂ : WheelState ℕ Unit), Run (step idle) twoWaiting trace₁ r₁ ∧
      Run (step idle) twoWaiting trace₂ r₂ ∧
      trace₁.map Prod.snd = [.advance 3 1, .advance 0 1, .advance 0 1] ∧
      trace₂.map Prod.snd = [.advance 1 9, .advance 2 9] ∧
      r₁.log = twoWaiting.log ++ [.tick, .tick, .fire 6, .fire 5, .tick] ∧ r₁ = r₂ := by
  have hbefore : Run (step idle) (start 0 (fun _ => 0) ()) _ twoWaiting :=
    Run.nil.snoc (a := .call (.schedule 5 2)) rfl |>.snoc (a := .call (.schedule 6 2)) rfl
  have hgood := (run_keeps (idle_safe 1000) (by decide) trivial hbefore (by decide)).1
  have h₁ : Run (step idle) twoWaiting _ _ := Run.nil.snoc (a := .advance 3 1) rfl
    |>.snoc (a := .advance 0 1) rfl |>.snoc (a := .advance 0 1) rfl
  have h₂ : Run (step idle) twoWaiting _ _ := Run.nil.snoc (a := .advance 1 9) rfl
    |>.snoc (a := .advance 2 9) rfl
  refine ⟨_, _, _, _, h₁, h₂, rfl, rfl, rfl, ?_⟩
  exact advances_agree (keeps_of_safe (idle_safe 1000)) (by decide) (fun _ _ _ _ => rfl) hgood
    h₁ h₂ (by decide) (by simp) rfl rfl rfl

end WheelState

end SampleTools
