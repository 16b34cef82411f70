import SampleTools.Library.Run
import SampleTools.Library.SlotLists

/-!
# The events in the slots of the timer wheel

`TimerEventInterface` and `TimerWheelSlot` keep the events of a slot in a doubly linked list
that the events carry themselves: `next_` and `prev_`, with `slot_` for the slot they are in and
`events_` in the slot for the first of them. `relink` moves an event, `cancel` takes it out of
its slot, and `pop_event` takes the first event out of a slot.

## Main definitions

* `EventLinks`: the pointers of all events and slots
* `EventLinks.relink`, `EventLinks.cancel`, `EventLinks.popEvent`: the functions of the code
* `EventLinks.Holds`: the pointers hold these lists

## Main results

* `EventLinks.Holds.relink`, `EventLinks.Holds.popEvent`: what the functions do to the lists
* `EventLinks.callAll_refines`: any calls, on the lists
-/

namespace SampleTools

variable {κ α : Type*}

/-- `next_`, `prev_` and `slot_` of the events, and `events_` of the slots. -/
structure EventLinks (κ α : Type*) where
  next : α → Option α
  prev : α → Option α
  slot : α → Option κ
  events : κ → Option α

namespace EventLinks

/-- Events and slots after their constructors. -/
def initial : EventLinks κ α := ⟨fun _ => none, fun _ => none, fun _ => none, fun _ => none⟩

section Functions

variable [DecidableEq κ] [DecidableEq α]

/-- The first part of `relink`: "unlink from old location". -/
def unlink (a : α) (k : κ) (m : EventLinks κ α) : EventLinks κ α :=
  let prev := m.prev a
  let next := m.next a
  let m := { m with prev := writeAt m.prev next prev }
  match prev with
  | some p => { m with next := Function.update m.next p next }
  -- at the head of the slot: the next item is moved to the head
  | none => { m with events := Function.update m.events k next }

/-- The second part of `relink`: "insert in new slot". -/
def link (a : α) (newSlot : Option κ) (m : EventLinks κ α) : EventLinks κ α :=
  let m := match newSlot with
    | some k =>
      let old := m.events k
      { m with
        next := Function.update m.next a old
        prev := writeAt m.prev old (some a)
        events := Function.update m.events k (some a) }
    | none => { m with next := Function.update m.next a none }
  { m with prev := Function.update m.prev a none, slot := Function.update m.slot a newSlot }

/-- `relink`. -/
def relink (a : α) (newSlot : Option κ) (m : EventLinks κ α) : EventLinks κ α :=
  if newSlot = m.slot a then m
  else
    let m := (m.slot a).elim m fun k => m.unlink a k
    m.link a newSlot

/-- `TimerEventInterface::cancel`. -/
def cancel (a : α) (m : EventLinks κ α) : EventLinks κ α :=
  match m.slot a with
  | none => m
  | some _ => m.relink a none

/-- `pop_event`; on an empty slot it would follow a null pointer. -/
def popEvent (k : κ) (m : EventLinks κ α) : Option (α × EventLinks κ α) :=
  (m.events k).map fun event =>
    let m := { m with events := Function.update m.events k (m.next event) }
    let m := { m with prev := writeAt m.prev (m.events k) none }
    (event, { m with
      next := Function.update m.next event none, slot := Function.update m.slot event none })

end Functions

/-- Each event knows its slot, the events of a slot are linked from its `events_`, and `next_`
and `prev_` of an event in no slot are null. -/
structure HoldsLists (m : EventLinks κ α) (slot : α → Option κ) (list : κ → List α) : Prop where
  slot_eq : m.slot = slot
  linked : ∀ k, Linked m.next m.prev none (m.events k) (list k)
  next_free : ∀ a, slot a = none → m.next a = none
  prev_free : ∀ a, slot a = none → m.prev a = none

/-- The pointers hold the lists. -/
def Holds (m : EventLinks κ α) (s : SlotLists κ α) : Prop := m.HoldsLists s.slot s.list

theorem holds_initial : (initial : EventLinks κ α).Holds .empty :=
  ⟨rfl, fun _ => rfl, fun _ _ => rfl, fun _ _ => rfl⟩

variable {m m' : EventLinks κ α} {s s' : SlotLists κ α} {a : α} {k : κ}

/-- What is linked to an event of a slot is in that slot, too. -/
theorem Holds.neighbours_mem (h : m.Holds s) (ha : a ∈ s.list k) {b : α} :
    (m.prev a = some b → b ∈ s.list k) ∧ (m.next a = some b → b ∈ s.list k) := by
  obtain ⟨l₁, l₂, hlist⟩ := List.append_of_mem ha
  have hlinked := h.linked k
  rw [hlist] at hlinked ⊢
  obtain ⟨hprev, hnext⟩ := hlinked.neighbours
  rw [hprev, Option.or_none, hnext.head_eq]
  constructor
  · intro hb
    exact List.mem_append_left _ (List.mem_of_getLast? hb)
  · intro hb
    exact List.mem_append_right _ (List.mem_cons_of_mem a (List.mem_of_head? hb))

/-- A slot has a first event exactly if its list has one. -/
theorem Holds.events_eq (h : m.Holds s) (k : κ) : m.events k = (s.list k).head? :=
  (h.linked k).head_eq

variable [DecidableEq κ] [DecidableEq α]

/-! ## Out of a slot -/

theorem unlink_eq (a : α) (k : κ) (m : EventLinks κ α) :
    m.unlink a k =
      { m with
        next := writeAt m.next (m.prev a) (m.next a)
        prev := writeAt m.prev (m.next a) (m.prev a)
        events :=
          if m.prev a = none then Function.update m.events k (m.next a) else m.events } := by
  unfold unlink
  cases m.prev a <;> rfl

/-- After "unlink from old location" the slots hold the lists without the event. -/
theorem Holds.unlink (h : m.Holds s) (ha : s.slot a = some k) (k' : κ) :
    Linked (m.unlink a k).next (m.unlink a k).prev none ((m.unlink a k).events k')
      ((s.list k').erase a) := by
  have hmem : a ∈ s.list k := (s.mem_iff a k).mpr ha
  rw [unlink_eq]
  by_cases hk : k' = k
  · subst hk
    obtain ⟨l₁, l₂, hlist⟩ := List.append_of_mem hmem
    have hlinked := h.linked k'
    have hnodup := s.nodup k'
    rw [hlist] at hlinked hnodup ⊢
    have hnot : a ∉ l₁ := fun hin =>
      (List.nodup_append.mp hnodup).2.2 a hin a List.mem_cons_self rfl
    have herase := hlinked.erase hnodup fun b _ => (Option.some_ne_none b).symm
    rw [List.erase_append_right _ hnot, List.erase_cons_head]
    have hprev : m.prev a = none ↔ l₁ = [] := by
      rw [hlinked.neighbours.1, Option.or_none, List.getLast?_eq_none_iff]
    simp only [hprev]
    split_ifs with hnil
    · rw [if_pos hnil] at herase
      rw [Function.update_self]
      exact herase
    · rw [if_neg hnil] at herase
      exact herase
  · -- another slot: none of its events is written
    have hother : ∀ b ∈ s.list k', b ∉ s.list k := fun b hb hb' =>
      hk (Option.some.inj (((s.mem_iff b k').mp hb).symm.trans ((s.mem_iff b k).mp hb')))
    have hnot : a ∉ s.list k' := fun hin => hother a hin hmem
    have hevents : (if m.prev a = none then Function.update m.events k (m.next a)
        else m.events) k' = m.events k' := by
      split_ifs
      · exact Function.update_of_ne hk ..
      · rfl
    dsimp only
    rw [List.erase_of_not_mem hnot, hevents]
    refine (h.linked k').congr (fun b hb => writeAt_of_ne ?_) fun b hb => writeAt_of_ne ?_
    · exact fun heq => hother b hb ((h.neighbours_mem hmem).1 heq)
    · exact fun heq => hother b hb ((h.neighbours_mem hmem).2 heq)

/-- After the first part of `relink`, whether the event is in a slot or not. -/
theorem Holds.unlinked (h : m.Holds s) (a : α) :
    ((m.slot a).elim m fun k => m.unlink a k).HoldsLists s.slot fun k => (s.list k).erase a := by
  rw [h.slot_eq]
  cases ha : s.slot a with
  | none =>
    have hnot : ∀ k, a ∉ s.list k := fun k =>
      s.notMem_of_slot_ne (ha ▸ (Option.some_ne_none k).symm)
    refine ⟨h.slot_eq, fun k => ?_, h.next_free, h.prev_free⟩
    rw [List.erase_of_not_mem (hnot k)]
    exact h.linked k
  | some k =>
    have hmem : a ∈ s.list k := (s.mem_iff a k).mpr ha
    have hfree : ∀ b, s.slot b = none → b ∉ s.list k := fun b hb =>
      s.notMem_of_slot_ne (hb ▸ (Option.some_ne_none k).symm)
    have hunlink := h.unlink ha
    show (m.unlink a k).HoldsLists _ _
    rw [unlink_eq] at hunlink ⊢
    refine ⟨h.slot_eq, hunlink, fun b hb => ?_, fun b hb => ?_⟩
    · show writeAt m.next _ _ b = none
      rw [writeAt_of_ne fun heq => hfree b hb ((h.neighbours_mem hmem).1 heq), h.next_free b hb]
    · show writeAt m.prev _ _ b = none
      rw [writeAt_of_ne fun heq => hfree b hb ((h.neighbours_mem hmem).2 heq), h.prev_free b hb]

/-! ## Into a slot -/

/-- The second part of `relink`. -/
theorem HoldsLists.link (h : m.HoldsLists s.slot fun k => (s.list k).erase a) {new : Option κ}
    (hnew : new ≠ s.slot a) : (m.link a new).Holds (s.relink a new) := by
  have hne : ∀ {k b}, b ∈ (s.list k).erase a → b ≠ a := fun {k b} hb hba =>
    (s.nodup k).not_mem_erase (hba ▸ hb)
  have hslot : (s.relink a new).slot = Function.update s.slot a new :=
    funext fun b => (SlotLists.slot_relink a b new s).trans (Function.update_apply ..).symm
  cases new with
  | none =>
    refine ⟨?_, fun k => ?_, fun b hb => ?_, fun b hb => ?_⟩
    · rw [hslot, ← h.slot_eq]
      rfl
    · rw [SlotLists.list_relink hnew, if_neg (Option.some_ne_none k).symm]
      exact (h.linked k).congr (fun b hb => Function.update_of_ne (hne hb) ..)
        fun b hb => Function.update_of_ne (hne hb) ..
    · show Function.update m.next a none b = none
      rw [Function.update_apply]
      split_ifs with hba
      · rfl
      · exact h.next_free b ((SlotLists.slot_relink_of_ne hba none s).symm.trans hb)
    · show Function.update m.prev a none b = none
      rw [Function.update_apply]
      split_ifs with hba
      · rfl
      · exact h.prev_free b ((SlotLists.slot_relink_of_ne hba none s).symm.trans hb)
  | some k =>
    have hnot : a ∉ s.list k := s.notMem_of_slot_ne hnew.symm
    -- the old first event of the new slot
    have hold : ∀ {b}, m.events k = some b → b ∈ (s.list k).erase a := fun {b} hb =>
      List.mem_of_head? ((h.linked k).head_eq.symm.trans hb)
    have hin : ∀ {b}, b ∈ (s.list k).erase a → s.slot b = some k := fun hb =>
      (s.mem_iff _ k).mp (List.mem_of_mem_erase hb)
    refine ⟨?_, fun k' => ?_, fun b hb => ?_, fun b hb => ?_⟩
    · rw [hslot, ← h.slot_eq]
      rfl
    · rw [SlotLists.list_relink hnew]
      by_cases hk : k = k'
      · subst hk
        have hlinked := h.linked k
        rw [List.erase_of_not_mem hnot] at hlinked
        rw [if_pos rfl]
        show Linked _ _ none (Function.update m.events k (some a) k) _
        rw [Function.update_self]
        exact hlinked.cons (List.nodup_cons.mpr ⟨hnot, s.nodup k⟩)
      · rw [if_neg fun heq => hk (Option.some.inj heq)]
        show Linked _ _ none (Function.update m.events k (some a) k') _
        rw [Function.update_of_ne (Ne.symm hk)]
        refine (h.linked k').congr (fun b hb => Function.update_of_ne (hne hb) ..) fun b hb => ?_
        have hslot' := (s.mem_iff b k').mp (List.mem_of_mem_erase hb)
        refine (Function.update_of_ne (hne hb) ..).trans (writeAt_of_ne fun heq => hk ?_)
        exact Option.some.inj ((hin (hold heq)).symm.trans hslot')
    · have hba : b ≠ a := by
        rintro rfl
        rw [SlotLists.slot_relink_self] at hb
        cases hb
      rw [SlotLists.slot_relink_of_ne hba] at hb
      exact (Function.update_of_ne hba ..).trans (h.next_free b hb)
    · have hba : b ≠ a := by
        rintro rfl
        rw [SlotLists.slot_relink_self] at hb
        cases hb
      rw [SlotLists.slot_relink_of_ne hba] at hb
      have hwrite : writeAt m.prev (m.events k) (some a) b = m.prev b :=
        writeAt_of_ne fun heq => by
          rw [hin (hold heq)] at hb
          cases hb
      exact (Function.update_of_ne hba ..).trans (hwrite.trans (h.prev_free b hb))

theorem Holds.relink (h : m.Holds s) (a : α) (new : Option κ) :
    (m.relink a new).Holds (s.relink a new) := by
  unfold EventLinks.relink
  split
  next hnew =>
    rw [SlotLists.relink_of_slot_eq (hnew.trans (congrFun h.slot_eq a))]
    exact h
  next hnew =>
    refine (h.unlinked a).link fun heq => hnew ?_
    rw [heq, h.slot_eq]

/-! ## Every call -/

theorem cancel_eq (a : α) (m : EventLinks κ α) : m.cancel a = m.relink a none := by
  unfold cancel
  cases ha : m.slot a with
  | none => rw [relink, if_pos ha.symm]
  | some k => rfl

/-- The first event of a slot is taken out as `relink` would do it. -/
theorem Holds.popEvent (h : m.Holds s) {l : List α} (hl : s.list k = a :: l) :
    m.popEvent k = some (a, m.relink a none) := by
  have hlinked := h.linked k
  have hnodup := s.nodup k
  rw [hl] at hlinked hnodup
  obtain ⟨hhead, hprev, hrest⟩ := hlinked
  have hslot : m.slot a = some k := by
    rw [h.slot_eq, ← s.mem_iff, hl]
    exact List.mem_cons_self
  have hself : m.next a ≠ some a := fun heq =>
    (List.nodup_cons.mp hnodup).1 (List.mem_of_head? (hrest.head_eq.symm.trans heq))
  have hback : Function.update (writeAt m.prev (m.next a) none) a none =
      writeAt m.prev (m.next a) none := by
    rw [Function.update_eq_self_iff, writeAt_of_ne hself, hprev]
  have hrelink : m.relink a none = (m.unlink a k).link a none := by
    rw [EventLinks.relink, if_neg (hslot ▸ (Option.some_ne_none k).symm), hslot]
    rfl
  rw [hrelink, unlink_eq, hprev, EventLinks.link]
  simp only [hback, writeAt_none, if_true]
  rw [EventLinks.popEvent, hhead]
  simp

end EventLinks

/-- The calls that move events. -/
inductive SlotCall (κ α : Type*)
  | relink (event : α) (newSlot : Option κ)
  | cancel (event : α)
  | popEvent (slot : κ)

variable [DecidableEq κ] [DecidableEq α]

/-- A call on the pointers, with the event it returns. -/
def EventLinks.call (m : EventLinks κ α) : SlotCall κ α → Option (Option α × EventLinks κ α)
  | .relink a new => some (none, m.relink a new)
  | .cancel a => some (none, m.cancel a)
  | .popEvent k => (m.popEvent k).map fun (a, m) => (some a, m)

/-- The call on the lists. -/
def callOnLists (s : SlotLists κ α) : SlotCall κ α → Option (Option α × SlotLists κ α)
  | .relink a new => some (none, s.relink a new)
  | .cancel a => some (none, s.relink a none)
  | .popEvent k => (s.pop k).map fun (a, s) => (some a, s)

theorem EventLinks.Holds.call_refines {m : EventLinks κ α} {s : SlotLists κ α} (h : m.Holds s)
    (c : SlotCall κ α) : Option.Rel (Agree EventLinks.Holds) (m.call c) (callOnLists s c) := by
  cases c with
  | relink a new => exact .some ⟨rfl, h.relink a new⟩
  | cancel a =>
    refine .some ⟨rfl, ?_⟩
    rw [EventLinks.cancel_eq]
    exact h.relink a none
  | popEvent k =>
    show Option.Rel _ (Option.map _ (m.popEvent k)) (Option.map _ (s.pop k))
    cases hl : s.list k with
    | nil =>
      have hevents := h.events_eq k
      rw [hl] at hevents
      rw [SlotLists.pop_eq_none_iff.mpr hl, EventLinks.popEvent, hevents]
      exact .none
    | cons a l =>
      rw [h.popEvent hl, SlotLists.pop_of_list_eq hl]
      exact .some ⟨rfl, h.relink a none⟩

/-- Whatever is called, the events form the lists of their slots, and the calls return what they
return on the lists. -/
theorem EventLinks.callAll_refines (calls : List (SlotCall κ α)) :
    Option.Rel (Agree EventLinks.Holds) (callAll EventLinks.call .initial calls)
      (callAll callOnLists .empty calls) :=
  callAll_rel (fun _ _ c h => h.call_refines c) EventLinks.holds_initial calls

end SampleTools
