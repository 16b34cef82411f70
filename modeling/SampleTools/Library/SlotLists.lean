import Mathlib.Data.List.Nodup
import Mathlib.Logic.Function.Basic
import Mathlib.Tactic.Common

/-!
# Lists kept in slots, and their links

Elements are kept in the lists of slots, each element in one list at most, and each knows its
slot. A new element of a list is its first one. In memory such a list is a chain of links: every
element knows the next one and the one before.

## Main definitions

* `SlotLists`: the lists of the slots, with the slot of each element
* `SlotLists.relink`, `SlotLists.pop`: an element moves to a slot or out of its slot, and the
  first one of a slot is taken out
* `Linked next prev back head l`: the links of a list from its head on
* `writeAt`: a write through a pointer that may be null

## Main results

* `SlotLists.list_relink`, `SlotLists.pop_eq_some_iff`: what moves
* `Linked.cons`, `Linked.erase`: the links of a list with a new head, and of a list without one
  of its elements
-/

variable {κ α : Type*}

/-! ## Slots -/

/-- Lists of different elements, one for each slot, and the slot of each element. -/
structure SlotLists (κ α : Type*) where
  list : κ → List α
  slot : α → Option κ
  nodup : ∀ k, (list k).Nodup
  mem_iff : ∀ a k, a ∈ list k ↔ slot a = some k

namespace SlotLists

/-- All slots are empty. -/
def empty : SlotLists κ α where
  list _ := []
  slot _ := none
  nodup _ := .nil
  mem_iff _ _ := iff_of_false List.not_mem_nil (Option.some_ne_none _).symm

variable {s s' : SlotLists κ α} {a b : α} {k k' : κ}

theorem notMem_of_slot_ne (h : s.slot a ≠ some k) : a ∉ s.list k :=
  fun hmem => h ((s.mem_iff a k).mp hmem)

variable [DecidableEq κ] [DecidableEq α]

/-- An element moves in front of the list of a slot, or out of its slot. It stays at its place
if it is in that slot. -/
def relink (a : α) (new : Option κ) (s : SlotLists κ α) : SlotLists κ α :=
  if hnew : new = s.slot a then s
  else
    { list := fun k => if new = some k then a :: s.list k else (s.list k).erase a
      slot := Function.update s.slot a new
      nodup := fun k => by
        split
        next hk => exact List.nodup_cons.mpr ⟨s.notMem_of_slot_ne (hk ▸ Ne.symm hnew), s.nodup k⟩
        next => exact (s.nodup k).erase a
      mem_iff := fun b k => by
        by_cases hb : b = a
        · subst hb
          rw [Function.update_self]
          split
          next hk => simp [hk]
          next hk => exact iff_of_false (s.nodup k).not_mem_erase hk
        · rw [Function.update_of_ne hb]
          split
          next => rw [List.mem_cons, or_iff_right hb, s.mem_iff]
          next => rw [List.mem_erase_of_ne hb, s.mem_iff] }

/-- The first element of a slot, and the lists without it. -/
def pop (k : κ) (s : SlotLists κ α) : Option (α × SlotLists κ α) :=
  (s.list k).head?.map fun a => (a, s.relink a none)

theorem relink_of_slot_eq {new : Option κ} (h : new = s.slot a) : s.relink a new = s := dif_pos h

@[simp] theorem slot_relink_self (a : α) (new : Option κ) (s : SlotLists κ α) :
    (s.relink a new).slot a = new := by
  unfold relink
  split
  next h => exact h.symm
  next => exact Function.update_self ..

theorem slot_relink_of_ne (h : b ≠ a) (new : Option κ) (s : SlotLists κ α) :
    (s.relink a new).slot b = s.slot b := by
  unfold relink
  split
  next => rfl
  next => exact Function.update_of_ne h ..

theorem slot_relink (a b : α) (new : Option κ) (s : SlotLists κ α) :
    (s.relink a new).slot b = if b = a then new else s.slot b := by
  split_ifs with h
  · rw [h, slot_relink_self]
  · exact slot_relink_of_ne h new s

theorem list_relink {new : Option κ} (h : new ≠ s.slot a) (k : κ) :
    (s.relink a new).list k = if new = some k then a :: s.list k else (s.list k).erase a := by
  unfold relink
  rw [dif_neg h]

/-- No other slot gets an event. -/
theorem length_relink_le {new : Option κ} (h : new ≠ some k) :
    ((s.relink a new).list k).length ≤ (s.list k).length := by
  by_cases hslot : new = s.slot a
  · have hstay := relink_of_slot_eq hslot
    exact Nat.le_of_eq (by rw [hstay])
  · rw [list_relink hslot, if_neg h]
    exact List.length_erase_le

theorem length_relink_none_le (a : α) (k : κ) (s : SlotLists κ α) :
    ((s.relink a none).list k).length ≤ (s.list k).length :=
  length_relink_le (Option.some_ne_none k).symm

theorem pop_eq_none_iff : s.pop k = none ↔ s.list k = [] := by
  rw [pop, Option.map_eq_none_iff, List.head?_eq_none_iff]

theorem pop_of_list_eq {l : List α} (h : s.list k = a :: l) :
    s.pop k = some (a, s.relink a none) := by
  rw [pop, h]
  rfl

/-- What is taken out is the first element, and the others stay as they are. -/
theorem pop_eq_some_iff : s.pop k = some (a, s') ↔
    s' = s.relink a none ∧ ∃ l, s.list k = a :: l ∧ s'.list k = l := by
  constructor
  · intro h
    obtain ⟨b, hb, heq⟩ := Option.map_eq_some_iff.mp h
    cases heq
    obtain ⟨l, hl⟩ := List.head?_eq_some_iff.mp hb
    refine ⟨rfl, l, hl, ?_⟩
    have hslot : s.slot a = some k := (s.mem_iff a k).mp (by rw [hl]; exact List.mem_cons_self)
    have hnone : none ≠ some k := (Option.some_ne_none k).symm
    rw [list_relink (hslot ▸ hnone), if_neg hnone, hl, List.erase_cons_head]
  · rintro ⟨rfl, l, hl, -⟩
    exact pop_of_list_eq hl

end SlotLists

/-! ## Links -/

/-- A write through a pointer, unless it is null. -/
def writeAt [DecidableEq α] {β : Type*} (f : α → β) (at? : Option α) (b : β) : α → β :=
  at?.elim f fun a => Function.update f a b

/-- From `head` on, `next` leads through the elements of `l`, and `prev` leads back to `back`. -/
def Linked (next prev : α → Option α) (back head : Option α) : List α → Prop
  | [] => head = none
  | a :: l => head = some a ∧ prev a = back ∧ Linked next prev (some a) (next a) l

section WriteAt

variable [DecidableEq α] {β : Type*} {f : α → β} {a a' : α} {b : β}

@[simp] theorem writeAt_none (f : α → β) (b : β) : writeAt f none b = f := rfl

@[simp] theorem writeAt_some (f : α → β) (a : α) (b : β) :
    writeAt f (some a) b = Function.update f a b := rfl

theorem writeAt_of_ne {at? : Option α} (h : at? ≠ some a) : writeAt f at? b a = f a := by
  cases at? with
  | none => rfl
  | some a' => exact Function.update_of_ne (fun heq => h (congrArg some heq.symm)) ..

end WriteAt

namespace Linked

variable {next prev next' prev' : α → Option α} {back head : Option α} {l l₁ l₂ : List α} {a : α}

theorem head_eq (h : Linked next prev back head l) : head = l.head? := by
  cases l with
  | nil => exact h
  | cons a l => exact h.1

/-- The links of a list do not depend on those of other elements. -/
theorem congr (h : Linked next prev back head l) (hnext : ∀ a ∈ l, next' a = next a)
    (hprev : ∀ a ∈ l, prev' a = prev a) : Linked next' prev' back head l := by
  induction l generalizing back head with
  | nil => exact h
  | cons a l ih =>
    obtain ⟨hhead, hback, hrest⟩ := h
    rw [List.forall_mem_cons] at hnext hprev
    refine ⟨hhead, hprev.1.trans hback, ?_⟩
    rw [hnext.1]
    exact ih hrest hnext.2 hprev.2

/-- The neighbours of an element. -/
theorem neighbours (h : Linked next prev back head (l₁ ++ a :: l₂)) :
    prev a = l₁.getLast?.or back ∧ Linked next prev (some a) (next a) l₂ := by
  induction l₁ generalizing back head with
  | nil => exact h.2
  | cons b l₁ ih =>
    obtain ⟨hprev, hrest⟩ := ih h.2.2
    refine ⟨?_, hrest⟩
    rw [hprev, List.getLast?_cons]
    cases l₁.getLast? <;> rfl

variable [DecidableEq α]

/-- The pointer back from the first element is written. -/
theorem write_back (h : Linked next prev back head l) (hl : l.Nodup) (back' : Option α) :
    Linked next (writeAt prev head back') back' head l := by
  cases l with
  | nil => exact h
  | cons a l =>
    obtain ⟨rfl, -, hrest⟩ := h
    refine ⟨rfl, Function.update_self .., hrest.congr (fun _ _ => rfl) fun b hb => ?_⟩
    have hne : b ≠ a := fun hba => (List.nodup_cons.mp hl).1 (hba ▸ hb)
    exact Function.update_of_ne hne ..

/-- A new head. -/
theorem cons (h : Linked next prev none head l) (hl : (a :: l).Nodup) :
    Linked (Function.update next a head)
      (Function.update (writeAt prev head (some a)) a none) none (some a) (a :: l) := by
  obtain ⟨ha, hl⟩ := List.nodup_cons.mp hl
  have hne : ∀ b ∈ l, b ≠ a := fun b hb hba => ha (hba ▸ hb)
  refine ⟨rfl, Function.update_self .., ?_⟩
  rw [Function.update_self]
  exact (h.write_back hl _).congr (fun b hb => Function.update_of_ne (hne b hb) ..)
    fun b hb => Function.update_of_ne (hne b hb) ..

/-- The neighbours of an element are linked to each other, and the element is out of the list. -/
theorem erase (h : Linked next prev back head (l₁ ++ a :: l₂)) (hl : (l₁ ++ a :: l₂).Nodup)
    (hback : ∀ b ∈ l₁ ++ a :: l₂, back ≠ some b) :
    Linked (writeAt next (prev a) (next a)) (writeAt prev (next a) (prev a)) back
      (if l₁ = [] then next a else head) (l₁ ++ l₂) := by
  induction l₁ generalizing back head with
  | nil =>
    obtain ⟨-, rfl, hrest⟩ := h
    rw [if_pos rfl]
    refine (hrest.write_back (List.nodup_cons.mp hl).2 _).congr (fun b hb => ?_) fun _ _ => rfl
    exact writeAt_of_ne (hback b (List.mem_cons_of_mem a hb))
  | cons b l₁ ih =>
    obtain ⟨hhead, hb, hrest⟩ := h
    obtain ⟨hnot, hl⟩ := List.nodup_cons.mp hl
    have hprev := hrest.neighbours.1
    have hnext := hrest.neighbours.2.head_eq
    have ih := ih hrest hl fun c hc hbc => hnot (Option.some.inj hbc ▸ hc)
    rw [if_neg (List.cons_ne_nil b l₁)]
    refine ⟨hhead, ?_, ?_⟩
    · -- the pointer back that is written is that of an element after `a`
      rw [writeAt_of_ne, hb]
      intro heq
      have hmem : b ∈ l₂ := List.mem_of_head? (hnext.symm.trans heq)
      exact hnot (List.mem_append_right _ (List.mem_cons_of_mem a hmem))
    · cases l₁ with
      | nil =>
        -- `b` is the element before `a`
        have hwrite : writeAt next (prev a) (next a) b = next a := by
          rw [hprev]
          exact Function.update_self ..
        rw [hwrite]
        exact ih
      | cons c l₁ =>
        rw [if_neg (List.cons_ne_nil c l₁)] at ih
        rw [writeAt_of_ne]
        · exact ih
        · rw [hprev, List.getLast?_cons, Option.some_or]
          intro heq
          have hlast : (c :: l₁).getLast? = some b := List.getLast?_cons.trans heq
          exact hnot (List.mem_append_left _ (List.mem_of_getLast? hlast))

end Linked
