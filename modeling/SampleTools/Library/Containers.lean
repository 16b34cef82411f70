import Mathlib.Data.List.AList
import Mathlib.Data.List.Perm.Basic

/-!
# Containers

Iterating a hash container visits every element once, in an order the standard leaves
open. `IterOrder` is one such choice: it depends on the whole container, and a
statement about a program that iterates quantifies over it. A map is an association list, and
all its values can be changed by one function.

## Main definitions

* `IterOrder`: an order of iteration
* `AList.mapValues`: every value is changed

## Main results

* `IterOrder.mem_order`: the elements that are visited
* `AList.lookup_mapValues`: lookup after all values were changed
-/

/-- A visiting order for the elements of an unordered container. -/
structure IterOrder (α : Type*) where
  order : List α → List α
  perm : ∀ l, (order l).Perm l

namespace IterOrder

variable {α : Type*}

/-- The order in which the elements are stored. -/
def stored : IterOrder α := ⟨id, fun l => .refl l⟩

/-- The opposite order. -/
def reversed : IterOrder α := ⟨List.reverse, List.reverse_perm⟩

@[simp] theorem mem_order (o : IterOrder α) {l : List α} {a : α} : a ∈ o.order l ↔ a ∈ l :=
  (o.perm l).mem_iff

end IterOrder

/-! ## Changing every value of a map -/

section MapValues

variable {α β γ : Type*}

/-- Apply `f` to every value. -/
def AList.mapValues (f : β → γ) (m : AList fun _ : α => β) : AList fun _ : α => γ where
  entries := m.entries.map fun e => ⟨e.1, f e.2⟩
  nodupKeys := by
    have hkeys : (m.entries.map fun e => (⟨e.1, f e.2⟩ : Sigma fun _ : α => γ)).keys =
        m.entries.keys := by
      simp only [List.keys, List.map_map]
      rfl
    rw [List.NodupKeys, hkeys]
    exact m.nodupKeys

variable [DecidableEq α]

theorem List.dlookup_map_snd (f : β → γ) (a : α) (l : List (Sigma fun _ : α => β)) :
    List.dlookup a (l.map fun e => (⟨e.1, f e.2⟩ : Sigma fun _ : α => γ)) =
      (List.dlookup a l).map f := by
  induction l with
  | nil => rfl
  | cons e l ih =>
    obtain ⟨b, v⟩ := e
    -- the key of the first entry is the one looked up, or not
    by_cases h : a = b
    · subst h
      simp
    · rw [List.map_cons, List.dlookup_cons_ne _ _ h, List.dlookup_cons_ne _ _ h, ih]

@[simp] theorem AList.lookup_mapValues (f : β → γ) (m : AList fun _ : α => β) (a : α) :
    (m.mapValues f).lookup a = (m.lookup a).map f :=
  List.dlookup_map_snd f a m.entries

end MapValues
