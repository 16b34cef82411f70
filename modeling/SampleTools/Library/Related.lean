import Mathlib.Data.List.Forall2
import Mathlib.Algebra.BigOperators.Group.List.Basic
import Mathlib.Algebra.Order.BigOperators.Group.List
import Mathlib.Algebra.Order.Group.Nat

/-!
# Lists related entry by entry, and lists of chunks

What holds of every entry of one list can be carried to the entries of a related list; a loop
that can fail succeeds exactly if it does so at every entry; and a byte string cut into chunks
of one length has no other cut into as many chunks that are no shorter.
-/

variable {α β : Type*}

theorem List.Forall₂.exists_left {R : α → β → Prop} {as : List α} {bs : List β}
    (h : List.Forall₂ R as bs) : ∀ b ∈ bs, ∃ a ∈ as, R a b := by
  induction h with
  | nil => simp
  | cons hab _ ih =>
    simp only [List.mem_cons, forall_eq_or_imp, exists_eq_or_imp]
    exact ⟨.inl hab, fun b hb => .inr (ih b hb)⟩

theorem List.Forall₂.exists_right {R : α → β → Prop} {as : List α} {bs : List β}
    (h : List.Forall₂ R as bs) : ∀ a ∈ as, ∃ b ∈ bs, R a b :=
  List.Forall₂.exists_left (List.Forall₂.flip h)

/-- A map that never fails relates every entry to its value. -/
theorem List.forall₂_of_mapM {f : α → Option β} {as : List α} {bs : List β}
    (h : as.mapM f = some bs) : List.Forall₂ (fun a b => f a = some b) as bs := by
  induction as generalizing bs with
  | nil =>
    cases h
    exact .nil
  | cons a as ih =>
    rw [List.mapM_cons] at h
    obtain ⟨b, hb, h⟩ := Option.bind_eq_some_iff.mp h
    obtain ⟨bs, hbs, h⟩ := Option.bind_eq_some_iff.mp h
    cases h
    exact .cons hb (ih hbs)

/-- A map that can fail succeeds exactly if it does at every entry. -/
theorem List.isSome_mapM_iff {f : α → Option β} {as : List α} :
    (as.mapM f).isSome ↔ ∀ a ∈ as, (f a).isSome := by
  induction as with
  | nil => simp
  | cons a as ih =>
    rw [List.mapM_cons, List.forall_mem_cons, ← ih]
    cases f a with
    | none => simp
    | some b => cases as.mapM f <;> simp

/-- A loop that fails at certain entries, whatever it has so far. -/
theorem List.isSome_foldlM_iff {f : β → α → Option β} {P : α → Prop}
    (hf : ∀ b a, (f b a).isSome ↔ P a) (b : β) {as : List α} :
    (as.foldlM f b).isSome ↔ ∀ a ∈ as, P a := by
  induction as generalizing b with
  | nil => simp
  | cons a as ih =>
    rw [List.foldlM_cons, List.forall_mem_cons, ← hf b a]
    cases f b a with
    | none => simp
    | some b' => simpa using ih b'

/-- Chunks of one length are told apart in their concatenation, also from other cuts of it
into as many pieces that are no shorter. -/
theorem flatten_chunks_unique {n : ℕ} {xss yss : List (List α)}
    (hlen : xss.length = yss.length) (hflat : xss.flatten = yss.flatten)
    (hx : ∀ xs ∈ xss, xs.length = n) (hy : ∀ ys ∈ yss, n ≤ ys.length) : xss = yss := by
  induction xss generalizing yss with
  | nil => exact (List.length_eq_zero_iff.mp hlen.symm).symm
  | cons xs xss ih =>
    cases yss with
    | nil => cases hlen
    | cons ys yss =>
      simp only [List.length_cons, Nat.add_right_cancel_iff] at hlen
      simp only [List.mem_cons, forall_eq_or_imp] at hx hy
      -- as many chunks are left on either side, so there is no room for a longer `ys`
      have hxs : xss.flatten.length = xss.length * n := by
        rw [List.length_flatten, List.sum_eq_card_nsmul _ n (by simpa using hx.2)]
        simp
      have hys : yss.length * n ≤ yss.flatten.length := by
        rw [List.length_flatten]
        simpa using List.card_nsmul_le_sum (yss.map List.length) n (by simpa using hy.2)
      rw [List.flatten_cons, List.flatten_cons] at hflat
      have htotal := congrArg List.length hflat
      simp only [List.length_append] at htotal
      rw [hlen] at hxs
      obtain ⟨rfl, hrest⟩ := List.append_inj hflat (by omega)
      rw [ih hlen hrest hx.2 hy.2]
