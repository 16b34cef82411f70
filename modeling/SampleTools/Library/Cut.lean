import Mathlib.Algebra.Order.Group.Nat
import Mathlib.Data.List.TakeWhile
import Mathlib.Tactic.Common

/-!
# Cutting a list at separators

A list is cut at its separators, and with each separator that is found a number of elements is
skipped, of which it is the first. Where others than separators are skipped, they are lost.

## Main definitions

* `Cut.cut`: the pieces, unless the list ends inside of what is skipped
* `Cut.Lossless`: the pieces have all elements but the separators
* `Cut.runs`, `Cut.RunsDvd`: the separators between the other elements, and their numbers

## Main results

* `Cut.exists_separator`: a list up to its first separator
* `Cut.takeWhile_append_cons`, `Cut.dropWhile_append_cons`, `Cut.findIdx?_append_cons`: what is
  found with it
* `Cut.cut_sublist`: the pieces follow each other in the list
* `Cut.cut_one`: where only the separators are skipped
* `Cut.cut_lossless_iff`: when nothing else is lost
-/

namespace Cut

variable {α : Type*} {p : α → Bool} {n : ℕ} {a b l blk : List α} {c : α}

/-- The pieces of a list. At each separator `n` elements are skipped. -/
def cut (p : α → Bool) (n : ℕ) (l : List α) : Option (List (List α)) :=
  match _h : l.dropWhile (!p ·) with
  | [] => some [l]
  | _ :: b =>
    if n ≤ b.length + 1 then (cut p n (b.drop (n - 1))).map (l.takeWhile (!p ·) :: ·) else none
termination_by l.length
decreasing_by
  have hle := List.length_dropWhile_le (!p ·) l
  rw [_h, List.length_cons] at hle
  rw [List.length_drop]
  omega

/-- The separators between the other elements, together where nothing is between them. -/
def runs (p : α → Bool) (l : List α) : List (List α) := l.splitOnP (!p ·)

/-- The numbers of separators that stand together are multiples of `n`. -/
def RunsDvd (p : α → Bool) (n : ℕ) (l : List α) : Prop := ∀ run ∈ runs p l, n ∣ run.length

instance (p : α → Bool) (n : ℕ) (l : List α) : Decidable (RunsDvd p n l) :=
  inferInstanceAs (Decidable (∀ _ ∈ _, _))

/-! ## The first separator -/

/-- A list has no separator, or a first one. -/
theorem exists_separator (p : α → Bool) (l : List α) : (∀ x ∈ l, p x = false) ∨
    ∃ a c b, l = a ++ c :: b ∧ (∀ x ∈ a, p x = false) ∧ p c = true := by
  cases hfind : l.find? p with
  | none =>
    left
    intro x hx
    exact Bool.eq_false_iff.mpr (List.find?_eq_none.mp hfind x hx)
  | some c =>
    obtain ⟨hc, a, b, rfl, ha⟩ := List.find?_eq_some_iff_append.mp hfind
    exact .inr ⟨a, c, b, rfl, fun x hx => by simpa using ha x hx, hc⟩

section First

theorem takeWhile_append_cons (ha : ∀ x ∈ a, p x = true) (hc : p c = false) :
    (a ++ c :: b).takeWhile p = a := by
  rw [List.takeWhile_append_of_pos ha, List.takeWhile_cons_of_neg (by simp [hc]), List.append_nil]

theorem dropWhile_append_cons (ha : ∀ x ∈ a, p x = true) (hc : p c = false) :
    (a ++ c :: b).dropWhile p = c :: b := by
  rw [List.dropWhile_append_of_pos ha, List.dropWhile_cons_of_neg (by simp [hc])]

theorem findIdx?_append_cons (ha : ∀ x ∈ a, p x = false) (hc : p c = true) :
    (a ++ c :: b).findIdx? p = some a.length := by
  rw [List.findIdx?_append, List.findIdx?_eq_none_iff.mpr ha, List.findIdx?_cons, hc]
  simp

variable [DecidableEq α]

theorem takeWhile_ne_append (ha : c ∉ a) : (a ++ c :: b).takeWhile (· ≠ c) = a :=
  takeWhile_append_cons (fun _ hx => decide_eq_true (ne_of_mem_of_not_mem hx ha)) (by simp)

theorem dropWhile_ne_append (ha : c ∉ a) : (a ++ c :: b).dropWhile (· ≠ c) = c :: b :=
  dropWhile_append_cons (fun _ hx => decide_eq_true (ne_of_mem_of_not_mem hx ha)) (by simp)

theorem findIdx?_eq_append (ha : c ∉ a) : (a ++ c :: b).findIdx? (· = c) = some a.length :=
  findIdx?_append_cons (fun _ hx => decide_eq_false (ne_of_mem_of_not_mem hx ha)) (by simp)

end First

/-! ## One piece after the other -/

theorem cut_of_none (h : ∀ x ∈ l, p x = false) : cut p n l = some [l] := by
  have hdrop : l.dropWhile (!p ·) = [] :=
    List.dropWhile_eq_nil_iff.mpr fun x hx => by simp [h x hx]
  rw [cut]
  split
  · rfl
  next heq =>
    rw [hdrop] at heq
    cases heq

theorem cut_append (ha : ∀ x ∈ a, p x = false) (hc : p c = true) : cut p n (a ++ c :: b) =
    if n ≤ b.length + 1 then (cut p n (b.drop (n - 1))).map (a :: ·) else none := by
  have hkept : ∀ x ∈ a, (!p x) = true := fun x hx => by simp [ha x hx]
  have hdrop : (a ++ c :: b).dropWhile (!p ·) = c :: b :=
    dropWhile_append_cons hkept (by simp [hc])
  have htake : (a ++ c :: b).takeWhile (!p ·) = a := takeWhile_append_cons hkept (by simp [hc])
  rw [cut]
  split
  next heq =>
    rw [hdrop] at heq
    cases heq
  next heq =>
    rw [hdrop] at heq
    cases heq
    rw [htake]

/-- The pieces follow each other in the list. -/
theorem cut_sublist {pieces : List (List α)} (h : cut p n l = some pieces) :
    pieces.flatten.Sublist l := by
  induction hlength : l.length using Nat.strong_induction_on generalizing l pieces with
  | h k ih =>
    rcases exists_separator p l with hnone | ⟨a, c, b, rfl, ha, hc⟩
    · rw [cut_of_none hnone] at h
      cases h
      simp
    · rw [cut_append ha hc] at h
      split_ifs at h
      obtain ⟨rest, hrest, rfl⟩ := Option.map_eq_some_iff.mp h
      have hshort : (b.drop (n - 1)).length < k := by
        rw [List.length_drop, ← hlength, List.length_append, List.length_cons]
        omega
      have htail := (ih _ hshort hrest rfl).trans (List.drop_sublist (n - 1) b)
      rw [List.flatten_cons]
      exact List.Sublist.append_left (htail.cons c) a

/-- With nothing skipped but the separator, the list is split. -/
theorem cut_one (p : α → Bool) (l : List α) : cut p 1 l = some (l.splitOnP p) := by
  induction hlength : l.length using Nat.strong_induction_on generalizing l with
  | h k ih =>
    rcases exists_separator p l with hnone | ⟨a, c, b, rfl, ha, hc⟩
    · rw [cut_of_none hnone, List.splitOnP_eq_singleton hnone]
    · have hshort : b.length < k := by
        rw [← hlength, List.length_append, List.length_cons]
        omega
      rw [cut_append ha hc, if_pos (Nat.le_add_left 1 _), Nat.sub_self, List.drop_zero,
        ih _ hshort b rfl, List.splitOnP_append_cons_of_forall_mem ha c hc]
      rfl

/-! ## The pieces between one element -/

section SplitOn

variable [DecidableEq α]

theorem not_mem_of_mem_splitOn {piece : List α} (h : piece ∈ l.splitOn c) : c ∉ piece := by
  induction l generalizing piece with
  | nil =>
    rw [List.splitOn_nil, List.mem_singleton] at h
    subst h
    exact List.not_mem_nil
  | cons x l ih =>
    rw [List.splitOn_cons_eq_if_modifyHead] at h
    split_ifs at h with hx
    · rcases List.mem_cons.mp h with rfl | h
      · exact List.not_mem_nil
      · exact ih h
    · have hne : ¬ x = c := by simpa using hx
      cases hpieces : l.splitOn c with
      | nil => exact absurd hpieces (List.splitOn_ne_nil c l)
      | cons first rest =>
        rw [hpieces, List.modifyHead_cons] at h
        rcases List.mem_cons.mp h with rfl | h
        · have hfirst : c ∉ first := ih (by rw [hpieces]; exact List.mem_cons_self)
          exact fun hmem => (List.mem_cons.mp hmem).elim (fun heq => hne heq.symm) hfirst
        · exact ih (by rw [hpieces]; exact List.mem_cons_of_mem _ h)

theorem length_splitOn (c : α) (l : List α) : (l.splitOn c).length = l.count c + 1 := by
  induction l with
  | nil => rfl
  | cons x l ih =>
    rw [List.splitOn_cons_eq_if_modifyHead, List.count_cons]
    split_ifs with hx
    · rw [List.length_cons, ih]
    · rw [List.length_modifyHead, ih, Nat.add_zero]

end SplitOn

/-! ## Separators that stand together -/

theorem runsDvd_nil (p : α → Bool) (n : ℕ) : RunsDvd p n [] := by
  simp [RunsDvd, runs]

/-- What is no separator has no part in it. -/
theorem runsDvd_append_of_none (ha : ∀ x ∈ a, p x = false) :
    RunsDvd p n (a ++ l) ↔ RunsDvd p n l := by
  induction a with
  | nil => rfl
  | cons x a ih =>
    obtain ⟨hx, ha⟩ := List.forall_mem_cons.mp ha
    have hruns : runs p (x :: (a ++ l)) = [] :: runs p (a ++ l) := by
      simp [runs, List.splitOnP_cons_eq_if_modifyHead, hx]
    rw [List.cons_append, ← ih ha, RunsDvd, hruns, List.forall_mem_cons]
    exact and_iff_right (Nat.dvd_zero n)

theorem runs_append_of_all (hblk : ∀ x ∈ blk, p x = true) :
    runs p (blk ++ l) = (runs p l).modifyHead (blk ++ ·) := by
  induction blk with
  | nil =>
    cases hruns : runs p l <;> simp [hruns]
  | cons x blk ih =>
    obtain ⟨hx, hblk⟩ := List.forall_mem_cons.mp hblk
    have hcons : runs p (x :: (blk ++ l)) = (runs p (blk ++ l)).modifyHead (x :: ·) := by
      simp [runs, List.splitOnP_cons_eq_if_modifyHead, hx]
    rw [List.cons_append, hcons, ih hblk]
    cases runs p l <;> rfl

/-- Nor have `n` separators. -/
theorem runsDvd_append_of_all (hblk : ∀ x ∈ blk, p x = true) (hn : blk.length = n) :
    RunsDvd p n (blk ++ l) ↔ RunsDvd p n l := by
  unfold RunsDvd
  rw [runs_append_of_all hblk]
  cases runs p l with
  | nil => rfl
  | cons run rest =>
    rw [List.modifyHead_cons, List.forall_mem_cons, List.forall_mem_cons, List.length_append, hn,
      Nat.dvd_add_right (Nat.dvd_refl n)]

/-- The first separators are at least `n`. -/
theorem RunsDvd.le_takeWhile (h : RunsDvd p n (c :: b)) (hc : p c = true) :
    n ≤ ((c :: b).takeWhile p).length := by
  have hsplit := List.takeWhile_append_dropWhile (p := p) (l := c :: b)
  have hall : ∀ x ∈ (c :: b).takeWhile p, p x = true := fun x hx => List.mem_takeWhile_imp hx
  have hmem : (c :: b).takeWhile p ∈ runs p (c :: b) := by
    rw [← hsplit, runs_append_of_all hall, hsplit]
    cases hrest : (c :: b).dropWhile p with
    | nil => simp [runs]
    | cons x rest =>
      have hx : p x = false := by
        have hne := List.head_dropWhile_not p (l := c :: b) (by simp [hrest])
        simpa [hrest] using hne
      simp [runs, List.splitOnP_cons_eq_if_modifyHead, hx]
  refine Nat.le_of_dvd ?_ (h _ hmem)
  rw [List.takeWhile_cons_of_pos hc]
  exact Nat.succ_pos _

/-! ## What is lost -/

/-- The pieces have all elements but the separators, in order. -/
def Lossless (p : α → Bool) (n : ℕ) (l : List α) : Prop :=
  ∃ pieces, cut p n l = some pieces ∧ pieces.flatten.filter (!p ·) = l.filter (!p ·)

theorem lossless_of_none (h : ∀ x ∈ l, p x = false) : Lossless p n l :=
  ⟨[l], cut_of_none h, by simp⟩

/-- What is skipped are separators: the rest of the list decides. -/
theorem lossless_append_iff (ha : ∀ x ∈ a, p x = false) (hc : p c = true) (hn : 0 < n)
    (hcb : c :: b = blk ++ l) (hblk : ∀ x ∈ blk, p x = true) (hlength : blk.length = n) :
    Lossless p n (a ++ c :: b) ↔ Lossless p n l := by
  have hle : n ≤ b.length + 1 := by
    have htotal := congrArg List.length hcb
    rw [List.length_cons, List.length_append] at htotal
    omega
  have hdrop : b.drop (n - 1) = l := by
    have heq : (c :: b).drop n = l := by rw [hcb, ← hlength, List.drop_left]
    rw [← heq]
    conv => rhs; rw [← Nat.sub_add_cancel hn]
    rfl
  have hskipped : blk.filter (!p ·) = [] :=
    List.filter_eq_nil_iff.mpr fun x hx => by simp [hblk x hx]
  have hfilter : (a ++ c :: b).filter (!p ·) = a.filter (!p ·) ++ l.filter (!p ·) := by
    rw [hcb, List.filter_append, List.filter_append, hskipped, List.nil_append]
  unfold Lossless
  rw [cut_append ha hc, if_pos hle, hdrop, hfilter]
  constructor
  · rintro ⟨pieces, hpieces, heq⟩
    obtain ⟨rest, hrest, rfl⟩ := Option.map_eq_some_iff.mp hpieces
    rw [List.flatten_cons, List.filter_append] at heq
    exact ⟨rest, hrest, List.append_cancel_left heq⟩
  · rintro ⟨rest, hrest, heq⟩
    refine ⟨a :: rest, by rw [hrest]; rfl, ?_⟩
    rw [List.flatten_cons, List.filter_append, heq]

/-- Something else is skipped, or the list ends before. -/
theorem not_lossless (ha : ∀ x ∈ a, p x = false) (hc : p c = true)
    (hshort : ((c :: b).takeWhile p).length < n) : ¬ Lossless p n (a ++ c :: b) := by
  rintro ⟨pieces, hpieces, heq⟩
  rw [cut_append ha hc] at hpieces
  split_ifs at hpieces with hle
  obtain ⟨rest, hrest, rfl⟩ := Option.map_eq_some_iff.mp hpieces
  rw [List.flatten_cons, List.filter_append, List.filter_append] at heq
  have hsame := List.append_cancel_left heq
  -- one of the elements skipped is no separator
  have hblk : ((c :: b).take n).filter (!p ·) ≠ [] := by
    intro hnil
    have hall : ∀ x ∈ (c :: b).take n, p x = true := by
      simpa [List.filter_eq_nil_iff] using hnil
    rw [← List.take_append_drop n (c :: b), List.takeWhile_append_of_pos hall,
      List.length_append, List.length_take, List.length_cons] at hshort
    omega
  have hcount := congrArg List.length hsame
  have hsub := ((cut_sublist hrest).filter (!p ·)).length_le
  rw [← List.take_append_drop n (c :: b), List.filter_append, List.length_append] at hcount
  have hpos := List.length_pos_iff.mpr hblk
  have hdrop : (c :: b).drop n = b.drop (n - 1) := by
    have hn : 0 < n := Nat.zero_lt_of_lt hshort
    conv => lhs; rw [← Nat.sub_add_cancel hn]
    rfl
  rw [hdrop] at hcount
  omega

/-- Nothing is lost exactly if separators stand together in multiples of what is skipped. -/
theorem cut_lossless_iff (hn : 0 < n) (l : List α) : Lossless p n l ↔ RunsDvd p n l := by
  induction hlength : l.length using Nat.strong_induction_on generalizing l with
  | h k ih =>
    rcases exists_separator p l with hnone | ⟨a, c, b, rfl, ha, hc⟩
    · refine iff_of_true (lossless_of_none hnone) ?_
      rw [← List.append_nil l]
      exact (runsDvd_append_of_none hnone).mpr (runsDvd_nil p n)
    · rw [runsDvd_append_of_none ha]
      by_cases hrun : n ≤ ((c :: b).takeWhile p).length
      · have hsplit : c :: b = (c :: b).take n ++ (c :: b).drop n :=
          (List.take_append_drop n (c :: b)).symm
        have hle := hrun.trans (List.takeWhile_sublist p).length_le
        have hskipped : ((c :: b).take n).length = n := List.length_take_of_le hle
        have hall : ∀ x ∈ (c :: b).take n, p x = true := by
          have hstart : (c :: b).take n <+: (c :: b).takeWhile p :=
            List.prefix_of_prefix_length_le (List.take_prefix n _) (List.takeWhile_prefix p)
              (hskipped.le.trans hrun)
          exact fun x hx => List.mem_takeWhile_imp (hstart.subset hx)
        have hshort : ((c :: b).drop n).length < k := by
          rw [List.length_drop, ← hlength, List.length_append, List.length_cons]
          omega
        have hiff := ih _ hshort ((c :: b).drop n) rfl
        rw [lossless_append_iff ha hc hn hsplit hall hskipped, hiff]
        conv => rhs; rw [hsplit]
        exact (runsDvd_append_of_all hall hskipped).symm
      · exact iff_of_false (not_lossless ha hc (not_le.mp hrun))
          fun hdvd => hrun (hdvd.le_takeWhile hc)

end Cut
