import Mathlib.Data.Int.Order.Basic
import SampleTools.Library.Heap
import SampleTools.Library.Largest
import SampleTools.Library.TextInt

/-!
# The `topk` program

The program reads the first numbers of a file into a heap, offers it the rest, and prints what
the heap then holds. `feof` tells of the end of a file only after a conversion has met it, so
one more round follows the last number, with the value of the round before.

## Main definitions

* `TopK.createNData`: the file
* `TopK.adjustDown`, `TopK.heapify`, `TopK.offer`, `TopK.sortDown`: the loops on the heap
* `TopK.stream`: an array after it was offered numbers
* `TopK.File.fscanf`, `TopK.readHeap`, `TopK.offerAll`: the loops that read
* `TopK.main`: the program
* `TopK.offeredAgain`: the value of the last round

## Main results

* `TopK.adjustDown_ordered`, `TopK.adjustDown_rearranges`: an element is moved down
* `TopK.stream_selects`: what an array holds after any stream, and after it is sorted
* `TopK.main_createNData`: what is printed for a file
* `TopK.main_prints_iff`: when that is the largest numbers of the file
-/

namespace SampleTools

namespace TopK

open Heap

/-! ## The program -/

/-- `TOP_NUM`. -/
def topNum : ℕ := 100

/-- `CreateNData`, for these numbers. -/
def createNData (values : List ℤ) : List Char :=
  values.flatMap fun x => TextInt.print 0 x ++ ['\n']

/-- The integers behind a pointer. -/
structure Ints where
  get : ℕ → ℤ

/-- `std::swap`. -/
def Ints.swap (arr : Ints) (i j : ℕ) : Ints := ⟨Heap.swap arr.get i j⟩

def Ints.set (arr : Ints) (i : ℕ) (x : ℤ) : Ints := ⟨Function.update arr.get i x⟩

/-- The smaller one of two children, the first of which is `child`. -/
def smallerChild (arr : Ints) (topSize child : ℕ) : ℕ :=
  if child + 1 < topSize ∧ arr.get (child + 1) < arr.get child then child + 1 else child

/-- `adjustDown`. -/
def adjustDown (arr : Ints) (topSize parent : ℕ) : Ints :=
  let child := parent * 2 + 1
  if child < topSize then
    let child := smallerChild arr topSize child
    if arr.get child < arr.get parent then adjustDown (arr.swap parent child) topSize child else arr
  else arr
termination_by topSize - parent
decreasing_by
  unfold smallerChild
  split_ifs <;> omega

/-- An open file: what is left of it, and whether its end was met. -/
structure File where
  rest : List Char
  eof : Bool := false
  deriving DecidableEq, Repr

/-- `fscanf(fout, "%d", &val)`: the value `val` has afterwards, and the file. -/
def File.fscanf (f : File) (val : ℤ) : ℤ × File :=
  let r := TextInt.scan f.rest
  (r.1.getD val, ⟨r.2, f.eof || r.2.isEmpty⟩)

/-- The first `n` rounds of the loop that fills the heap. -/
def readHeap (memory : Ints) (f : File) : ℕ → Ints × File
  | 0 => (memory, f)
  | i + 1 =>
    let (heap, f) := readHeap memory f i
    let (x, f) := f.fscanf (heap.get i)
    (heap.set i x, f)

/-- The loop that makes a heap, from the parent before `i` down. -/
def heapify (topSize : ℕ) : ℕ → Ints → Ints
  | 0, heap => heap
  | i + 1, heap => heapify topSize i (adjustDown heap topSize i)

/-- One number for the heap. -/
def offer (topSize : ℕ) (val : ℤ) (heap : Ints) : Ints :=
  if val > heap.get 0 then adjustDown (heap.set 0 val) topSize 0 else heap

/-- The loop that reads the rest of the file; `none` is a loop that goes on after `fuel`
rounds. -/
def offerAll (topSize : ℕ) : ℕ → File → ℤ → Ints → Option Ints
  | 0, _, _, _ => none
  | fuel + 1, f, val, heap =>
    if f.eof then some heap
    else
      let (val, f) := f.fscanf val
      offerAll topSize fuel f val (offer topSize val heap)

/-- The loop that sorts, from the place `i` down. -/
def sortDown : ℕ → Ints → Ints
  | 0, heap => heap
  | i + 1, heap => sortDown i (adjustDown (heap.swap 0 (i + 1)) (i + 1) 0)

/-- An array after it was made a heap, from the last parent down, and offered numbers. -/
def stream (topSize : ℕ) (seq : List ℤ) (heap : Ints) : Ints :=
  seq.foldl (fun heap val => offer topSize val heap) (heapify topSize ((topSize - 2) / 2 + 1) heap)

/-- What `dump` prints for these numbers. -/
def printed (l : List ℤ) : List Char := (l.flatMap fun x => TextInt.print 0 x ++ [' ']) ++ ['\n']

/-- `dump`. -/
def dump (arr : Ints) : List Char := printed (values topNum arr.get)

/-- `main`: the status and the output, for a file if there is one. The array starts as what the
memory holds. -/
def main (fuel : ℕ) (memory : Ints) : Option (List Char) → Option (ℤ × List Char)
  | none => some (-1, [])
  | some text =>
    let (heap, f) := readHeap memory ⟨text, false⟩ topNum
    let heap := heapify topNum ((topNum - 2) / 2 + 1) heap
    (offerAll topNum fuel f 0 heap).map fun heap => (0, dump (sortDown (topNum - 1) heap))

/-! ## The heap -/

@[simp] theorem Ints.set_get_self (arr : Ints) (i : ℕ) (x : ℤ) : (arr.set i x).get i = x :=
  Function.update_self ..

theorem Ints.set_get_of_ne {i j : ℕ} (hne : j ≠ i) (arr : Ints) (x : ℤ) :
    (arr.set i x).get j = arr.get j := Function.update_of_ne hne ..

variable {a heap memory : Ints} {n i lo : ℕ}

theorem smallerChild_isChild (a : Ints) (n i : ℕ) :
    IsChild i (smallerChild a n (i * 2 + 1)) := by
  unfold smallerChild IsChild
  split_ifs <;> omega

theorem smallerChild_lt (a : Ints) (hchild : i * 2 + 1 < n) :
    smallerChild a n (i * 2 + 1) < n := by
  unfold smallerChild
  split_ifs with hsecond
  · exact hsecond.1
  · exact hchild

theorem smallerChild_le {c : ℕ} (hc : IsChild i c) (hn : c < n) :
    a.get (smallerChild a n (i * 2 + 1)) ≤ a.get c := by
  unfold smallerChild
  split_ifs with hsecond <;> rcases hc with rfl | rfl
  · exact hsecond.2.le
  · exact le_refl _
  · exact le_refl _
  · by_contra hlt
    exact hsecond ⟨hn, not_le.mp hlt⟩

/-- `adjustDown` only exchanges elements of the heap. -/
theorem adjustDown_rearranges (a : Ints) (n i : ℕ) : Rearranges n a.get (adjustDown a n i).get := by
  fun_induction adjustDown a n i with
  | case1 a i child hchild child' hlt ih =>
    have hlast : child' < n := smallerChild_lt a hchild
    have hbefore : i < child' := (smallerChild_isChild a n i).lt
    exact (Rearranges.swap (hbefore.trans hlast) hlast a.get).trans ih
  | case2 => exact .refl _ _
  | case3 => exact .refl _ _

/-- `adjustDown` puts the one parent in order that may be out of it. -/
theorem adjustDown_ordered (h : OrderedExcept n lo i a.get) (hlo : lo ≤ i) :
    OrderedFrom n lo (adjustDown a n i).get := by
  fun_induction adjustDown a n i with
  | case1 a i child hchild child' hlt ih =>
    have hisChild : IsChild i child' := smallerChild_isChild a n i
    refine ih ?_ (hlo.trans hisChild.lt.le)
    exact h.swap hlo hisChild (smallerChild_lt a hchild) (fun c hc hn => smallerChild_le hc hn) hlt
  | case2 a i child hchild child' hnlt =>
    exact h.done fun c hc hn => (not_lt.mp hnlt).trans (smallerChild_le hc hn)
  | case3 a i child hchild =>
    refine h.done fun c hc hn => ?_
    unfold IsChild at hc
    omega

theorem heapify_rearranges (n i : ℕ) (a : Ints) : Rearranges n a.get (heapify n i a).get := by
  induction i generalizing a with
  | zero => exact .refl n a.get
  | succ i ih => exact (adjustDown_rearranges a n i).trans (ih _)

/-- From the last parent down, all parents are put in order. -/
theorem heapify_ordered (h : OrderedFrom n i a.get) : OrderedFrom n 0 (heapify n i a).get := by
  induction i generalizing a with
  | zero => exact h
  | succ i ih => exact ih (adjustDown_ordered h.except le_rfl)

/-- An offer keeps the heap, and what it holds the largest numbers so far. -/
theorem offer_selects {l u : List ℤ} (h : OrderedFrom (n + 1) 0 heap.get)
    (hu : Selects l (values (n + 1) heap.get) u) (val : ℤ) :
    OrderedFrom (n + 1) 0 (offer (n + 1) val heap).get ∧
      ∃ u', Selects (l ++ [val]) (values (n + 1) (offer (n + 1) val heap).get) u' := by
  unfold offer
  split_ifs with hval
  -- the value takes the place of the root, the smallest element of the heap
  · have hrest : ∀ i, 0 < i → (heap.set 0 val).get i = heap.get i :=
      fun i hi => Function.update_of_ne hi.ne' ..
    have hordered : OrderedFrom (n + 1) 1 (heap.set 0 val).get :=
      h.congr le_rfl fun i hi _ => hrest i hi
    refine ⟨adjustDown_ordered hordered.except le_rfl, ?_⟩
    have hvalues : values (n + 1) (heap.set 0 val).get =
        val :: (List.range n).map fun i => heap.get (i + 1) := by
      rw [values_succ_eq_cons, Ints.set_get_self]
      simp only [hrest _ (Nat.succ_pos _)]
    have hmin : ∀ x ∈ (List.range n).map fun i => heap.get (i + 1), heap.get 0 ≤ x := by
      intro x hx
      obtain ⟨i, hi, rfl⟩ := List.mem_map.mp hx
      exact h.root_le (Nat.succ_lt_succ (List.mem_range.mp hi))
    rw [values_succ_eq_cons] at hu
    refine ⟨_, (hu.replace hmin hval.le).congr ?_⟩
    rw [← hvalues]
    exact (adjustDown_rearranges _ _ 0).perm
  -- the value is not above the root, so not above any element
  · refine ⟨h, _, hu.keep fun x hx => (not_lt.mp hval).trans ?_⟩
    obtain ⟨i, hi, rfl⟩ := mem_values.mp hx
    exact h.root_le hi

/-- The loop that sorts rearranges a heap into a sorted array. -/
theorem sortDown_sorted (hheap : OrderedFrom (i + 1) 0 a.get) (h : SortedFrom n (i + 1) a.get)
    (hn : i < n) : SortedFrom n 1 (sortDown i a).get ∧ Rearranges n a.get (sortDown i a).get := by
  induction i generalizing a with
  | zero => exact ⟨h, .refl n a.get⟩
  | succ i ih =>
    -- the root goes to the end of the heap, which is one place shorter from then on
    set a₁ := a.swap 0 (i + 1) with ha₁
    have hsame : ∀ j, 0 < j → j < i + 1 → a₁.get j = a.get j :=
      fun j hj hlt => swap_of_ne hj.ne' hlt.ne a.get
    have hordered : OrderedFrom (i + 1) 1 a₁.get := hheap.congr (Nat.le_succ _) hsame
    have hdown := adjustDown_rearranges a₁ (i + 1) 0
    have hsorted : SortedFrom n (i + 1) a₁.get := h.swap hheap
    obtain ⟨hlast, hrest⟩ := ih (adjustDown_ordered hordered.except le_rfl)
      (hsorted.rearranges hdown) (by omega)
    refine ⟨hlast, ?_⟩
    have hswap : Rearranges n a.get a₁.get := .swap (by omega) hn a.get
    exact (hswap.trans (hdown.mono (by omega))).trans hrest

/-- Offers keep a heap, and what it holds the largest numbers so far. -/
theorem foldl_offer_selects {l u : List ℤ} (h : OrderedFrom (n + 1) 0 heap.get)
    (hu : Selects l (values (n + 1) heap.get) u) (seq : List ℤ) :
    OrderedFrom (n + 1) 0 (seq.foldl (fun heap val => offer (n + 1) val heap) heap).get ∧
      ∃ u', Selects (l ++ seq)
        (values (n + 1) (seq.foldl (fun heap val => offer (n + 1) val heap) heap).get) u' := by
  induction seq generalizing l u heap with
  | nil =>
    rw [List.append_nil]
    exact ⟨h, u, hu⟩
  | cons val seq ih =>
    obtain ⟨hordered, u', hu'⟩ := offer_selects h hu val
    have hrest := ih hordered hu'
    rwa [List.append_assoc] at hrest

/-- The heap is in order at each time, and holds the largest numbers. -/
theorem stream_ordered (initial : Ints) (seq : List ℤ) :
    OrderedFrom (n + 1) 0 (stream (n + 1) seq initial).get ∧ ∃ u,
      Selects (values (n + 1) initial.get ++ seq) (values (n + 1) (stream (n + 1) seq initial).get)
        u := by
  have hheap : OrderedFrom (n + 1) 0 (heapify (n + 1) ((n + 1 - 2) / 2 + 1) initial).get := by
    apply heapify_ordered
    apply orderedFrom_leaves
    omega
  refine foldl_offer_selects (u := []) hheap ⟨?_, fun _ _ => nofun⟩ seq
  rw [List.append_nil]
  exact (heapify_rearranges _ _ _).perm

/-- Sorting a heap. -/
theorem sortDown_heap (hheap : OrderedFrom (n + 1) 0 a.get) :
    (values (n + 1) (sortDown n a).get).Pairwise (· ≥ ·) ∧
      (values (n + 1) (sortDown n a).get).Perm (values (n + 1) a.get) := by
  obtain ⟨hsorted, hsame⟩ := sortDown_sorted hheap (sortedFrom_last (n + 1) a.get) n.lt_succ_self
  exact ⟨hsorted.pairwise, hsame.perm⟩

/-- **A heap selects the largest elements of a stream.** For every array of `k` elements and every
stream: the array is a heap, its elements are the `k` largest ones of the first elements and the
stream, with multiplicity, and the loop that sorts leaves it in non-increasing order. -/
theorem stream_selects {k : ℕ} (hk : 1 ≤ k) (initial : Ints) (seq : List ℤ) :
    OrderedFrom k 0 (stream k seq initial).get ∧
      (values k (stream k seq initial).get).Perm (largest k (values k initial.get ++ seq)) ∧
      (values k (sortDown (k - 1) (stream k seq initial)).get).Perm
        (largest k (values k initial.get ++ seq)) ∧
      (values k (sortDown (k - 1) (stream k seq initial)).get).Pairwise (· ≥ ·) := by
  obtain ⟨n, rfl⟩ : ∃ n, k = n + 1 := ⟨k - 1, by omega⟩
  obtain ⟨hordered, u, hu⟩ := stream_ordered initial seq
  have hlargest := hu.perm_largest
  rw [length_values] at hlargest
  obtain ⟨hsorted, hperm⟩ := sortDown_heap hordered
  exact ⟨hordered, hlargest, hperm.trans hlargest, hsorted⟩

/-- Three elements, and a stream with ties. -/
theorem stream_selects_ties :
    (values 3 (stream 3 [5, 2, 7, 5, 5] ⟨fun i => [5, 1, 4].getD i 0⟩).get).Perm
        (largest 3 ([5, 1, 4] ++ [5, 2, 7, 5, 5])) ∧
      (values 3 (sortDown 2 (stream 3 [5, 2, 7, 5, 5] ⟨fun i => [5, 1, 4].getD i 0⟩)).get).Pairwise
        (· ≥ ·) := by
  obtain ⟨-, hperm, -, hsorted⟩ :=
    stream_selects (k := 3) (by decide) ⟨fun i => [5, 1, 4].getD i 0⟩ [5, 2, 7, 5, 5]
  exact ⟨hperm, hsorted⟩

/-! ## The file -/

variable {values : List ℤ}

theorem scan_createNData (x : ℤ) (values : List ℤ) :
    TextInt.scan (createNData (x :: values)) = (some x, '\n' :: createNData values) := by
  rw [createNData, List.flatMap_cons, List.append_assoc]
  exact TextInt.scan_print 0 x (by simp)

/-- What is left of the file before its last `values` are read. -/
def Before (f : File) (values : List ℤ) : Prop :=
  f.eof = false ∧ (f.rest = createNData values ∨ f.rest = '\n' :: createNData values)

theorem Before.scan {f : File} (h : Before f values) :
    TextInt.scan f.rest = TextInt.scan (createNData values) := by
  obtain ⟨-, hrest | hrest⟩ := h
  · rw [hrest]
  · rw [hrest, TextInt.scan_space (by decide)]

theorem Before.fscanf {f : File} {x : ℤ} (h : Before f (x :: values)) (val : ℤ) :
    f.fscanf val = (x, ⟨'\n' :: createNData values, false⟩) := by
  rw [File.fscanf, h.scan, scan_createNData, h.1]
  rfl

/-- A conversion at the end of the file leaves the value as it was. -/
theorem Before.fscanf_nil {f : File} (h : Before f []) (val : ℤ) :
    f.fscanf val = (val, ⟨[], true⟩) := by
  rw [File.fscanf, h.scan, h.1]
  rfl

/-- The loop that fills the heap reads the first numbers. -/
theorem readHeap_eq (memory : Ints) (hn : n ≤ values.length) :
    Heap.values n (readHeap memory ⟨createNData values, false⟩ n).1.get = values.take n ∧
      Before (readHeap memory ⟨createNData values, false⟩ n).2 (values.drop n) := by
  induction n with
  | zero => exact ⟨rfl, rfl, .inl rfl⟩
  | succ n ih =>
    obtain ⟨hvalues, hbefore⟩ := ih (Nat.le_of_succ_le hn)
    rw [List.drop_eq_getElem_cons hn] at hbefore
    rw [readHeap]
    dsimp only
    rw [hbefore.fscanf]
    refine ⟨?_, rfl, .inr rfl⟩
    rw [values_succ, Ints.set_get_self, List.take_succ_eq_append_getElem hn, ← hvalues]
    congr 1
    exact values_congr fun i hi => Ints.set_get_of_ne hi.ne ..

/-- The loop that reads the rest offers it, and the last value once more. -/
theorem offerAll_eq {f : File} {fuel : ℕ} (val : ℤ) (hbefore : Before f values)
    (hfuel : values.length + 2 ≤ fuel) (heap : Ints) : offerAll n fuel f val heap =
      some ((values ++ [values.getLast?.getD val]).foldl (fun heap val => offer n val heap)
        heap) := by
  induction values generalizing f fuel val heap with
  | nil =>
    -- two more rounds: the conversion that meets the end of the file, and the test that sees it
    obtain ⟨fuel, rfl⟩ : ∃ k, fuel = k + 2 := ⟨fuel - 2, by rw [List.length_nil] at hfuel; omega⟩
    rw [offerAll, hbefore.1, if_neg Bool.false_ne_true]
    dsimp only
    rw [hbefore.fscanf_nil]
    rfl
  | cons x values ih =>
    obtain ⟨fuel, rfl⟩ : ∃ k, fuel = k + 1 := ⟨fuel - 1, by omega⟩
    have hnext : Before ⟨'\n' :: createNData values, false⟩ values := ⟨rfl, .inr rfl⟩
    have hleft : values.length + 2 ≤ fuel := by
      rw [List.length_cons] at hfuel
      omega
    rw [offerAll, hbefore.1, if_neg Bool.false_ne_true]
    dsimp only
    rw [hbefore.fscanf, ih x hnext hleft, List.getLast?_cons]
    rfl

/-- The value of the last round. -/
def offeredAgain (values : List ℤ) : ℤ := (values.drop topNum).getLast?.getD 0

/-- For every file with enough numbers the program ends, and prints the largest of its numbers
and the value of the last round. -/
theorem main_createNData (hN : topNum ≤ values.length) {fuel : ℕ} (hfuel : values.length < fuel)
    (memory : Ints) : main fuel memory (some (createNData values)) =
      some (0, printed (largest topNum (values ++ [offeredAgain values]))) := by
  obtain ⟨hfirst, hbefore⟩ := readHeap_eq memory hN
  set r := readHeap memory ⟨createNData values, false⟩ topNum with hr
  have hrest : (values.drop topNum).length + 2 ≤ fuel := by
    rw [List.length_drop]
    unfold topNum at hN ⊢
    omega
  obtain ⟨hordered, u, hu⟩ :=
    stream_ordered (n := topNum - 1) r.1 (values.drop topNum ++ [offeredAgain values])
  -- what was read into the array and what is offered are the numbers of the file
  have htaken : Heap.values (topNum - 1 + 1) r.1.get = values.take topNum := hfirst
  rw [htaken, ← List.append_assoc, List.take_append_drop] at hu
  obtain ⟨hsorted, hperm⟩ := sortDown_heap hordered
  have heq := (hu.congr hperm).eq_largest hsorted
  rw [length_values] at heq
  have hoffered := offerAll_eq (n := topNum) 0 hbefore hrest
    (heapify topNum ((topNum - 2) / 2 + 1) r.1)
  refine (congrArg (Option.map fun heap => ((0 : ℤ), dump (sortDown (topNum - 1) heap)))
    hoffered).trans ?_
  exact congrArg (fun l => some ((0 : ℤ), printed l)) heq

theorem scan_printed (x : ℤ) (l : List ℤ) :
    TextInt.scan (printed (x :: l)) = (some x, ' ' :: printed l) := by
  rw [printed, List.flatMap_cons, List.append_assoc, List.append_assoc]
  exact TextInt.scan_print 0 x (by simp)

/-- Different numbers are printed differently. -/
theorem printed_injective : Function.Injective printed := by
  intro l l' heq
  induction l generalizing l' with
  | nil =>
    cases l' with
    | nil => rfl
    | cons y l' =>
      have hscan := congrArg TextInt.scan heq
      rw [scan_printed] at hscan
      exact absurd (congrArg Prod.fst hscan) nofun
  | cons x l ih =>
    cases l' with
    | nil =>
      have hscan := congrArg TextInt.scan heq
      rw [scan_printed] at hscan
      exact absurd (congrArg Prod.fst hscan) nofun
    | cons y l' =>
      have hscan := congrArg TextInt.scan heq
      rw [scan_printed, scan_printed, Prod.mk.injEq, Option.some.injEq, List.cons.injEq] at hscan
      obtain ⟨rfl, -, hrest⟩ := hscan
      rw [ih hrest]

theorem printed_largest_iff (hN : topNum ≤ values.length) (v : ℤ) :
    printed (largest topNum (values ++ [v])) = printed (largest topNum values) ↔
      topNum ≤ values.countP (v ≤ ·) :=
  printed_injective.eq_iff.trans (largest_append_iff hN)

/-- **The program prints the largest numbers of a file exactly if the value of the last round
is not above them.** For every file with at least `TOP_NUM` numbers: exactly if `TOP_NUM` of
them are at least as large as its last number or, where the heap takes all of them, as zero. -/
theorem main_prints_iff (hN : topNum ≤ values.length) {fuel : ℕ} (hfuel : values.length < fuel)
    (memory : Ints) :
    main fuel memory (some (createNData values)) = some (0, printed (largest topNum values)) ↔
      topNum ≤ values.countP (offeredAgain values ≤ ·) := by
  rw [main_createNData hN hfuel, Option.some.injEq, Prod.mk.injEq, printed_largest_iff hN]
  exact and_iff_right rfl

/-- The last number is smaller than the others. -/
theorem main_prints_smaller_last :
    main 102 ⟨fun _ => 0⟩ (some (createNData (List.replicate 100 5 ++ [3]))) =
      some (0, printed (largest topNum (List.replicate 100 5 ++ [3]))) := by
  refine (main_prints_iff (by simp [topNum]) (by simp) _).mpr ?_
  have hlast : offeredAgain (List.replicate 100 5 ++ [3]) = 3 := by
    simp [offeredAgain, topNum]
  rw [hlast, List.countP_append, List.countP_replicate]
  decide

/-- A last number above the others is printed twice, and of a hundred negative numbers one is
printed as zero. -/
theorem main_prints_again :
    main 102 ⟨fun _ => 0⟩ (some (createNData (List.replicate 100 1 ++ [2]))) ≠
        some (0, printed (largest topNum (List.replicate 100 1 ++ [2]))) ∧
      main 101 ⟨fun _ => 0⟩ (some (createNData (List.replicate 100 (-1)))) ≠
        some (0, printed (largest topNum (List.replicate 100 (-1)))) := by
  constructor
  · have hlast : offeredAgain (List.replicate 100 1 ++ [2]) = 2 := by simp [offeredAgain, topNum]
    rw [main_createNData (by simp [topNum]) (by simp), Ne, Option.some.injEq, Prod.mk.injEq,
      printed_largest_iff (by simp [topNum]), hlast, List.countP_append, List.countP_replicate]
    decide
  · have hlast : offeredAgain (List.replicate 100 (-1)) = 0 := by simp [offeredAgain, topNum]
    rw [main_createNData (by simp [topNum]) (by simp), Ne, Option.some.injEq, Prod.mk.injEq,
      printed_largest_iff (by simp [topNum]), hlast, List.countP_replicate]
    decide

end TopK

end SampleTools
