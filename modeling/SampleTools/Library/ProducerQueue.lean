import Mathlib.Tactic.Common

/-!
# A queue that is ordered for each producer

Messages carry their producer. What is taken out next is the first message of some producer:
the messages of one producer keep their order, those of two need not.

## Main definitions

* `ofProducer i q`: the messages of a producer, in order
* `takeFirst i q`: the first message of a producer, and what is left

## Main results

* `ofProducer_takeFirst`: taking a message out moves it in front, for every producer
-/

variable {ι α : Type*} [DecidableEq ι]

/-- The messages of a producer. -/
def ofProducer (i : ι) (q : List (ι × α)) : List α :=
  q.filterMap fun message => if message.1 = i then some message.2 else none

/-- The first message of a producer, and the messages left. -/
def takeFirst (i : ι) : List (ι × α) → Option (α × List (ι × α))
  | [] => none
  | (j, a) :: q =>
    if j = i then some (a, q) else (takeFirst i q).map fun (b, rest) => (b, (j, a) :: rest)

@[simp] theorem ofProducer_nil (i : ι) : ofProducer i ([] : List (ι × α)) = [] := rfl

@[simp] theorem ofProducer_append (i : ι) (q q' : List (ι × α)) :
    ofProducer i (q ++ q') = ofProducer i q ++ ofProducer i q' := List.filterMap_append

theorem ofProducer_cons (i j : ι) (a : α) (q : List (ι × α)) :
    ofProducer i ((j, a) :: q) = if j = i then a :: ofProducer i q else ofProducer i q := by
  unfold ofProducer
  by_cases h : j = i <;> simp [h]

theorem mem_ofProducer {i : ι} {a : α} {q : List (ι × α)} : a ∈ ofProducer i q ↔ (i, a) ∈ q := by
  rw [ofProducer, List.mem_filterMap]
  constructor
  · rintro ⟨⟨j, b⟩, hmem, h⟩
    obtain ⟨rfl, rfl⟩ : j = i ∧ b = a := by simpa using h
    exact hmem
  · intro hmem
    exact ⟨(i, a), hmem, if_pos rfl⟩

theorem ofProducer_takeFirst {i : ι} {a : α} {q rest : List (ι × α)}
    (h : takeFirst i q = some (a, rest)) (j : ι) :
    ofProducer j q = ofProducer j ((i, a) :: rest) := by
  induction q generalizing rest with
  | nil => cases h
  | cons message q ih =>
    obtain ⟨k, b⟩ := message
    rw [takeFirst] at h
    split at h
    next hk =>
      cases h
      rw [hk]
    next hk =>
      obtain ⟨⟨c, left⟩, hleft, heq⟩ := Option.map_eq_some_iff.mp h
      cases heq
      -- the message passed is of another producer
      rw [ofProducer_cons, ih hleft, ofProducer_cons, ofProducer_cons, ofProducer_cons]
      by_cases hj : k = j
      · have hi : i ≠ j := fun hi => hk (hj.trans hi.symm)
        simp [hj, hi]
      · simp [hj]

/-- What is taken out and what is left are what was there. -/
theorem perm_takeFirst {i : ι} {a : α} {q rest : List (ι × α)}
    (h : takeFirst i q = some (a, rest)) : q.Perm ((i, a) :: rest) := by
  induction q generalizing rest with
  | nil => cases h
  | cons message q ih =>
    obtain ⟨k, b⟩ := message
    rw [takeFirst] at h
    split at h
    next hk =>
      cases h
      rw [hk]
    next hk =>
      obtain ⟨⟨c, left⟩, hleft, heq⟩ := Option.map_eq_some_iff.mp h
      cases heq
      exact ((ih hleft).cons _).trans (.swap _ _ _)
