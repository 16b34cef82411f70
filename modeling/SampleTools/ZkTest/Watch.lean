import SampleTools.ZkTest.ZkLock

/-!
# The node that is watched

A client that does not get the lock asks to be told of a change of the node before its own, and
takes the last but one of the answer for it. The answer has no order. What `lockWatcher` does when
it is told is left out: it prints a line if a node was created.

## Main definitions

* `ZkLock.acquireLockWatch`: the function with the node it watches
* `ZkLock.IsPredecessor`: the largest name before a name

## Main results

* `ZkLock.acquireLockWatch_fst`: the function of the lock, and what it watches beside it
* `ZkLock.watchesPredecessor_iff`: when the node before is watched
-/

namespace SampleTools

namespace ZkLock

/-- `acquireLock`: what it returns, and the path it passes to `zoo_awget` if it gets so far. -/
def acquireLockWatch (buff : Option (List Char)) (children : Option (List (List Char))) :
    Option (Bool × Option (List Char)) :=
  match buff, children with
  | none, _ => some (false, none)
  | some _, none => some (false, none)
  | some buff, some data =>
    (smallest data).bind fun smallestNode =>
      if buff = locksDir ++ smallestNode then some (true, none)
      -- `nodes.data[nodes.count - 2]`
      else if data.length < 2 then none
      else (data[data.length - 2]?).map fun prevNode => (false, some (locksDir ++ prevNode))

/-- The largest name of a list that is smaller than a name. -/
structure IsPredecessor (data : List (List Char)) (own p : List Char) : Prop where
  mem : p ∈ data
  lt : p < own
  le : ∀ x ∈ data, x < own → x ≤ p

/-- What is left in `buff` of the path of a node of this name. -/
def pathOf (own : List Char) : List Char := (locksDir ++ own).take 510

/-- The client whose node has this name does not take the lock, and watches the node before. -/
def WatchesPredecessor (own : List Char) (data : List (List Char)) : Prop :=
  ∃ p, IsPredecessor data own p ∧
    acquireLockWatch (some (pathOf own)) (some data) = some (false, some (locksDir ++ p))

variable {own p : List Char} {data : List (List Char)}

theorem acquireLockWatch_fst (buff : Option (List Char)) (children : Option (List (List Char))) :
    (acquireLockWatch buff children).map Prod.fst = acquireLock buff children := by
  match buff, children with
  | none, _ => rfl
  | some _, none => rfl
  | some buff, some data =>
    dsimp only [acquireLockWatch, acquireLock]
    cases hs : smallest data with
    | none => rfl
    | some smallestNode =>
      simp only [Option.bind_some]
      split_ifs with hown hshort
      · rfl
      · rfl
      · have hlast : data.length - 2 < data.length := by omega
        rw [List.getElem?_eq_getElem hlast]
        rfl

/-- The name in the path of a node, which may have been cut off. -/
theorem pathOf_eq_iff (own s : List Char) : pathOf own = locksDir ++ s ↔ own.take 503 = s := by
  have hlength : locksDir.length = 7 := rfl
  rw [pathOf, List.take_append, hlength, List.take_of_length_le (by rw [hlength]; decide)]
  exact List.append_right_inj locksDir

/-- The name of a node that is not the smallest is found to be so only if it was cut off. -/
theorem smallest_of_take (hsmaller : ∃ x ∈ data, x < own)
    (h : smallest data = some (own.take 503)) : 503 < own.length := by
  obtain ⟨x, hx, hlt⟩ := hsmaller
  by_contra hle
  rw [List.take_of_length_le (not_lt.mp hle)] at h
  exact ((smallest_spec h).2 x hx).not_gt hlt

/-- The answer is read inside its length: it has two nodes. -/
theorem two_le_length (hown : own ∈ data) (hsmaller : ∃ x ∈ data, x < own) : 2 ≤ data.length := by
  obtain ⟨x, hx, hlt⟩ := hsmaller
  match data with
  | [] => cases hown
  | [y] =>
    rw [List.mem_singleton.mp hown, List.mem_singleton.mp hx] at hlt
    exact absurd hlt (lt_irrefl _)
  | y :: z :: data => exact Nat.le_add_left 2 _

/-- What is watched, unless the name of the client's own node was cut off and is the smallest. -/
theorem acquireLockWatch_eq (hown : own ∈ data) (hsmaller : ∃ x ∈ data, x < own) (q : List Char) :
    acquireLockWatch (some (pathOf own)) (some data) = some (false, some (locksDir ++ q)) ↔
      data[data.length - 2]? = some q ∧ smallest data ≠ some (own.take 503) := by
  have hlength := two_le_length hown hsmaller
  have hlast : data.length - 2 < data.length := by omega
  obtain ⟨s, hs⟩ : ∃ s, smallest data = some s := by
    cases data with
    | nil => cases hown
    | cons node data => exact ⟨_, rfl⟩
  rw [acquireLockWatch, hs, Option.bind_some, List.getElem?_eq_getElem hlast]
  by_cases hcut : own.take 503 = s
  -- the client takes what is left of its name for the smallest one, and the lock
  · rw [if_pos ((pathOf_eq_iff own s).mpr hcut), hcut]
    simp
  · rw [if_neg fun h => hcut ((pathOf_eq_iff own s).mp h), if_neg (by omega)]
    simp [Ne.symm hcut]

/-- **The node before is watched exactly if it is the last but one of the answer.** For every
answer that has the client's own node and a smaller one, in any order, and but for names that are
too long for the buffer: a name of more than 503 bytes is cut off, and what is left of it must not
be the smallest name. -/
theorem watchesPredecessor_iff (hown : own ∈ data) (hsmaller : ∃ x ∈ data, x < own) :
    WatchesPredecessor own data ↔
      (∃ p, data[data.length - 2]? = some p ∧ IsPredecessor data own p) ∧
        ¬ (503 < own.length ∧ smallest data = some (own.take 503)) := by
  constructor
  · rintro ⟨p, hp, hwatch⟩
    obtain ⟨hlast, hcut⟩ := (acquireLockWatch_eq hown hsmaller p).mp hwatch
    exact ⟨⟨p, hlast, hp⟩, fun h => hcut h.2⟩
  · rintro ⟨⟨p, hlast, hp⟩, hcut⟩
    refine ⟨p, hp, (acquireLockWatch_eq hown hsmaller p).mpr ⟨hlast, fun h => ?_⟩⟩
    exact hcut ⟨smallest_of_take hsmaller h, h⟩

/-- The name of the `n`-th node of the program. -/
def lockName (n : ℕ) : List Char := childName ['l', 'o', 'c', 'k'] n

/-- Two clients, in the order of their numbers. -/
theorem watchesPredecessor_two : WatchesPredecessor (lockName 1) [lockName 0, lockName 1] := by
  refine (watchesPredecessor_iff (by decide) ⟨lockName 0, by decide, by decide⟩).mpr ⟨?_, ?_⟩
  · exact ⟨lockName 0, rfl, by decide, by decide, by decide⟩
  · exact fun h => absurd h.1 (by decide)

/-- A third client has made its node before the second one asks: the second one watches it, and
not the node of the first. -/
theorem watchesPredecessor_fails :
    acquireLockWatch (some (pathOf (lockName 1))) (some [lockName 0, lockName 2, lockName 1]) =
        some (false, some (locksDir ++ lockName 2)) ∧
      lockName 1 < lockName 2 ∧
      IsPredecessor [lockName 0, lockName 2, lockName 1] (lockName 1) (lockName 0) ∧
      ¬ WatchesPredecessor (lockName 1) [lockName 0, lockName 2, lockName 1] := by
  refine ⟨by decide, by decide, ⟨by decide, by decide, by decide⟩, ?_⟩
  rintro ⟨p, hp, hwatch⟩
  have hlater : p = lockName 2 := by
    have heq := (acquireLockWatch_eq (by decide) ⟨lockName 0, by decide, by decide⟩ p).mp hwatch
    exact (Option.some.inj heq.1).symm
  subst hlater
  exact absurd hp.lt (by decide)

end ZkLock

end SampleTools
