import Mathlib.Logic.Function.Basic
import SampleTools.Library.Decimal
import SampleTools.Library.Run

/-!
# The lock on ZooKeeper nodes

`acquireLock` makes a sequential node and then asks for all of them: it has the lock if its own
comes first. Names are compared as texts. Nodes are made with growing numbers and go away at any
time, when a session ends or when they are deleted; an answer to `zoo_get_children` may be late,
but has every node that was made before the client's own and is still there.

## Main definitions

* `ZkLock.acquireLock`: the function, from the answers it gets
* `ZkLock.Locks`, `ZkLock.step`: nodes and clients, and what can happen
* `ZkLock.Locks.Holds`: a client that was told it has the lock, and whose node is there

## Main results

* `ZkLock.le_of_acquireLock`: the numbers of the nodes are compared
* `ZkLock.Locks.Ordered.step`: no node comes before that of a client that was told so
* `ZkLock.holds_unique`: mutual exclusion
-/

namespace SampleTools

namespace ZkLock

open Decimal

/-! ## The function -/

/-- `/locks/`. -/
def locksDir : List Char := ['/', 'l', 'o', 'c', 'k', 's', '/']

/-- The name of a sequential node; the lock path is `/locks/` and `base`. -/
def childName (base : List Char) (n : ℕ) : List Char := base ++ pad 10 n

/-- What `zoo_create` leaves in `buff`: the path, as far as it fits. -/
def createdPath (base : List Char) (n : ℕ) : List Char := (locksDir ++ childName base n).take 510

/-- The loop that finds the smallest node, which begins with `nodes.data[0]`. -/
def smallest : List (List Char) → Option (List Char)
  | [] => none
  | node :: data =>
    some ((node :: data).foldl (fun smallestNode x => if x < smallestNode then x else smallestNode)
      node)

/-- `acquireLock`, from what `zoo_create` leaves in `buff` and what `zoo_get_children` answers,
if there is no error. It has no result where it reads outside of the list. -/
def acquireLock (buff : Option (List Char)) (children : Option (List (List Char))) :
    Option Bool :=
  match buff, children with
  | none, _ => some false
  | some _, none => some false
  | some buff, some data =>
    (smallest data).bind fun smallestNode =>
      if buff = locksDir ++ smallestNode then some true
      -- the watch is for `nodes.data[nodes.count - 2]`; the result does not depend on it
      else if data.length < 2 then none
      else some false

/-! ## Nodes and clients -/

/-- A client: it has not begun, it has made its node, or it is done. -/
inductive Client
  | start
  | created (n : ℕ)
  | returned (node : Option ℕ) (result : Option Bool)
  deriving DecidableEq, Repr

/-- The node a client knows as its own. -/
def Client.node : Client → Option ℕ
  | .start => none
  | .created n => some n
  | .returned node _ => node

/-- The smallest number that was not given before, the nodes that are there, and the clients. -/
structure Locks where
  next : ℕ := 0
  nodes : List ℕ := []
  client : ℕ → Client := fun _ => .start

/-- What can happen: a client makes its node, with a number that ZooKeeper gives; it gets an
error, whether the node was made or not; it gets the children, or an error; a node goes away. -/
inductive LockCall
  | create (c n : ℕ)
  | createFails (c : ℕ) (made : Option ℕ)
  | getChildren (c : ℕ) (children : Option (List ℕ))
  | delete (n : ℕ)
  deriving DecidableEq, Repr

namespace Locks

/-- A number for a new node. -/
def Fresh (s : Locks) (n : ℕ) : Prop := s.next ≤ n ∧ n < 2 ^ 31

instance (s : Locks) (n : ℕ) : Decidable (s.Fresh n) := inferInstanceAs (Decidable (_ ∧ _))

def addNode (n : ℕ) (s : Locks) : Locks := { s with next := n + 1, nodes := n :: s.nodes }

def setClient (c : ℕ) (cl : Client) (s : Locks) : Locks :=
  { s with client := Function.update s.client c cl }

/-- An answer to `zoo_get_children` for the client that has made the node `n`. -/
def Answers (s : Locks) (n : ℕ) (ms : List ℕ) : Prop :=
  (∀ m ∈ ms, m < s.next) ∧ ∀ m ∈ s.nodes, m < n → m ∈ ms

instance (s : Locks) (n : ℕ) (ms : List ℕ) : Decidable (s.Answers n ms) :=
  inferInstanceAs (Decidable (_ ∧ _))

end Locks

/-- The state afterwards; clients that run `acquireLock` use the lock path `/locks/` and
`base`. -/
def step (base : List Char) (s : Locks) : LockCall → Option Locks
  | .create c n =>
    if s.client c = .start ∧ s.Fresh n then some ((s.addNode n).setClient c (.created n)) else none
  | .createFails c made =>
    if s.client c = .start ∧ ∀ n ∈ made, s.Fresh n then
      let s' := made.elim s fun n => s.addNode n
      some (s'.setClient c (.returned none (acquireLock none none)))
    else none
  | .getChildren c children =>
    match s.client c with
    | .created n =>
      if ∀ ms ∈ children, s.Answers n ms then
        let children := children.map fun ms => ms.map (childName base)
        some (s.setClient c (.returned (some n) (acquireLock (some (createdPath base n)) children)))
      else none
    | _ => none
  | .delete n => if n ∈ s.nodes then some { s with nodes := s.nodes.filter (· ≠ n) } else none

/-- The call of `acquireLock` has returned true, and the client's node is there. -/
def Locks.Holds (s : Locks) (c : ℕ) : Prop :=
  ∃ n ∈ s.nodes, s.client c = .returned (some n) (some true)

/-! ## The smallest name -/

variable {base : List Char} {n m : ℕ} {ms : List ℕ}

/-- The loop keeps the smaller of two names, whatever it begins with. -/
theorem foldl_smaller (node : List Char) (data : List (List Char)) :
    let s := data.foldl (fun smallestNode x => if x < smallestNode then x else smallestNode) node
    (s = node ∨ s ∈ data) ∧ s ≤ node ∧ ∀ x ∈ data, s ≤ x := by
  induction data generalizing node with
  | nil => exact ⟨.inl rfl, le_refl _, nofun⟩
  | cons y data ih =>
    obtain ⟨hmem, hle, hall⟩ := ih (if y < node then y else node)
    rw [List.foldl_cons]
    refine ⟨?_, ?_, ?_⟩
    · rcases hmem with heq | hmem
      · rw [heq]
        split_ifs
        · exact .inr List.mem_cons_self
        · exact .inl rfl
      · exact .inr (List.mem_cons_of_mem y hmem)
    · refine hle.trans ?_
      split_ifs with hlt
      · exact hlt.le
      · exact le_refl _
    · intro x hx
      rcases List.mem_cons.mp hx with rfl | hx
      · refine hle.trans ?_
        split_ifs with hlt
        · exact le_refl _
        · exact not_lt.mp hlt
      · exact hall x hx

theorem smallest_spec {data : List (List Char)} {s : List Char} (h : smallest data = some s) :
    s ∈ data ∧ ∀ x ∈ data, s ≤ x := by
  cases data with
  | nil => cases h
  | cons node data =>
    cases h
    obtain ⟨hmem, -, hall⟩ := foldl_smaller node (node :: data)
    refine ⟨?_, hall⟩
    rcases hmem with heq | hmem
    · rw [heq]
      exact List.mem_cons_self
    · exact hmem

theorem length_childName (hn : n < 2 ^ 31) : (childName base n).length = base.length + 10 := by
  rw [childName, List.length_append, length_pad (by decide) (by omega)]

/-- Names are ordered as the numbers of their nodes. -/
theorem childName_lt (hn : n < 2 ^ 31) (hm : m < 2 ^ 31) (hlt : n < m) :
    childName base n < childName base m := by
  refine List.append_left_lt ?_
  refine (value_lt_value_iff (.pad _ _) (.pad _ _) ?_).mp ?_
  · rw [length_pad (by decide) (by omega), length_pad (by decide) (by omega)]
  · rwa [value_pad, value_pad]

theorem childName_injective (base : List Char) : Function.Injective (childName base) := by
  intro n m heq
  have hvalue := congrArg value (List.append_cancel_left heq)
  rwa [value_pad, value_pad] at hvalue

/-- The function returns true only for the node with the smallest number. -/
theorem le_of_acquireLock (hn : n < 2 ^ 31) (hms : ∀ m ∈ ms, m < 2 ^ 31)
    (h : acquireLock (some (createdPath base n)) (some (ms.map (childName base))) = some true) :
    ∀ m ∈ ms, n ≤ m := by
  obtain ⟨s, hs, hresult⟩ := Option.bind_eq_some_iff.mp h
  obtain ⟨hmem, hle⟩ := smallest_spec hs
  obtain ⟨k, hk, rfl⟩ := List.mem_map.mp hmem
  have hbuff : createdPath base n = locksDir ++ childName base k := by
    by_contra hne
    rw [if_neg hne] at hresult
    split_ifs at hresult
    cases hresult
  -- the path of a node has one length: as it was left whole, it fitted
  have hwhole : createdPath base n = locksDir ++ childName base n := by
    have hlen := congrArg List.length hbuff
    refine List.take_of_length_le ?_
    rw [createdPath, List.length_take, List.length_append, List.length_append,
      length_childName hn, length_childName (hms k hk)] at hlen
    rw [List.length_append, length_childName hn]
    omega
  have hnk : n = k := childName_injective base (List.append_cancel_left (hwhole.symm.trans hbuff))
  subst hnk
  intro m hm
  by_contra hlt
  exact (hle _ (List.mem_map_of_mem hm)).not_gt
    (childName_lt (hms m hm) hn (not_le.mp hlt))

/-! ## Mutual exclusion -/

namespace Locks

variable {s s' : Locks} {c d : ℕ}

@[simp] theorem setClient_self (c : ℕ) (cl : Client) (s : Locks) :
    (s.setClient c cl).client c = cl := Function.update_self ..

theorem setClient_of_ne (hne : d ≠ c) (cl : Client) (s : Locks) :
    (s.setClient c cl).client d = s.client d := Function.update_of_ne hne ..

/-- Clients have different nodes, and no node comes before that of a client that was told it has
the lock. -/
structure Ordered (s : Locks) : Prop where
  next_le : s.next ≤ 2 ^ 31
  node_lt : ∀ {c n}, (s.client c).node = some n → n < s.next
  distinct : ∀ {c d n}, (s.client c).node = some n → (s.client d).node = some n → c = d
  first : ∀ {c n}, s.client c = .returned (some n) (some true) → ∀ m ∈ s.nodes, n ≤ m

namespace Ordered

theorem empty : Ordered {} := ⟨Nat.zero_le _, nofun, nofun, nofun⟩

theorem addNode (h : s.Ordered) (hn : s.Fresh n) : (s.addNode n).Ordered where
  next_le := hn.2
  node_lt hc := (h.node_lt hc).trans_le (Nat.le_succ_of_le hn.1)
  distinct := h.distinct
  first hc m hm := by
    rcases List.mem_cons.mp hm with rfl | hm
    · exact (h.node_lt (congrArg Client.node hc)).le.trans hn.1
    · exact h.first hc m hm

/-- A client goes on, with a node that no other client has. -/
theorem setClient (h : s.Ordered) {cl : Client}
    (hnode : ∀ n, cl.node = some n → n < s.next ∧ ∀ d, d ≠ c → (s.client d).node ≠ some n)
    (hfirst : ∀ n, cl = .returned (some n) (some true) → ∀ m ∈ s.nodes, n ≤ m) :
    (s.setClient c cl).Ordered where
  next_le := h.next_le
  node_lt {d n} hd := by
    by_cases hdc : d = c
    · rw [hdc, setClient_self] at hd
      exact (hnode n hd).1
    · rw [setClient_of_ne hdc] at hd
      exact h.node_lt hd
  distinct {d e n} hd he := by
    by_cases hdc : d = c <;> by_cases hec : e = c
    · rw [hdc, hec]
    · rw [hdc, setClient_self] at hd
      rw [setClient_of_ne hec] at he
      exact absurd he ((hnode n hd).2 e hec)
    · rw [setClient_of_ne hdc] at hd
      rw [hec, setClient_self] at he
      exact absurd hd ((hnode n he).2 d hdc)
    · rw [setClient_of_ne hdc] at hd
      rw [setClient_of_ne hec] at he
      exact h.distinct hd he
  first {d n} hd m hm := by
    by_cases hdc : d = c
    · rw [hdc, setClient_self] at hd
      exact hfirst n hd m hm
    · rw [setClient_of_ne hdc] at hd
      exact h.first hd m hm

/-- What a client is told compares its node with all that were there before it. -/
theorem le_of_answers (h : s.Ordered) (hc : s.client c = .created n) (hms : s.Answers n ms)
    (hlock : acquireLock (some (createdPath base n)) (some (ms.map (childName base))) = some true) :
    ∀ m ∈ s.nodes, n ≤ m := by
  have hlt := h.node_lt (congrArg Client.node hc)
  have hnext := h.next_le
  have hle := le_of_acquireLock (by omega) (fun m hm => (hms.1 m hm).trans_le hnext) hlock
  intro m hm
  by_contra hmn
  exact hmn (hle m (hms.2 m hm (not_le.mp hmn)))

theorem step (h : s.Ordered) {call : LockCall} (hs : step base s call = some s') : s'.Ordered := by
  unfold ZkLock.step at hs
  cases call with
  | create c n =>
    dsimp only at hs
    split_ifs at hs with henabled
    cases hs
    obtain ⟨hstart, hn⟩ := henabled
    refine (h.addNode hn).setClient (fun m hm => ?_) nofun
    cases hm
    exact ⟨Nat.lt_succ_self n, fun d _ hd => absurd (h.node_lt hd) hn.1.not_gt⟩
  | createFails c made =>
    dsimp only at hs
    split_ifs at hs with henabled
    cases hs
    cases made with
    -- the client gives up; a node made before the answer was lost stays and is nobody's
    | none => exact h.setClient nofun nofun
    | some n => exact (h.addNode (henabled.2 n rfl)).setClient nofun nofun
  | getChildren c children =>
    dsimp only at hs
    split at hs
    · rename_i n hc
      split_ifs at hs with henabled
      cases hs
      -- the client keeps its node, and is told that it has the lock if its node came first
      refine h.setClient (fun m hm => ?_) fun m hm => ?_
      · cases hm
        refine ⟨h.node_lt (congrArg Client.node hc), fun d hdc hd => hdc ?_⟩
        exact h.distinct hd (congrArg Client.node hc)
      · obtain ⟨hmn, hlock⟩ := Client.returned.inj hm
        cases hmn
        cases children with
        | none => cases hlock
        | some ms => exact h.le_of_answers hc (henabled ms rfl) hlock
    · cases hs
  | delete n =>
    dsimp only at hs
    split_ifs at hs
    cases hs
    exact ⟨h.next_le, h.node_lt, h.distinct, fun hc m hm => h.first hc m (List.mem_filter.mp hm).1⟩

end Ordered

end Locks

/-- **Mutual exclusion.** In every state of every run, at most one client has been told that it
has the lock and still has its node. -/
theorem holds_unique {trace : List (Locks × LockCall)} {s : Locks}
    (hrun : Run (step base) {} trace s) {c d : ℕ} (hc : s.Holds c) (hd : s.Holds d) : c = d := by
  have hordered := hrun.invariant Locks.Ordered.empty fun h hs => h.step hs
  obtain ⟨n, hn, hcn⟩ := hc
  obtain ⟨m, hm, hdm⟩ := hd
  have hnm : n = m := le_antisymm (hordered.first hcn m hm) (hordered.first hdm n hn)
  subst hnm
  exact hordered.distinct (congrArg Client.node hcn) (congrArg Client.node hdm)

/-- Of three clients the first has the lock, until its node goes away: then the third, which
asks late, has it. -/
theorem holds_unique_three_clients :
    ∃ (trace : List (Locks × LockCall)) (s : Locks), Run (step ['l', 'o', 'c', 'k']) {} trace s ∧
      trace.map Prod.snd = [.create 0 0, .create 1 1, .getChildren 0 (some [1, 0]),
        .getChildren 1 (some [1, 0]), .create 2 5, .delete 0, .delete 1,
        .getChildren 2 (some [5])] ∧
      s.Holds 2 ∧ ∀ c, s.Holds c → c = 2 := by
  have hrun : Run (step ['l', 'o', 'c', 'k']) {} _ _ :=
    Run.nil.snoc (a := .create 0 0) rfl |>.snoc (a := .create 1 1) rfl
    |>.snoc (a := .getChildren 0 (some [1, 0])) rfl
    |>.snoc (a := .getChildren 1 (some [1, 0])) rfl |>.snoc (a := .create 2 5) rfl
    |>.snoc (a := .delete 0) rfl |>.snoc (a := .delete 1) rfl
    |>.snoc (a := .getChildren 2 (some [5])) rfl
  refine ⟨_, _, hrun, rfl, ⟨5, by decide, rfl⟩, fun c hc => ?_⟩
  exact holds_unique hrun hc ⟨5, by decide, rfl⟩

end ZkLock

end SampleTools
