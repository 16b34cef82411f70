import SampleTools.Library.ProducerQueue
import SampleTools.Library.Run

/-!
# Queued statements

`DBWorkHandle` takes SQL from any threads into a queue. The update thread takes it out and hands
it to the connection; the check thread replaces a connection that was lost. The update thread
looks at the connection after it has taken a string out, and goes on to the next one if the
connection is of no use: that string is neither queued nor handed over.

## Main definitions

* `DBWorkHandle`, `DBWorkHandle.step`: the handle, and one step of a thread
* `DBWorkHandle.Lossless`: for each producer, what it enqueued is handed over or waits, in order

## Main results

* `DBWorkHandle.lossless_iff`: nothing is lost exactly if the connection is of use whenever the
  update thread looks at it
-/

namespace SampleTools

/-- `DBWorkHandle`, with what its threads did so far. A message carries its producer. -/
structure DBWorkHandle where
  /-- `conn_`, if it is not null, with whether the server still answers on it -/
  conn : Option Bool
  /-- `count`, of `CheckStatus` -/
  count : ℕ := 0
  q : List (ℕ × String) := []
  /-- `sql`, of `UpdateThread`, while it is taken out and not handled -/
  sql : Option (ℕ × String) := none
  /-- what was passed to `OnMsg` -/
  enqueued : List (ℕ × String) := []
  /-- what was passed to `prepareStatement` by `UpdateThread` -/
  prepared : List (ℕ × String) := []
  deriving DecidableEq, Repr

namespace DBWorkHandle

/-- What the driver does when `CheckStatus` calls it. -/
structure CheckReply where
  isValidThrows : Bool := false
  closeThrows : Bool := false
  /-- the connection `connect` returns; none where it returns null or throws -/
  connect : Option Bool
  deriving DecidableEq, Repr

/-- A step of a producer, of the server, of `CheckStatus` and of `UpdateThread`. -/
inductive Label
  | onMsg (producer : ℕ) (sql : String)
  | lose
  | checkStatus (reply : CheckReply)
  | dequeue (producer : ℕ)
  | update (isValidThrows : Bool)
  deriving DecidableEq, Repr

/-- `OnMsg`. -/
def onMsg (producer : ℕ) (sql : String) (h : DBWorkHandle) : DBWorkHandle :=
  { h with q := h.q ++ [(producer, sql)], enqueued := h.enqueued ++ [(producer, sql)] }

/-- `DisConnect`, then `Connect`; `close` may throw before anything has changed. -/
def reconnect (reply : CheckReply) (h : DBWorkHandle) : DBWorkHandle :=
  if h.conn.isSome && reply.closeThrows then h else { h with conn := reply.connect }

/-- An iteration of `CheckStatus`. -/
def checkStatus (reply : CheckReply) (h : DBWorkHandle) : DBWorkHandle :=
  match h.conn with
  | none => h.reconnect reply
  | some alive =>
    if reply.isValidThrows then h
    else if alive then
      -- every 1000th time the connection is used, with no effect here
      { h with count := if h.count + 1 > 1000 then 0 else h.count + 1 }
    else h.reconnect reply

/-- `try_dequeue` of `UpdateThread`, of the next message of a producer. -/
def dequeue (producer : ℕ) (h : DBWorkHandle) : Option DBWorkHandle :=
  match h.sql, takeFirst producer h.q with
  | none, some (sql, q) => some { h with q := q, sql := some (producer, sql) }
  | _, _ => none

/-- `conn_` is not null, and `isValid` returns true. -/
def usable (isValidThrows : Bool) (h : DBWorkHandle) : Bool :=
  match h.conn with
  | none => false
  | some alive => !isValidThrows && alive

/-- The locked part of `UpdateThread`. -/
def update (isValidThrows : Bool) (h : DBWorkHandle) : Option DBWorkHandle :=
  match h.sql with
  | none => none
  | some sql =>
    if h.usable isValidThrows then
      -- whatever comes of the statement, the next one follows
      some { h with sql := none, prepared := h.prepared ++ [sql] }
    else some { h with sql := none }

/-- One step. -/
def step (h : DBWorkHandle) : Label → Option DBWorkHandle
  | .onMsg producer sql => some (h.onMsg producer sql)
  | .lose => some { h with conn := h.conn.map fun _ => false }
  | .checkStatus reply => some (h.checkStatus reply)
  | .dequeue producer => h.dequeue producer
  | .update isValidThrows => h.update isValidThrows

/-- For each producer, what was handed over, what is in hand and what is queued is what it
enqueued, in order. -/
def Lossless (h : DBWorkHandle) : Prop :=
  ∀ producer, ofProducer producer (h.prepared ++ h.sql.toList ++ h.q) =
    ofProducer producer h.enqueued

/-- If the step handles a string, the connection is of use. -/
def FindsUsable (h : DBWorkHandle) : Label → Prop
  | .update isValidThrows => h.usable isValidThrows
  | _ => True

instance (h : DBWorkHandle) : (a : Label) → Decidable (FindsUsable h a)
  | .update isValidThrows => inferInstanceAs (Decidable (h.usable isValidThrows = true))
  | .onMsg .. | .lose | .checkStatus _ | .dequeue _ => inferInstanceAs (Decidable True)

section Run

variable {h h' : DBWorkHandle} {a : Label}

/-- The check thread changes the connection and its count. -/
theorem checkStatus_eq (reply : CheckReply) (h : DBWorkHandle) :
    h.checkStatus reply =
      { h with conn := (h.checkStatus reply).conn, count := (h.checkStatus reply).count } := by
  unfold checkStatus reconnect
  split
  · split <;> rfl
  · split
    · rfl
    · split
      · rfl
      · split <;> rfl

theorem Lossless.onMsg (hgood : h.Lossless) (producer : ℕ) (sql : String) :
    (h.onMsg producer sql).Lossless := by
  intro i
  have hi := hgood i
  simp only [DBWorkHandle.onMsg, ofProducer_append] at hi ⊢
  rw [← List.append_assoc, hi]

theorem Lossless.dequeue {producer : ℕ} (hgood : h.Lossless)
    (ha : h.dequeue producer = some h') : h'.Lossless := by
  rw [DBWorkHandle.dequeue] at ha
  split at ha
  next sql q hsql htake =>
    cases ha
    intro i
    have hi := hgood i
    rw [hsql, ofProducer_append, ofProducer_takeFirst htake] at hi
    rw [← hi]
    simp [← ofProducer_append]
  · cases ha

/-- A string that is not handed over is lost. -/
theorem lossless_update_iff {isValidThrows : Bool} (hgood : h.Lossless)
    (ha : h.update isValidThrows = some h') : h'.Lossless ↔ h.usable isValidThrows := by
  rw [update] at ha
  split at ha
  · cases ha
  next sql hsql =>
    split at ha
    next husable =>
      cases ha
      simp only [husable, iff_true]
      intro i
      have hi := hgood i
      rw [hsql] at hi
      simpa using hi
    next husable =>
      cases ha
      refine iff_of_false (fun hgood' => ?_) husable
      -- its producer has one string less
      have hi := congrArg List.length (hgood sql.1)
      have hi' := congrArg List.length (hgood' sql.1)
      have hsql' : (ofProducer sql.1 [sql]).length = 1 := by
        rw [ofProducer_cons, if_pos rfl]
        rfl
      rw [hsql] at hi
      simp only [ofProducer_append, List.length_append, Option.toList_some, Option.toList_none,
        ofProducer_nil, List.length_nil, hsql'] at hi hi'
      omega

theorem start_lossless (conn : Option Bool) : Lossless { conn := conn } := fun _ => rfl

/-- **Queued SQL.** In every state of a run, each producer's SQL is handed over or waits, once
and in order, exactly if the connection is of use whenever the update thread looks at it with a
string in hand. -/
theorem lossless_iff {conn : Option Bool} {trace : List (DBWorkHandle × Label)}
    (hrun : Run step { conn := conn } trace h) :
    ((∀ e ∈ trace, e.1.Lossless) ∧ h.Lossless) ↔ ∀ e ∈ trace, e.1.FindsUsable e.2 := by
  refine Run.forall_good_iff (I := fun _ => True) trivial (fun _ _ => trivial)
    (start_lossless conn) ?_ hrun
  intro h a h' _ hgood ha
  cases a with
  | onMsg producer sql =>
    cases ha
    exact iff_of_true (hgood.onMsg producer sql) trivial
  | lose =>
    cases ha
    exact iff_of_true hgood trivial
  | checkStatus reply =>
    cases ha
    rw [checkStatus_eq]
    exact iff_of_true hgood trivial
  | dequeue producer => exact iff_of_true (hgood.dequeue ha) trivial
  | update isValidThrows => exact lossless_update_iff hgood ha

end Run

/-- Taken out and handed over, before the connection is lost and replaced. -/
theorem lossless_replaced :
    ∃ (trace : List (DBWorkHandle × Label)) (h : DBWorkHandle),
      Run step { conn := some true } trace h ∧
      trace.map Prod.snd = [.onMsg 0 "a", .onMsg 1 "b", .dequeue 1, .update false, .lose,
        .checkStatus { connect := some true }, .dequeue 0, .update false] ∧
      h.prepared = [(1, "b"), (0, "a")] ∧ h.Lossless := by
  have hrun : Run step { conn := some true } _ _ :=
    Run.nil.snoc (a := .onMsg 0 "a") rfl |>.snoc (a := .onMsg 1 "b") rfl
    |>.snoc (a := .dequeue 1) rfl |>.snoc (a := .update false) rfl |>.snoc (a := .lose) rfl
    |>.snoc (a := .checkStatus { connect := some true }) rfl |>.snoc (a := .dequeue 0) rfl
    |>.snoc (a := .update false) rfl
  exact ⟨_, _, hrun, rfl, rfl, ((lossless_iff hrun).mpr (by decide)).2⟩

/-- Lost after the string was taken out: it is neither queued nor handed over. -/
theorem lossless_fails_on_lost :
    ∃ (trace : List (DBWorkHandle × Label)) (h : DBWorkHandle),
      Run step { conn := some true } trace h ∧
      trace.map Prod.snd = [.onMsg 0 "a", .dequeue 0, .lose, .update false] ∧
      h.enqueued = [(0, "a")] ∧ h.q = [] ∧ h.sql = none ∧ h.prepared = [] ∧ ¬ h.Lossless := by
  refine ⟨_, _, Run.nil.snoc (a := .onMsg 0 "a") rfl |>.snoc (a := .dequeue 0) rfl
    |>.snoc (a := .lose) rfl |>.snoc (a := .update false) rfl, rfl, rfl, rfl, rfl, rfl,
    fun hgood => ?_⟩
  exact absurd (hgood 0) (by decide)

end DBWorkHandle

end SampleTools
