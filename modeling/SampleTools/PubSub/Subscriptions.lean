import SampleTools.PubSub.SubManager

/-!
# What the subscription store means

The store stands for two relations: who subscribed to which key of which topic, and who
subscribed to which topic as a whole. Each update is a simple change of the two, about
one subscriber, and a query is a union.

## Main definitions

* `SubOp`: the five updates, of the store and of the relations
* `Subscriptions`: the two relations

## Main results

* `Refines.apply`: the store follows the relations
* `subers_refines`: a query returns exactly the subscribers of the relations
-/

namespace SampleTools

variable {Suber Key : Type}

/-- An update. -/
inductive SubOp (Suber Key : Type)
  | subscribe (topic : TopicType) (key : Key) (st : Suber)
  | subscribeTopic (topic : TopicType) (st : Suber)
  | unsubscribe (topic : TopicType) (key : Key) (st : Suber)
  | unsubscribeTopic (topic : TopicType) (st : Suber)
  | unsubscribeAll (st : Suber)

/-- The subscriber an update is about. -/
def SubOp.suber : SubOp Suber Key → Suber
  | .subscribe _ _ st => st
  | .subscribeTopic _ st => st
  | .unsubscribe _ _ st => st
  | .unsubscribeTopic _ st => st
  | .unsubscribeAll st => st

/-- An update of the store. -/
def SubManager.apply [DecidableEq Suber] [DecidableEq Key] (m : SubManager Suber Key) :
    SubOp Suber Key → SubManager Suber Key
  | .subscribe topic key st => m.subscribe topic key st
  | .subscribeTopic topic st => m.subscribeTopic topic st
  | .unsubscribe topic key st => m.unsubscribe topic key st
  | .unsubscribeTopic topic st => m.unsubscribeTopic topic st
  | .unsubscribeAll st => m.unsubscribeAll st

/-- Who subscribed to which key of which topic, and who to which topic as a whole. -/
structure Subscriptions (Suber Key : Type) where
  keyed : Set (TopicType × Key × Suber) := ∅
  whole : Set (TopicType × Suber) := ∅

namespace Subscriptions

/-- An update of the relations. -/
def apply (a : Subscriptions Suber Key) : SubOp Suber Key → Subscriptions Suber Key
  | .subscribe topic key st => { a with keyed := insert (topic, key, st) a.keyed }
  | .subscribeTopic topic st => { a with whole := insert (topic, st) a.whole }
  | .unsubscribe topic key st => { a with keyed := a.keyed \ {(topic, key, st)} }
  | .unsubscribeTopic topic st =>
    { keyed := {x ∈ a.keyed | ¬ (x.1 = topic ∧ x.2.2 = st)}, whole := a.whole \ {(topic, st)} }
  | .unsubscribeAll st =>
    { keyed := {x ∈ a.keyed | x.2.2 ≠ st}, whole := {x ∈ a.whole | x.2 ≠ st} }

/-- The subscribers of a key: of the key itself, and of the topic as a whole. -/
def subers (topic : TopicType) (key : Key) (a : Subscriptions Suber Key) : Set Suber :=
  {st | (topic, key, st) ∈ a.keyed ∨ (topic, st) ∈ a.whole}

/-- An update is about one subscriber only. -/
theorem mem_subers_apply_of_ne (a : Subscriptions Suber Key) (op : SubOp Suber Key) {st : Suber}
    (h : st ≠ op.suber) (topic : TopicType) (key : Key) :
    st ∈ (a.apply op).subers topic key ↔ st ∈ a.subers topic key := by
  cases op <;> simp_all [apply, subers, SubOp.suber]

end Subscriptions

section Refinement

variable [DecidableEq Suber] [DecidableEq Key]

/-- The store holds the relations. -/
structure Refines (m : SubManager Suber Key) (a : Subscriptions Suber Key) : Prop where
  keyed : ∀ topic key st, st ∈ (m.view topic).keySubers key ↔ (topic, key, st) ∈ a.keyed
  whole : ∀ topic st, st ∈ (m.view topic).topicSubers ↔ (topic, st) ∈ a.whole

omit [DecidableEq Suber] in
theorem Refines.empty : Refines ({} : SubManager Suber Key) {} where
  keyed topic key st := by simp [SubManager.view, Topics.keySubers]
  whole topic st := by simp [SubManager.view]

theorem Refines.subers {m : SubManager Suber Key} {a : Subscriptions Suber Key}
    (h : Refines m a) (topic : TopicType) (key : Key) :
    (m.subers topic key : Set Suber) = a.subers topic key := by
  ext st
  rw [Finset.mem_coe, m.subers_view, Topics.subers_eq, Finset.mem_union, h.keyed, h.whole]
  rfl

omit [DecidableEq Suber] in
/-- A method called on one topic's object: it is enough that what it does there corresponds,
and that the relations stay as they are elsewhere. -/
theorem Refines.onTopic {m m' : SubManager Suber Key} {a a' : Subscriptions Suber Key}
    (h : Refines m a) {topic : TopicType} {t : Topics Suber Key}
    (hview : ∀ topic', m'.view topic' = if topic' = topic then t else m.view topic')
    (hkeyed : ∀ topic' key st, topic' ≠ topic →
      ((topic', key, st) ∈ a'.keyed ↔ (topic', key, st) ∈ a.keyed))
    (hwhole : ∀ topic' st, topic' ≠ topic → ((topic', st) ∈ a'.whole ↔ (topic', st) ∈ a.whole))
    (tkeyed : ∀ key st, st ∈ t.keySubers key ↔ (topic, key, st) ∈ a'.keyed)
    (twhole : ∀ st, st ∈ t.topicSubers ↔ (topic, st) ∈ a'.whole) : Refines m' a' where
  keyed topic' key st := by
    rw [hview]
    split
    next heq => rw [heq, tkeyed]
    next hne => rw [h.keyed, hkeyed topic' key st hne]
  whole topic' st := by
    rw [hview]
    split
    next heq => rw [heq, twhole]
    next hne => rw [h.whole, hwhole topic' st hne]

/-- Updates correspond. -/
theorem Refines.apply {m : SubManager Suber Key} {a : Subscriptions Suber Key}
    (h : Refines m a) (op : SubOp Suber Key) : Refines (m.apply op) (a.apply op) := by
  cases op with
  | subscribe topic key st =>
    refine h.onTopic (m.view_subscribe topic key st) ?_ (fun _ _ _ => Iff.rfl) ?_ ?_
    · intro t k s hne
      simp [Subscriptions.apply, hne]
    · intro k s
      by_cases hk : k = key
      · subst hk
        simp [Subscriptions.apply, h.keyed]
      · simp [Subscriptions.apply, h.keyed, hk]
    · intro s
      simp [Subscriptions.apply, h.whole]
  | subscribeTopic topic st =>
    refine h.onTopic (m.view_subscribeTopic topic st) (fun _ _ _ _ => Iff.rfl) ?_ ?_ ?_
    · intro t s hne
      simp [Subscriptions.apply, hne]
    · intro k s
      simp [Subscriptions.apply, h.keyed]
    · intro s
      simp [Subscriptions.apply, Topics.addTopicSuber, h.whole]
  | unsubscribe topic key st =>
    refine h.onTopic (m.view_unsubscribe topic key st) ?_ (fun _ _ _ => Iff.rfl) ?_ ?_
    · intro t k s hne
      simp [Subscriptions.apply, hne]
    · intro k s
      by_cases hk : k = key
      · subst hk
        simp [Subscriptions.apply, h.keyed, and_comm]
      · simp [Subscriptions.apply, h.keyed, hk]
    · intro s
      simp [Subscriptions.apply, h.whole]
  | unsubscribeTopic topic st =>
    refine h.onTopic (m.view_unsubscribeTopic topic st) ?_ ?_ ?_ ?_
    · intro t k s hne
      simp [Subscriptions.apply, hne]
    · intro t s hne
      simp [Subscriptions.apply, hne]
    · intro k s
      simp [Subscriptions.apply, h.keyed, and_comm]
    · intro s
      simp [Subscriptions.apply, Topics.removeSubscriber, h.whole, and_comm]
  | unsubscribeAll st =>
    -- the one update that reaches every topic
    refine ⟨fun t k s => ?_, fun t s => ?_⟩
    · simp [SubManager.apply, Subscriptions.apply, h.keyed, and_comm]
    · simp [SubManager.apply, Subscriptions.apply, Topics.removeSubscriber, h.whole, and_comm]

theorem Refines.applyAll (ops : List (SubOp Suber Key)) :
    Refines (ops.foldl SubManager.apply {}) (ops.foldl Subscriptions.apply {}) :=
  List.foldl_rel Refines.empty fun op _ _ _ h => h.apply op

/-- **The store means its two relations.** After any updates a query returns exactly the
subscribers of the key and of its topic, and the next update changes a query at most for
the subscriber it is about. -/
theorem subers_refines (ops : List (SubOp Suber Key)) (topic : TopicType) (key : Key) :
    let m := ops.foldl SubManager.apply ({} : SubManager Suber Key)
    let a := ops.foldl Subscriptions.apply ({} : Subscriptions Suber Key)
    (∀ st, st ∈ m.subers topic key ↔ (topic, key, st) ∈ a.keyed ∨ (topic, st) ∈ a.whole) ∧
      ∀ op st, st ≠ op.suber →
        (st ∈ (m.apply op).subers topic key ↔ st ∈ m.subers topic key) := by
  intro m a
  have h : Refines m a := Refines.applyAll ops
  have hmem : ∀ {m : SubManager Suber Key} {a : Subscriptions Suber Key}, Refines m a →
      ∀ st, st ∈ m.subers topic key ↔ st ∈ a.subers topic key := by
    intro m a h st
    rw [← h.subers, Finset.mem_coe]
  refine ⟨hmem h, ?_⟩
  intro op st hne
  rw [hmem (h.apply op), hmem h, a.mem_subers_apply_of_ne op hne]

end Refinement

end SampleTools
