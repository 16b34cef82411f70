import Mathlib.Data.Finset.Basic
import Mathlib.Data.Finset.Union
import SampleTools.Library.Containers

/-!
# The subscription store

`SubManager` keeps a `Topics` object for each topic, made when it is first needed. A
`Topics` object keeps a set of subscribers for each key, and a set of subscribers for
the topic as a whole. Sets stay behind when their last member leaves.

## Main definitions

* `Topics`, `SubManager`: the two levels, with their methods
* `SubManager.view`: what is stored for a topic, made or not

## Main results

* `Topics.subers_eq`: a query of one topic
* `view_subscribe` and the like: what the updates do to a view
-/

namespace SampleTools

/-- `TopicType`. -/
abbrev TopicType := Int64

variable {Suber Key : Type} [DecidableEq Suber] [DecidableEq Key]

/-- `Topics`: the subscribers of one topic. -/
structure Topics (Suber Key : Type) where
  topic : TopicType
  /-- `subers_` -/
  subersMap : AList fun _ : Key => Finset Suber := ∅
  topicSubers : Finset Suber := ∅

namespace Topics

/-- `addTopicSuber`. -/
def addTopicSuber (st : Suber) (t : Topics Suber Key) : Topics Suber Key :=
  { t with topicSubers := insert st t.topicSubers }

/-- `addSubscriber`. -/
def addSubscriber (key : Key) (st : Suber) (t : Topics Suber Key) : Topics Suber Key :=
  match t.subersMap.lookup key with
  | some it => { t with subersMap := t.subersMap.insert key (insert st it) }
  | none => { t with subersMap := t.subersMap.insert key {st} }

/-- `removeSubscriber(key, st)`. -/
def removeKeySubscriber (key : Key) (st : Suber) (t : Topics Suber Key) : Topics Suber Key :=
  match t.subersMap.lookup key with
  | some it => { t with subersMap := t.subersMap.insert key (it.erase st) }
  | none => t

/-- `removeSubscriber(st)`. -/
def removeSubscriber (st : Suber) (t : Topics Suber Key) : Topics Suber Key :=
  { t with
    topicSubers := t.topicSubers.erase st
    subersMap := t.subersMap.mapValues fun it => it.erase st }

/-- `subers`. -/
def subers (key : Key) (t : Topics Suber Key) : Finset Suber :=
  match t.subersMap.lookup key with
  | none => t.topicSubers
  | some it => if t.topicSubers = ∅ then it else it ∪ t.topicSubers

/-- The subscribers of a key alone. -/
def keySubers (key : Key) (t : Topics Suber Key) : Finset Suber :=
  (t.subersMap.lookup key).getD ∅

end Topics

/-- `SubManager`: the topics by their number. -/
structure SubManager (Suber Key : Type) where
  /-- `subers_` -/
  topics : AList fun _ : TopicType => Topics Suber Key := ∅

namespace SubManager

/-- `get`. -/
def get (topic : TopicType) (create : Bool) (m : SubManager Suber Key) :
    Option (Topics Suber Key) × SubManager Suber Key :=
  match m.topics.lookup topic with
  | some t => (some t, m)
  | none =>
    if create then
      let p : Topics Suber Key := { topic := topic }
      (some p, { topics := m.topics.insert topic p })
    else (none, m)

/-- Call a method on the object `get` returned, if any; the map holds the object. -/
def onTopic (topic : TopicType) (create : Bool) (f : Topics Suber Key → Topics Suber Key)
    (m : SubManager Suber Key) : SubManager Suber Key :=
  match m.get topic create with
  | (some t, m) => { topics := m.topics.insert topic (f t) }
  | (none, m) => m

/-- `Subscribe`. -/
def subscribe (topic : TopicType) (key : Key) (st : Suber) (m : SubManager Suber Key) :
    SubManager Suber Key :=
  m.onTopic topic true (Topics.addSubscriber key st)

/-- `SubscribeTopic`. -/
def subscribeTopic (topic : TopicType) (st : Suber) (m : SubManager Suber Key) :
    SubManager Suber Key :=
  m.onTopic topic true (Topics.addTopicSuber st)

/-- `UnsubscribeTopic`. -/
def unsubscribeTopic (topic : TopicType) (st : Suber) (m : SubManager Suber Key) :
    SubManager Suber Key :=
  m.onTopic topic true (Topics.removeSubscriber st)

/-- `Unsubscribe(topic, key, st)`. -/
def unsubscribe (topic : TopicType) (key : Key) (st : Suber) (m : SubManager Suber Key) :
    SubManager Suber Key :=
  m.onTopic topic false (Topics.removeKeySubscriber key st)

/-- `Unsubscribe(st)`. -/
def unsubscribeAll (st : Suber) (m : SubManager Suber Key) : SubManager Suber Key :=
  { topics := m.topics.mapValues (Topics.removeSubscriber st) }

/-- `subers`. -/
def subers (topic : TopicType) (key : Key) (m : SubManager Suber Key) : Finset Suber :=
  match m.get topic false with
  | (some t, _) => t.subers key
  | (none, _) => ∅

end SubManager

/-! ## Queries of one topic -/

namespace Topics

variable (t : Topics Suber Key) (key : Key) (st : Suber)

/-- The three cases of a query are one union. -/
theorem subers_eq : t.subers key = t.keySubers key ∪ t.topicSubers := by
  unfold subers keySubers
  cases t.subersMap.lookup key with
  | none => simp
  | some it =>
    by_cases h : t.topicSubers = ∅
    · simp [h]
    · simp [h]

@[simp] theorem topicSubers_addSubscriber :
    (t.addSubscriber key st).topicSubers = t.topicSubers := by
  unfold addSubscriber
  split <;> rfl

@[simp] theorem topicSubers_removeKeySubscriber :
    (t.removeKeySubscriber key st).topicSubers = t.topicSubers := by
  unfold removeKeySubscriber
  split <;> rfl

@[simp] theorem keySubers_addTopicSuber : (t.addTopicSuber st).keySubers key = t.keySubers key :=
  rfl

@[simp] theorem keySubers_removeSubscriber :
    (t.removeSubscriber st).keySubers key = (t.keySubers key).erase st := by
  simp only [keySubers, removeSubscriber, AList.lookup_mapValues]
  cases t.subersMap.lookup key <;> simp

omit [DecidableEq Suber] in
theorem keySubers_insert (key' : Key) (it : Finset Suber) :
    keySubers key' { t with subersMap := t.subersMap.insert key it } =
      if key' = key then it else t.keySubers key' := by
  by_cases h : key' = key
  · subst h
    simp [keySubers]
  · simp [keySubers, h]

@[simp] theorem keySubers_addSubscriber (key' : Key) :
    (t.addSubscriber key st).keySubers key' =
      if key' = key then insert st (t.keySubers key) else t.keySubers key' := by
  unfold addSubscriber
  cases h : t.subersMap.lookup key with
  | none => simp [keySubers_insert, show t.keySubers key = ∅ by simp [keySubers, h]]
  | some it => simp [keySubers_insert, show t.keySubers key = it by simp [keySubers, h]]

@[simp] theorem keySubers_removeKeySubscriber (key' : Key) :
    (t.removeKeySubscriber key st).keySubers key' =
      if key' = key then (t.keySubers key).erase st else t.keySubers key' := by
  unfold removeKeySubscriber
  cases h : t.subersMap.lookup key with
  | none =>
    -- no set for this key: there is nothing to remove
    have hkey : t.keySubers key = ∅ := by simp [keySubers, h]
    by_cases heq : key' = key
    · subst heq
      simp [hkey]
    · simp [heq]
  | some it => simp [keySubers_insert, show t.keySubers key = it by simp [keySubers, h]]

end Topics

/-! ## The view of a topic -/

namespace SubManager

variable (m : SubManager Suber Key) (topic : TopicType) (key : Key) (st : Suber)

/-- What is stored for a topic; nothing, if its object was not made. -/
def view : Topics Suber Key := (m.topics.lookup topic).getD { topic := topic }

theorem subers_view : m.subers topic key = (m.view topic).subers key := by
  unfold subers get view
  cases m.topics.lookup topic <;> rfl

omit [DecidableEq Suber] [DecidableEq Key] in
/-- A method that is called on the object of a topic, or that does nothing to an object
with no subscribers where none is made. -/
theorem view_onTopic {create : Bool} {f : Topics Suber Key → Topics Suber Key}
    (h : create = false → f { topic := topic } = { topic := topic }) (topic' : TopicType) :
    (m.onTopic topic create f).view topic' =
      if topic' = topic then f (m.view topic) else m.view topic' := by
  -- the topic that is changed, or another one
  by_cases heq : topic' = topic
  · subst heq
    unfold onTopic get view
    cases hlookup : m.topics.lookup topic' with
    | some t => simp
    | none =>
      cases create with
      | true => simp
      | false => simp [h rfl, hlookup]
  · unfold onTopic get view
    cases hlookup : m.topics.lookup topic with
    | some t => simp [heq]
    | none => cases create <;> simp [heq]

@[simp] theorem view_subscribe (topic' : TopicType) : (m.subscribe topic key st).view topic' =
    if topic' = topic then (m.view topic).addSubscriber key st else m.view topic' :=
  m.view_onTopic topic (fun h => by cases h) topic'

omit [DecidableEq Key] in
@[simp] theorem view_subscribeTopic (topic' : TopicType) : (m.subscribeTopic topic st).view topic' =
    if topic' = topic then (m.view topic).addTopicSuber st else m.view topic' :=
  m.view_onTopic topic (fun h => by cases h) topic'

omit [DecidableEq Key] in
@[simp] theorem view_unsubscribeTopic (topic' : TopicType) :
    (m.unsubscribeTopic topic st).view topic' =
      if topic' = topic then (m.view topic).removeSubscriber st else m.view topic' :=
  m.view_onTopic topic (fun h => by cases h) topic'

@[simp] theorem view_unsubscribe (topic' : TopicType) :
    (m.unsubscribe topic key st).view topic' =
      if topic' = topic then (m.view topic).removeKeySubscriber key st else m.view topic' :=
  m.view_onTopic topic (fun _ => rfl) topic'

omit [DecidableEq Key] in
@[simp] theorem view_unsubscribeAll :
    (m.unsubscribeAll st).view topic = (m.view topic).removeSubscriber st := by
  simp only [view, unsubscribeAll, AList.lookup_mapValues]
  cases m.topics.lookup topic <;> rfl

end SubManager

end SampleTools
