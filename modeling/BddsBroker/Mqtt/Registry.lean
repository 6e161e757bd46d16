import BddsBroker.Lib.Upsert
import BddsBroker.Mqtt.Packet

/-! The topic registry `topic_list` of `BROKER_CONFIGURATION`. A topic's entry is made
when the first client subscribes to its name, so the names are distinct in every
registry that the two add functions build. -/

namespace BddsBroker

/-- The address of an `MQTTSession`. -/
abbrev SessionPtr := Nat

/-- The address of a `BROKERSUB::Session`. -/
abbrev ClientPtr := Nat

structure BrokerTopic (L : Libraries) where
  sTopic : L.Topic
  clientSessions : List ClientPtr
  mqttClientSessions : List SessionPtr

namespace BrokerTopic

variable {L : Libraries}

/-- The constructor from a subscription. -/
def ofTopic (topic : L.Topic) : BrokerTopic L := ⟨topic, [], []⟩

def getSubTopicStr (topic : BrokerTopic L) : String := L.topicFilter topic.sTopic

def addClient (topic : BrokerTopic L) (client : ClientPtr) : BrokerTopic L :=
  { topic with clientSessions := topic.clientSessions ++ [client] }

def addMqttClient (topic : BrokerTopic L) (client : SessionPtr) : BrokerTopic L :=
  { topic with mqttClientSessions := topic.mqttClientSessions ++ [client] }

@[simp] theorem getSubTopicStr_addClient (topic : BrokerTopic L) (client : ClientPtr) :
    (topic.addClient client).getSubTopicStr = topic.getSubTopicStr := rfl

@[simp] theorem getSubTopicStr_addMqttClient (topic : BrokerTopic L) (client : SessionPtr) :
    (topic.addMqttClient client).getSubTopicStr = topic.getSubTopicStr := rfl

end BrokerTopic

namespace Registry

open FirstWins Upsert

variable {L : Libraries}

/-- The loop of the two add functions: change the first entry of that name, or append a
new entry and change it. -/
def addToTopic (change : BrokerTopic L → BrokerTopic L) (topicName : String) :
    List (BrokerTopic L) → List (BrokerTopic L)
  | [] => [change (.ofTopic (L.newTopic topicName))]
  | topic :: topics =>
      if topic.getSubTopicStr = topicName then change topic :: topics
      else topic :: addToTopic change topicName topics

def addMqttClientToTopic (topicName : String) (client : SessionPtr) :
    List (BrokerTopic L) → List (BrokerTopic L) :=
  addToTopic (fun topic => topic.addMqttClient client) topicName

def addClientToTopic (topicName : String) (client : ClientPtr) :
    List (BrokerTopic L) → List (BrokerTopic L) :=
  addToTopic (fun topic => topic.addClient client) topicName

/-- The first entry of that name, or a fresh entry named "null". -/
def findTopic (topicName : String) : List (BrokerTopic L) → BrokerTopic L
  | [] => .ofTopic (L.newTopic "null")
  | topic :: topics =>
      if topic.getSubTopicStr = topicName then topic else findTopic topicName topics

/-- The session is listed in an entry of that name. -/
def Subscribed (topics : List (BrokerTopic L)) (topicName : String) (s : SessionPtr) : Prop :=
  ∃ topic ∈ topics, topic.getSubTopicStr = topicName ∧ s ∈ topic.mqttClientSessions

/-! ## Distinct names -/

def names (topics : List (BrokerTopic L)) : List String := topics.map BrokerTopic.getSubTopicStr

/-- The loop of the two add functions is an update of the registry. -/
theorem addToTopic_eq (change : BrokerTopic L → BrokerTopic L) (topicName : String)
    (topics : List (BrokerTopic L)) :
    addToTopic change topicName topics =
      upsert BrokerTopic.getSubTopicStr (.ofTopic (L.newTopic topicName)) change topicName
        topics := by
  induction topics with
  | nil => rfl
  | cons topic topics ih =>
    unfold addToTopic upsert
    rw [ih]

theorem findTopic_eq (topicName : String) (topics : List (BrokerTopic L)) :
    findTopic topicName topics =
      (first? BrokerTopic.getSubTopicStr topics topicName).getD (.ofTopic (L.newTopic "null")) := by
  induction topics with
  | nil => rfl
  | cons topic topics ih =>
    unfold findTopic
    rw [ih]
    by_cases hname : topic.getSubTopicStr = topicName <;> simp [first?, hname]

/-- A new entry has the name that it was made with. -/
theorem name_new (hL : L.TopicKeepsName) {change : BrokerTopic L → BrokerTopic L}
    (hc : ∀ topic, (change topic).getSubTopicStr = topic.getSubTopicStr) (topicName : String) :
    (change (.ofTopic (L.newTopic topicName))).getSubTopicStr = topicName :=
  (hc _).trans (hL topicName)

theorem nodup_addToTopic (hL : L.TopicKeepsName) {change : BrokerTopic L → BrokerTopic L}
    (hc : ∀ topic, (change topic).getSubTopicStr = topic.getSubTopicStr) {topicName : String}
    {topics : List (BrokerTopic L)} (h : (names topics).Nodup) :
    (names (addToTopic change topicName topics)).Nodup := by
  rw [addToTopic_eq]
  exact nodup_keys_upsert (name_new hL hc topicName) hc h

theorem nodup_addMqttClientToTopic (hL : L.TopicKeepsName) (topicName : String)
    (client : SessionPtr) {topics : List (BrokerTopic L)} (h : (names topics).Nodup) :
    (names (addMqttClientToTopic topicName client topics)).Nodup :=
  nodup_addToTopic hL (fun topic => topic.getSubTopicStr_addMqttClient client) h

theorem nodup_addClientToTopic (hL : L.TopicKeepsName) (topicName : String) (client : ClientPtr)
    {topics : List (BrokerTopic L)} (h : (names topics).Nodup) :
    (names (addClientToTopic topicName client topics)).Nodup :=
  nodup_addToTopic hL (fun topic => topic.getSubTopicStr_addClient client) h

/-! ## The listed sessions -/

theorem forall_addToTopic {p : BrokerTopic L → Prop} {change : BrokerTopic L → BrokerTopic L}
    {topicName : String} {topics : List (BrokerTopic L)} (h : ∀ topic ∈ topics, p topic)
    (hnew : p (change (.ofTopic (L.newTopic topicName))))
    (hc : ∀ topic, p topic → p (change topic)) :
    ∀ topic ∈ addToTopic change topicName topics, p topic := by
  induction topics with
  | nil =>
    intro topic ht
    rw [List.mem_singleton.mp ht]
    exact hnew
  | cons head topics ih =>
    obtain ⟨hhead, hrest⟩ := List.forall_mem_cons.mp h
    unfold addToTopic
    split
    · exact List.forall_mem_cons.mpr ⟨hc head hhead, hrest⟩
    · exact List.forall_mem_cons.mpr ⟨hhead, ih hrest⟩

/-- What holds of every listed session and of a new one, after adding it. -/
theorem forall_addMqttClientToTopic (p : SessionPtr → Prop) (topicName : String)
    {client : SessionPtr} (hclient : p client) {topics : List (BrokerTopic L)}
    (h : ∀ topic ∈ topics, ∀ s ∈ topic.mqttClientSessions, p s) :
    ∀ topic ∈ addMqttClientToTopic topicName client topics,
      ∀ s ∈ topic.mqttClientSessions, p s := by
  refine forall_addToTopic h ?_ fun topic ht => ?_
  · simpa [BrokerTopic.addMqttClient, BrokerTopic.ofTopic] using hclient
  · simp only [BrokerTopic.addMqttClient, List.forall_mem_append, List.forall_mem_singleton]
    exact ⟨ht, hclient⟩

theorem forall_addClientToTopic (p : SessionPtr → Prop) (topicName : String) (client : ClientPtr)
    {topics : List (BrokerTopic L)}
    (h : ∀ topic ∈ topics, ∀ s ∈ topic.mqttClientSessions, p s) :
    ∀ topic ∈ addClientToTopic topicName client topics, ∀ s ∈ topic.mqttClientSessions, p s := by
  refine forall_addToTopic h ?_ fun topic ht => ht
  simp [BrokerTopic.addClient, BrokerTopic.ofTopic]

/-- Only an entry lists somebody. -/
theorem first?_of_mem_findTopic {topicName : String} {topics : List (BrokerTopic L)}
    {s : SessionPtr} (h : s ∈ (findTopic topicName topics).mqttClientSessions) :
    ∃ topic, first? BrokerTopic.getSubTopicStr topics topicName = some topic ∧
      s ∈ topic.mqttClientSessions := by
  rw [findTopic_eq] at h
  cases hfound : first? BrokerTopic.getSubTopicStr topics topicName with
  | none =>
    rw [hfound] at h
    simp [BrokerTopic.ofTopic] at h
  | some topic =>
    rw [hfound] at h
    exact ⟨topic, rfl, h⟩

theorem exists_of_mem_findTopic {topicName : String} {topics : List (BrokerTopic L)}
    {s : SessionPtr} (h : s ∈ (findTopic topicName topics).mqttClientSessions) :
    ∃ topic ∈ topics, s ∈ topic.mqttClientSessions := by
  obtain ⟨topic, hfound, hs⟩ := first?_of_mem_findTopic h
  exact ⟨topic, mem_of_first? hfound, hs⟩

/-- With distinct names an entry is the one that `find_topic` gives for its name. -/
theorem findTopic_of_mem {topics : List (BrokerTopic L)} (h : (names topics).Nodup)
    {topic : BrokerTopic L} (ht : topic ∈ topics) :
    findTopic topic.getSubTopicStr topics = topic := by
  induction topics with
  | nil => cases ht
  | cons head topics ih =>
    simp only [names, List.map_cons, List.nodup_cons] at h
    obtain ⟨hfresh, hrest⟩ := h
    unfold findTopic
    rcases List.mem_cons.mp ht with rfl | ht
    · rw [if_pos rfl]
    · rw [if_neg fun hname => hfresh (List.mem_map.mpr ⟨topic, ht, hname.symm⟩)]
      exact ih hrest ht

/-- A subscriber that `find_topic` gives is still given after a change that only adds. -/
theorem mem_findTopic_addToTopic {change : BrokerTopic L → BrokerTopic L}
    (hname : ∀ topic, (change topic).getSubTopicStr = topic.getSubTopicStr) {s : SessionPtr}
    (hkeep : ∀ topic, s ∈ topic.mqttClientSessions → s ∈ (change topic).mqttClientSessions)
    (name topicName : String) {topics : List (BrokerTopic L)}
    (h : s ∈ (findTopic topicName topics).mqttClientSessions) :
    s ∈ (findTopic topicName (addToTopic change name topics)).mqttClientSessions := by
  induction topics with
  | nil => simp [findTopic, BrokerTopic.ofTopic] at h
  | cons topic topics ih =>
    unfold findTopic at h
    unfold addToTopic
    split
    · unfold findTopic
      rw [hname]
      split at h
      · rename_i hfound
        rw [if_pos hfound]
        exact hkeep topic h
      · rename_i hother
        rw [if_neg hother]
        exact h
    · unfold findTopic
      split at h
      · rename_i hfound
        rw [if_pos hfound]
        exact h
      · rename_i hother
        rw [if_neg hother]
        exact ih h

/-- With distinct names `find_topic` gives all the subscribers of a name. -/
theorem mem_findTopic {topics : List (BrokerTopic L)} (h : (names topics).Nodup)
    (topicName : String) (s : SessionPtr) :
    s ∈ (findTopic topicName topics).mqttClientSessions ↔ Subscribed topics topicName s := by
  constructor
  · intro hs
    obtain ⟨topic, hfound, hs⟩ := first?_of_mem_findTopic hs
    exact ⟨topic, mem_of_first? hfound, key_of_first? hfound, hs⟩
  · rintro ⟨topic, ht, rfl, hs⟩
    rw [findTopic_of_mem h ht]
    exact hs

end Registry

end BddsBroker
