import BddsBroker.Mqtt.Registry
import BddsBroker.Mqtt.Wire

/-! The registry as a map. Whatever calls of the two add functions have built it, the names
are distinct, and `find_topic` gives the clients that were added under a name in the order of
the calls (`registry_is_map`). What the add functions return is the entry only when they have
made it: for a name that is known they return its `Topic`, which becomes an entry without
clients (`returnsEntry_iff`). -/

namespace BddsBroker.Registry

open FirstWins Upsert

variable {L : Libraries}

inductive Call
  | addMqttClient (topicName : String) (client : SessionPtr)
  | addClient (topicName : String) (client : ClientPtr)
  deriving DecidableEq, Repr

namespace Call

def topicName : Call → String
  | addMqttClient topicName _ | addClient topicName _ => topicName

def perform (topics : List (BrokerTopic L)) : Call → List (BrokerTopic L)
  | addMqttClient topicName client => addMqttClientToTopic topicName client topics
  | addClient topicName client => addClientToTopic topicName client topics

/-- The session that is added, if it is one. -/
def mqttClient : Call → Option SessionPtr
  | addMqttClient _ client => some client
  | addClient .. => none

def client : Call → Option ClientPtr
  | addClient _ client => some client
  | addMqttClient .. => none

/-- What the call does to the entry of its name. -/
def update : Call → Update (BrokerTopic L) String
  | addMqttClient topicName client => ⟨topicName, fun topic => topic.addMqttClient client⟩
  | addClient topicName client => ⟨topicName, fun topic => topic.addClient client⟩

end Call

/-- `topic_list` after these calls. -/
def registry (calls : List Call) : List (BrokerTopic L) := calls.foldl Call.perform []

/-- The calls with that name. -/
def callsFor (name : String) (calls : List Call) : List Call :=
  calls.filter fun call => call.topicName = name

/-- The sessions that are added under that name. -/
def mqttClientsFor (name : String) (calls : List Call) : List SessionPtr :=
  (callsFor name calls).filterMap Call.mqttClient

def clientsFor (name : String) (calls : List Call) : List ClientPtr :=
  (callsFor name calls).filterMap Call.client

/-! ## The map -/

theorem perform_eq (topics : List (BrokerTopic L)) (call : Call) :
    call.perform topics = upsert BrokerTopic.getSubTopicStr
      (.ofTopic (L.newTopic call.topicName)) call.update.change call.topicName topics := by
  cases call with
  | addMqttClient topicName client => exact addToTopic_eq _ topicName topics
  | addClient topicName client => exact addToTopic_eq _ topicName topics

/-- The calls are updates of a registry that find or append. -/
theorem registry_eq (calls : List Call) :
    (registry calls : List (BrokerTopic L)) =
      build BrokerTopic.getSubTopicStr (fun name => .ofTopic (L.newTopic name))
        (calls.map Call.update) := by
  induction calls using List.reverseRecOn with
  | nil => rfl
  | append_singleton calls call ih =>
    rw [List.map_append, List.map_singleton, build_snoc, ← ih, registry, List.foldl_append,
      List.foldl_cons, List.foldl_nil, perform_eq]
    cases call <;> rfl

theorem update_keeps (call : Call) (topic : BrokerTopic L) :
    (call.update.change topic).getSubTopicStr = topic.getSubTopicStr := by
  cases call <;> rfl

theorem keepKeys (hL : L.TopicKeepsName) (calls : List Call) :
    KeepKeys BrokerTopic.getSubTopicStr (fun name => BrokerTopic.ofTopic (L.newTopic name))
      (calls.map Call.update) where
  fresh name := hL name
  change u hu := by
    obtain ⟨call, -, rfl⟩ := List.mem_map.mp hu
    exact update_keeps call

theorem nodup_names_registry (hL : L.TopicKeepsName) (calls : List Call) :
    (names (registry calls : List (BrokerTopic L))).Nodup := by
  rw [names, registry_eq]
  exact nodup_keys_build (keepKeys hL calls)

/-- What the calls add to an entry. -/
theorem sessions_foldl (calls : List Call) (topic : BrokerTopic L) :
    let entry := (calls.map Call.update).foldl (fun a u => u.change a) topic
    entry.mqttClientSessions = topic.mqttClientSessions ++ calls.filterMap Call.mqttClient ∧
      entry.clientSessions = topic.clientSessions ++ calls.filterMap Call.client := by
  induction calls generalizing topic with
  | nil => simp
  | cons call calls ih =>
    obtain ⟨hmqtt, hclients⟩ := ih (call.update.change topic)
    rw [List.map_cons, List.foldl_cons]
    refine ⟨hmqtt.trans ?_, hclients.trans ?_⟩
    · cases call <;>
        simp [Call.update, Call.mqttClient, List.filterMap_cons, BrokerTopic.addMqttClient,
          BrokerTopic.addClient]
    · cases call <;>
        simp [Call.update, Call.client, List.filterMap_cons, BrokerTopic.addMqttClient,
          BrokerTopic.addClient]

theorem key_update (call : Call) : (call.update : Update (BrokerTopic L) String).key =
    call.topicName := by
  cases call <;> rfl

theorem changed_eq (name : String) (calls : List Call) (topic : BrokerTopic L) :
    changed (calls.map Call.update) name topic =
      ((callsFor name calls).map Call.update).foldl (fun a u => u.change a) topic := by
  rw [changed, List.filter_map, callsFor]
  simp only [Function.comp_def, key_update]

/-- What `find_topic` gives, also for a name that nobody has added anything under. -/
theorem findTopic_registry (hL : L.TopicKeepsName) (calls : List Call) (name : String) :
    (findTopic name (registry calls : List (BrokerTopic L))).mqttClientSessions =
        mqttClientsFor name calls ∧
      (findTopic name (registry calls : List (BrokerTopic L))).clientSessions =
        clientsFor name calls := by
  rw [findTopic_eq, registry_eq, first?_build (keepKeys hL calls), List.map_map]
  split
  · rw [Option.getD_some, changed_eq]
    exact sessions_foldl (callsFor name calls) (.ofTopic (L.newTopic name))
  · rename_i hnew
    have hnone : callsFor name calls = [] := by
      rw [callsFor, List.filter_eq_nil_iff]
      intro call hcall hname
      exact hnew (List.mem_map.mpr ⟨call, hcall, (key_update call).trans (by simpa using hname)⟩)
    rw [mqttClientsFor, clientsFor, hnone]
    exact ⟨rfl, rfl⟩

/-- The entries list nobody twice when nobody is added twice under one name. -/
theorem nodup_sessions_iff (hL : L.TopicKeepsName) (calls : List Call) :
    (∀ topic ∈ (registry calls : List (BrokerTopic L)), topic.mqttClientSessions.Nodup) ↔
      ∀ name, (mqttClientsFor name calls).Nodup := by
  constructor
  · intro h name
    rw [← (findTopic_registry (L := L) hL calls name).1, findTopic_eq]
    cases hfound : first? BrokerTopic.getSubTopicStr (registry calls) name with
    | none => exact List.nodup_nil
    | some topic => exact h topic (mem_of_first? hfound)
  · intro h topic htopic
    have hfound := findTopic_of_mem (nodup_names_registry hL calls) htopic
    rw [← hfound, (findTopic_registry hL calls _).1]
    exact h topic.getSubTopicStr

/-- **The registry is a map** from names to the lists of their clients, and a call changes
only the entry of its name. -/
theorem registry_is_map (hL : L.TopicKeepsName) (calls : List Call) :
    let topics : List (BrokerTopic L) := registry calls
    (names topics).Nodup ∧
      (∀ name,
        (findTopic name topics).mqttClientSessions = mqttClientsFor name calls ∧
        (findTopic name topics).clientSessions = clientsFor name calls) ∧
      ∀ call : Call,
        ((call.perform topics).filter fun topic => topic.getSubTopicStr ≠ call.topicName) =
            topics.filter (fun topic => topic.getSubTopicStr ≠ call.topicName) ∧
          ∀ name, name ≠ call.topicName →
            findTopic name (call.perform topics) = findTopic name topics := by
  intro topics
  refine ⟨?_, findTopic_registry hL calls, ?_⟩
  · exact nodup_names_registry hL calls
  · intro call
    have hname := name_new hL (update_keeps call) call.topicName
    rw [perform_eq]
    refine ⟨filter_upsert hname (update_keeps call) topics, ?_⟩
    intro name hne
    rw [findTopic_eq, findTopic_eq, first?_upsert_of_ne hname (update_keeps call) hne]

/-- Two sessions and a client, under two names. -/
theorem gps_registry_is_map :
    (findTopic "GPS" (registry [.addMqttClient "GPS" 1, .addClient "A" 7, .addMqttClient "GPS" 2,
        .addMqttClient "null" 3] : List (BrokerTopic Wire.libraries))).mqttClientSessions = [1, 2] ∧
      (findTopic "B" (registry [.addMqttClient "GPS" 1] :
        List (BrokerTopic Wire.libraries))).mqttClientSessions = [] :=
  ⟨((registry_is_map Wire.topicKeepsName _).2.1 "GPS").1,
    ((registry_is_map Wire.topicKeepsName _).2.1 "B").1⟩

/-! ## What the add functions return -/

/-- What the loop returns. For an entry of the name that is `temp->s_topic`, which is
converted to an entry without clients; a new entry is returned as it is. -/
def addToTopicReturns (change : BrokerTopic L → BrokerTopic L) (topicName : String) :
    List (BrokerTopic L) → BrokerTopic L
  | [] => change (.ofTopic (L.newTopic topicName))
  | topic :: topics =>
      if topic.getSubTopicStr = topicName then .ofTopic topic.sTopic
      else addToTopicReturns change topicName topics

def addMqttClientToTopicReturns (topicName : String) (client : SessionPtr) :
    List (BrokerTopic L) → BrokerTopic L :=
  addToTopicReturns (fun topic => topic.addMqttClient client) topicName

def addClientToTopicReturns (topicName : String) (client : ClientPtr) :
    List (BrokerTopic L) → BrokerTopic L :=
  addToTopicReturns (fun topic => topic.addClient client) topicName

/-- The call returns what `find_topic` gives afterwards. -/
def ReturnsEntry (topics : List (BrokerTopic L)) : Call → Prop
  | .addMqttClient topicName client =>
      addMqttClientToTopicReturns topicName client topics =
        findTopic topicName (addMqttClientToTopic topicName client topics)
  | .addClient topicName client =>
      addClientToTopicReturns topicName client topics =
        findTopic topicName (addClientToTopic topicName client topics)

theorem findTopic_addToTopic (hL : L.TopicKeepsName) {change : BrokerTopic L → BrokerTopic L}
    (hc : ∀ topic, (change topic).getSubTopicStr = topic.getSubTopicStr) (topicName : String)
    (topics : List (BrokerTopic L)) :
    findTopic topicName (addToTopic change topicName topics) =
      change ((first? BrokerTopic.getSubTopicStr topics topicName).getD
        (.ofTopic (L.newTopic topicName))) := by
  rw [findTopic_eq, addToTopic_eq, first?_upsert_self (name_new hL hc topicName) hc]
  rfl

theorem findTopic_addToTopic_of_ne (hL : L.TopicKeepsName)
    {change : BrokerTopic L → BrokerTopic L}
    (hc : ∀ topic, (change topic).getSubTopicStr = topic.getSubTopicStr) {name topicName : String}
    (hne : name ≠ topicName) (topics : List (BrokerTopic L)) :
    findTopic name (addToTopic change topicName topics) = findTopic name topics := by
  rw [findTopic_eq, findTopic_eq, addToTopic_eq,
    first?_upsert_of_ne (name_new hL hc topicName) hc hne]

/-- A new entry is returned, and of a known one its topic. -/
theorem addToTopicReturns_eq (change : BrokerTopic L → BrokerTopic L) (topicName : String)
    (topics : List (BrokerTopic L)) :
    addToTopicReturns change topicName topics =
      match first? BrokerTopic.getSubTopicStr topics topicName with
      | some topic => .ofTopic topic.sTopic
      | none => change (.ofTopic (L.newTopic topicName)) := by
  induction topics with
  | nil => rfl
  | cons topic topics ih =>
    unfold addToTopicReturns
    rw [ih]
    by_cases hname : topic.getSubTopicStr = topicName <;> simp [first?, hname]

/-- The change that adds somebody tells an entry without clients from the changed one. -/
theorem returns_iff (hL : L.TopicKeepsName) {change : BrokerTopic L → BrokerTopic L}
    (hc : ∀ topic, (change topic).getSubTopicStr = topic.getSubTopicStr)
    (hadds : ∀ topic, BrokerTopic.ofTopic topic.sTopic ≠ change topic) (topicName : String)
    (topics : List (BrokerTopic L)) :
    addToTopicReturns change topicName topics =
        findTopic topicName (addToTopic change topicName topics) ↔ topicName ∉ names topics := by
  rw [findTopic_addToTopic hL hc, addToTopicReturns_eq, names, ← first?_eq_none_iff]
  cases first? BrokerTopic.getSubTopicStr topics topicName with
  | none => simp
  | some topic => simpa using hadds topic

/-- **What is returned** is the entry, with all its clients, exactly when the call has made
the entry. -/
theorem returnsEntry_iff (hL : L.TopicKeepsName) (topics : List (BrokerTopic L)) (call : Call) :
    ReturnsEntry topics call ↔ call.topicName ∉ names topics := by
  cases call with
  | addMqttClient topicName client =>
    refine returns_iff hL (fun topic => topic.getSubTopicStr_addMqttClient client) ?_ topicName
      topics
    intro topic h
    have hlists := congrArg BrokerTopic.mqttClientSessions h
    simp [BrokerTopic.addMqttClient, BrokerTopic.ofTopic] at hlists
  | addClient topicName client =>
    refine returns_iff hL (fun topic => topic.getSubTopicStr_addClient client) ?_ topicName topics
    intro topic h
    have hlists := congrArg BrokerTopic.clientSessions h
    simp [BrokerTopic.addClient, BrokerTopic.ofTopic] at hlists

/-- The first session of "GPS" is returned with its entry. -/
theorem first_returnsEntry :
    ReturnsEntry ([] : List (BrokerTopic Wire.libraries)) (.addMqttClient "GPS" 1) :=
  (returnsEntry_iff Wire.topicKeepsName [] (.addMqttClient "GPS" 1)).mpr (by decide)

/-- The second one is added, and an entry without sessions is returned. -/
theorem second_not_returnsEntry :
    let topics : List (BrokerTopic Wire.libraries) := registry [.addMqttClient "GPS" 1]
    (names topics).Nodup ∧
      (addMqttClientToTopicReturns "GPS" 2 topics).mqttClientSessions = [] ∧
      (findTopic "GPS" (addMqttClientToTopic "GPS" 2 topics)).mqttClientSessions = [1, 2] ∧
      ¬ ReturnsEntry topics (.addMqttClient "GPS" 2) := by
  refine ⟨by decide, rfl, rfl, ?_⟩
  intro h
  have hlists := congrArg BrokerTopic.mqttClientSessions h
  exact absurd hlists (by decide)

end BddsBroker.Registry
