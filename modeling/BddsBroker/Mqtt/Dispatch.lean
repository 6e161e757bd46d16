import BddsBroker.Mqtt.Broker

/-! The consumer of the MQTT task queue, `BrokerMQTTPublisher`: a writer thread takes a
task, resolves its client id among the connected sessions, or takes the subscribers of
"GPS" one by one when the id is "-99", and sends. Here one dispatch is one step. Also
here: the other producer of tasks, a DDS sample. -/

namespace BddsBroker

/-- A call of `client->send`, with what it returned. -/
structure SendCall where
  session : SessionPtr
  data : List UInt8
  taskId : Int
  result : Int
  deriving DecidableEq, Repr

/-- The result of `MQTTSession::send`. An empty message is reported and sent like any
other. -/
def MqttSession.send (message : List UInt8) : Int := if message.length > 1024 then -1 else 0

variable {L : Libraries}

namespace Broker

/-- `get_client`: the first session with that id, in the order of the addresses. -/
def getClient (b : Broker L) (clientId : String) : Option SessionPtr :=
  b.mqttClients.find? fun client => b.clientId client == clientId

/-- `mqtt_client_sessions` of `find_topic("GPS")`. -/
def gpsSessions (b : Broker L) : List SessionPtr :=
  (Registry.findTopic "GPS" b.topicList).mqttClientSessions

end Broker

/-- The part of `send_message` for a connected client. -/
def sendTo (client : SessionPtr) (task : MqttTask) (sendMessageType : Option ControlPacketType)
    (b : Broker L) : Broker L × List SendCall :=
  let unready := !(b.session client).subRequested
  let b₁ := if unready && sendMessageType == some .suback then b.setSubRequested client else b
  let putBack := unready && sendMessageType == some .publish
  -- `enqueue(std::move(task_message))` leaves the local task without data.
  let b₂ := if putBack then b₁.enqueueMqtt task else b₁
  let data := if putBack then [] else task.data
  let result := MqttSession.send data
  let b₃ := if result < 0 then b₂.enqueueMqtt { task with data := data } else b₂
  (b₃, [⟨client, data, task.taskId, result⟩])

/-- `send_message`. It is `none` where `packet_.at(0)` throws outside of the `try` block,
which ends the process. -/
def sendMessage (clientId : String) (task : MqttTask) (b : Broker L) :
    Option (Broker L × List SendCall) :=
  match task.data with
  | [] => none
  | firstByte :: _ =>
      match b.getClient clientId with
      | none => some (b, [])
      | some client => some (sendTo client task (messageType firstByte) b)

/-- What one dispatch does: the broker after it, the sessions of the loop over the
subscribers, each recorded with its call of `send_message`, and the sends. -/
structure Dispatched (L : Libraries) where
  broker : Broker L
  called : List SessionPtr
  sends : List SendCall

/-- The loop over the subscribers. -/
def fanOut (task : MqttTask) : List SessionPtr → Broker L → Option (Dispatched L)
  | [], b => some ⟨b, [], []⟩
  | client :: clients, b =>
      (sendMessage (b.clientId client) task b).bind fun (b₁, sends) =>
        (fanOut task clients b₁).map fun rest =>
          ⟨rest.broker, client :: rest.called, sends ++ rest.sends⟩

/-- The body of `MQTTEndPointWriter`'s loop after `wait_dequeue`. -/
def mqttEndPointWriter (task : MqttTask) (b : Broker L) : Option (Dispatched L) :=
  if task.data = [] then some ⟨b, [], []⟩
  else if task.clientId = broadcastId then fanOut task b.gpsSessions b
  else (sendMessage task.clientId task b).map fun (b', sends) => ⟨b', [], sends⟩

/-- What `on_data_available` does with an encoded sample: a task for DDS, and one for
each subscriber's client id. -/
def forwardSample (topicName json : String) (packet : List UInt8) (b : Broker L) : Broker L :=
  let b₁ := b.enqueueDds (.make b.taskCount topicName json)
  if (Registry.findTopic "GPS" b.topicList).getSubTopicStr ≠ "null" then
    b.gpsSessions.foldl
      (fun b client => b.countTask.enqueueMqtt ⟨b.taskCount, 0, packet, b.clientId client⟩) b₁
  else b₁

/-! ## What a dispatch and a sample do -/

/-- The elementary changes that a writer thread and the listener make. -/
inductive Work : Broker L → Broker L → Prop
  | enqueueMqtt (b : Broker L) (task : MqttTask) : Work b (b.enqueueMqtt task)
  | enqueueDds (b : Broker L) (task : BrokerTask) : Work b (b.enqueueDds task)
  | countTask (b : Broker L) : Work b b.countTask
  | setSubRequested (b : Broker L) (s : SessionPtr) : Work b (b.setSubRequested s)

namespace Work

/-- A sequence of such changes. -/
abbrev Run (b b' : Broker L) : Prop := Relation.ReflTransGen Work b b'

end Work

/-- Those of them that a writer thread makes. -/
inductive Sending : Broker L → Broker L → Prop
  | enqueueMqtt (b : Broker L) (task : MqttTask) : Sending b (b.enqueueMqtt task)
  | setSubRequested (b : Broker L) (s : SessionPtr) : Sending b (b.setSubRequested s)

namespace Sending

abbrev Run (b b' : Broker L) : Prop := Relation.ReflTransGen Sending b b'

theorem work {b b' : Broker L} (h : Sending b b') : Work b b' := by
  cases h with
  | enqueueMqtt task => exact .enqueueMqtt b task
  | setSubRequested s => exact .setSubRequested b s

theorem run_work {b b' : Broker L} (h : Run b b') : Work.Run b b' :=
  Relation.ReflTransGen.mono (fun _ _ => work) b b' h

theorem ddsTaskQueue {b b' : Broker L} (h : Sending b b') : b'.ddsTaskQueue = b.ddsTaskQueue := by
  cases h <;> rfl

theorem run_ite {c : Prop} [Decidable c] {a x y : Broker L} (hx : Run a x) (hy : Run a y) :
    Run a (if c then x else y) := by
  split
  · exact hx
  · exact hy

end Sending

theorem sendTo_sending (client : SessionPtr) (task : MqttTask)
    (sendMessageType : Option ControlPacketType) (b : Broker L) :
    Sending.Run b (sendTo client task sendMessageType b).1 := by
  exact ((Sending.run_ite (.single (.setSubRequested b client)) .refl).trans
    (Sending.run_ite (.single (.enqueueMqtt _ _)) .refl)).trans
      (Sending.run_ite (.single (.enqueueMqtt _ _)) .refl)

theorem sendMessage_sending {clientId : String} {task : MqttTask} {b b' : Broker L}
    {sends : List SendCall} (h : sendMessage clientId task b = some (b', sends)) :
    Sending.Run b b' := by
  unfold sendMessage at h
  split at h
  · cases h
  · split at h
    · simp only [Option.some.injEq, Prod.mk.injEq] at h
      obtain ⟨rfl, -⟩ := h
      exact .refl
    · rename_i firstByte _ _ _ client _
      have hsending := sendTo_sending client task (messageType firstByte) b
      rw [Option.some.inj h] at hsending
      exact hsending

/-- The first turn of the loop, and the others. -/
theorem fanOut_cons {task : MqttTask} {client : SessionPtr} {clients : List SessionPtr}
    {b : Broker L} {r : Dispatched L} (h : fanOut task (client :: clients) b = some r) :
    ∃ b₁ sends rest, sendMessage (b.clientId client) task b = some (b₁, sends) ∧
      fanOut task clients b₁ = some rest ∧
      r = ⟨rest.broker, client :: rest.called, sends ++ rest.sends⟩ := by
  simp only [fanOut, Option.bind_eq_some_iff, Option.map_eq_some_iff, Prod.exists] at h
  obtain ⟨b₁, sends, hsend, rest, hrest, rfl⟩ := h
  exact ⟨b₁, sends, rest, hsend, hrest, rfl⟩

theorem fanOut_sending {task : MqttTask} {clients : List SessionPtr} {b : Broker L}
    {r : Dispatched L} (h : fanOut task clients b = some r) : Sending.Run b r.broker := by
  induction clients generalizing b r with
  | nil =>
    obtain rfl := Option.some.inj h
    exact .refl
  | cons client clients ih =>
    obtain ⟨b₁, sends, rest, hsend, hrest, rfl⟩ := fanOut_cons h
    have hlater : Sending.Run b₁ rest.broker := ih hrest
    exact (sendMessage_sending hsend).trans hlater

theorem mqttEndPointWriter_sending {task : MqttTask} {b : Broker L} {r : Dispatched L}
    (h : mqttEndPointWriter task b = some r) : Sending.Run b r.broker := by
  unfold mqttEndPointWriter at h
  split at h
  · obtain rfl := Option.some.inj h
    exact .refl
  · split at h
    · exact fanOut_sending h
    · obtain ⟨⟨b', sends⟩, hf, rfl⟩ := Option.map_eq_some_iff.mp h
      exact sendMessage_sending hf

theorem forwardSample_work (topicName json : String) (packet : List UInt8) (b : Broker L) :
    Work.Run b (forwardSample topicName json packet b) := by
  have hdds : Work.Run b (b.enqueueDds (.make b.taskCount topicName json)) :=
    .single (.enqueueDds b _)
  unfold forwardSample
  dsimp only
  split
  · refine List.foldlRecOn _ _ hdds fun a ha client _ => ?_
    exact (ha.tail (.countTask a)).tail (.enqueueMqtt _ _)
  · exact hdds

/-! ## What they leave alone -/

/-- The data that only packets and accepted connections change. -/
structure SameClients (b b' : Broker L) : Prop where
  clients : b'.mqttClients = b.mqttClients
  topics : b'.topicList = b.topicList
  clientId : ∀ u, b'.clientId u = b.clientId u
  publishMap : ∀ u, b'.publishMap u = b.publishMap u

namespace SameClients

theorem refl (b : Broker L) : SameClients b b := ⟨rfl, rfl, fun _ => rfl, fun _ => rfl⟩

theorem trans {a b c : Broker L} (hab : SameClients a b) (hbc : SameClients b c) :
    SameClients a c :=
  ⟨hbc.clients.trans hab.clients, hbc.topics.trans hab.topics,
    fun u => (hbc.clientId u).trans (hab.clientId u),
    fun u => (hbc.publishMap u).trans (hab.publishMap u)⟩

theorem ofWork {b b' : Broker L} (h : Work b b') : SameClients b b' := by
  cases h with
  | enqueueMqtt | enqueueDds | countTask => exact ⟨rfl, rfl, fun _ => rfl, fun _ => rfl⟩
  | setSubRequested s =>
    exact ⟨rfl, rfl, fun u => Broker.clientId_updateSession b s u rfl,
      fun u => Broker.publishMap_updateSession b s u rfl⟩

theorem ofRun {b b' : Broker L} (h : Work.Run b b') : SameClients b b' := by
  induction h with
  | refl => exact .refl b
  | tail _ hwork ih => exact ih.trans (.ofWork hwork)

theorem getClient {b b' : Broker L} (h : SameClients b b') (clientId : String) :
    b'.getClient clientId = b.getClient clientId := by
  unfold Broker.getClient
  rw [h.clients]
  simp only [h.clientId]

theorem gpsSessions {b b' : Broker L} (h : SameClients b b') : b'.gpsSessions = b.gpsSessions := by
  unfold Broker.gpsSessions
  rw [h.topics]

end SameClients

/-- A sample only adds tasks. -/
theorem forwardSample_mqttTaskQueue (topicName json : String) (packet : List UInt8)
    (b : Broker L) :
    ∃ tasks, (forwardSample topicName json packet b).mqttTaskQueue = b.mqttTaskQueue ++ tasks := by
  have hdds : ∃ tasks, (b.enqueueDds (.make b.taskCount topicName json)).mqttTaskQueue =
      b.mqttTaskQueue ++ tasks := ⟨[], (List.append_nil _).symm⟩
  unfold forwardSample
  dsimp only
  split
  · refine List.foldlRecOn
      (motive := fun a : Broker L => ∃ tasks, a.mqttTaskQueue = b.mqttTaskQueue ++ tasks)
      _ _ hdds fun a ha client _ => ?_
    obtain ⟨tasks, htasks⟩ := ha
    refine ⟨tasks ++ [⟨a.taskCount, 0, packet, a.clientId client⟩], ?_⟩
    rw [Broker.mqttTaskQueue_enqueueMqtt, Broker.mqttTaskQueue_countTask, htasks,
      List.append_assoc]
  · exact hdds

/-- A sample leaves the sessions alone. -/
theorem forwardSample_session (topicName json : String) (packet : List UInt8) (b : Broker L) :
    (forwardSample topicName json packet b).session = b.session := by
  unfold forwardSample
  dsimp only
  split
  · refine List.foldlRecOn (motive := fun a : Broker L => a.session = b.session) _ _ rfl
      fun a ha client _ => ?_
    exact ha
  · rfl

/-! ## Which sends are made -/

/-- With data the writer thread survives. -/
theorem sendMessage_isSome {task : MqttTask} (hdata : task.data ≠ []) (clientId : String)
    (b : Broker L) : ∃ r, sendMessage clientId task b = some r := by
  unfold sendMessage
  split
  · rename_i h
    exact absurd h hdata
  · split <;> exact ⟨_, rfl⟩

theorem fanOut_isSome {task : MqttTask} (hdata : task.data ≠ []) (clients : List SessionPtr)
    (b : Broker L) : ∃ r, fanOut task clients b = some r := by
  induction clients generalizing b with
  | nil => exact ⟨_, rfl⟩
  | cons client clients ih =>
    obtain ⟨⟨b₁, sends⟩, hs⟩ := sendMessage_isSome hdata (b.clientId client) b
    obtain ⟨rest, hr⟩ := ih b₁
    exact ⟨⟨rest.broker, client :: rest.called, sends ++ rest.sends⟩, by simp [fanOut, hs, hr]⟩

theorem mqttEndPointWriter_isSome (task : MqttTask) (b : Broker L) :
    ∃ r, mqttEndPointWriter task b = some r := by
  unfold mqttEndPointWriter
  split
  · exact ⟨_, rfl⟩
  · rename_i hdata
    split
    · exact fanOut_isSome hdata b.gpsSessions b
    · obtain ⟨r, hr⟩ := sendMessage_isSome hdata task.clientId b
      exact ⟨_, by rw [hr]; rfl⟩

theorem called_fanOut {task : MqttTask} {clients : List SessionPtr} {b : Broker L}
    {r : Dispatched L} (h : fanOut task clients b = some r) : r.called = clients := by
  induction clients generalizing b r with
  | nil =>
    obtain rfl := Option.some.inj h
    rfl
  | cons client clients ih =>
    obtain ⟨b₁, sends, rest, -, hrest, rfl⟩ := fanOut_cons h
    exact congrArg (client :: ·) (ih hrest)

/-- `send_message` sends to the session that it finds under the id. -/
theorem sessions_sendMessage {clientId : String} {task : MqttTask} {b b' : Broker L}
    {sends : List SendCall} (h : sendMessage clientId task b = some (b', sends)) :
    sends.map SendCall.session = (b.getClient clientId).toList := by
  unfold sendMessage at h
  split at h
  · cases h
  · split at h
    · rename_i hclient
      obtain ⟨-, rfl⟩ := Prod.mk.inj (Option.some.inj h)
      rw [hclient]
      rfl
    · rename_i hclient
      obtain ⟨-, rfl⟩ := Prod.mk.inj (Option.some.inj h)
      rw [hclient]
      rfl

/-- The loop sends to the sessions that the ids of the subscribers lead to. No turn changes
where an id leads. -/
theorem sessions_fanOut {task : MqttTask} {clients : List SessionPtr} {b : Broker L}
    {r : Dispatched L} (h : fanOut task clients b = some r) :
    r.sends.map SendCall.session =
      clients.filterMap fun client => b.getClient (b.clientId client) := by
  induction clients generalizing b r with
  | nil =>
    obtain rfl := Option.some.inj h
    rfl
  | cons client clients ih =>
    obtain ⟨b₁, sends, rest, hsend, hrest, rfl⟩ := fanOut_cons h
    have hsame : SameClients b b₁ := .ofRun (Sending.run_work (sendMessage_sending hsend))
    have hlater : ∀ u, b₁.getClient (b₁.clientId u) = b.getClient (b.clientId u) := by
      intro u
      rw [hsame.clientId, hsame.getClient]
    rw [List.map_append, sessions_sendMessage hsend, ih hrest]
    simp only [hlater]
    cases hclient : b.getClient (b.clientId client) <;> simp [hclient]

/-- A task for every subscriber goes through the loop over those of "GPS", whatever the
packet. -/
theorem mqttEndPointWriter_broadcast {task : MqttTask} (hdata : task.data ≠ [])
    (hid : task.clientId = broadcastId) (b : Broker L) :
    mqttEndPointWriter task b = fanOut task b.gpsSessions b := by
  unfold mqttEndPointWriter
  rw [if_neg hdata, if_pos hid]

/-! ## What a dispatch reads -/

/-- Brokers with the same connected sessions, registry, client ids and requests. The sends of
a dispatch depend on nothing else. -/
structure SameReaders (b b' : Broker L) : Prop where
  clients : b'.mqttClients = b.mqttClients
  topics : b'.topicList = b.topicList
  clientId : ∀ u, b'.clientId u = b.clientId u
  subRequested : ∀ u, (b'.session u).subRequested = (b.session u).subRequested

namespace SameReaders

theorem refl (b : Broker L) : SameReaders b b := ⟨rfl, rfl, fun _ => rfl, fun _ => rfl⟩

theorem trans {a b c : Broker L} (hab : SameReaders a b) (hbc : SameReaders b c) :
    SameReaders a c :=
  ⟨hbc.clients.trans hab.clients, hbc.topics.trans hab.topics,
    fun u => (hbc.clientId u).trans (hab.clientId u),
    fun u => (hbc.subRequested u).trans (hab.subRequested u)⟩

theorem gpsSessions {b b' : Broker L} (h : SameReaders b b') : b'.gpsSessions = b.gpsSessions := by
  unfold Broker.gpsSessions
  rw [h.topics]

theorem getClient {b b' : Broker L} (h : SameReaders b b') (clientId : String) :
    b'.getClient clientId = b.getClient clientId := by
  unfold Broker.getClient
  rw [h.clients]
  simp only [h.clientId]

/-- The registry may be replaced in both. -/
theorem withTopics {b b' : Broker L} (h : SameReaders b b') (topics : List (BrokerTopic L)) :
    SameReaders { b with topicList := topics } { b' with topicList := topics } :=
  ⟨h.clients, rfl, h.clientId, h.subRequested⟩

theorem setSubRequested {b b' : Broker L} (h : SameReaders b b') (s : SessionPtr) :
    SameReaders (b.setSubRequested s) (b'.setSubRequested s) := by
  have hid : ∀ (b : Broker L) u, (b.setSubRequested s).clientId u = b.clientId u :=
    fun b u => Broker.clientId_updateSession b s u rfl
  refine ⟨h.clients, h.topics, ?_, ?_⟩
  · intro u
    rw [hid, hid, h.clientId]
  · intro u
    unfold Broker.setSubRequested
    by_cases hu : u = s
    · subst hu
      rw [Broker.session_updateSession_self, Broker.session_updateSession_self]
    · rw [Broker.session_updateSession_of_ne _ s u hu, Broker.session_updateSession_of_ne _ s u hu,
        h.subRequested]

theorem enqueueMqtt {b b' : Broker L} (h : SameReaders b b') (task : MqttTask) :
    SameReaders (b.enqueueMqtt task) (b'.enqueueMqtt task) :=
  ⟨h.clients, h.topics, h.clientId, h.subRequested⟩

theorem ite {c : Prop} [Decidable c] {b₁ b₂ b₁' b₂' : Broker L} (h₁ : SameReaders b₁ b₁')
    (h₂ : SameReaders b₂ b₂') : SameReaders (if c then b₁ else b₂) (if c then b₁' else b₂') := by
  split
  · exact h₁
  · exact h₂

end SameReaders

theorem sendTo_same {b b' : Broker L} (h : SameReaders b b') (client : SessionPtr) (task : MqttTask)
    (sendMessageType : Option ControlPacketType) :
    SameReaders (sendTo client task sendMessageType b).1
        (sendTo client task sendMessageType b').1 ∧
      (sendTo client task sendMessageType b').2 = (sendTo client task sendMessageType b).2 := by
  simp only [sendTo, h.subRequested, and_true]
  refine .ite (.enqueueMqtt ?_ _) ?_
  all_goals refine .ite (.enqueueMqtt ?_ task) ?_
  all_goals exact .ite (h.setSubRequested client) h

theorem sendMessage_same {b b' : Broker L} (h : SameReaders b b') {clientId : String}
    {task : MqttTask} {r r' : Broker L × List SendCall} (hr : sendMessage clientId task b = some r)
    (hr' : sendMessage clientId task b' = some r') : SameReaders r.1 r'.1 ∧ r'.2 = r.2 := by
  unfold sendMessage at hr hr'
  rw [h.getClient] at hr'
  cases hdata : task.data with
  | nil =>
    rw [hdata] at hr
    cases hr
  | cons firstByte rest =>
    rw [hdata] at hr hr'
    cases hclient : b.getClient clientId with
    | none =>
      rw [hclient] at hr hr'
      obtain rfl := Option.some.inj hr
      obtain rfl := Option.some.inj hr'
      exact ⟨h, rfl⟩
    | some client =>
      rw [hclient] at hr hr'
      obtain rfl := Option.some.inj hr
      obtain rfl := Option.some.inj hr'
      exact sendTo_same h client task (messageType firstByte)

theorem fanOut_same {b b' : Broker L} (h : SameReaders b b') {task : MqttTask}
    {clients : List SessionPtr} {r r' : Dispatched L}
    (hr : fanOut task clients b = some r) (hr' : fanOut task clients b' = some r') :
    SameReaders r.broker r'.broker ∧ r'.sends = r.sends := by
  induction clients generalizing b b' r r' with
  | nil =>
    obtain rfl := Option.some.inj hr
    obtain rfl := Option.some.inj hr'
    exact ⟨h, rfl⟩
  | cons client clients ih =>
    obtain ⟨b₁, sends, rest, hfirst, hrest, rfl⟩ := fanOut_cons hr
    obtain ⟨b₁', sends', rest', hfirst', hrest', rfl⟩ := fanOut_cons hr'
    rw [h.clientId] at hfirst'
    obtain ⟨hafter, hsends⟩ := sendMessage_same h hfirst hfirst'
    obtain ⟨hlast, hlater⟩ := ih hafter hrest hrest'
    exact ⟨hlast, congrArg₂ (· ++ ·) hsends hlater⟩

/-- The same sends are made. -/
theorem mqttEndPointWriter_same {b b' : Broker L} (h : SameReaders b b') {task : MqttTask}
    {r r' : Dispatched L} (hr : mqttEndPointWriter task b = some r)
    (hr' : mqttEndPointWriter task b' = some r') : r'.sends = r.sends := by
  unfold mqttEndPointWriter at hr hr'
  split at hr
  · rename_i hdata
    rw [if_pos hdata] at hr'
    obtain rfl := Option.some.inj hr
    obtain rfl := Option.some.inj hr'
    rfl
  · rename_i hdata
    rw [if_neg hdata] at hr'
    split at hr
    · rename_i hid
      rw [if_pos hid, h.gpsSessions] at hr'
      exact (fanOut_same h hr hr').2
    · rename_i hid
      rw [if_neg hid] at hr'
      obtain ⟨f, hf, rfl⟩ := Option.map_eq_some_iff.mp hr
      obtain ⟨f', hf', rfl⟩ := Option.map_eq_some_iff.mp hr'
      exact (sendMessage_same h hf hf').2

end BddsBroker
