import Mathlib.Data.Finmap
import BddsBroker.Lib.Program
import BddsBroker.Mqtt.Registry

/-! The memory of the broker: the sessions, the set of connected sessions, the topic
registry, the two task queues and the global counters, with the elementary changes
that the code makes to it. The locks and the `condition_variable`s of the code change
no data and are not part of this state. -/

namespace BddsBroker

/-- `Broker_task`, a message for DDS. -/
structure BrokerTask where
  taskId : Int
  topic : String
  data : String
  deriving DecidableEq, Repr

/-- The constructor stores the id in a `short`. -/
def BrokerTask.make (taskId : Int) (topic data : String) : BrokerTask :=
  ⟨taskId.bmod 65536, topic, data⟩

/-- `MQTT_task`, a packet for the clients with that id. -/
structure MqttTask where
  taskId : Int
  taskOption : Int
  data : List UInt8
  clientId : String
  deriving DecidableEq, Repr

/-- The client id of a task for every subscriber. -/
def broadcastId : String := "-99"

structure ConnectedClient where
  protocol : String
  flags : Int
  keepAlive : Int
  id : String
  password : String
  deriving DecidableEq, Repr

/-- The members of `MQTTSession` that the broker reads after writing them. -/
structure MqttSession where
  connectedClient : ConnectedClient
  mqttPublishMap : Finmap fun _ : Int => List UInt8
  name : String
  clientN : Int
  subRequested : Bool
  retainMessages : List String

/-- A session as its constructor leaves it. -/
def MqttSession.new : MqttSession where
  connectedClient := ⟨"", 0, 0, "", ""⟩
  mqttPublishMap := ∅
  name := ""
  clientN := 0
  subRequested := false
  retainMessages := []

structure Broker (L : Libraries) where
  session : SessionPtr → MqttSession
  /-- `mqtt_clients_`, in the order of the addresses. -/
  mqttClients : List SessionPtr
  topicList : List (BrokerTopic L)
  mqttTaskQueue : List MqttTask
  ddsTaskQueue : List BrokerTask
  taskCount : Int
  clientNo : Int
  brokerCache : List String
  /-- The lines of `rec_evednt.txt`. -/
  log : List String

namespace Broker

variable {L : Libraries}

def init : Broker L where
  session := fun _ => .new
  mqttClients := []
  topicList := []
  mqttTaskQueue := []
  ddsTaskQueue := []
  taskCount := 0
  clientNo := 0
  brokerCache := []
  log := []

/-! ## Elementary changes -/

def updateSession (b : Broker L) (s : SessionPtr) (change : MqttSession → MqttSession) : Broker L :=
  { b with session := Function.update b.session s (change (b.session s)) }

def setConnectedClient (b : Broker L) (s : SessionPtr) (client : ConnectedClient) : Broker L :=
  b.updateSession s fun m => { m with connectedClient := client, name := client.id }

def setClientN (b : Broker L) (s : SessionPtr) : Broker L :=
  b.updateSession s fun m => { m with clientN := b.clientNo }

def setRetainMessages (b : Broker L) (s : SessionPtr) : Broker L :=
  b.updateSession s fun m => { m with retainMessages := b.brokerCache }

def setSubRequested (b : Broker L) (s : SessionPtr) : Broker L :=
  b.updateSession s fun m => { m with subRequested := true }

/-- `MQTT_publish_map[packet_id] = packet`. -/
def storePublish (b : Broker L) (s : SessionPtr) (packetId : Int) (packet : List UInt8) :
    Broker L :=
  b.updateSession s fun m => { m with mqttPublishMap := m.mqttPublishMap.insert packetId packet }

/-- `MQTT_publish_map.erase(packet_id)`. -/
def erasePublish (b : Broker L) (s : SessionPtr) (packetId : Int) : Broker L :=
  b.updateSession s fun m => { m with mqttPublishMap := m.mqttPublishMap.erase packetId }

def increaseCount (b : Broker L) : Broker L := { b with clientNo := b.clientNo + 1 }

def countTask (b : Broker L) : Broker L := { b with taskCount := b.taskCount + 1 }

def subscribe (b : Broker L) (topicName : String) (s : SessionPtr) : Broker L :=
  { b with topicList := Registry.addMqttClientToTopic topicName s b.topicList }

def enqueueMqtt (b : Broker L) (task : MqttTask) : Broker L :=
  { b with mqttTaskQueue := b.mqttTaskQueue ++ [task] }

def enqueueDds (b : Broker L) (task : BrokerTask) : Broker L :=
  { b with ddsTaskQueue := b.ddsTaskQueue ++ [task] }

def writeLog (b : Broker L) (line : String) : Broker L := { b with log := b.log ++ [line] }

def clientId (b : Broker L) (s : SessionPtr) : String := (b.session s).connectedClient.id

def publishMap (b : Broker L) (s : SessionPtr) : Finmap fun _ : Int => List UInt8 :=
  (b.session s).mqttPublishMap

/-! ## What a change leaves alone -/

section Frame

variable (b : Broker L) (s u : SessionPtr)

@[simp] theorem session_updateSession_self (change : MqttSession → MqttSession) :
    (b.updateSession s change).session s = change (b.session s) := by
  simp [updateSession]

theorem session_updateSession_of_ne (h : u ≠ s) (change : MqttSession → MqttSession) :
    (b.updateSession s change).session u = b.session u := by
  simp [updateSession, h]

/-- A change of the session's stored messages keeps everybody's client id. -/
theorem clientId_updateSession {change : MqttSession → MqttSession}
    (h : (change (b.session s)).connectedClient = (b.session s).connectedClient) :
    (b.updateSession s change).clientId u = b.clientId u := by
  by_cases hu : u = s
  · subst hu
    simp [clientId, h]
  · simp [clientId, session_updateSession_of_ne b s u hu]

@[simp] theorem clientId_storePublish (packetId : Int) (packet : List UInt8) :
    (b.storePublish s packetId packet).clientId u = b.clientId u :=
  clientId_updateSession b s u rfl

@[simp] theorem clientId_erasePublish (packetId : Int) :
    (b.erasePublish s packetId).clientId u = b.clientId u :=
  clientId_updateSession b s u rfl

@[simp] theorem clientId_countTask : b.countTask.clientId u = b.clientId u := rfl

@[simp] theorem clientId_enqueueMqtt (task : MqttTask) :
    (b.enqueueMqtt task).clientId u = b.clientId u := rfl

@[simp] theorem clientId_enqueueDds (task : BrokerTask) :
    (b.enqueueDds task).clientId u = b.clientId u := rfl

@[simp] theorem publishMap_countTask : b.countTask.publishMap u = b.publishMap u := rfl

@[simp] theorem publishMap_enqueueMqtt (task : MqttTask) :
    (b.enqueueMqtt task).publishMap u = b.publishMap u := rfl

@[simp] theorem publishMap_enqueueDds (task : BrokerTask) :
    (b.enqueueDds task).publishMap u = b.publishMap u := rfl

@[simp] theorem publishMap_writeLog (line : String) :
    (b.writeLog line).publishMap u = b.publishMap u := rfl

@[simp] theorem taskCount_storePublish (packetId : Int) (packet : List UInt8) :
    (b.storePublish s packetId packet).taskCount = b.taskCount := rfl

@[simp] theorem taskCount_erasePublish (packetId : Int) :
    (b.erasePublish s packetId).taskCount = b.taskCount := rfl

@[simp] theorem taskCount_countTask : b.countTask.taskCount = b.taskCount + 1 := rfl

@[simp] theorem taskCount_enqueueMqtt (task : MqttTask) :
    (b.enqueueMqtt task).taskCount = b.taskCount := rfl

@[simp] theorem taskCount_enqueueDds (task : BrokerTask) :
    (b.enqueueDds task).taskCount = b.taskCount := rfl

@[simp] theorem mqttTaskQueue_storePublish (packetId : Int) (packet : List UInt8) :
    (b.storePublish s packetId packet).mqttTaskQueue = b.mqttTaskQueue := rfl

@[simp] theorem mqttTaskQueue_erasePublish (packetId : Int) :
    (b.erasePublish s packetId).mqttTaskQueue = b.mqttTaskQueue := rfl

@[simp] theorem mqttTaskQueue_countTask : b.countTask.mqttTaskQueue = b.mqttTaskQueue := rfl

@[simp] theorem mqttTaskQueue_enqueueMqtt (task : MqttTask) :
    (b.enqueueMqtt task).mqttTaskQueue = b.mqttTaskQueue ++ [task] := rfl

@[simp] theorem mqttTaskQueue_enqueueDds (task : BrokerTask) :
    (b.enqueueDds task).mqttTaskQueue = b.mqttTaskQueue := rfl

@[simp] theorem mqttTaskQueue_writeLog (line : String) :
    (b.writeLog line).mqttTaskQueue = b.mqttTaskQueue := rfl

@[simp] theorem ddsTaskQueue_storePublish (packetId : Int) (packet : List UInt8) :
    (b.storePublish s packetId packet).ddsTaskQueue = b.ddsTaskQueue := rfl

@[simp] theorem ddsTaskQueue_erasePublish (packetId : Int) :
    (b.erasePublish s packetId).ddsTaskQueue = b.ddsTaskQueue := rfl

@[simp] theorem ddsTaskQueue_countTask : b.countTask.ddsTaskQueue = b.ddsTaskQueue := rfl

@[simp] theorem ddsTaskQueue_enqueueMqtt (task : MqttTask) :
    (b.enqueueMqtt task).ddsTaskQueue = b.ddsTaskQueue := rfl

@[simp] theorem ddsTaskQueue_enqueueDds (task : BrokerTask) :
    (b.enqueueDds task).ddsTaskQueue = b.ddsTaskQueue ++ [task] := rfl

@[simp] theorem ddsTaskQueue_writeLog (line : String) :
    (b.writeLog line).ddsTaskQueue = b.ddsTaskQueue := rfl

@[simp] theorem publishMap_storePublish (packetId : Int) (packet : List UInt8) :
    (b.storePublish s packetId packet).publishMap s = (b.publishMap s).insert packetId packet := by
  simp [storePublish, publishMap]

@[simp] theorem publishMap_erasePublish (packetId : Int) :
    (b.erasePublish s packetId).publishMap s = (b.publishMap s).erase packetId := by
  simp [erasePublish, publishMap]

theorem publishMap_storePublish_of_ne (h : u ≠ s) (packetId : Int) (packet : List UInt8) :
    (b.storePublish s packetId packet).publishMap u = b.publishMap u := by
  unfold publishMap storePublish
  rw [session_updateSession_of_ne b s u h]

theorem publishMap_erasePublish_of_ne (h : u ≠ s) (packetId : Int) :
    (b.erasePublish s packetId).publishMap u = b.publishMap u := by
  unfold publishMap erasePublish
  rw [session_updateSession_of_ne b s u h]

/-- A change of a session that keeps its stored messages keeps everybody's. -/
theorem publishMap_updateSession {change : MqttSession → MqttSession}
    (h : (change (b.session s)).mqttPublishMap = (b.session s).mqttPublishMap) :
    (b.updateSession s change).publishMap u = b.publishMap u := by
  by_cases hu : u = s
  · subst hu
    simp [publishMap, h]
  · simp [publishMap, session_updateSession_of_ne b s u hu]

end Frame

end Broker

/-! ## Programs over the broker -/

/-- Why a handler stops early: an exception, or a read through the end of a container,
after which C++ promises nothing. -/
inductive Stop
  | thrown (what : String)
  | readsEnd

/-- The memory and the local `status`. -/
structure Frame (L : Libraries) where
  broker : Broker L
  status : String

abbrev Proc (L : Libraries) := EStateM Stop (Frame L)

namespace Proc

variable {L : Libraries} {α : Type}

/-- A call into a library. -/
def call (result : Except String α) : Proc L α := Program.ofExcept .thrown result

def setStatus (status : String) : Proc L Unit := modify fun f => { f with status := status }

def change (c : Broker L → Broker L) : Proc L Unit :=
  modify fun f => { f with broker := c f.broker }

/-- `task_count`. -/
def taskCount : Proc L Int := do return (← get).broker.taskCount

/-- `task_count++`. -/
def nextTaskId : Proc L Int :=
  modifyGet fun f => (f.broker.taskCount, { f with broker := f.broker.countTask })

def self (s : SessionPtr) : Proc L MqttSession := do return (← get).broker.session s

/-- `MQTT_publish_map.find(packet_id)->second`. -/
def findPublish (s : SessionPtr) (packetId : Int) : Proc L (List UInt8) := do
  match (← self s).mqttPublishMap.lookup packetId with
  | some packet => return packet
  | none => throw .readsEnd

/-- A task for the session's own client. -/
def reply (s : SessionPtr) (taskOption : Int) (packet : List UInt8) : Proc L Unit := do
  let taskId ← nextTaskId
  change fun b => b.enqueueMqtt ⟨taskId, taskOption, packet, b.clientId s⟩

end Proc

end BddsBroker
