import BddsBroker.Mqtt.Broker

/-! `MQTTSession::message_process`: one inbound packet of a session. Each branch of the
code is a program of its own; an exception ends it and is logged, and what the branch
did before it stays. Reading through the end of `MQTT_publish_map` is undefined in
C++; such a run has no result. -/

namespace BddsBroker

open Proc

namespace MqttSession

variable (L : Libraries) (s : SessionPtr)

/-- `std::vector::at`. -/
def at? {α : Type} (xs : List α) (i : Nat) : Except String α :=
  match xs[i]? with
  | some x => .ok x
  | none => .error "invalid vector subscript"

def connect (recvData : List UInt8) : Proc L Unit := do
  setStatus "before connect"
  let temp ← call (L.interpretConnectPacket recvData)
  change fun b => b.setConnectedClient s
    { protocol := L.protocolName temp ++ toString (L.protocolVersion temp)
      flags := L.connectFlags temp
      keepAlive := L.keepAlive temp
      id := L.connectId temp
      password := L.connectPassword temp }
  -- The section under `SBDP_THREAD::mutex`.
  change fun b => b.increaseCount
  change fun b => b.setClientN s
  let brokerLocator ← call (L.writeJson [("BROKER.Ip", "192.168.0.117"), ("BROKER.Port", "32889")])
  let m ← self s
  let connack ← call (L.generateDefaultConnack ⟨"Client_", m.clientN⟩ "ref" brokerLocator)
  let packet ← call (L.convertConnactIntoPacket connack [])
  reply s 4 packet
  setStatus "after connect"

/-- `retain_messages = broker_cache`, when there is something in it. -/
def retain : Proc L Unit := do
  let f ← get
  if f.broker.brokerCache = [] then return ()
  else
    change fun b => b.setRetainMessages s
    setStatus "after subscribe"

/-- Only the first filter of the packet is registered. -/
def subscribe (recvData : List UInt8) : Proc L Unit := do
  setStatus "before subscribe"
  let temp ← call (L.interpretSubscribePacket recvData)
  let data ← call (at? (L.subscribeList temp) 0)
  change fun b => b.subscribe (L.topicFilter data) s
  let m ← self s
  let suback ← call (L.generateDefaultSuback m.clientN 1)
  let packet ← call (L.convertSubackIntoPacket suback [])
  reply s 1 packet
  retain L s

def puback (recvData : List UInt8) : Proc L Unit := do
  setStatus "before publish"
  let _ ← call (L.interpretPubackPacket recvData)
  setStatus "after publish"

def pubrec (recvData : List UInt8) : Proc L Unit := do
  setStatus "before pubrec"
  let pubrec ← call (L.interpretPubrecPacket recvData)
  let pubrel ← call (L.generateDefaultPubrel (L.pubrecIdentifier pubrec))
  let packet ← call (L.convertPubrelIntoPacket pubrel [])
  reply s 5 packet
  setStatus "after pubrec"

/-- The identifier of the stored message is the one of the generated PUBCOMP. -/
def pubrel (recvData : List UInt8) : Proc L Unit := do
  setStatus "before pubrel"
  let pubrel ← call (L.interpretPubrelPacket recvData)
  let pubcomp ← call (L.generateDefaultPubcomp (L.pubrelIdentifier pubrel))
  let packet ← call (L.convertPubcompIntoPacket pubcomp [])
  reply s 5 packet
  let targetPublishMsg ← findPublish s (L.pubcompIdentifier pubcomp)
  change fun b => b.erasePublish s (L.pubcompIdentifier pubcomp)
  let publish ← call (L.interpretPublishPacket targetPublishMsg)
  let count ← taskCount
  change fun b =>
    b.enqueueDds (.make count (L.publishTopicName publish) (L.publishPayload publish))
  let taskId ← nextTaskId
  change fun b => b.enqueueMqtt ⟨taskId, 0, targetPublishMsg, broadcastId⟩
  setStatus "after pubrel"

def pubcomp (recvData : List UInt8) : Proc L Unit := do
  setStatus "before pubcomp"
  let _ ← call (L.interpretPubcompPacket recvData)
  setStatus "after pubcomp"

/-- The acknowledgement packet: PUBACK at QoS 1, PUBREC at QoS 2, where the message is
stored, and an empty packet at any other level. -/
def ackPacket (publish : L.Publish) : Proc L (List UInt8) :=
  if L.publishQos publish = 1 then do
    let temp ← call (L.generatePuback (L.publishIdentifier publish) 0)
    let packet ← call (L.convertPubackIntoPacket temp [])
    return packet ++ [10]
  else if L.publishQos publish = 2 then do
    let temp ← call (L.generatePubrec (L.publishIdentifier publish) 0)
    let ack ← call (L.convertPubrecIntoPacket temp [])
    let packet ← call (L.convertPublishIntoPacket publish [])
    change fun b => b.storePublish s (L.publishIdentifier publish) packet
    return ack ++ [10]
  else return []

/-- `if (qos != 0)`. -/
def acknowledge (publish : L.Publish) : Proc L Unit :=
  if L.publishQos publish = 0 then return ()
  else do
    setStatus "after qos"
    let packet ← ackPacket L s publish
    reply s 5 packet

/-- `if (qos != 2)`. -/
def forward (publish : L.Publish) : Proc L Unit :=
  if L.publishQos publish = 2 then return ()
  else do
    let packet ← call (L.convertPublishIntoPacket publish [])
    let taskId ← nextTaskId
    change fun b => b.enqueueMqtt ⟨taskId, 0, packet, broadcastId⟩
    let count ← taskCount
    change fun b =>
      b.enqueueDds (.make count (L.publishTopicName publish) (L.publishPayload publish))

def publish (recvData : List UInt8) : Proc L Unit := do
  setStatus "before publish"
  let publish ← call (L.interpretPublishPacket recvData)
  acknowledge L s publish
  forward L publish
  setStatus "after publish"

/-- The `try` block. -/
def body (recvData : List UInt8) : Proc L Unit :=
  match packetType recvData with
  | some .connect => connect L s recvData
  | some .subscribe => subscribe L s recvData
  | some .puback => puback L recvData
  | some .pubrec => pubrec L s recvData
  | some .pubrel => pubrel L s recvData
  | some .pubcomp => pubcomp L recvData
  | some .publish => publish L s recvData
  | _ => return ()

/-- `message_process`. The result is `none` when the code reads through an end. -/
def messageProcess (recvData : List UInt8) (b : Broker L) : Option (Broker L) :=
  match body L s recvData ⟨b, "before try"⟩ with
  | .ok _ f => some f.broker
  | .error (.thrown what) f =>
      some (f.broker.writeLog
        ("[ERROR] MQTT_Session[client" ++ f.broker.clientId s ++ " has problem.] STATUS[ " ++
          f.status ++ "] publish_mqtt_thread[" ++ what ++ "]"))
  | .error .readsEnd _ => none

end MqttSession

end BddsBroker
