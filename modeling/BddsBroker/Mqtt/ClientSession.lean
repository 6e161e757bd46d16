import BddsBroker.Mqtt.Changes

/-! `BROKERSUB::Session::message_process`, the other kind of session. Its packets come from a
loop that starts a thread for each, and what a branch throws leaves its thread and ends the
process. The reply goes to the local `packet` and is written at the end when the member
`send_flag` is set, which no constructor initializes. A write is given the vector; it is taken
to succeed. -/

namespace BddsBroker

namespace ClientSession

open Program

/-- The members of `BROKERSUB::Session`. -/
structure Session where
  connectedClient : ConnectedClient
  name : String
  clientN : Int
  sendFlag : Bool
  deriving DecidableEq, Repr

/-- A session as its constructor leaves it, with whatever stands in `send_flag`. -/
def Session.new (sendFlag : Bool) : Session := ⟨⟨"", 0, 0, "", ""⟩, "", 0, sendFlag⟩

structure Memory (L : Libraries) where
  broker : Broker L
  session : ClientPtr → Session
  /-- The vectors that `boost_sync_write` was given. -/
  written : List (ClientPtr × List UInt8)

/-- A program stops with the text of an exception. -/
abbrev Proc (L : Libraries) := EStateM String (Memory L)

variable {L : Libraries}

namespace Memory

def updateSession (m : Memory L) (c : ClientPtr) (change : Session → Session) : Memory L :=
  { m with session := Function.update m.session c (change (m.session c)) }

def setConnectedClient (m : Memory L) (c : ClientPtr) (client : ConnectedClient) : Memory L :=
  m.updateSession c fun u => { u with connectedClient := client, name := client.id }

def increaseCount (m : Memory L) : Memory L := { m with broker := m.broker.increaseCount }

def setClientN (m : Memory L) (c : ClientPtr) : Memory L :=
  m.updateSession c fun u => { u with clientN := m.broker.clientNo }

def setSendFlag (m : Memory L) (c : ClientPtr) (sendFlag : Bool) : Memory L :=
  m.updateSession c fun u => { u with sendFlag := sendFlag }

def addClient (m : Memory L) (topicName : String) (c : ClientPtr) : Memory L :=
  { m with broker := { m.broker with
      topicList := Registry.addClientToTopic topicName c m.broker.topicList } }

def write (m : Memory L) (c : ClientPtr) (packet : List UInt8) : Memory L :=
  { m with written := m.written ++ [(c, packet)] }

end Memory

/-- A call into a library. -/
def call {α : Type} (result : Except String α) : Proc L α := ofExcept id result

variable (L) (c : ClientPtr)

/-- The client that a CONNECT names. -/
def connectedClient (temp : L.Connect) : ConnectedClient where
  protocol := L.protocolName temp ++ toString (L.protocolVersion temp)
  flags := L.connectFlags temp
  keepAlive := L.keepAlive temp
  id := L.connectId temp
  password := L.connectPassword temp

def connect (packet : List UInt8) : Proc L (List UInt8) := do
  let temp ← call (L.interpretConnectPacket packet)
  modify fun m => m.setConnectedClient c (connectedClient L temp)
  -- The section under `SBDP_THREAD::mutex`, which stays locked when `write_json` throws.
  modify fun m => m.increaseCount
  modify fun m => m.setClientN c
  let brokerLocator ← call (L.writeJson [("BROKER.Ip", "192.168.0.117"), ("BROKER.Port", "32889")])
  let m ← get
  let connack ← call (L.generateDefaultConnack ⟨"Client_", (m.session c).clientN⟩ "ref"
    brokerLocator)
  let packet ← call (L.convertConnactIntoPacket connack [])
  modify fun m => m.setSendFlag c true
  return packet

/-- The SUBACK is appended to the inbound packet, which is not cleared here, and written in the
branch. -/
def subscribe (packet : List UInt8) : Proc L (List UInt8) := do
  let temp ← call (L.interpretSubscribePacket packet)
  let data ← call (MqttSession.at? (L.subscribeList temp) 0)
  modify fun m => m.addClient (L.topicFilter data) c
  let m ← get
  let suback ← call (L.generateDefaultSuback (m.session c).clientN 1)
  let packet ← call (L.convertSubackIntoPacket suback packet)
  modify fun m => m.write c packet
  modify fun m => m.setSendFlag c false
  return packet

def puback (packet : List UInt8) : Proc L (List UInt8) := do
  let _ ← call (L.interpretPubackPacket packet)
  modify fun m => m.setSendFlag c false
  return packet

def pubrec (packet : List UInt8) : Proc L (List UInt8) := do
  let pubrec ← call (L.interpretPubrecPacket packet)
  let pubrel ← call (L.generateDefaultPubrel (L.pubrecIdentifier pubrec))
  let packet ← call (L.convertPubrelIntoPacket pubrel [])
  let _ ← call (L.interpretPubrelPacket packet)
  modify fun m => m.setSendFlag c true
  return packet

def pubcomp (packet : List UInt8) : Proc L (List UInt8) := do
  let _ ← call (L.interpretPubcompPacket packet)
  modify fun m => m.setSendFlag c false
  return packet

/-- The branches. No other type is handled. -/
def branch (packet : List UInt8) : Proc L (List UInt8) :=
  match packetType packet with
  | some .connect => connect L c packet
  | some .subscribe => subscribe L c packet
  | some .puback => puback L c packet
  | some .pubrec => pubrec L c packet
  | some .pubcomp => pubcomp L c packet
  | _ => return packet

def messageProcess (packet : List UInt8) : Proc L Unit := do
  let packet ← branch L c packet
  let m ← get
  if (m.session c).sendFlag then modify fun m => m.write c packet

/-! ## CONNECT -/

variable {L} {c}

@[simp] theorem ends_call_ok {α : Type} {a : α} {m : Memory L} {Q : α → Memory L → Prop}
    {E : String → Memory L → Prop} : Ends (call (.ok a)) m Q E ↔ Q a m := Iff.rfl

@[simp] theorem ends_call_error {α : Type} {what : String} {m : Memory L}
    {Q : α → Memory L → Prop} {E : String → Memory L → Prop} :
    Ends (call (.error what)) m Q E ↔ E what m := Iff.rfl

@[simp] theorem session_setSendFlag (m : Memory L) (c : ClientPtr) (sendFlag : Bool) :
    (m.setSendFlag c sendFlag).session c = { m.session c with sendFlag := sendFlag } := by
  simp [Memory.setSendFlag, Memory.updateSession]

/-- The memory when a CONNECT has been counted. -/
def counted (m : Memory L) (c : ClientPtr) (temp : L.Connect) : Memory L :=
  ((m.setConnectedClient c (connectedClient L temp)).increaseCount).setClientN c

theorem clientN_counted (m : Memory L) (c : ClientPtr) (temp : L.Connect) :
    ((counted m c temp).session c).clientN = m.broker.clientNo + 1 := by
  simp only [counted, Memory.setClientN, Memory.updateSession, Function.update_self]
  rfl

/-- A CONNECT is counted as soon as it is understood, and its CONNACK is made with the pointer
that the new number gives. -/
theorem ends_connect {m : Memory L} {packet : List UInt8} {Q : List UInt8 → Memory L → Prop}
    {E : String → Memory L → Prop} :
    Ends (connect L c packet) m Q E ↔
      match L.interpretConnectPacket packet with
      | .error what => E what m
      | .ok temp =>
        match L.connack (m.broker.clientNo + 1) with
        | .error what => E what (counted m c temp)
        | .ok reply => Q reply ((counted m c temp).setSendFlag c true) := by
  unfold connect
  cases L.interpretConnectPacket packet with
  | error what => rfl
  | ok temp =>
    simp only [ends_bind, ends_call_ok, ends_modify, Libraries.connack]
    cases L.writeJson [("BROKER.Ip", "192.168.0.117"), ("BROKER.Port", "32889")] with
    | error what => rfl
    | ok locator =>
      simp only [ends_call_ok, ends_get, ok_bind]
      rw [show ((((m.setConnectedClient c (connectedClient L temp)).increaseCount).setClientN
        c).session c).clientN = m.broker.clientNo + 1 from clientN_counted m c temp]
      cases L.generateDefaultConnack ⟨"Client_", m.broker.clientNo + 1⟩ "ref" locator with
      | error what => rfl
      | ok reply =>
        rw [ok_bind, ends_call_ok]
        cases L.convertConnactIntoPacket reply [] with
        | error what => rfl
        | ok bytes => rfl

end ClientSession

end BddsBroker
