import Mathlib.Tactic.TypeStar

/-! What the broker uses of the libraries it is built on. The MQTTPacket library is not
part of the repository: its message types, its accessors and its `interpret_*`,
`generate_*` and `convert_*` functions are the fields of `Libraries`, and what a
result relies on is a named property of such a record. A call may throw; the error is
the text of `what()`. -/

namespace BddsBroker

/-- `mqttpacket::MQTT_CONTROL_PACKET_TYPE_*`. -/
inductive ControlPacketType
  | connect
  | connack
  | publish
  | puback
  | pubrec
  | pubrel
  | pubcomp
  | subscribe
  | suback
  deriving DecidableEq, Repr

/-- `(first_byte >> 4) & 0x0f`, as a packet type. -/
def messageType (firstByte : UInt8) : Option ControlPacketType :=
  match firstByte.toNat / 16 with
  | 1 => some .connect
  | 2 => some .connack
  | 3 => some .publish
  | 4 => some .puback
  | 5 => some .pubrec
  | 6 => some .pubrel
  | 7 => some .pubcomp
  | 8 => some .subscribe
  | 9 => some .suback
  | _ => none

/-- The type of the packet in a receive buffer. -/
def packetType (recvData : List UInt8) : Option ControlPacketType :=
  messageType (recvData.headD 0)

/-- The value of `literal + offset` for a string literal. -/
structure CharPtr where
  literal : String
  offset : Int
  deriving DecidableEq, Repr

/-- The MQTTPacket library, and `write_json` of Boost's property trees. The `convert`
functions are given the vector they write to. -/
structure Libraries where
  Connect : Type
  Connack : Type
  Subscribe : Type
  Suback : Type
  Puback : Type
  Pubrec : Type
  Pubrel : Type
  Pubcomp : Type
  Publish : Type
  Topic : Type
  protocolName : Connect → String
  protocolVersion : Connect → Int
  connectFlags : Connect → Int
  keepAlive : Connect → Int
  connectId : Connect → String
  connectPassword : Connect → String
  subscribeList : Subscribe → List Topic
  topicFilter : Topic → String
  /-- `Topic(name, 0, 0, 0, 0)`. -/
  newTopic : String → Topic
  pubrecIdentifier : Pubrec → Int
  pubrelIdentifier : Pubrel → Int
  pubcompIdentifier : Pubcomp → Int
  publishQos : Publish → Int
  publishIdentifier : Publish → Int
  publishTopicName : Publish → String
  publishPayload : Publish → String
  interpretConnectPacket : List UInt8 → Except String Connect
  interpretSubscribePacket : List UInt8 → Except String Subscribe
  interpretPubackPacket : List UInt8 → Except String Puback
  interpretPubrecPacket : List UInt8 → Except String Pubrec
  interpretPubrelPacket : List UInt8 → Except String Pubrel
  interpretPubcompPacket : List UInt8 → Except String Pubcomp
  interpretPublishPacket : List UInt8 → Except String Publish
  generateDefaultConnack : CharPtr → String → String → Except String Connack
  generateDefaultSuback : Int → Int → Except String Suback
  generateDefaultPubrel : Int → Except String Pubrel
  generateDefaultPubcomp : Int → Except String Pubcomp
  generatePuback : Int → Int → Except String Puback
  generatePubrec : Int → Int → Except String Pubrec
  convertConnactIntoPacket : Connack → List UInt8 → Except String (List UInt8)
  convertSubackIntoPacket : Suback → List UInt8 → Except String (List UInt8)
  convertPubackIntoPacket : Puback → List UInt8 → Except String (List UInt8)
  convertPubrecIntoPacket : Pubrec → List UInt8 → Except String (List UInt8)
  convertPubrelIntoPacket : Pubrel → List UInt8 → Except String (List UInt8)
  convertPubcompIntoPacket : Pubcomp → List UInt8 → Except String (List UInt8)
  convertPublishIntoPacket : Publish → List UInt8 → Except String (List UInt8)
  /-- `write_json` of a tree built by the given puts. -/
  writeJson : List (String × String) → Except String String

namespace Libraries

variable (L : Libraries)

/-- The CONNACK of either kind of session, with the pointer that its number gives. -/
def connack (clientN : Int) : Except String (List UInt8) := do
  let brokerLocator ← L.writeJson [("BROKER.Ip", "192.168.0.117"), ("BROKER.Port", "32889")]
  let connack ← L.generateDefaultConnack ⟨"Client_", clientN⟩ "ref" brokerLocator
  L.convertConnactIntoPacket connack []

/-- The SUBACK of a session with that number, in a vector of its own. -/
def suback (clientN : Int) : Except String (List UInt8) := do
  let suback ← L.generateDefaultSuback clientN 1
  L.convertSubackIntoPacket suback []

/-- `interpret_publish_packet` undoes `convert_publish_into_packet`. -/
def PublishRoundTrips : Prop :=
  ∀ m bytes, L.convertPublishIntoPacket m [] = .ok bytes → L.interpretPublishPacket bytes = .ok m

/-- An encoded PUBLISH has at least its fixed header. -/
def PublishNonempty : Prop := ∀ m, L.convertPublishIntoPacket m [] ≠ .ok []

/-- The default PUBCOMP for a PUBREL's identifier carries this identifier. -/
def PubcompKeepsIdentifier : Prop :=
  ∀ m c, L.generateDefaultPubcomp (L.pubrelIdentifier m) = .ok c →
    L.pubcompIdentifier c = L.pubrelIdentifier m

/-- A topic built with a name returns it. -/
def TopicKeepsName : Prop := ∀ name, L.topicFilter (L.newTopic name) = name

/-- The calls made for a QoS 2 PUBLISH and for a PUBREL do not throw. -/
structure NeverThrows : Prop where
  interpretPublish : ∀ bytes, ∃ m, L.interpretPublishPacket bytes = .ok m
  generatePubrec : ∀ m, ∃ c, L.generatePubrec (L.publishIdentifier m) 0 = .ok c
  convertPubrec : ∀ m, ∃ packet, L.convertPubrecIntoPacket m [] = .ok packet
  convertPublish : ∀ m, ∃ packet, L.convertPublishIntoPacket m [] = .ok packet
  interpretPubrel : ∀ bytes, ∃ m, L.interpretPubrelPacket bytes = .ok m
  generatePubcomp : ∀ m, ∃ c, L.generateDefaultPubcomp (L.pubrelIdentifier m) = .ok c
  convertPubcomp : ∀ m, ∃ packet, L.convertPubcompIntoPacket m [] = .ok packet

end Libraries

/-- Packet identifiers that the code does not read itself: the one of a SUBSCRIBE, and
the one that a client finds in an encoded packet. -/
structure Identifiers (L : Libraries) where
  subscribeIdentifier : L.Subscribe → Int
  encodedIdentifier : List UInt8 → Int

namespace Identifiers

variable {L : Libraries} (I : Identifiers L)

/-- A packet identifier is a two-byte integer. -/
def IsWord (id : Int) : Prop := 0 ≤ id ∧ id < 65536

/-- The bytes are a packet of that type with the two bytes of that identifier, whatever
stands behind them. -/
def Carries (bytes : List UInt8) (type : ControlPacketType) (id : Int) : Prop :=
  ∀ rest, packetType (bytes ++ rest) = some type ∧
    (0 ≤ id → I.encodedIdentifier (bytes ++ rest) = id % 65536)

/-- The `generate` functions are given the packet identifier of the reply, and the
`convert` functions encode it. -/
structure Encode : Prop where
  suback : ∀ id code m bytes, L.generateDefaultSuback id code = .ok m →
    L.convertSubackIntoPacket m [] = .ok bytes → I.Carries bytes .suback id
  puback : ∀ id code m bytes, L.generatePuback id code = .ok m →
    L.convertPubackIntoPacket m [] = .ok bytes → I.Carries bytes .puback id
  pubrec : ∀ id code m bytes, L.generatePubrec id code = .ok m →
    L.convertPubrecIntoPacket m [] = .ok bytes → I.Carries bytes .pubrec id
  pubrel : ∀ id m bytes, L.generateDefaultPubrel id = .ok m →
    L.convertPubrelIntoPacket m [] = .ok bytes → I.Carries bytes .pubrel id
  pubcomp : ∀ id m bytes, L.generateDefaultPubcomp id = .ok m →
    L.convertPubcompIntoPacket m [] = .ok bytes → I.Carries bytes .pubcomp id
  subscribeWord : ∀ m, IsWord (I.subscribeIdentifier m)
  publishWord : ∀ m, IsWord (L.publishIdentifier m)
  pubrecWord : ∀ m, IsWord (L.pubrecIdentifier m)
  pubrelWord : ∀ m, IsWord (L.pubrelIdentifier m)

end Identifiers

end BddsBroker
