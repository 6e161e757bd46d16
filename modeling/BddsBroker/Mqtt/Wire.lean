import BddsBroker.Mqtt.Packet

/-! A library for short packets in the wire format of MQTT: a first byte, the length of
the content in one byte, and the content. It shows that the properties asked of the
library hold together, and runs the broker on concrete packets. -/

namespace BddsBroker.Wire

structure Packet where
  firstByte : UInt8
  content : List UInt8
  short : content.length < 128

def encode (p : Packet) : List UInt8 :=
  p.firstByte :: UInt8.ofNat p.content.length :: p.content

/-- What stands after the content in a receive buffer is ignored. -/
def decode : List UInt8 → Packet
  | firstByte :: length :: rest =>
      ⟨firstByte, rest.take (min length.toNat 127), by simp only [List.length_take]; omega⟩
  | _ => ⟨0, [], by decide⟩

theorem decode_encode (p : Packet) (rest : List UInt8) : decode (encode p ++ rest) = p := by
  obtain ⟨firstByte, content, short⟩ := p
  have hlen : (UInt8.ofNat content.length).toNat = content.length := by
    rw [UInt8.toNat_ofNat']
    exact Nat.mod_eq_of_lt (by omega)
  simp only [encode, List.cons_append, decode, hlen, Packet.mk.injEq, true_and]
  rw [Nat.min_eq_left (by omega), List.take_left]

/-- The two-byte integer at the head. -/
def word : List UInt8 → Nat
  | high :: low :: _ => 256 * high.toNat + low.toNat
  | _ => 0

def wordBytes (n : Int) : List UInt8 := [UInt8.ofNat (n.toNat / 256), UInt8.ofNat n.toNat]

theorem word_lt (bytes : List UInt8) : word bytes < 65536 := by
  unfold word
  split
  · rename_i high low _
    have hhigh := high.toNat_lt
    have hlow := low.toNat_lt
    omega
  · decide

theorem word_wordBytes {n : Nat} (h : n < 65536) (rest : List UInt8) :
    word (wordBytes n ++ rest) = n := by
  simp only [wordBytes, List.cons_append, word, UInt8.toNat_ofNat', Int.toNat_natCast]
  omega

def text (bytes : List UInt8) : String := String.ofList (bytes.map fun b => Char.ofNat b.toNat)

/-- A string with its length in front. -/
def field (bytes : List UInt8) : List UInt8 := (bytes.drop 2).take (word bytes)

def afterField (bytes : List UInt8) : List UInt8 := bytes.drop (2 + word bytes)

/-- The filters of a SUBSCRIBE, each followed by its options. -/
def filters : Nat → List UInt8 → List String
  | 0, _ | _, [] => []
  | n + 1, bytes => text (field bytes) :: filters n ((afterField bytes).drop 1)

def qos (p : Packet) : Nat := p.firstByte.toNat / 2 % 4

/-- A packet whose content begins with an identifier. -/
def withIdentifier (firstByte : UInt8) (id : Int) : Packet :=
  ⟨firstByte, wordBytes id, by simp [wordBytes]⟩

def identifier (p : Packet) : Int := word p.content

theorem identifier_withIdentifier (firstByte : UInt8) (p : Packet) :
    identifier (withIdentifier firstByte (identifier p)) = identifier p := by
  have h := word_wordBytes (word_lt p.content) []
  rw [List.append_nil] at h
  simp only [identifier, withIdentifier, h]

def libraries : Libraries where
  Connect := Packet
  Connack := Packet
  Subscribe := Packet
  Suback := Packet
  Puback := Packet
  Pubrec := Packet
  Pubrel := Packet
  Pubcomp := Packet
  Publish := Packet
  Topic := String
  protocolName p := text (field p.content)
  protocolVersion p := ((afterField p.content).headD 0).toNat
  connectFlags p := (((afterField p.content).drop 1).headD 0).toNat
  keepAlive p := word ((afterField p.content).drop 2)
  connectId p := text (field ((afterField p.content).drop 4))
  connectPassword _ := ""
  subscribeList p := filters p.content.length (p.content.drop 2)
  topicFilter topic := topic
  newTopic name := name
  pubrecIdentifier := identifier
  pubrelIdentifier := identifier
  pubcompIdentifier := identifier
  publishQos p := qos p
  publishIdentifier p := if qos p = 0 then 0 else word (afterField p.content)
  publishTopicName p := text (field p.content)
  publishPayload p :=
    text (if qos p = 0 then afterField p.content else (afterField p.content).drop 2)
  interpretConnectPacket bytes := .ok (decode bytes)
  interpretSubscribePacket bytes := .ok (decode bytes)
  interpretPubackPacket bytes := .ok (decode bytes)
  interpretPubrecPacket bytes := .ok (decode bytes)
  interpretPubrelPacket bytes := .ok (decode bytes)
  interpretPubcompPacket bytes := .ok (decode bytes)
  interpretPublishPacket bytes := .ok (decode bytes)
  generateDefaultConnack _ _ _ := .ok ⟨0x20, [0, 0], by decide⟩
  generateDefaultSuback id _ := .ok (withIdentifier 0x90 id)
  generateDefaultPubrel id := .ok (withIdentifier 0x62 id)
  generateDefaultPubcomp id := .ok (withIdentifier 0x70 id)
  generatePuback id _ := .ok (withIdentifier 0x40 id)
  generatePubrec id _ := .ok (withIdentifier 0x50 id)
  convertConnactIntoPacket p bytes := .ok (bytes ++ encode p)
  convertSubackIntoPacket p bytes := .ok (bytes ++ encode p)
  convertPubackIntoPacket p bytes := .ok (bytes ++ encode p)
  convertPubrecIntoPacket p bytes := .ok (bytes ++ encode p)
  convertPubrelIntoPacket p bytes := .ok (bytes ++ encode p)
  convertPubcompIntoPacket p bytes := .ok (bytes ++ encode p)
  convertPublishIntoPacket p bytes := .ok (bytes ++ encode p)
  writeJson puts := .ok (String.join (puts.map fun put => put.1 ++ ":" ++ put.2 ++ "\n"))

theorem publishRoundTrips : libraries.PublishRoundTrips := by
  intro m bytes h
  obtain rfl := Except.ok.inj h
  have hdecode := decode_encode m []
  rw [List.append_nil] at hdecode
  exact congrArg Except.ok hdecode

theorem publishNonempty : libraries.PublishNonempty := by
  intro m h
  cases Except.ok.inj h

theorem pubcompKeepsIdentifier : libraries.PubcompKeepsIdentifier := by
  intro m c h
  obtain rfl := Except.ok.inj h
  exact identifier_withIdentifier 0x70 m

theorem topicKeepsName : libraries.TopicKeepsName := fun _ => rfl

theorem neverThrows : libraries.NeverThrows where
  interpretPublish _ := ⟨_, rfl⟩
  generatePubrec _ := ⟨_, rfl⟩
  convertPubrec _ := ⟨_, rfl⟩
  convertPublish _ := ⟨_, rfl⟩
  interpretPubrel _ := ⟨_, rfl⟩
  generatePubcomp _ := ⟨_, rfl⟩
  convertPubcomp _ := ⟨_, rfl⟩

/-! ## Identifiers -/

def identifiers : Identifiers libraries where
  subscribeIdentifier := identifier
  encodedIdentifier bytes := identifier (decode bytes)

theorem isWord_word (bytes : List UInt8) : Identifiers.IsWord (word bytes) := by
  have hlt := word_lt bytes
  constructor <;> omega

/-- The identifier is cut to two bytes. -/
theorem identifier_withIdentifier_mod (firstByte : UInt8) {id : Int} (h : 0 ≤ id) :
    identifier (withIdentifier firstByte id) = id % 65536 := by
  obtain ⟨n, rfl⟩ := Int.eq_ofNat_of_zero_le h
  simp only [identifier, withIdentifier, wordBytes, word, UInt8.toNat_ofNat', Int.toNat_natCast]
  omega

theorem carries_encode (type : ControlPacketType) {firstByte : UInt8}
    (htype : messageType firstByte = some type) {id : Int} {bytes : List UInt8}
    (h : (.ok ([] ++ encode (withIdentifier firstByte id)) : Except String (List UInt8)) =
      .ok bytes) : identifiers.Carries bytes type id := by
  obtain rfl := Except.ok.inj h
  refine fun rest => ⟨htype, fun hid => ?_⟩
  show identifier (decode (encode (withIdentifier firstByte id) ++ rest)) = id % 65536
  rw [decode_encode]
  exact identifier_withIdentifier_mod firstByte hid

theorem encode_identifiers : identifiers.Encode where
  suback _ _ m _ hm h := by
    obtain rfl := Except.ok.inj hm
    exact carries_encode .suback rfl h
  puback _ _ m _ hm h := by
    obtain rfl := Except.ok.inj hm
    exact carries_encode .puback rfl h
  pubrec _ _ m _ hm h := by
    obtain rfl := Except.ok.inj hm
    exact carries_encode .pubrec rfl h
  pubrel _ m _ hm h := by
    obtain rfl := Except.ok.inj hm
    exact carries_encode .pubrel rfl h
  pubcomp _ m _ hm h := by
    obtain rfl := Except.ok.inj hm
    exact carries_encode .pubcomp rfl h
  subscribeWord m := isWord_word m.content
  publishWord m := by
    show Identifiers.IsWord (if qos m = 0 then 0 else (word (afterField m.content) : Int))
    split
    · exact ⟨Int.le_refl 0, by decide⟩
    · exact isWord_word _
  pubrecWord m := isWord_word m.content
  pubrelWord m := isWord_word m.content

/-! ## Packets of a client -/

/-- CONNECT under the one-letter id. -/
def connectAs (letter : UInt8) : List UInt8 :=
  [0x10, 13, 0, 4, 77, 81, 84, 84, 5, 2, 0, 60, 0, 1, letter]

/-- SUBSCRIBE to "GPS", with the identifier 1. -/
def subscribeGps : List UInt8 := [0x82, 8, 0, 1, 0, 3, 71, 80, 83, 0]

end BddsBroker.Wire
