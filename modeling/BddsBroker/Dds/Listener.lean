import BddsBroker.Dds.Message
import BddsBroker.Mqtt.Effects
import BddsBroker.Mqtt.Run
import BddsBroker.Mqtt.Wire

/-! `DataReaderListenerImpl::on_data_available`: a DDS sample that was taken from the
reader goes to the DDS queue as JSON, and as a PUBLISH to every subscriber of "GPS". -/

namespace BddsBroker.Dds

open PropertyTree Proc Program

/-- What the listener uses besides of the libraries: Boost's property trees, and
`generate_default_publish`, which is given an identifier, a topic, a payload and a QoS
level. -/
structure Codec (L : Libraries) where
  numbers : Numbers
  json : Json
  generateDefaultPublish : Int → String → String → Int → Except String L.Publish

variable {L : Libraries}

/-- The loop over the subscribers of "GPS". -/
def distribute (packet : List UInt8) (b : Broker L) : Broker L :=
  if (Registry.findTopic "GPS" b.topicList).getSubTopicStr ≠ "null" then
    b.gpsSessions.foldl
      (fun b client => b.countTask.enqueueMqtt ⟨b.taskCount, 0, packet, b.clientId client⟩) b
  else b

/-- The listener with a sample that it took. `topic_name_` is the topic that the broker
publishes on. -/
def onDataAvailable (C : Codec L) (topicName : String) (globalQos : Int)
    (message : Message C.numbers) : Proc L Unit := do
  let json ← call (encode C.json message)
  let count ← taskCount
  change fun b => b.enqueueDds (.make count topicName json)
  let pMessage ← call (C.generateDefaultPublish message.subjectId "GPS" json globalQos)
  let packet ← call (L.convertPublishIntoPacket pMessage [])
  change (distribute packet)

/-! ## What the listener does -/

theorem forwardSample_eq (topicName json : String) (packet : List UInt8) (b : Broker L) :
    forwardSample topicName json packet b =
      distribute packet (b.enqueueDds (.make b.taskCount topicName json)) := rfl

/-- The DDS task is enqueued before the packet is made; without an exception the sample
is forwarded as `forwardSample` says. -/
theorem ends_onDataAvailable {C : Codec L} {topicName : String} {globalQos : Int}
    {message : Message C.numbers} {f : Frame L} {Q : Unit → Frame L → Prop}
    {E : Stop → Frame L → Prop} :
    Ends (onDataAvailable C topicName globalQos message) f Q E ↔
      match encode C.json message with
      | .error what => E (.thrown what) f
      | .ok json =>
        match C.generateDefaultPublish message.subjectId "GPS" json globalQos >>=
            fun p => L.convertPublishIntoPacket p [] with
        | .error what => E (.thrown what)
            ⟨f.broker.enqueueDds (.make f.broker.taskCount topicName json), f.status⟩
        | .ok packet => Q () ⟨forwardSample topicName json packet f.broker, f.status⟩ := by
  unfold onDataAvailable
  cases encode C.json message with
  | error what => simp
  | ok json =>
    cases hp : C.generateDefaultPublish message.subjectId "GPS" json globalQos with
    | error what => simp [hp, error_bind]
    | ok p =>
      cases hc : L.convertPublishIntoPacket p [] with
      | error what => simp [hp, hc, ok_bind]
      | ok packet => simp [hp, hc, ok_bind, forwardSample_eq]

theorem onDataAvailable_forwardSample {C : Codec L} {topicName json : String} {globalQos : Int}
    {message : Message C.numbers} {packet : List UInt8} (hjson : encode C.json message = .ok json)
    (hpacket : (C.generateDefaultPublish message.subjectId "GPS" json globalQos >>=
      fun p => L.convertPublishIntoPacket p []) = .ok packet) (f : Frame L) :
    onDataAvailable C topicName globalQos message f =
      .ok () ⟨forwardSample topicName json packet f.broker, f.status⟩ := by
  apply Ends.eq_ok
  rw [ends_onDataAvailable, hjson]
  simp only [hpacket, and_self]

theorem ddsTaskQueue_distribute (packet : List UInt8) (b : Broker L) :
    (distribute packet b).ddsTaskQueue = b.ddsTaskQueue := by
  unfold distribute
  split
  · exact List.foldlRecOn (motive := fun a : Broker L => a.ddsTaskQueue = b.ddsTaskQueue) _ _ rfl
      fun a ha client _ => ha
  · rfl

/-- A sample is one task for DDS. -/
theorem ddsTaskQueue_forwardSample (topicName json : String) (packet : List UInt8)
    (b : Broker L) :
    (forwardSample topicName json packet b).ddsTaskQueue =
      b.ddsTaskQueue ++ [.make b.taskCount topicName json] := by
  rw [forwardSample_eq, ddsTaskQueue_distribute, Broker.ddsTaskQueue_enqueueDds]

/-- Before it stops for an exception the listener has enqueued the task or not. -/
theorem ddsTaskQueue_onDataAvailable (C : Codec L) (topicName : String) (globalQos : Int)
    (message : Message C.numbers) (f : Frame L) :
    Ends (onDataAvailable C topicName globalQos message) f
      (fun _ f' => ∃ task, f'.broker.ddsTaskQueue = f.broker.ddsTaskQueue ++ [task])
      fun _ f' => ∃ tasks, tasks.length ≤ 1 ∧
        f'.broker.ddsTaskQueue = f.broker.ddsTaskQueue ++ tasks := by
  rw [ends_onDataAvailable]
  split
  · exact ⟨[], by simp, by simp⟩
  · split
    · exact ⟨[_], Nat.le_refl 1, Broker.ddsTaskQueue_enqueueDds _ _⟩
    · exact ⟨_, ddsTaskQueue_forwardSample _ _ _ _⟩

/-! ## The other events

Accepted connections, dispatches and clients leave the DDS queue alone, and a packet
enqueues at most one message. -/

theorem ddsTaskQueue_step {b b' : Broker L} {e : Run.Event}
    (he : ∀ topicName json packet, e ≠ .sample topicName json packet)
    (hs : Run.step b e = some b') :
    ∃ tasks, tasks.length ≤ 1 ∧ b'.ddsTaskQueue = b.ddsTaskQueue ++ tasks := by
  cases e with
  | accept s =>
    obtain ⟨-, rfl⟩ := Run.step_accept hs
    exact ⟨[], by simp, (List.append_nil _).symm⟩
  | packet s recvData =>
    obtain ⟨-, hproc⟩ := Run.step_packet hs
    exact MqttSession.messageProcess_ddsTaskQueue hproc
  | dispatch i =>
    obtain ⟨task, r, ⟨-, hr⟩, rfl⟩ := Run.dispatch_eq_some.mp hs
    have hkept := kept (f := Broker.ddsTaskQueue) (fun _ _ => Sending.ddsTaskQueue)
      (mqttEndPointWriter_sending hr)
    exact ⟨[], by simp, by rw [hkept, List.append_nil]⟩
  | addClient topicName client =>
    obtain rfl := Option.some.inj hs
    exact ⟨[], by simp, (List.append_nil _).symm⟩
  | sample topicName json packet => exact absurd rfl (he topicName json packet)

/-! ## A codec

The packets of `Wire`, but with a PUBLISH of any size, and JSON as Boost writes it. -/

namespace Wire

structure Publish where
  qos : Nat
  identifier : Nat
  topicName : List UInt8
  payload : List UInt8

/-- The remaining length, seven bits a byte, in at most that many bytes. -/
def remainingLength : Nat → Nat → List UInt8
  | 0, _ => []
  | k + 1, n =>
      if n < 128 then [UInt8.ofNat n]
      else UInt8.ofNat (n % 128 + 128) :: remainingLength k (n / 128)

/-- The remaining length, and what stands behind it. -/
def takeLength : Nat → List UInt8 → Nat × List UInt8
  | k + 1, byte :: bytes =>
      if byte.toNat < 128 then (byte.toNat, bytes)
      else
        let (n, rest) := takeLength k bytes
        (byte.toNat - 128 + 128 * n, rest)
  | _, bytes => (0, bytes)

def encodePublish (p : Publish) : List UInt8 :=
  let content := BddsBroker.Wire.wordBytes p.topicName.length ++ p.topicName ++
    (if p.qos = 0 then [] else BddsBroker.Wire.wordBytes p.identifier) ++ p.payload
  UInt8.ofNat (0x30 + 2 * p.qos) :: remainingLength 4 content.length ++ content

def decodePublish (bytes : List UInt8) : Publish :=
  let qos := (bytes.headD 0).toNat / 2 % 4
  let (length, rest) := takeLength 4 (bytes.drop 1)
  let content := rest.take length
  let afterTopic := BddsBroker.Wire.afterField content
  { qos := qos
    identifier := if qos = 0 then 0 else BddsBroker.Wire.word afterTopic
    topicName := BddsBroker.Wire.field content
    payload := if qos = 0 then afterTopic else afterTopic.drop 2 }

def libraries : Libraries :=
  { BddsBroker.Wire.libraries with
    Publish := Publish
    publishQos := fun p => p.qos
    publishIdentifier := fun p => p.identifier
    publishTopicName := fun p => BddsBroker.Wire.text p.topicName
    publishPayload := fun p => BddsBroker.Wire.text p.payload
    interpretPublishPacket := fun bytes => .ok (decodePublish bytes)
    convertPublishIntoPacket := fun p bytes => .ok (bytes ++ encodePublish p) }

def bytesOf (text : String) : List UInt8 := text.toList.map fun c => UInt8.ofNat c.toNat

def codec : Codec libraries where
  numbers := wholeNumbers
  json := JsonText.json
  generateDefaultPublish id topic payload qos :=
    .ok { qos := qos.toNat, identifier := id.toNat, topicName := bytesOf topic,
          payload := bytesOf payload }

end Wire

end BddsBroker.Dds
