import BddsBroker.Mqtt.Effects
import BddsBroker.Mqtt.Run
import BddsBroker.Mqtt.Wire

/-! A message that a client hands over with a PUBLISH at QoS 1 or with the PUBREL of a
stored one. The acknowledgement is enqueued before the message is: when the call in
between throws, the client has its PUBACK or PUBCOMP and the message is gone. -/

namespace BddsBroker.Handover

open MqttSession Program Proc

variable {L : Libraries} {s : SessionPtr} {recvData : List UInt8} {b b' : Broker L}

/-- What the calls for one message give. -/
structure Message (L : Libraries) where
  packetId : Int
  ack : Except String (List UInt8)
  /-- The packet that is sent on. -/
  packet : Except String (List UInt8)
  /-- The message for DDS. -/
  publish : Except String L.Publish

/-- The packet hands over that message. -/
inductive HandsOver (L : Libraries) (s : SessionPtr) (recvData : List UInt8) (b : Broker L) :
    Message L → Prop
  | publish {m : L.Publish} (htype : packetType recvData = some .publish)
      (hint : L.interpretPublishPacket recvData = .ok m) (hqos : L.publishQos m = 1) :
      HandsOver L s recvData b
        ⟨L.publishIdentifier m, directAck L m, L.convertPublishIntoPacket m [], .ok m⟩
  | pubrel {m : L.Pubrel} {target : List UInt8} (hrel : IsPubrel recvData)
      (hint : L.interpretPubrelPacket recvData = .ok m)
      (hstored : (b.publishMap s).lookup (L.pubrelIdentifier m) = some target) :
      HandsOver L s recvData b
        ⟨L.pubrelIdentifier m, (pubrelAnswer L recvData).map Prod.snd, .ok target,
          L.interpretPublishPacket target⟩
  /-- The first call throws. -/
  | unreadPublish {what : String} (htype : packetType recvData = some .publish)
      (hint : L.interpretPublishPacket recvData = .error what) :
      HandsOver L s recvData b ⟨0, .error what, .error what, .error what⟩
  | unreadPubrel {what : String} (hrel : IsPubrel recvData)
      (hint : L.interpretPubrelPacket recvData = .error what) :
      HandsOver L s recvData b ⟨0, .error what, .error what, .error what⟩

/-- The tasks that were enqueued. -/
def newTasks (b b' : Broker L) : List MqttTask := b'.mqttTaskQueue.drop b.mqttTaskQueue.length

/-- An acknowledgement was enqueued. -/
def Acked (b b' : Broker L) : Prop := ∃ task ∈ newTasks b b', task.taskOption = 5

/-- The packet was enqueued for every subscriber, and the message for DDS. -/
def Forwarded (b b' : Broker L) (packet : List UInt8) (m : L.Publish) : Prop :=
  (∃ task ∈ newTasks b b',
    task.taskOption = 0 ∧ task.clientId = broadcastId ∧ task.data = packet) ∧
  ∃ task ∈ b'.ddsTaskQueue.drop b.ddsTaskQueue.length,
    task.topic = L.publishTopicName m ∧ task.data = L.publishPayload m

/-- An acknowledged message was forwarded or is still stored. -/
def Kept (s : SessionPtr) (b b' : Broker L) (h : Message L) : Prop :=
  Acked b b' → ∃ packet, h.packet = .ok packet ∧
    ((∃ m, h.publish = .ok m ∧ Forwarded b b' packet m) ∨
      (b'.publishMap s).lookup h.packetId = some packet)

/-- When the calls for the acknowledgement succeed, so do those for the message. -/
def Sound (h : Message L) : Prop :=
  (∃ ack, h.ack = .ok ack) → (∃ packet, h.packet = .ok packet) ∧ ∃ m, h.publish = .ok m

/-! ## Calls that throw -/

theorem messageProcess_unread_publish {what : String}
    (htype : packetType recvData = some .publish)
    (hint : L.interpretPublishPacket recvData = .error what) :
    messageProcess L s recvData b =
      some (b.writeLog (errorLine ⟨b, "before publish"⟩ s what)) := by
  refine (messageProcess_ends (· = _)).mpr ?_
  rw [body_publish htype]
  simp [publish, hint]

theorem messageProcess_unread_pubrel {what : String} (hrel : IsPubrel recvData)
    (hint : L.interpretPubrelPacket recvData = .error what) :
    messageProcess L s recvData b =
      some (b.writeLog (errorLine ⟨b, "before pubrel"⟩ s what)) := by
  refine messageProcess_pubrel_thrown hrel ?_
  simp only [pubrelAnswer, hint, error_bind]

/-! ## The result -/

/-- Nothing is lost without an acknowledgement. -/
theorem kept_writeLog (b : Broker L) (line : String) (h : Message L) :
    Kept s b (b.writeLog line) h := by
  rintro ⟨task, hmem, -⟩
  simp [newTasks] at hmem

/-- A PUBLISH at QoS 1. -/
theorem kept_publish_iff {m : L.Publish} (htype : packetType recvData = some .publish)
    (hint : L.interpretPublishPacket recvData = .ok m) (hqos : L.publishQos m = 1) :
    ∃ b', messageProcess L s recvData b = some b' ∧
      (Kept s b b'
          ⟨L.publishIdentifier m, directAck L m, L.convertPublishIntoPacket m [], .ok m⟩ ↔
        ((∃ ack, directAck L m = .ok ack) →
          ∃ packet, L.convertPublishIntoPacket m [] = .ok packet)) := by
  have htwo : L.publishQos m ≠ 2 := by omega
  cases hack : directAck L m with
  | error what =>
    have hproc := messageProcess_unacked (s := s) (b := b) htype hint htwo hack
    refine ⟨_, hproc, iff_of_true (kept_writeLog b _ _) ?_⟩
    rintro ⟨ack, ⟨⟩⟩
  | ok ack =>
    have hacked : Acked b (acked b s m ack) := by
      refine ⟨⟨b.taskCount, 5, ack, b.clientId s⟩, ?_, rfl⟩
      simp [newTasks, acked, hqos]
    cases hpacket : L.convertPublishIntoPacket m [] with
    | error what =>
      refine ⟨_, messageProcess_unsent htype hint htwo hack hpacket, iff_of_false ?_ ?_⟩
      · intro hkept
        obtain ⟨packet, ⟨⟩, -⟩ := hkept hacked
      · intro hsound
        obtain ⟨packet, ⟨⟩⟩ := hsound ⟨ack, rfl⟩
    | ok packet =>
      refine ⟨_, messageProcess_forward htype hint htwo hack hpacket, iff_of_true ?_ ?_⟩
      · refine fun _ => ⟨packet, rfl, .inl ⟨m, rfl, ?_⟩⟩
        simp [Forwarded, newTasks, forwarded, acked, hqos, BrokerTask.make]
      · exact fun _ => ⟨packet, rfl⟩

/-- The PUBREL of a stored message. -/
theorem kept_pubrel_iff (hcomp : L.PubcompKeepsIdentifier) {r : L.Pubrel} {target : List UInt8}
    (hrel : IsPubrel recvData) (hint : L.interpretPubrelPacket recvData = .ok r)
    (hstored : (b.publishMap s).lookup (L.pubrelIdentifier r) = some target) :
    ∃ b', messageProcess L s recvData b = some b' ∧
      (Kept s b b' ⟨L.pubrelIdentifier r, (pubrelAnswer L recvData).map Prod.snd, .ok target,
          L.interpretPublishPacket target⟩ ↔
        ((∃ ack, (pubrelAnswer L recvData).map Prod.snd = .ok ack) →
          ∃ m, L.interpretPublishPacket target = .ok m)) := by
  cases hans : pubrelAnswer L recvData with
  | error what =>
    refine ⟨_, messageProcess_pubrel_thrown hrel hans, iff_of_true (kept_writeLog b _ _) ?_⟩
    rintro ⟨ack, ⟨⟩⟩
  | ok answer =>
    obtain ⟨packetId, reply⟩ := answer
    obtain ⟨r', hr', rfl⟩ := pubrelAnswer_identifier hcomp hans
    obtain rfl : r = r' := Except.ok.inj (hint.symm.trans hr')
    cases hm : L.interpretPublishPacket target with
    | error what =>
      refine ⟨_, messageProcess_undecoded hrel hans hstored hm, iff_of_false ?_ ?_⟩
      · intro hkept
        have hacked : Acked b ((completed b s reply).erasePublish s (L.pubrelIdentifier r)) := by
          refine ⟨⟨b.taskCount, 5, reply, b.clientId s⟩, ?_, rfl⟩
          simp [newTasks, completed]
        obtain ⟨packet, -, ⟨m, ⟨⟩, -⟩ | hlook⟩ := hkept hacked
        rw [Broker.publishMap_writeLog, Broker.publishMap_erasePublish, Finmap.lookup_erase]
          at hlook
        cases hlook
      · intro hsound
        obtain ⟨m, ⟨⟩⟩ := hsound ⟨reply, rfl⟩
    | ok m =>
      refine ⟨_, messageProcess_release hrel hans hstored hm, iff_of_true ?_ ?_⟩
      · refine fun _ => ⟨target, rfl, .inl ⟨m, rfl, ?_⟩⟩
        simp [Forwarded, newTasks, released, completed, BrokerTask.make]
      · exact fun _ => ⟨m, rfl⟩

/-- **Custody**, in every state and for every choice of the calls that throw. -/
theorem kept_iff (hcomp : L.PubcompKeepsIdentifier) {h : Message L}
    (hh : HandsOver L s recvData b h) :
    ∃ b', messageProcess L s recvData b = some b' ∧ (Kept s b b' h ↔ Sound h) := by
  unfold Sound
  cases hh with
  | publish htype hint hqos => simpa using kept_publish_iff htype hint hqos
  | pubrel hrel hint hstored => simpa using kept_pubrel_iff hcomp hrel hint hstored
  | unreadPublish htype hint =>
    refine ⟨_, messageProcess_unread_publish htype hint, iff_of_true (kept_writeLog b _ _) ?_⟩
    rintro ⟨ack, ⟨⟩⟩
  | unreadPubrel hrel hint =>
    refine ⟨_, messageProcess_unread_pubrel hrel hint, iff_of_true (kept_writeLog b _ _) ?_⟩
    rintro ⟨ack, ⟨⟩⟩

/-! ## A message that is not encoded -/

/-- PUBLISH of "H" on "A" at QoS 1 under the identifier 5. -/
def publishFive : List UInt8 := [0x32, 6, 0, 1, 65, 0, 5, 72]

/-- The library, when there is no memory left for an encoded PUBLISH. -/
def exhausted : Libraries :=
  { Wire.libraries with convertPublishIntoPacket := fun _ _ => .error "bad allocation" }

/-- The client gets its PUBACK and nobody the message. -/
theorem publishFive_lost :
    ∃ (b b' : Broker exhausted) (h : Message exhausted),
      Machine.run Run.step .init [.accept 1] = some b ∧
      Run.step b (.packet 1 publishFive) = some b' ∧
      HandsOver exhausted 1 publishFive b h ∧
      b'.mqttTaskQueue = [⟨0, 5, [0x40, 2, 0, 5, 10], ""⟩] ∧ b'.ddsTaskQueue = [] ∧
      ¬ Kept 1 b b' h := by
  refine ⟨_, _, _, rfl, rfl, .publish (m := Wire.decode publishFive) rfl rfl rfl, rfl, rfl, ?_⟩
  intro hkept
  obtain ⟨packet, hpacket, -⟩ := hkept ⟨_, List.mem_cons_self, rfl⟩
  cases hpacket

/-- PUBLISH of "H" on "A" at QoS 2 under the identifier 1. -/
def publishOne : List UInt8 := [0x34, 6, 0, 1, 65, 0, 1, 72]

def stored : List Run.Event := [.accept 1, .packet 1 publishOne]

/-- PUBREL of the identifier 1. -/
def pubrelOne : List UInt8 := [0x62, 2, 0, 1]

theorem pubrelOne_kept_iff :
    ∃ (b : Broker Wire.libraries) (h : Message Wire.libraries),
      Machine.run Run.step .init stored = some b ∧ HandsOver Wire.libraries 1 pubrelOne b h ∧
      ∃ b', messageProcess Wire.libraries 1 pubrelOne b = some b' ∧
        (Kept 1 b b' h ↔ Sound h) := by
  have hh : ∀ b : Broker Wire.libraries, Machine.run Run.step .init stored = some b →
      HandsOver Wire.libraries 1 pubrelOne b
        ⟨Wire.libraries.pubrelIdentifier (Wire.decode pubrelOne),
          (pubrelAnswer Wire.libraries pubrelOne).map Prod.snd, .ok publishOne,
          Wire.libraries.interpretPublishPacket publishOne⟩ := by
    rintro b hb
    obtain rfl := Option.some.inj hb
    exact .pubrel rfl rfl rfl
  exact ⟨_, _, rfl, hh _ rfl, kept_iff Wire.pubcompKeepsIdentifier (hh _ rfl)⟩

end BddsBroker.Handover
