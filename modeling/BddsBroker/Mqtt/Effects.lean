import BddsBroker.Mqtt.Changes

/-! The exact effects of the packets that carry messages: a PUBLISH at QoS 2 stores its
message and is acknowledged, a PUBREL releases a stored message to both queues, any
other PUBLISH goes to both queues at once, and a PUBREL without a stored message reads
through the end of the map. -/

namespace BddsBroker

open Proc Program

variable {L : Libraries} {s : SessionPtr}

/-! ## Postconditions of the statements -/

namespace Proc

variable {α : Type} {f : Frame L} {E : Stop → Frame L → Prop}

@[simp] theorem ends_call_ok {a : α} {Q : α → Frame L → Prop} :
    Ends (call (.ok a)) f Q E ↔ Q a f := Iff.rfl

@[simp] theorem ends_call_error {what : String} {Q : α → Frame L → Prop} :
    Ends (call (.error what)) f Q E ↔ E (.thrown what) f := Iff.rfl

theorem returns_call {r : Except String α} {Q : α → Frame L → Prop} :
    Returns (call r) f Q ↔ ∀ a, r = .ok a → Q a f :=
  returns_ofExcept

@[simp] theorem ends_setStatus {status : String} {Q : Unit → Frame L → Prop} :
    Ends (setStatus status) f Q E ↔ Q () ⟨f.broker, status⟩ := Iff.rfl

@[simp] theorem ends_change {c : Broker L → Broker L} {Q : Unit → Frame L → Prop} :
    Ends (change c) f Q E ↔ Q () ⟨c f.broker, f.status⟩ := Iff.rfl

@[simp] theorem ends_taskCount {Q : Int → Frame L → Prop} :
    Ends taskCount f Q E ↔ Q f.broker.taskCount f := Iff.rfl

@[simp] theorem ends_nextTaskId {Q : Int → Frame L → Prop} :
    Ends nextTaskId f Q E ↔ Q f.broker.taskCount ⟨f.broker.countTask, f.status⟩ := Iff.rfl

@[simp] theorem ends_reply {taskOption : Int} {packet : List UInt8} {Q : Unit → Frame L → Prop} :
    Ends (reply s taskOption packet) f Q E ↔
      Q () ⟨f.broker.countTask.enqueueMqtt
        ⟨f.broker.taskCount, taskOption, packet, f.broker.clientId s⟩, f.status⟩ := Iff.rfl

@[simp] theorem ends_self {Q : MqttSession → Frame L → Prop} :
    Ends (self s) f Q E ↔ Q (f.broker.session s) f := Iff.rfl

@[simp] theorem ends_findPublish {packetId : Int} {Q : List UInt8 → Frame L → Prop} :
    Ends (findPublish s packetId) f Q E ↔
      match (f.broker.publishMap s).lookup packetId with
      | some packet => Q packet f
      | none => E .readsEnd f := by
  show Ends (self s >>= _) f Q E ↔ _
  rw [ends_bind]
  show Ends (match (f.broker.publishMap s).lookup packetId with
    | some packet => pure packet
    | none => throw .readsEnd) f Q E ↔ _
  cases (f.broker.publishMap s).lookup packetId <;> rfl

end Proc

namespace MqttSession

/-- The line that the `catch` block writes. -/
def errorLine (f : Frame L) (s : SessionPtr) (what : String) : String :=
  "[ERROR] MQTT_Session[client" ++ f.broker.clientId s ++ " has problem.] STATUS[ " ++
    f.status ++ "] publish_mqtt_thread[" ++ what ++ "]"

/-- A property of the result is a postcondition of the `try` block. -/
theorem messageProcess_ends {recvData : List UInt8} {b : Broker L}
    (Q : Option (Broker L) → Prop) :
    Q (messageProcess L s recvData b) ↔
      Ends (body L s recvData) ⟨b, "before try"⟩ (fun _ f => Q (some f.broker)) fun e f =>
        match e with
        | .thrown what => Q (some (f.broker.writeLog (errorLine f s what)))
        | .readsEnd => Q none := by
  unfold messageProcess Ends errorLine
  cases body L s recvData ⟨b, "before try"⟩ with
  | ok a f => rfl
  | error e f => cases e <;> rfl

/-! ## PUBLISH -/

theorem body_publish {recvData : List UInt8} (h : packetType recvData = some .publish) :
    body L s recvData = publish L s recvData := by
  unfold body
  rw [h]

/-- What a QoS 2 PUBLISH does. -/
def stored (b : Broker L) (s : SessionPtr) (packetId : Int) (packet ack : List UInt8) : Broker L :=
  (b.storePublish s packetId packet).countTask.enqueueMqtt
    ⟨b.taskCount, 5, ack ++ [10], b.clientId s⟩

theorem messageProcess_store {recvData : List UInt8} {b : Broker L} {m : L.Publish}
    {pubrec : L.Pubrec} {ack packet : List UInt8} (hm : IsStore L recvData m)
    (hrec : L.generatePubrec (L.publishIdentifier m) 0 = .ok pubrec)
    (hack : L.convertPubrecIntoPacket pubrec [] = .ok ack)
    (hpacket : L.convertPublishIntoPacket m [] = .ok packet) :
    messageProcess L s recvData b = some (stored b s (L.publishIdentifier m) packet ack) := by
  obtain ⟨htype, hint, hq⟩ := hm
  refine (messageProcess_ends (· = _)).mpr ?_
  rw [body_publish htype]
  simp [publish, acknowledge, ackPacket, forward, hint, hq, hrec, hack, hpacket,
    stored]

/-- The acknowledgement packet of a PUBLISH that is not stored. -/
def directAck (L : Libraries) (m : L.Publish) : Except String (List UInt8) :=
  if L.publishQos m = 1 then do
    let temp ← L.generatePuback (L.publishIdentifier m) 0
    let packet ← L.convertPubackIntoPacket temp []
    return packet ++ [10]
  else .ok []

/-- Its acknowledgement, which QoS 0 does without. -/
def acked (b : Broker L) (s : SessionPtr) (m : L.Publish) (ack : List UInt8) : Broker L :=
  if L.publishQos m = 0 then b
  else b.countTask.enqueueMqtt ⟨b.taskCount, 5, ack, b.clientId s⟩

/-- The message goes to the subscribers and to DDS. -/
def forwarded (b : Broker L) (m : L.Publish) (packet : List UInt8) : Broker L :=
  (b.countTask.enqueueMqtt ⟨b.taskCount, 0, packet, broadcastId⟩).enqueueDds
    (.make (b.taskCount + 1) (L.publishTopicName m) (L.publishPayload m))

/-- The status when the message is encoded. -/
def forwardStatus (m : L.Publish) : String :=
  if L.publishQos m = 0 then "before publish" else "after qos"

/-- The branch of a PUBLISH that is not stored: it stops when a call for the
acknowledgement throws, and else acknowledges and forwards the message. -/
theorem ends_publish {recvData : List UInt8} {b : Broker L} {status : String} {m : L.Publish}
    (hint : L.interpretPublishPacket recvData = .ok m) (hq : L.publishQos m ≠ 2)
    {Q : Unit → Frame L → Prop} {E : Stop → Frame L → Prop} :
    Ends (publish L s recvData) ⟨b, status⟩ Q E ↔
      match directAck L m with
      | .error what => E (.thrown what) ⟨b, "after qos"⟩
      | .ok ack =>
        match L.convertPublishIntoPacket m [] with
        | .error what => E (.thrown what) ⟨acked b s m ack, forwardStatus m⟩
        | .ok packet => Q () ⟨forwarded (acked b s m ack) m packet, "after publish"⟩ := by
  by_cases h0 : L.publishQos m = 0
  · cases hpacket : L.convertPublishIntoPacket m [] <;>
      simp [publish, acknowledge, forward, directAck, hint, h0, hpacket, forwarded, acked,
        forwardStatus]
  by_cases h1 : L.publishQos m = 1
  · cases hgen : L.generatePuback (L.publishIdentifier m) 0 with
    | error what => simp [publish, acknowledge, ackPacket, directAck, hint, h1, hgen, error_bind]
    | ok puback =>
      cases hconv : L.convertPubackIntoPacket puback [] with
      | error what =>
        simp [publish, acknowledge, ackPacket, directAck, hint, h1, hgen, hconv, ok_bind]
      | ok bytes =>
        cases hpacket : L.convertPublishIntoPacket m [] <;>
          simp [publish, acknowledge, ackPacket, forward, directAck, hint, h1, hgen, hconv, hpacket,
            ok_bind, except_pure, forwarded, acked, forwardStatus]
  · cases hpacket : L.convertPublishIntoPacket m [] <;>
      simp [publish, acknowledge, ackPacket, forward, directAck, hint, h0, h1, hq, hpacket,
        forwarded, acked, forwardStatus]

theorem messageProcess_forward {recvData : List UInt8} {b : Broker L} {m : L.Publish}
    {ack packet : List UInt8} (htype : packetType recvData = some .publish)
    (hint : L.interpretPublishPacket recvData = .ok m) (hq : L.publishQos m ≠ 2)
    (hack : directAck L m = .ok ack) (hpacket : L.convertPublishIntoPacket m [] = .ok packet) :
    messageProcess L s recvData b = some (forwarded (acked b s m ack) m packet) := by
  refine (messageProcess_ends (· = _)).mpr ?_
  rw [body_publish htype, ends_publish hint hq, hack, hpacket]

/-- No acknowledgement is made. -/
theorem messageProcess_unacked {recvData : List UInt8} {b : Broker L} {m : L.Publish}
    {what : String} (htype : packetType recvData = some .publish)
    (hint : L.interpretPublishPacket recvData = .ok m) (hq : L.publishQos m ≠ 2)
    (hack : directAck L m = .error what) :
    messageProcess L s recvData b = some (b.writeLog (errorLine ⟨b, "after qos"⟩ s what)) := by
  refine (messageProcess_ends (· = _)).mpr ?_
  rw [body_publish htype, ends_publish hint hq, hack]

/-- The acknowledgement is enqueued, and the message is not encoded. -/
theorem messageProcess_unsent {recvData : List UInt8} {b : Broker L} {m : L.Publish}
    {ack : List UInt8} {what : String} (htype : packetType recvData = some .publish)
    (hint : L.interpretPublishPacket recvData = .ok m) (hq : L.publishQos m ≠ 2)
    (hack : directAck L m = .ok ack) (hpacket : L.convertPublishIntoPacket m [] = .error what) :
    messageProcess L s recvData b = some ((acked b s m ack).writeLog
      (errorLine ⟨acked b s m ack, forwardStatus m⟩ s what)) := by
  refine (messageProcess_ends (· = _)).mpr ?_
  rw [body_publish htype, ends_publish hint hq, hack, hpacket]

/-! ## PUBREL -/

theorem body_pubrel {recvData : List UInt8} (h : IsPubrel recvData) :
    body L s recvData = pubrel L s recvData := by
  unfold body
  rw [h]

/-- What the calls before the lookup give: the identifier to look up and the encoded
PUBCOMP. -/
def pubrelAnswer (L : Libraries) (recvData : List UInt8) : Except String (Int × List UInt8) := do
  let pubrel ← L.interpretPubrelPacket recvData
  let pubcomp ← L.generateDefaultPubcomp (L.pubrelIdentifier pubrel)
  let packet ← L.convertPubcompIntoPacket pubcomp []
  return (L.pubcompIdentifier pubcomp, packet)

/-- The PUBCOMP task. -/
def completed (b : Broker L) (s : SessionPtr) (reply : List UInt8) : Broker L :=
  b.countTask.enqueueMqtt ⟨b.taskCount, 5, reply, b.clientId s⟩

/-- The stored message goes to both queues. -/
def released (b : Broker L) (s : SessionPtr) (packetId : Int) (reply target : List UInt8)
    (m : L.Publish) : Broker L :=
  ((((completed b s reply).erasePublish s packetId).enqueueDds
    (.make (b.taskCount + 1) (L.publishTopicName m) (L.publishPayload m))).countTask).enqueueMqtt
      ⟨b.taskCount + 1, 0, target, broadcastId⟩

/-- The branch after its first calls: it stops when one of them throws, and else
enqueues the PUBCOMP and looks the message up. -/
theorem ends_pubrel {recvData : List UInt8} {b : Broker L} {status : String}
    {Q : Unit → Frame L → Prop} {E : Stop → Frame L → Prop} :
    Ends (pubrel L s recvData) ⟨b, status⟩ Q E ↔
      match pubrelAnswer L recvData with
      | .error what => E (.thrown what) ⟨b, "before pubrel"⟩
      | .ok (packetId, reply) =>
        match (b.publishMap s).lookup packetId with
        | none => E .readsEnd ⟨completed b s reply, "before pubrel"⟩
        | some target =>
          match L.interpretPublishPacket target with
          | .error what =>
              E (.thrown what) ⟨(completed b s reply).erasePublish s packetId, "before pubrel"⟩
          | .ok m => Q () ⟨released b s packetId reply target m, "after pubrel"⟩ := by
  unfold pubrelAnswer
  cases hrel : L.interpretPubrelPacket recvData with
  | error what => simp [pubrel, hrel, error_bind]
  | ok r =>
    cases hcomp : L.generateDefaultPubcomp (L.pubrelIdentifier r) with
    | error what => simp [pubrel, hrel, hcomp, ok_bind, error_bind]
    | ok c =>
      cases hconv : L.convertPubcompIntoPacket c [] with
      | error what => simp [pubrel, hrel, hcomp, hconv, ok_bind]
      | ok reply =>
        cases hlook : (b.publishMap s).lookup (L.pubcompIdentifier c) with
        | none => simp [pubrel, hrel, hcomp, hconv, hlook, ok_bind, except_pure, completed]
        | some target =>
          cases hm : L.interpretPublishPacket target with
          | error what =>
            simp [pubrel, hrel, hcomp, hconv, hlook, hm, ok_bind, except_pure, completed]
          | ok m =>
            simp [pubrel, hrel, hcomp, hconv, hlook, hm, ok_bind, except_pure, completed, released]

theorem messageProcess_release {recvData : List UInt8} {b : Broker L} {packetId : Int}
    {reply target : List UInt8} {m : L.Publish} (hrel : IsPubrel recvData)
    (hans : pubrelAnswer L recvData = .ok (packetId, reply))
    (htarget : (b.publishMap s).lookup packetId = some target)
    (hm : L.interpretPublishPacket target = .ok m) :
    messageProcess L s recvData b = some (released b s packetId reply target m) := by
  refine (messageProcess_ends (· = _)).mpr ?_
  rw [body_pubrel hrel, ends_pubrel, hans]
  simp only [htarget, hm]

/-- A PUBREL without a stored message reads through the end of the map. -/
theorem messageProcess_unknown {recvData : List UInt8} {b : Broker L} {packetId : Int}
    {reply : List UInt8} (hrel : IsPubrel recvData)
    (hans : pubrelAnswer L recvData = .ok (packetId, reply))
    (hnone : (b.publishMap s).lookup packetId = none) :
    messageProcess L s recvData b = none := by
  refine (messageProcess_ends (· = _)).mpr ?_
  rw [body_pubrel hrel, ends_pubrel, hans]
  simp only [hnone]

/-- A call that throws before the lookup leaves only a line in the log. -/
theorem messageProcess_pubrel_thrown {recvData : List UInt8} {b : Broker L} {what : String}
    (hrel : IsPubrel recvData) (hans : pubrelAnswer L recvData = .error what) :
    messageProcess L s recvData b =
      some (b.writeLog (errorLine ⟨b, "before pubrel"⟩ s what)) := by
  refine (messageProcess_ends (· = _)).mpr ?_
  rw [body_pubrel hrel, ends_pubrel, hans]

/-- The PUBCOMP is enqueued and the message removed, and it is not decoded. -/
theorem messageProcess_undecoded {recvData : List UInt8} {b : Broker L} {packetId : Int}
    {reply target : List UInt8} {what : String} (hrel : IsPubrel recvData)
    (hans : pubrelAnswer L recvData = .ok (packetId, reply))
    (htarget : (b.publishMap s).lookup packetId = some target)
    (hm : L.interpretPublishPacket target = .error what) :
    messageProcess L s recvData b =
      some (((completed b s reply).erasePublish s packetId).writeLog
        (errorLine ⟨(completed b s reply).erasePublish s packetId, "before pubrel"⟩ s what)) := by
  refine (messageProcess_ends (· = _)).mpr ?_
  rw [body_pubrel hrel, ends_pubrel, hans]
  simp only [htarget, hm]

/-- With a stored message the PUBREL is handled, whatever the calls after the lookup do. -/
theorem messageProcess_known {recvData : List UInt8} {b : Broker L} {packetId : Int}
    {reply target : List UInt8} (hrel : IsPubrel recvData)
    (hans : pubrelAnswer L recvData = .ok (packetId, reply))
    (htarget : (b.publishMap s).lookup packetId = some target) :
    ∃ b', messageProcess L s recvData b = some b' := by
  refine (messageProcess_ends fun r => ∃ b', r = some b').mpr ?_
  rw [body_pubrel hrel, ends_pubrel, hans]
  simp only [htarget]
  cases L.interpretPublishPacket target <;> exact ⟨_, rfl⟩

/-- The calls that an answer comes from. -/
theorem pubrelAnswer_eq_ok {recvData : List UInt8} {packetId : Int} {reply : List UInt8}
    (hans : pubrelAnswer L recvData = .ok (packetId, reply)) :
    ∃ m c, L.interpretPubrelPacket recvData = .ok m ∧
      L.generateDefaultPubcomp (L.pubrelIdentifier m) = .ok c ∧
      L.convertPubcompIntoPacket c [] = .ok reply ∧ L.pubcompIdentifier c = packetId := by
  obtain ⟨m, hm, hans⟩ := bind_eq_ok.mp hans
  obtain ⟨c, hc, hans⟩ := bind_eq_ok.mp hans
  obtain ⟨packet, hpacket, hans⟩ := bind_eq_ok.mp hans
  obtain ⟨rfl, rfl⟩ := Prod.mk.inj (Except.ok.inj hans)
  exact ⟨m, c, hm, hc, hpacket, rfl⟩

/-- The identifier looked up is the one of the PUBREL. -/
theorem pubrelAnswer_identifier (hcomp : L.PubcompKeepsIdentifier) {recvData : List UInt8}
    {packetId : Int} {reply : List UInt8}
    (hans : pubrelAnswer L recvData = .ok (packetId, reply)) :
    ∃ m, L.interpretPubrelPacket recvData = .ok m ∧ L.pubrelIdentifier m = packetId := by
  obtain ⟨m, c, hm, hc, -, hid⟩ := pubrelAnswer_eq_ok hans
  exact ⟨m, hm, (hcomp m c hc).symm.trans hid⟩

theorem pubrelAnswer_ok (hthrow : L.NeverThrows) (hcomp : L.PubcompKeepsIdentifier)
    (recvData : List UInt8) :
    ∃ m reply, L.interpretPubrelPacket recvData = .ok m ∧
      pubrelAnswer L recvData = .ok (L.pubrelIdentifier m, reply) := by
  obtain ⟨m, hm⟩ := hthrow.interpretPubrel recvData
  obtain ⟨c, hc⟩ := hthrow.generatePubcomp m
  obtain ⟨packet, hp⟩ := hthrow.convertPubcomp c
  refine ⟨m, packet, hm, ?_⟩
  simp only [pubrelAnswer, hm, hc, hp, ok_bind, except_pure, hcomp m c hc]

/-! ## Tasks for DDS -/

/-- The topic of the message that the packet makes the session forward, if it does. -/
def publishedOn (L : Libraries) (s : SessionPtr) (b : Broker L) (recvData : List UInt8) :
    Option String :=
  match packetType recvData with
  | some .publish => (L.interpretPublishPacket recvData).toOption.map L.publishTopicName
  | some .pubrel => do
      let (packetId, _) ← (pubrelAnswer L recvData).toOption
      let target ← (b.publishMap s).lookup packetId
      let m ← (L.interpretPublishPacket target).toOption
      return L.publishTopicName m
  | _ => none

/-- The message that the packet makes the session hand to DDS, if it does, and how many
tasks for MQTT it enqueues before. -/
def handsOver (L : Libraries) (s : SessionPtr) (b : Broker L) (recvData : List UInt8) :
    Option (Nat × L.Publish) :=
  match packetType recvData with
  | some .publish => do
      let m ← (L.interpretPublishPacket recvData).toOption
      guard (L.publishQos m ≠ 2)
      let _ ← (directAck L m).toOption
      let _ ← (L.convertPublishIntoPacket m []).toOption
      return (if L.publishQos m = 0 then 1 else 2, m)
  | some .pubrel => do
      let (packetId, _) ← (pubrelAnswer L recvData).toOption
      let target ← (b.publishMap s).lookup packetId
      let m ← (L.interpretPublishPacket target).toOption
      return (1, m)
  | _ => none

theorem handsOver_publish {recvData : List UInt8} {b : Broker L} {m : L.Publish}
    (htype : packetType recvData = some .publish)
    (hint : L.interpretPublishPacket recvData = .ok m) (hq : L.publishQos m ≠ 2) :
    handsOver L s b recvData =
      match directAck L m, L.convertPublishIntoPacket m [] with
      | .ok _, .ok _ => some (if L.publishQos m = 0 then 1 else 2, m)
      | _, _ => none := by
  unfold handsOver
  rw [htype, hint]
  cases hack : directAck L m <;> cases hpacket : L.convertPublishIntoPacket m [] <;>
    simp [Except.toOption, guard, hq, hack, hpacket]

theorem handsOver_pubrel {recvData : List UInt8} {b : Broker L} (hrel : IsPubrel recvData) :
    handsOver L s b recvData = (do
      let (packetId, _) ← (pubrelAnswer L recvData).toOption
      let target ← (b.publishMap s).lookup packetId
      let m ← (L.interpretPublishPacket target).toOption
      return (1, m)) := by
  unfold handsOver
  rw [hrel]

/-- Any other packet hands nothing over. -/
theorem handsOver_eq_none {recvData : List UInt8} {b : Broker L} (hrel : ¬ IsPubrel recvData)
    (hpub : packetType recvData = some .publish →
      ∀ m, L.interpretPublishPacket recvData = .ok m → L.publishQos m = 2) :
    handsOver L s b recvData = none := by
  unfold handsOver
  split
  · rename_i htype
    cases hint : L.interpretPublishPacket recvData with
    | error what => rfl
    | ok m => simp [Except.toOption, guard, hpub htype m hint]
  · rename_i htype
    exact absurd htype hrel
  · rfl

/-- The task that is made of it. -/
def madeTask (b : Broker L) (handed : Nat × L.Publish) : BrokerTask :=
  .make (b.taskCount + handed.1) (L.publishTopicName handed.2) (L.publishPayload handed.2)

theorem forwarded_acked (b : Broker L) (s : SessionPtr) (m : L.Publish) (ack packet : List UInt8) :
    (forwarded (acked b s m ack) m packet).ddsTaskQueue =
      b.ddsTaskQueue ++ [madeTask b (if L.publishQos m = 0 then 1 else 2, m)] := by
  unfold forwarded acked madeTask
  split
  · rfl
  · show b.ddsTaskQueue ++ [BrokerTask.make (b.taskCount + 1 + 1) _ _] = _
    rw [Int.add_assoc]
    rfl

/-- **Tasks for DDS.** A packet enqueues the message that it hands over, and no other. -/
theorem messageProcess_handsOver {recvData : List UInt8} {b b' : Broker L}
    (h : messageProcess L s recvData b = some b') :
    b'.ddsTaskQueue =
      b.ddsTaskQueue ++ ((handsOver L s b recvData).map (madeTask b)).toList := by
  have hnone : ∀ c : Broker L, handsOver L s b recvData = none →
      c.ddsTaskQueue = b.ddsTaskQueue →
      c.ddsTaskQueue = b.ddsTaskQueue ++ ((handsOver L s b recvData).map (madeTask b)).toList := by
    intro c hnone hc
    rw [hnone, hc]
    exact (List.append_nil _).symm
  refine (messageProcess_ends fun r => ∀ b', r = some b' → b'.ddsTaskQueue =
    b.ddsTaskQueue ++ ((handsOver L s b recvData).map (madeTask b)).toList).mpr ?_ b' h
  simp only [Option.some.injEq, forall_eq']
  by_cases hrel : IsPubrel recvData
  · rw [body_pubrel hrel, ends_pubrel]
    have hhands := handsOver_pubrel (s := s) (b := b) hrel
    split
    · rename_i what hans
      exact hnone _ (by simp [hhands, hans, Except.toOption]) rfl
    · rename_i packetId reply hans
      split
      · rintro r ⟨⟩
      · rename_i target htarget
        split
        · rename_i what hm
          exact hnone _ (by simp [hhands, hans, htarget, hm, Except.toOption]) rfl
        · rename_i m hm
          have hsome : handsOver L s b recvData = some (1, m) := by
            simp [hhands, hans, htarget, hm, Except.toOption]
          rw [hsome]
          rfl
  by_cases hpub : packetType recvData = some .publish →
      ∀ m, L.interpretPublishPacket recvData = .ok m → L.publishQos m = 2
  · have hhands := handsOver_eq_none (s := s) (b := b) hrel hpub
    have hkept : ∀ {c c' : Broker L},
        Relation.ReflTransGen (Unforwarded (Change L s recvData)) c c' →
          c'.ddsTaskQueue = c.ddsTaskQueue := fun hr => kept (fun _ _ hc => hc.2) hr
    refine (body_unforwarded hrel hpub _).imp (fun _ f hf => hnone _ hhands (hkept hf)) ?_
    intro e f hf
    cases e with
    | thrown what =>
      have hf' : f.broker.ddsTaskQueue = b.ddsTaskQueue := hkept hf.2
      exact hnone _ hhands hf'
    | readsEnd => rintro r ⟨⟩
  · push Not at hpub
    obtain ⟨htype, m, hint, hq⟩ := hpub
    have hhands := handsOver_publish (s := s) (b := b) htype hint hq
    rw [body_publish htype, ends_publish hint hq]
    split
    · rename_i what hack
      exact hnone _ (by rw [hhands, hack]) rfl
    · rename_i ack hack
      split
      · rename_i what hpacket
        refine hnone _ (by rw [hhands, hack, hpacket]) ?_
        show (acked b s m ack).ddsTaskQueue = _
        unfold acked
        split <;> rfl
      · rename_i packet hpacket
        rw [hhands, hack, hpacket]
        exact forwarded_acked b s m ack packet

/-- A packet that hands a message over is processed to its end. -/
theorem exists_messageProcess_of_handsOver {recvData : List UInt8} {b : Broker L}
    {handed : Nat × L.Publish} (h : handsOver L s b recvData = some handed) :
    ∃ b', messageProcess L s recvData b = some b' := by
  by_cases hrel : IsPubrel recvData
  · rw [handsOver_pubrel hrel] at h
    obtain ⟨⟨packetId, reply⟩, hans, h⟩ := Option.bind_eq_some_iff.mp h
    obtain ⟨target, htarget, -⟩ := Option.bind_eq_some_iff.mp h
    have hans' : pubrelAnswer L recvData = .ok (packetId, reply) := by
      cases hr : pubrelAnswer L recvData with
      | ok answer =>
        rw [hr] at hans
        exact congrArg Except.ok (Option.some.inj hans)
      | error what =>
        rw [hr] at hans
        cases hans
    exact messageProcess_known hrel hans' htarget
  · refine Exists.imp (fun _ h => h.1) (messageProcess_plain (fun m hm => ?_) hrel b)
    obtain ⟨htype, hint, hq⟩ := hm
    have hnone : handsOver L s b recvData = none := by
      refine handsOver_eq_none hrel fun _ m' hm' => ?_
      obtain rfl := Except.ok.inj (hint.symm.trans hm')
      exact hq
    rw [hnone] at h
    cases h

/-- What is handed over is published. -/
theorem publishedOn_of_handsOver {recvData : List UInt8} {b : Broker L}
    {handed : Nat × L.Publish} (h : handsOver L s b recvData = some handed) :
    publishedOn L s b recvData = some (L.publishTopicName handed.2) := by
  unfold handsOver at h
  unfold publishedOn
  split at h
  · obtain ⟨m, hm, h⟩ := Option.bind_eq_some_iff.mp h
    obtain ⟨-, -, h⟩ := Option.bind_eq_some_iff.mp h
    obtain ⟨-, -, h⟩ := Option.bind_eq_some_iff.mp h
    obtain ⟨-, -, h⟩ := Option.bind_eq_some_iff.mp h
    obtain rfl := Option.some.inj h
    rw [hm]
    rfl
  · obtain ⟨⟨packetId, reply⟩, hans, h⟩ := Option.bind_eq_some_iff.mp h
    obtain ⟨target, htarget, h⟩ := Option.bind_eq_some_iff.mp h
    obtain ⟨m, hm, h⟩ := Option.bind_eq_some_iff.mp h
    obtain rfl := Option.some.inj h
    simp [hans, htarget, hm]
  · cases h

/-- A packet enqueues at most one message for DDS, under the topic it was published on. -/
theorem messageProcess_ddsTasks {recvData : List UInt8} {b b' : Broker L}
    (h : messageProcess L s recvData b = some b') :
    ∃ tasks, tasks.length ≤ 1 ∧ b'.ddsTaskQueue = b.ddsTaskQueue ++ tasks ∧
      ∀ task ∈ tasks, publishedOn L s b recvData = some task.topic := by
  refine ⟨_, ?_, messageProcess_handsOver h, ?_⟩
  · cases handsOver L s b recvData <;> simp
  · intro task htask
    obtain ⟨handed, hhanded, rfl⟩ := Option.map_eq_some_iff.mp (Option.mem_toList.mp htask)
    exact publishedOn_of_handsOver hhanded

theorem messageProcess_ddsTaskQueue {recvData : List UInt8} {b b' : Broker L}
    (h : messageProcess L s recvData b = some b') :
    ∃ tasks, tasks.length ≤ 1 ∧ b'.ddsTaskQueue = b.ddsTaskQueue ++ tasks := by
  obtain ⟨tasks, hlen, hqueue, -⟩ := messageProcess_ddsTasks h
  exact ⟨tasks, hlen, hqueue⟩

/-! ## CONNECT -/

/-- The broker when a CONNECT has been counted. -/
def counted (b : Broker L) (s : SessionPtr) (temp : L.Connect) : Broker L :=
  ((b.setConnectedClient s
    { protocol := L.protocolName temp ++ toString (L.protocolVersion temp)
      flags := L.connectFlags temp
      keepAlive := L.keepAlive temp
      id := L.connectId temp
      password := L.connectPassword temp }).increaseCount).setClientN s

theorem clientN_counted (b : Broker L) (s : SessionPtr) (temp : L.Connect) :
    ((counted b s temp).session s).clientN = b.clientNo + 1 := by
  unfold counted Broker.setClientN
  rw [Broker.session_updateSession_self]
  rfl

/-- **A CONNECT** is counted as soon as it is understood, and its CONNACK is made with the
pointer that the new number gives. -/
theorem messageProcess_of_connect {recvData : List UInt8}
    (htype : packetType recvData = some .connect) (b : Broker L) :
    messageProcess L s recvData b = some
      (match L.interpretConnectPacket recvData with
      | .error what => b.writeLog (errorLine ⟨b, "before connect"⟩ s what)
      | .ok temp =>
        match L.connack (b.clientNo + 1) with
        | .error what => (counted b s temp).writeLog
            (errorLine ⟨counted b s temp, "before connect"⟩ s what)
        | .ok packet => (counted b s temp).countTask.enqueueMqtt
            ⟨(counted b s temp).taskCount, 4, packet, (counted b s temp).clientId s⟩) := by
  rw [messageProcess_ends fun r => r = _]
  have hbody : body L s recvData = connect L s recvData := by
    unfold body
    rw [htype]
  rw [hbody]
  unfold connect
  cases L.interpretConnectPacket recvData with
  | error what => rfl
  | ok temp =>
    simp only [ends_bind, ends_call_ok, ends_change, ends_setStatus, Libraries.connack]
    cases L.writeJson [("BROKER.Ip", "192.168.0.117"), ("BROKER.Port", "32889")] with
    | error what => rfl
    | ok locator =>
      simp only [ends_call_ok, ends_self, ok_bind]
      have hclientN := clientN_counted b s temp
      unfold counted at hclientN
      rw [hclientN]
      cases L.generateDefaultConnack ⟨"Client_", b.clientNo + 1⟩ "ref" locator with
      | error what => rfl
      | ok connack =>
        rw [ok_bind, ends_call_ok]
        cases L.convertConnactIntoPacket connack [] with
        | error what => rfl
        | ok packet => rfl

/-! ## Replies -/

/-- The id of a reply is the one its session has after the packet. -/
theorem reply_clientId {s : SessionPtr} {recvData : List UInt8} {b b' : Broker L}
    (h : messageProcess L s recvData b = some b') :
    ∃ tasks, b'.mqttTaskQueue = b.mqttTaskQueue ++ tasks ∧
      ∀ task ∈ tasks, task.taskOption ≠ 0 → task.clientId = b'.clientId s := by
  by_cases htype : packetType recvData = some .connect
  · -- CONNECT sets the id before it enqueues the CONNACK.
    rw [messageProcess_of_connect htype] at h
    obtain rfl := Option.some.inj h
    split
    · exact ⟨[], (List.append_nil _).symm, by simp⟩
    · split
      · exact ⟨[], (List.append_nil _).symm, by simp⟩
      · exact ⟨[_], rfl, List.forall_mem_singleton.mpr fun _ => rfl⟩
  · obtain ⟨hid, tasks, hqueue, htasks⟩ :=
      Change.mqttTaskQueue_run htype (messageProcess_changes h)
    exact ⟨tasks, hqueue, hid ▸ htasks⟩

end MqttSession

end BddsBroker
