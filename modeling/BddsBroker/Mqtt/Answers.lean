import BddsBroker.Mqtt.Effects
import BddsBroker.Mqtt.Run
import BddsBroker.Mqtt.Wire

/-! The answers to a client's requests. Every request that is processed to its end is
answered by one packet of the right type. All of them carry the identifier of the
request, but the SUBACK: it is generated with `client_n`, the number that the session
got at its last CONNECT. -/

namespace BddsBroker.Answers

open MqttSession Program Proc

variable {L : Libraries} {s : SessionPtr} {recvData : List UInt8} {b : Broker L}

/-- The packet asks for a reply of that type under that identifier. -/
inductive Requests (I : Identifiers L) (s : SessionPtr) (recvData : List UInt8) (b : Broker L) :
    ControlPacketType → Int → Prop
  | subscribe {m : L.Subscribe} (htype : packetType recvData = some .subscribe)
      (hint : L.interpretSubscribePacket recvData = .ok m) :
      Requests I s recvData b .suback (I.subscribeIdentifier m)
  | publishAtLeastOnce {m : L.Publish} (htype : packetType recvData = some .publish)
      (hint : L.interpretPublishPacket recvData = .ok m) (hqos : L.publishQos m = 1) :
      Requests I s recvData b .puback (L.publishIdentifier m)
  | publishExactlyOnce {m : L.Publish} (htype : packetType recvData = some .publish)
      (hint : L.interpretPublishPacket recvData = .ok m) (hqos : L.publishQos m = 2) :
      Requests I s recvData b .pubrec (L.publishIdentifier m)
  | pubrec {m : L.Pubrec} (htype : packetType recvData = some .pubrec)
      (hint : L.interpretPubrecPacket recvData = .ok m) :
      Requests I s recvData b .pubrel (L.pubrecIdentifier m)
  | pubrel {m : L.Pubrel} (htype : packetType recvData = some .pubrel)
      (hint : L.interpretPubrelPacket recvData = .ok m)
      (hstored : L.pubrelIdentifier m ∈ b.publishMap s) :
      Requests I s recvData b .pubcomp (L.pubrelIdentifier m)

/-- The packet asks for no reply. -/
inductive NeedsNone (L : Libraries) (recvData : List UInt8) : Prop
  | publish {m : L.Publish} (htype : packetType recvData = some .publish)
      (hint : L.interpretPublishPacket recvData = .ok m) (hqos : L.publishQos m = 0)
  | puback (htype : packetType recvData = some .puback)
  | pubcomp (htype : packetType recvData = some .pubcomp)

/-- Processing the packet comes to the end of the `try` block. -/
def Completes (s : SessionPtr) (recvData : List UInt8) (b b' : Broker L) : Prop :=
  ∃ status, body L s recvData ⟨b, "before try"⟩ = .ok () ⟨b', status⟩

/-- The reply tasks that were enqueued; option 0 is the one of forwarded messages. -/
def replies (b b' : Broker L) : List MqttTask :=
  (b'.mqttTaskQueue.drop b.mqttTaskQueue.length).filter fun task => task.taskOption ≠ 0

structure AnswersOnce (I : Identifiers L) (s : SessionPtr) (recvData : List UInt8)
    (b b' : Broker L) : Prop where
  request : ∀ type id, Requests I s recvData b type id → ∃ task, replies b b' = [task] ∧
    task.data ≠ [] ∧ packetType task.data = some type ∧ I.encodedIdentifier task.data = id
  none : NeedsNone L recvData → replies b b' = []

/-! ## The branches -/

/-- There is one reply, for the session's client and with that packet. -/
def Replies (s : SessionPtr) (taskOption : Int) (b b' : Broker L) (packet : List UInt8) : Prop :=
  replies b b' = [⟨b.taskCount, taskOption, packet, b.clientId s⟩]

theorem replies_eq {b' : Broker L} {task : MqttTask}
    (h : b'.mqttTaskQueue = b.mqttTaskQueue ++ [task]) (hoption : task.taskOption ≠ 0) :
    replies b b' = [task] := by
  simp [replies, h, hoption]

theorem subscribe_returns (status : String) :
    Returns (subscribe L s recvData) ⟨b, status⟩ fun _ f => ∃ m packet,
      L.generateDefaultSuback (b.session s).clientN 1 = .ok m ∧
      L.convertSubackIntoPacket m [] = .ok packet ∧ Replies s 1 b f.broker packet := by
  simp only [subscribe, retain, ends_bind, ends_setStatus, ends_change, ends_self, ends_reply,
    ends_get, returns_call]
  intro temp _ topic _ m hm packet hpacket
  split
  · exact ⟨m, packet, hm, hpacket, replies_eq rfl (by simp)⟩
  · exact ⟨m, packet, hm, hpacket, replies_eq rfl (by simp)⟩

theorem puback_returns (status : String) :
    Returns (puback L recvData) ⟨b, status⟩ fun _ f => replies b f.broker = [] := by
  simp only [puback, ends_bind, ends_setStatus, returns_call]
  simp [replies]

theorem pubcomp_returns (status : String) :
    Returns (pubcomp L recvData) ⟨b, status⟩ fun _ f => replies b f.broker = [] := by
  simp only [pubcomp, ends_bind, ends_setStatus, returns_call]
  simp [replies]

theorem pubrec_returns (status : String) {m : L.Pubrec}
    (hint : L.interpretPubrecPacket recvData = .ok m) :
    Returns (pubrec L s recvData) ⟨b, status⟩ fun _ f => ∃ reply packet,
      L.generateDefaultPubrel (L.pubrecIdentifier m) = .ok reply ∧
      L.convertPubrelIntoPacket reply [] = .ok packet ∧ Replies s 5 b f.broker packet := by
  simp only [pubrec, hint, ends_bind, ends_setStatus, ends_reply, Except.ok.injEq, forall_eq',
    returns_call]
  intro reply hreply packet hpacket
  exact ⟨reply, packet, hreply, hpacket, replies_eq rfl (by simp)⟩

/-- The forwarded message is not a reply. -/
theorem pubrel_returns (status : String) {m : L.Pubrel}
    (hint : L.interpretPubrelPacket recvData = .ok m) :
    Returns (pubrel L s recvData) ⟨b, status⟩ fun _ f => ∃ reply packet,
      L.generateDefaultPubcomp (L.pubrelIdentifier m) = .ok reply ∧
      L.convertPubcompIntoPacket reply [] = .ok packet ∧ Replies s 5 b f.broker packet := by
  simp only [pubrel, hint, ends_bind, ends_setStatus, ends_reply, Except.ok.injEq, forall_eq',
    returns_call, ends_findPublish, ends_change, ends_taskCount, ends_nextTaskId]
  intro reply hreply packet hpacket
  split
  · intro target _
    exact ⟨reply, packet, hreply, hpacket, by simp [Replies, replies]⟩
  · trivial

theorem publish_returns_zero (status : String) {m : L.Publish}
    (hint : L.interpretPublishPacket recvData = .ok m) (hqos : L.publishQos m = 0) :
    Returns (publish L s recvData) ⟨b, status⟩ fun _ f => replies b f.broker = [] := by
  have htwo : L.publishQos m ≠ 2 := by omega
  simp only [publish, acknowledge, forward, hint, if_pos hqos, if_neg htwo, ends_bind,
    ends_setStatus, Except.ok.injEq, forall_eq', ends_pure, ends_nextTaskId, ends_change,
    ends_taskCount, returns_call]
  simp [replies]

theorem publish_returns_one (status : String) {m : L.Publish}
    (hint : L.interpretPublishPacket recvData = .ok m) (hqos : L.publishQos m = 1) :
    Returns (publish L s recvData) ⟨b, status⟩ fun _ f => ∃ reply packet,
      L.generatePuback (L.publishIdentifier m) 0 = .ok reply ∧
      L.convertPubackIntoPacket reply [] = .ok packet ∧
      Replies s 5 b f.broker (packet ++ [10]) := by
  have hzero : L.publishQos m ≠ 0 := by omega
  have htwo : L.publishQos m ≠ 2 := by omega
  simp only [publish, acknowledge, ackPacket, forward, hint, if_neg hzero, if_pos hqos,
    if_neg htwo, ends_bind, ends_setStatus, Except.ok.injEq, forall_eq', ends_pure, ends_reply,
    ends_nextTaskId, ends_change, ends_taskCount, returns_call]
  intro reply hreply packet hpacket _ _
  exact ⟨reply, packet, hreply, hpacket, by simp [Replies, replies]⟩

theorem publish_returns_two (status : String) {m : L.Publish}
    (hint : L.interpretPublishPacket recvData = .ok m) (hqos : L.publishQos m = 2) :
    Returns (publish L s recvData) ⟨b, status⟩ fun _ f => ∃ reply packet,
      L.generatePubrec (L.publishIdentifier m) 0 = .ok reply ∧
      L.convertPubrecIntoPacket reply [] = .ok packet ∧
      Replies s 5 b f.broker (packet ++ [10]) := by
  have hzero : L.publishQos m ≠ 0 := by omega
  have hone : L.publishQos m ≠ 1 := by omega
  simp only [publish, acknowledge, ackPacket, forward, hint, if_neg hzero, if_neg hone,
    if_pos hqos, ends_bind, ends_setStatus, Except.ok.injEq, forall_eq', ends_pure, ends_reply,
    ends_change, returns_call]
  intro reply hreply packet hpacket stored _
  exact ⟨reply, packet, hreply, hpacket, by simp [Replies, replies]⟩

/-! ## The result -/

theorem Completes.returns {b' : Broker L} {x : Proc L Unit} {Q : Unit → Frame L → Prop}
    (hc : Completes s recvData b b') (hbody : body L s recvData = x)
    (h : Returns x ⟨b, "before try"⟩ Q) : ∃ status, Q () ⟨b', status⟩ := by
  obtain ⟨status, hc⟩ := hc
  rw [hbody] at hc
  exact ⟨status, returns_iff.mp h () _ hc⟩

theorem body_subscribe (h : packetType recvData = some .subscribe) :
    body L s recvData = subscribe L s recvData := by
  unfold body
  rw [h]

theorem body_puback (h : packetType recvData = some .puback) :
    body L s recvData = puback L recvData := by
  unfold body
  rw [h]

theorem body_pubrec (h : packetType recvData = some .pubrec) :
    body L s recvData = pubrec L s recvData := by
  unfold body
  rw [h]

theorem body_pubcomp (h : packetType recvData = some .pubcomp) :
    body L s recvData = pubcomp L recvData := by
  unfold body
  rw [h]

/-- A two-byte identifier is carried as it is. -/
theorem carries_word {I : Identifiers L} {bytes : List UInt8} {type : ControlPacketType} {id : Int}
    (h : I.Carries bytes type id) (hid : Identifiers.IsWord id) (rest : List UInt8) :
    packetType (bytes ++ rest) = some type ∧ I.encodedIdentifier (bytes ++ rest) = id := by
  obtain ⟨htype, hencoded⟩ := h rest
  refine ⟨htype, ?_⟩
  rw [hencoded hid.1, Int.emod_eq_of_lt hid.1 hid.2]

/-- The reply is an answer when its packet is. -/
theorem answered {I : Identifiers L} {b' : Broker L} {taskOption id : Int} {packet : List UInt8}
    {type : ControlPacketType} (hr : Replies s taskOption b b' packet)
    (h : packetType packet = some type ∧ I.encodedIdentifier packet = id) :
    ∃ task, replies b b' = [task] ∧ task.data ≠ [] ∧ packetType task.data = some type ∧
      I.encodedIdentifier task.data = id := by
  refine ⟨_, hr, ?_, h⟩
  rintro (hnil : packet = [])
  rw [hnil] at h
  cases h.1

/-- What a SUBSCRIBE is answered with. -/
theorem suback_identifier {I : Identifiers L} (hI : I.Encode) (hb : Run.Reachable b)
    {b' : Broker L} (hc : Completes s recvData b b')
    (htype : packetType recvData = some .subscribe) :
    ∃ packet, Replies s 1 b b' packet ∧ packetType packet = some .suback ∧
      I.encodedIdentifier packet = (b.session s).clientN % 65536 := by
  obtain ⟨_, reply, packet, hreply, hpacket, hreplies⟩ :=
    hc.returns (body_subscribe htype) (subscribe_returns _)
  have hcarries := hI.suback _ _ _ _ hreply hpacket []
  rw [List.append_nil] at hcarries
  exact ⟨packet, hreplies, hcarries.1, hcarries.2 ((Run.reachable_numbered hb).2 s)⟩

/-- **Answers.** In every reachable state, a packet that is processed to its end is
answered as it should be exactly when it is not a SUBSCRIBE, or the session's number
happens to be the identifier of the SUBSCRIBE. -/
theorem answersOnce_iff {I : Identifiers L} (hI : I.Encode) {b' : Broker L}
    (hb : Run.Reachable b) (hc : Completes s recvData b b') :
    AnswersOnce I s recvData b b' ↔
      ∀ m, packetType recvData = some .subscribe →
        L.interpretSubscribePacket recvData = .ok m →
          (b.session s).clientN % 65536 = I.subscribeIdentifier m := by
  constructor
  · intro h m htype hint
    obtain ⟨packet, hreplies, -, hid⟩ := suback_identifier hI hb hc htype
    obtain ⟨task, htask, -, -, hrequest⟩ := h.request _ _ (.subscribe htype hint)
    obtain rfl := List.singleton_inj.mp (hreplies.symm.trans htask)
    exact hid.symm.trans hrequest
  · intro h
    refine ⟨fun type id hreq => ?_, fun hnone => ?_⟩
    · cases hreq with
      | subscribe htype hint =>
        obtain ⟨packet, hreplies, hsuback, hid⟩ := suback_identifier hI hb hc htype
        exact answered hreplies ⟨hsuback, hid.trans (h _ htype hint)⟩
      | publishAtLeastOnce htype hint hqos =>
        obtain ⟨_, reply, packet, hreply, hpacket, hreplies⟩ :=
          hc.returns (body_publish htype) (publish_returns_one _ hint hqos)
        exact answered hreplies
          (carries_word (hI.puback _ _ _ _ hreply hpacket) (hI.publishWord _) [10])
      | publishExactlyOnce htype hint hqos =>
        obtain ⟨_, reply, packet, hreply, hpacket, hreplies⟩ :=
          hc.returns (body_publish htype) (publish_returns_two _ hint hqos)
        exact answered hreplies
          (carries_word (hI.pubrec _ _ _ _ hreply hpacket) (hI.publishWord _) [10])
      | pubrec htype hint =>
        obtain ⟨_, reply, packet, hreply, hpacket, hreplies⟩ :=
          hc.returns (body_pubrec htype) (pubrec_returns _ hint)
        have hword := carries_word (hI.pubrel _ _ _ hreply hpacket) (hI.pubrecWord _) []
        rw [List.append_nil] at hword
        exact answered hreplies hword
      | pubrel htype hint =>
        obtain ⟨_, reply, packet, hreply, hpacket, hreplies⟩ :=
          hc.returns (body_pubrel htype) (pubrel_returns _ hint)
        have hword := carries_word (hI.pubcomp _ _ _ hreply hpacket) (hI.pubrelWord _) []
        rw [List.append_nil] at hword
        exact answered hreplies hword
    · cases hnone with
      | publish htype hint hqos =>
        exact (hc.returns (body_publish htype) (publish_returns_zero _ hint hqos)).choose_spec
      | puback htype => exact (hc.returns (body_puback htype) (puback_returns _)).choose_spec
      | pubcomp htype => exact (hc.returns (body_pubcomp htype) (pubcomp_returns _)).choose_spec

/-! ## A SUBSCRIBE before the CONNECT -/

/-- A session that has sent nothing. -/
def accepted : Broker Wire.libraries := Run.accept 1 .init

/-- PUBREC of the identifier 5. -/
def pubrecFive : List UInt8 := [0x50, 2, 0, 5]

theorem pubrecFive_answered :
    ∃ b', Completes 1 pubrecFive accepted b' ∧
      AnswersOnce Wire.identifiers 1 pubrecFive accepted b' := by
  refine ⟨_, ⟨_, rfl⟩, ?_⟩
  exact (answersOnce_iff Wire.encode_identifiers ⟨[.accept 1], rfl⟩ ⟨_, rfl⟩).mpr
    fun m htype => absurd htype (by decide)

/-- The SUBACK carries the identifier 0. -/
theorem subscribeOne_answered_zero :
    Run.Reachable accepted ∧ ∃ b', Completes 1 Wire.subscribeGps accepted b' ∧
      replies accepted b' = [⟨0, 1, [0x90, 2, 0, 0], ""⟩] ∧
      Requests Wire.identifiers 1 Wire.subscribeGps accepted .suback 1 ∧
      ¬ AnswersOnce Wire.identifiers 1 Wire.subscribeGps accepted b' := by
  have hid : Wire.identifiers.subscribeIdentifier (Wire.decode Wire.subscribeGps) = 1 := rfl
  have hreq : Requests Wire.identifiers 1 Wire.subscribeGps accepted .suback 1 :=
    hid ▸ .subscribe rfl rfl
  refine ⟨⟨[.accept 1], rfl⟩, _, ⟨_, rfl⟩, rfl, hreq, ?_⟩
  intro h
  obtain ⟨task, htask, -, -, hid⟩ := h.request _ _ hreq
  obtain rfl := List.singleton_inj.mp htask
  exact absurd hid (by decide)

end BddsBroker.Answers
