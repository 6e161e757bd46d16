import Mathlib.Logic.Relation
import BddsBroker.Mqtt.Session

/-! What one packet can do to the broker, said once: a sequence of elementary changes
(`messageProcess_changes`), of which only a PUBLISH at QoS 2 and a PUBREL make any to
the stored messages (`messageProcess_plain`). -/

namespace BddsBroker

open Proc

/-! ## The changes a packet can make -/

/-- The changes that leave the stored messages alone. -/
inductive Plain (L : Libraries) (s : SessionPtr) (recvData : List UInt8) :
    Broker L → Broker L → Prop
  | setConnectedClient (b : Broker L) (client : ConnectedClient)
      (htype : packetType recvData = some .connect) :
      Plain L s recvData b (b.setConnectedClient s client)
  | increaseCount (b : Broker L) : Plain L s recvData b b.increaseCount
  | setClientN (b : Broker L) : Plain L s recvData b (b.setClientN s)
  | setRetainMessages (b : Broker L) : Plain L s recvData b (b.setRetainMessages s)
  | subscribe (b : Broker L) (topicName : String) :
      Plain L s recvData b (b.subscribe topicName s)
  | countTask (b : Broker L) : Plain L s recvData b b.countTask
  | reply (b : Broker L) (taskId taskOption : Int) (packet : List UInt8) :
      Plain L s recvData b (b.enqueueMqtt ⟨taskId, taskOption, packet, b.clientId s⟩)
  | broadcast (b : Broker L) (taskId : Int) (packet : List UInt8) :
      Plain L s recvData b (b.enqueueMqtt ⟨taskId, 0, packet, broadcastId⟩)
  | enqueueDds (b : Broker L) (task : BrokerTask) : Plain L s recvData b (b.enqueueDds task)
  | writeLog (b : Broker L) (line : String) : Plain L s recvData b (b.writeLog line)

inductive Change (L : Libraries) (s : SessionPtr) (recvData : List UInt8) :
    Broker L → Broker L → Prop
  | plain {b b' : Broker L} (h : Plain L s recvData b b') : Change L s recvData b b'
  | storePublish (b : Broker L) (m : L.Publish) (packet : List UInt8)
      (hpacket : L.convertPublishIntoPacket m [] = .ok packet) :
      Change L s recvData b (b.storePublish s (L.publishIdentifier m) packet)
  | erasePublish (b : Broker L) (packetId : Int) :
      Change L s recvData b (b.erasePublish s packetId)

/-- A change that adds nothing for DDS. -/
def Unforwarded {L : Libraries} (R : Broker L → Broker L → Prop) (b b' : Broker L) : Prop :=
  R b b' ∧ b'.ddsTaskQueue = b.ddsTaskQueue

section Kept

open Program

variable {L : Libraries} {s : SessionPtr} {recvData : List UInt8} {b b' : Broker L}

theorem Plain.publishMap (h : Plain L s recvData b b') (u : SessionPtr) :
    b'.publishMap u = b.publishMap u := by
  cases h with
  | setConnectedClient | setClientN | setRetainMessages =>
    exact Broker.publishMap_updateSession b s u rfl
  | _ => rfl

theorem Plain.publishMap_run (h : Relation.ReflTransGen (Plain L s recvData) b b')
    (u : SessionPtr) : b'.publishMap u = b.publishMap u :=
  kept (f := fun b : Broker L => b.publishMap u) (fun _ _ hp => hp.publishMap u) h

theorem Change.mqttClients (h : Change L s recvData b b') : b'.mqttClients = b.mqttClients := by
  cases h with
  | plain hp => cases hp <;> rfl
  | storePublish | erasePublish => rfl

theorem Change.mqttClients_run (h : Relation.ReflTransGen (Change L s recvData) b b') :
    b'.mqttClients = b.mqttClients :=
  kept (fun _ _ hc => hc.mqttClients) h

/-- Only the session's own packets change its stored messages. -/
theorem Change.publishMap_of_ne (h : Change L s recvData b b') {u : SessionPtr} (hu : u ≠ s) :
    b'.publishMap u = b.publishMap u := by
  cases h with
  | plain hp => exact hp.publishMap u
  | storePublish => exact Broker.publishMap_storePublish_of_ne _ _ _ hu _ _
  | erasePublish => exact Broker.publishMap_erasePublish_of_ne _ _ _ hu _

theorem Change.publishMap_run (h : Relation.ReflTransGen (Change L s recvData) b b')
    {u : SessionPtr} (hu : u ≠ s) : b'.publishMap u = b.publishMap u :=
  kept (f := fun b : Broker L => b.publishMap u) (fun _ _ hc => hc.publishMap_of_ne hu) h

/-- A packet does not touch `sub_requested_`. -/
theorem Change.subRequested (h : Change L s recvData b b') (u : SessionPtr) :
    (b'.session u).subRequested = (b.session u).subRequested := by
  have hkeep : ∀ change : MqttSession → MqttSession,
      (change (b.session s)).subRequested = (b.session s).subRequested →
        ((b.updateSession s change).session u).subRequested = (b.session u).subRequested := by
    intro change hchange
    by_cases hu : u = s
    · subst hu
      rw [Broker.session_updateSession_self, hchange]
    · rw [Broker.session_updateSession_of_ne b s u hu]
  cases h with
  | plain hp =>
    cases hp with
    | setConnectedClient | setClientN | setRetainMessages => exact hkeep _ rfl
    | _ => rfl
  | storePublish | erasePublish => exact hkeep _ rfl

/-- Only a CONNECT changes a client id. -/
theorem Change.clientId (h : Change L s recvData b b')
    (htype : packetType recvData ≠ some .connect) (u : SessionPtr) :
    b'.clientId u = b.clientId u := by
  cases h with
  | plain hp =>
    cases hp with
    | setConnectedClient client hconnect => exact absurd hconnect htype
    | setClientN | setRetainMessages => exact Broker.clientId_updateSession b s u rfl
    | _ => rfl
  | storePublish => exact Broker.clientId_storePublish b s u _ _
  | erasePublish => exact Broker.clientId_erasePublish b s u _

/-- A change leaves the queue alone or appends a task; a reply carries the session's id. -/
theorem Change.mqttTaskQueue (h : Change L s recvData b b') :
    ∃ tasks, b'.mqttTaskQueue = b.mqttTaskQueue ++ tasks ∧
      ∀ task ∈ tasks, task.taskOption ≠ 0 → task.clientId = b.clientId s := by
  cases h with
  | plain hp =>
    cases hp with
    | reply taskId taskOption packet => exact ⟨[_], rfl, by simp⟩
    | broadcast taskId packet => exact ⟨[_], rfl, by simp⟩
    | _ => exact ⟨[], (List.append_nil _).symm, by simp⟩
  | _ => exact ⟨[], (List.append_nil _).symm, by simp⟩

/-- Outside of CONNECT the id stays as it is, and every reply carries it. -/
theorem Change.mqttTaskQueue_run
    (htype : packetType recvData ≠ some .connect)
    (h : Relation.ReflTransGen (Change L s recvData) b b') :
    b'.clientId s = b.clientId s ∧ ∃ tasks, b'.mqttTaskQueue = b.mqttTaskQueue ++ tasks ∧
      ∀ task ∈ tasks, task.taskOption ≠ 0 → task.clientId = b.clientId s := by
  induction h with
  | refl => exact ⟨rfl, [], (List.append_nil _).symm, by simp⟩
  | tail _ hc ih =>
    obtain ⟨hid, tasks, hqueue, htasks⟩ := ih
    obtain ⟨more, hmore, hnew⟩ := hc.mqttTaskQueue
    refine ⟨(hc.clientId htype s).trans hid, tasks ++ more, ?_, ?_⟩
    · rw [hmore, hqueue, List.append_assoc]
    · rw [hid] at hnew
      exact List.forall_mem_append.mpr ⟨htasks, hnew⟩

end Kept

/-- What a program does to the broker is a sequence of such changes, and it reads
through an end only where `mayRead` says so. -/
abbrev Makes {L : Libraries} {α : Type} (R : Broker L → Broker L → Prop) (mayRead : Prop)
    (x : Proc L α) : Prop :=
  Program.Moves Frame.broker R (fun e => e = Stop.readsEnd → mayRead) x

section Makes

open Program

variable {L : Libraries} {s : SessionPtr} {recvData : List UInt8}
  {R : Broker L → Broker L → Prop} {mayRead : Prop}

theorem makes_call {α : Type} (result : Except String α) :
    Makes R mayRead (call result : Proc L α) :=
  moves_ofExcept (fun _ h => by cases h) result

theorem makes_call_bind {α β : Type} {result : Except String α} {k : α → Proc L β}
    (h : ∀ a, result = .ok a → Makes R mayRead (k a)) : Makes R mayRead (call result >>= k) :=
  moves_ofExcept_bind (fun _ h => by cases h) h

theorem makes_setStatus (status : String) : Makes R mayRead (setStatus status : Proc L Unit) :=
  moves_modify_same fun _ => rfl

theorem makes_change {c : Broker L → Broker L} (h : ∀ b, R b (c b)) :
    Makes R mayRead (change c) :=
  moves_modify fun f => h f.broker

theorem makes_taskCount : Makes R mayRead (taskCount : Proc L Int) :=
  moves_get.bind fun _ => moves_pure _

theorem makes_self : Makes R mayRead (self s : Proc L MqttSession) :=
  moves_get.bind fun _ => moves_pure _

theorem makes_nextTaskId : Makes (Unforwarded (Plain L s recvData)) mayRead nextTaskId :=
  moves_modifyGet fun f => ⟨.countTask f.broker, rfl⟩

theorem makes_reply (taskOption : Int) (packet : List UInt8) :
    Makes (Unforwarded (Plain L s recvData)) mayRead (reply s taskOption packet) :=
  makes_nextTaskId.bind fun taskId =>
    makes_change fun b => ⟨.reply b taskId taskOption packet, rfl⟩

theorem makes_findPublish (packetId : Int) :
    Makes R True (findPublish s packetId : Proc L (List UInt8)) := by
  refine makes_self.bind fun m => ?_
  cases m.mqttPublishMap.lookup packetId with
  | some packet => exact moves_pure packet
  | none => exact moves_throw fun _ => trivial

theorem makes_of_plain {α : Type} {x : Proc L α} (h : Makes (Plain L s recvData) False x) :
    Makes (Change L s recvData) True x :=
  h.mono (fun _ _ => .plain) fun _ _ _ => trivial

theorem makes_of_unforwarded {α : Type} {x : Proc L α} (h : Makes (Unforwarded R) mayRead x) :
    Makes R mayRead x :=
  h.mono (fun _ _ hR => hR.1) fun _ he => he

theorem makes_of_unforwarded_plain {α : Type} {x : Proc L α}
    (h : Makes (Unforwarded (Plain L s recvData)) False x) :
    Makes (Unforwarded (Change L s recvData)) True x :=
  h.mono (fun _ _ hR => ⟨.plain hR.1, hR.2⟩) fun _ _ _ => trivial

end Makes

/-! ## The branches -/

namespace MqttSession

open Program

variable {L : Libraries} {s : SessionPtr} {recvData : List UInt8}

theorem connect_makes (htype : packetType recvData = some .connect) :
    Makes (Unforwarded (Plain L s recvData)) False (connect L s recvData) := by
  refine (makes_setStatus _).bind fun _ => (makes_call _).bind fun temp => ?_
  refine (makes_change fun b => ⟨.setConnectedClient b _ htype, rfl⟩).bind fun _ => ?_
  refine (makes_change fun b => ⟨.increaseCount b, rfl⟩).bind fun _ => ?_
  refine (makes_change fun b => ⟨.setClientN b, rfl⟩).bind fun _ => ?_
  refine (makes_call _).bind fun locator => makes_self.bind fun m => ?_
  refine (makes_call _).bind fun connack => (makes_call _).bind fun packet => ?_
  exact (makes_reply 4 packet).bind fun _ => makes_setStatus _

theorem retain_makes : Makes (Unforwarded (Plain L s recvData)) False (retain L s) := by
  refine moves_get.bind fun f => ?_
  split
  · exact moves_pure ()
  · exact (makes_change fun b => ⟨.setRetainMessages b, rfl⟩).bind fun _ => makes_setStatus _

theorem subscribe_makes :
    Makes (Unforwarded (Plain L s recvData)) False (subscribe L s recvData) := by
  refine (makes_setStatus _).bind fun _ => (makes_call _).bind fun temp => ?_
  refine (makes_call _).bind fun data => ?_
  refine (makes_change fun b => ⟨.subscribe b _, rfl⟩).bind fun _ => ?_
  refine makes_self.bind fun m => (makes_call _).bind fun suback => ?_
  refine (makes_call _).bind fun packet => (makes_reply 1 packet).bind fun _ => ?_
  exact retain_makes

theorem puback_makes {R : Broker L → Broker L → Prop} {mayRead : Prop} :
    Makes R mayRead (puback L recvData) :=
  (makes_setStatus _).bind fun _ => (makes_call _).bind fun _ => makes_setStatus _

theorem pubcomp_makes {R : Broker L → Broker L → Prop} {mayRead : Prop} :
    Makes R mayRead (pubcomp L recvData) :=
  (makes_setStatus _).bind fun _ => (makes_call _).bind fun _ => makes_setStatus _

theorem pubrec_makes : Makes (Unforwarded (Plain L s recvData)) False (pubrec L s recvData) := by
  refine (makes_setStatus _).bind fun _ => (makes_call _).bind fun pubrec => ?_
  refine (makes_call _).bind fun pubrel => (makes_call _).bind fun packet => ?_
  exact (makes_reply 5 packet).bind fun _ => makes_setStatus _

theorem pubrel_makes : Makes (Change L s recvData) True (pubrel L s recvData) := by
  refine (makes_setStatus _).bind fun _ => (makes_call _).bind fun pubrel => ?_
  refine (makes_call _).bind fun pubcomp => (makes_call _).bind fun packet => ?_
  refine (makes_of_plain (makes_of_unforwarded (makes_reply 5 packet))).bind fun _ => ?_
  refine (makes_findPublish _).bind fun target => ?_
  refine (makes_change fun b => .erasePublish b _).bind fun _ => ?_
  refine (makes_call _).bind fun publish => makes_taskCount.bind fun count => ?_
  refine (makes_change fun b => .plain (.enqueueDds b _)).bind fun _ => ?_
  refine (makes_of_plain (makes_of_unforwarded makes_nextTaskId)).bind fun taskId => ?_
  refine (makes_change fun b => .plain (.broadcast b taskId target)).bind fun _ => ?_
  exact makes_setStatus _

theorem forward_makes (m : L.Publish) : Makes (Plain L s recvData) False (forward L m) := by
  unfold forward
  split
  · exact moves_pure ()
  · refine (makes_call _).bind fun packet => ?_
    refine (makes_of_unforwarded makes_nextTaskId).bind fun taskId => ?_
    refine (makes_change fun b => .broadcast b taskId packet).bind fun _ => ?_
    exact makes_taskCount.bind fun count => makes_change fun b => .enqueueDds b _

/-- Only QoS 2 stores the message. -/
theorem acknowledge_plain {m : L.Publish} (hq : L.publishQos m ≠ 2) :
    Makes (Unforwarded (Plain L s recvData)) False (acknowledge L s m) := by
  unfold acknowledge
  split
  · exact moves_pure ()
  · refine (makes_setStatus _).bind fun _ => Moves.bind ?_ fun packet => makes_reply 5 packet
    unfold ackPacket
    rw [if_neg hq]
    split
    · refine (makes_call _).bind fun temp => (makes_call _).bind fun packet => ?_
      exact moves_pure _
    · exact moves_pure _

theorem acknowledge_makes (m : L.Publish) :
    Makes (Unforwarded (Change L s recvData)) True (acknowledge L s m) := by
  by_cases hq : L.publishQos m = 2
  · unfold acknowledge ackPacket
    rw [if_neg (by omega), if_neg (by omega), if_pos hq]
    refine (makes_setStatus _).bind fun _ => Moves.bind ?_ fun packet =>
      makes_of_unforwarded_plain (makes_reply 5 packet)
    refine (makes_call _).bind fun temp => (makes_call _).bind fun ack => ?_
    refine makes_call_bind fun packet hpacket => ?_
    exact (makes_change fun b => ⟨.storePublish b m packet hpacket, rfl⟩).bind fun _ => moves_pure _
  · exact makes_of_unforwarded_plain (acknowledge_plain hq)

theorem publish_makes : Makes (Change L s recvData) True (publish L s recvData) := by
  refine (makes_setStatus _).bind fun _ => (makes_call _).bind fun m => ?_
  refine (makes_of_unforwarded (acknowledge_makes m)).bind fun _ => ?_
  refine (makes_of_plain (forward_makes m)).bind fun _ => ?_
  exact makes_setStatus _

/-- A PUBLISH at any other level than QoS 2 stores nothing. -/
theorem publish_plain (hq : ∀ m, L.interpretPublishPacket recvData = .ok m → L.publishQos m ≠ 2) :
    Makes (Plain L s recvData) False (publish L s recvData) := by
  refine (makes_setStatus _).bind fun _ => makes_call_bind fun m hm => ?_
  refine (makes_of_unforwarded (acknowledge_plain (hq m hm))).bind fun _ => ?_
  refine (forward_makes m).bind fun _ => ?_
  exact makes_setStatus _

theorem body_makes : Makes (Change L s recvData) True (body L s recvData) := by
  unfold body
  split
  · rename_i htype
    exact makes_of_plain (makes_of_unforwarded (connect_makes htype))
  · exact makes_of_plain (makes_of_unforwarded subscribe_makes)
  · exact puback_makes
  · exact makes_of_plain (makes_of_unforwarded pubrec_makes)
  · exact pubrel_makes
  · exact pubcomp_makes
  · exact publish_makes
  · exact moves_pure ()

/-- The packet is a QoS 2 PUBLISH of the message. -/
def IsStore (L : Libraries) (recvData : List UInt8) (m : L.Publish) : Prop :=
  packetType recvData = some .publish ∧ L.interpretPublishPacket recvData = .ok m ∧
    L.publishQos m = 2

def IsPubrel (recvData : List UInt8) : Prop :=
  packetType recvData = some .pubrel

theorem body_plain (hstore : ∀ m, ¬ IsStore L recvData m)
    (hrel : ¬ IsPubrel recvData) : Makes (Plain L s recvData) False (body L s recvData) := by
  unfold body
  split
  · rename_i htype
    exact makes_of_unforwarded (connect_makes htype)
  · exact makes_of_unforwarded subscribe_makes
  · exact puback_makes
  · exact makes_of_unforwarded pubrec_makes
  · rename_i htype
    exact absurd htype hrel
  · exact pubcomp_makes
  · rename_i htype
    exact publish_plain fun m hm hq => hstore m ⟨htype, hm, hq⟩
  · exact moves_pure ()

/-- A QoS 2 PUBLISH forwards nothing. -/
theorem publish_unforwarded
    (hq : ∀ m, L.interpretPublishPacket recvData = .ok m → L.publishQos m = 2) :
    Makes (Unforwarded (Change L s recvData)) True (publish L s recvData) := by
  refine (makes_setStatus _).bind fun _ => makes_call_bind fun m hm => ?_
  refine (acknowledge_makes m).bind fun _ => Moves.bind ?_ fun _ => makes_setStatus _
  unfold forward
  rw [if_pos (hq m hm)]
  exact moves_pure ()

/-- Only a PUBREL and a PUBLISH at another level than QoS 2 forward a message. -/
theorem body_unforwarded (hrel : ¬ IsPubrel recvData)
    (hpub : packetType recvData = some .publish →
      ∀ m, L.interpretPublishPacket recvData = .ok m → L.publishQos m = 2) :
    Makes (Unforwarded (Change L s recvData)) True (body L s recvData) := by
  unfold body
  split
  · rename_i htype
    exact makes_of_unforwarded_plain (connect_makes htype)
  · exact makes_of_unforwarded_plain subscribe_makes
  · exact puback_makes
  · exact makes_of_unforwarded_plain pubrec_makes
  · rename_i htype
    exact absurd htype hrel
  · exact pubcomp_makes
  · rename_i htype
    exact publish_unforwarded (hpub htype)
  · exact moves_pure ()

/-! ### Other relations

A relation that has the changes of the branches bounds what they do, CONNECT apart. A task
is numbered and enqueued in one change. -/

structure Covers (s : SessionPtr) (R : Broker L → Broker L → Prop) : Prop where
  task (b : Broker L) (taskOption : Int) (packet : List UInt8) (clientId : String) :
    R b (b.countTask.enqueueMqtt ⟨b.taskCount, taskOption, packet, clientId⟩)
  enqueueDds (b : Broker L) (task : BrokerTask) : R b (b.enqueueDds task)
  subscribe (b : Broker L) (topicName : String) : R b (b.subscribe topicName s)
  setRetainMessages (b : Broker L) : R b (b.setRetainMessages s)
  storePublish (b : Broker L) (packetId : Int) (packet : List UInt8) :
    R b (b.storePublish s packetId packet)
  erasePublish (b : Broker L) (packetId : Int) : R b (b.erasePublish s packetId)

namespace Covers

variable {R : Broker L → Broker L → Prop}

theorem reply (hR : Covers s R) (taskOption : Int) (packet : List UInt8) :
    Makes R True (reply s taskOption packet) :=
  fun f => .single (hR.task f.broker taskOption packet _)

theorem broadcast_bind (hR : Covers s R) (packet : List UInt8) {k : Proc L Unit}
    (hk : Makes R True k) :
    Makes R True (do
      let taskId ← nextTaskId
      change fun b => b.enqueueMqtt ⟨taskId, 0, packet, broadcastId⟩
      k) := by
  intro f
  have htask := hR.task f.broker 0 packet broadcastId
  show Ends k ⟨f.broker.countTask.enqueueMqtt _, f.status⟩ _ _
  exact (hk _).imp (fun _ _ h => .head htask h) fun _ _ h => ⟨h.1, .head htask h.2⟩

theorem subscribe_makes (hR : Covers s R) :
    Makes R True (MqttSession.subscribe L s recvData) := by
  refine (makes_setStatus _).bind fun _ => (makes_call _).bind fun temp => ?_
  refine (makes_call _).bind fun data => (makes_change fun b => hR.subscribe b _).bind fun _ => ?_
  refine makes_self.bind fun m => (makes_call _).bind fun suback => ?_
  refine (makes_call _).bind fun packet => (hR.reply 1 packet).bind fun _ => ?_
  refine moves_get.bind fun f => ?_
  split
  · exact moves_pure ()
  · exact (makes_change fun b => hR.setRetainMessages b).bind fun _ => makes_setStatus _

theorem pubrec_makes (hR : Covers s R) : Makes R True (pubrec L s recvData) := by
  refine (makes_setStatus _).bind fun _ => (makes_call _).bind fun pubrec => ?_
  refine (makes_call _).bind fun pubrel => (makes_call _).bind fun packet => ?_
  exact (hR.reply 5 packet).bind fun _ => makes_setStatus _

theorem pubrel_makes (hR : Covers s R) : Makes R True (pubrel L s recvData) := by
  refine (makes_setStatus _).bind fun _ => (makes_call _).bind fun pubrel => ?_
  refine (makes_call _).bind fun pubcomp => (makes_call _).bind fun packet => ?_
  refine (hR.reply 5 packet).bind fun _ => (makes_findPublish _).bind fun target => ?_
  refine (makes_change fun b => hR.erasePublish b _).bind fun _ => ?_
  refine (makes_call _).bind fun publish => makes_taskCount.bind fun count => ?_
  refine (makes_change fun b => hR.enqueueDds b _).bind fun _ => ?_
  exact hR.broadcast_bind target (makes_setStatus _)

theorem ackPacket_makes (hR : Covers s R) (m : L.Publish) :
    Makes R True (ackPacket L s m) := by
  unfold ackPacket
  split
  · exact (makes_call _).bind fun temp => (makes_call _).bind fun packet => moves_pure _
  split
  · refine (makes_call _).bind fun temp => (makes_call _).bind fun ack => ?_
    refine (makes_call _).bind fun packet => ?_
    exact (makes_change fun b => hR.storePublish b _ packet).bind fun _ => moves_pure _
  · exact moves_pure _

theorem publish_makes (hR : Covers s R) : Makes R True (publish L s recvData) := by
  refine (makes_setStatus _).bind fun _ => (makes_call _).bind fun m => ?_
  refine Moves.bind ?_ fun _ => Moves.bind ?_ fun _ => makes_setStatus _
  · unfold acknowledge
    split
    · exact moves_pure ()
    · refine (makes_setStatus _).bind fun _ => ?_
      exact (hR.ackPacket_makes m).bind fun packet => hR.reply 5 packet
  · unfold forward
    split
    · exact moves_pure ()
    · refine (makes_call _).bind fun packet => hR.broadcast_bind packet ?_
      exact makes_taskCount.bind fun count => makes_change fun b => hR.enqueueDds b _

theorem body_makes (hR : Covers s R) (htype : packetType recvData ≠ some .connect) :
    Makes R True (body L s recvData) := by
  unfold body
  split
  · rename_i hconnect
    exact absurd hconnect htype
  · exact hR.subscribe_makes
  · exact puback_makes
  · exact hR.pubrec_makes
  · exact hR.pubrel_makes
  · exact pubcomp_makes
  · exact hR.publish_makes
  · exact moves_pure ()

end Covers

/-- A handled packet leaves the broker where the moves of its branch lead. -/
theorem run_of_makes {R : Broker L → Broker L → Prop} {mayRead : Prop}
    (hmakes : Makes R mayRead (body L s recvData)) (hlog : ∀ b line, R b (b.writeLog line))
    {b b' : Broker L} (h : messageProcess L s recvData b = some b') :
    Relation.ReflTransGen R b b' := by
  have hends : Ends (body L s recvData) _ _ _ := hmakes ⟨b, "before try"⟩
  unfold messageProcess at h
  unfold Ends at hends
  cases hr : body L s recvData ⟨b, "before try"⟩ with
  | ok a f =>
    simp only [hr, Option.some.injEq] at h hends
    exact h ▸ hends
  | error e f =>
    cases e with
    | thrown what =>
      simp only [hr, Option.some.injEq] at h hends
      exact h ▸ hends.2.tail (hlog f.broker _)
    | readsEnd =>
      rw [hr] at h
      cases h

/-- **What a packet can do.** -/
theorem messageProcess_changes {b b' : Broker L} (h : messageProcess L s recvData b = some b') :
    Relation.ReflTransGen (Change L s recvData) b b' :=
  run_of_makes body_makes (fun b line => .plain (.writeLog b line)) h

/-- A packet that is neither a QoS 2 PUBLISH nor a PUBREL is always processed, and
leaves the stored messages alone. -/
theorem messageProcess_plain (hstore : ∀ m, ¬ IsStore L recvData m)
    (hrel : ¬ IsPubrel recvData) (b : Broker L) :
    ∃ b', messageProcess L s recvData b = some b' ∧
      Relation.ReflTransGen (Plain L s recvData) b b' := by
  have hends := body_plain (s := s) hstore hrel ⟨b, "before try"⟩
  unfold messageProcess
  unfold Ends at hends
  cases hr : body L s recvData ⟨b, "before try"⟩ with
  | ok a f =>
    rw [hr] at hends
    exact ⟨_, rfl, hends⟩
  | error e f =>
    rw [hr] at hends
    cases e with
    | thrown what => exact ⟨_, rfl, hends.2.tail (.writeLog f.broker _)⟩
    | readsEnd => exact (hends.1 rfl).elim

end MqttSession

end BddsBroker
