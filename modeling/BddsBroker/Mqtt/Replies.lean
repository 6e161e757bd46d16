import BddsBroker.Lib.Lists
import BddsBroker.Mqtt.Effects
import BddsBroker.Mqtt.Run
import BddsBroker.Mqtt.Wire

/-! Replies. A reply task carries the client id that its session has at that time, a
string of the client's choice, and the writer looks for the first session with that
id. So the reply is sent on its session alone exactly when this session owns the id,
or when the id is the one that stands for every subscriber and every subscriber's id
leads to the session. -/

namespace BddsBroker

variable {L : Libraries}

namespace Broker

/-- The connected session of the lowest address among those with that id. -/
def Owns (b : Broker L) (s : SessionPtr) (clientId : String) : Prop :=
  s ∈ b.mqttClients ∧ b.clientId s = clientId ∧
    ∀ u ∈ b.mqttClients, b.clientId u = clientId → s ≤ u

theorem getClient_eq_some_iff {b : Broker L} (hb : b.mqttClients.Pairwise (· ≤ ·))
    (clientId : String) (s : SessionPtr) :
    b.getClient clientId = some s ↔ b.Owns s clientId := by
  simp [getClient, Owns, Lists.find?_eq_some_iff_least hb]

/-- The sessions that `send_message` finds for a task, in order. -/
def recipients (b : Broker L) (clientId : String) : List SessionPtr :=
  if clientId = broadcastId then b.gpsSessions.filterMap fun c => b.getClient (b.clientId c)
  else (b.getClient clientId).toList

end Broker

/-! ## The sends of a packet that is not a PUBLISH -/

section Sends

variable {task : MqttTask}

def MqttTask.sentTo (task : MqttTask) (client : SessionPtr) : SendCall :=
  ⟨client, task.data, task.taskId, MqttSession.send task.data⟩

theorem sendMessage_sends (hdata : task.data ≠ []) (htype : packetType task.data ≠ some .publish)
    {clientId : String} {b b' : Broker L} {sends : List SendCall}
    (h : sendMessage clientId task b = some (b', sends)) :
    sends = (b.getClient clientId).toList.map task.sentTo := by
  obtain ⟨firstByte, rest, hcons⟩ := List.exists_cons_of_ne_nil hdata
  have hne : messageType firstByte ≠ some .publish := by simpa [packetType, hcons] using htype
  unfold sendMessage at h
  rw [hcons] at h
  cases hclient : b.getClient clientId with
  | none =>
    simp only [hclient, Option.some.injEq, Prod.mk.injEq] at h
    obtain ⟨-, rfl⟩ := h
    rfl
  | some client =>
    simp only [hclient, Option.some.injEq, sendTo, Prod.mk.injEq] at h
    obtain ⟨-, rfl⟩ := h
    simp [hne, MqttTask.sentTo]

theorem fanOut_sends (hdata : task.data ≠ []) (htype : packetType task.data ≠ some .publish)
    {clients : List SessionPtr} {b : Broker L} {r : Dispatched L}
    (h : fanOut task clients b = some r) :
    r.sends = (clients.filterMap fun c => b.getClient (b.clientId c)).map task.sentTo := by
  induction clients generalizing b r with
  | nil =>
    obtain rfl := Option.some.inj h
    rfl
  | cons client clients ih =>
    obtain ⟨b₁, sends, rest, hsend, hrest, rfl⟩ := fanOut_cons h
    have hsame := SameClients.ofRun (Sending.run_work (sendMessage_sending hsend))
    rw [sendMessage_sends hdata htype hsend, ih hrest]
    simp only [hsame.getClient, hsame.clientId]
    cases hclient : b.getClient (b.clientId client) <;> simp [hclient]

theorem mqttEndPointWriter_sends (hdata : task.data ≠ [])
    (htype : packetType task.data ≠ some .publish) {b : Broker L} {r : Dispatched L}
    (h : mqttEndPointWriter task b = some r) :
    r.sends = (b.recipients task.clientId).map task.sentTo := by
  unfold mqttEndPointWriter at h
  rw [if_neg hdata] at h
  unfold Broker.recipients
  split at h
  · rename_i hid
    rw [if_pos hid]
    exact fanOut_sends hdata htype h
  · rename_i hid
    obtain ⟨⟨b', sends⟩, hf, rfl⟩ := Option.map_eq_some_iff.mp h
    rw [if_neg hid]
    exact sendMessage_sends hdata htype hf

end Sends

/-! ## The result -/

namespace Replies

/-- CONNACK, SUBACK, PUBACK, PUBREC, PUBREL or PUBCOMP. -/
def IsReply (task : MqttTask) : Prop :=
  task.taskOption ≠ 0 ∧ ∃ type ∈ [ControlPacketType.connack, .suback, .puback, .pubrec, .pubrel,
    .pubcomp], packetType task.data = some type

/-- The packet is processed and enqueues the reply. -/
def Causes (s : SessionPtr) (recvData : List UInt8) (b b' : Broker L) (task : MqttTask) : Prop :=
  Run.step b (.packet s recvData) = some b' ∧
    (∃ tasks, b'.mqttTaskQueue = b.mqttTaskQueue ++ tasks ∧ task ∈ tasks) ∧ IsReply task

/-- The reply is sent on the session, and on no other. -/
def SentOnlyOn (s : SessionPtr) (task : MqttTask) (sends : List SendCall) : Prop :=
  sends ≠ [] ∧ ∀ call ∈ sends, call.session = s ∧ call.data = task.data ∧ call.result = 0

/-- The id of the reply leads to the session and to no other: the session owns it, or it
is the one of a task for every subscriber and the session owns the ids of them all. -/
def LeadsTo (b : Broker L) (s : SessionPtr) (clientId : String) : Prop :=
  if clientId = broadcastId then
    b.gpsSessions ≠ [] ∧ ∀ c ∈ b.gpsSessions, b.Owns s (b.clientId c)
  else b.Owns s clientId

theorem isReply_data {task : MqttTask} (h : IsReply task) :
    task.data ≠ [] ∧ packetType task.data ≠ some .publish := by
  obtain ⟨-, type, hmem, htype⟩ := h
  constructor
  · intro hnil
    rw [hnil] at htype
    cases htype
  · rw [htype]
    rintro heq
    obtain rfl := Option.some.inj heq
    simp at hmem

/-- A connected session's id has an owner. -/
theorem exists_getClient {b : Broker L} {c : SessionPtr} (hc : c ∈ b.mqttClients) :
    ∃ u, b.getClient (b.clientId c) = some u := by
  refine Option.isSome_iff_exists.mp (List.find?_isSome.mpr ⟨c, hc, ?_⟩)
  simp

theorem recipients_iff {b : Broker L} (hsorted : b.mqttClients.Pairwise (· ≤ ·))
    (hgps : Run.SubscribersConnected b) (s : SessionPtr) (clientId : String) :
    b.recipients clientId ≠ [] ∧ (∀ u ∈ b.recipients clientId, u = s) ↔
      LeadsTo b s clientId := by
  unfold Broker.recipients LeadsTo
  split
  · have howns := fun c => Broker.getClient_eq_some_iff hsorted (b.clientId c) s
    constructor
    · rintro ⟨hne, hall⟩
      refine ⟨fun hnil => hne (by simp [hnil]), fun c hc => (howns c).mp ?_⟩
      obtain ⟨u, hu⟩ := exists_getClient (hgps.gps hc)
      rw [hu, hall u (List.mem_filterMap.mpr ⟨c, hc, hu⟩)]
    · rintro ⟨hne, hall⟩
      obtain ⟨c, hc⟩ := List.exists_mem_of_ne_nil _ hne
      refine ⟨List.ne_nil_of_mem (List.mem_filterMap.mpr ⟨c, hc, (howns c).mpr (hall c hc)⟩), ?_⟩
      intro u hu
      obtain ⟨d, hd, hget⟩ := List.mem_filterMap.mp hu
      exact Option.some.inj (hget.symm.trans ((howns d).mpr (hall d hd)))
  · rw [← Broker.getClient_eq_some_iff hsorted]
    cases b.getClient clientId <;> simp

theorem send_eq_zero_iff (data : List UInt8) : MqttSession.send data = 0 ↔ data.length ≤ 1024 := by
  unfold MqttSession.send
  split <;> simp <;> omega

theorem sentOnlyOn_iff (s : SessionPtr) (task : MqttTask) (clients : List SessionPtr) :
    SentOnlyOn s task (clients.map task.sentTo) ↔
      (clients ≠ [] ∧ ∀ u ∈ clients, u = s) ∧ task.data.length ≤ 1024 := by
  rw [← send_eq_zero_iff]
  unfold SentOnlyOn
  simp only [ne_eq, List.map_eq_nil_iff, List.forall_mem_map, MqttTask.sentTo, true_and]
  constructor
  · rintro ⟨hne, hall⟩
    obtain ⟨u, hu⟩ := List.exists_mem_of_ne_nil _ hne
    exact ⟨⟨hne, fun u hu => (hall u hu).1⟩, (hall u hu).2⟩
  · rintro ⟨⟨hne, hall⟩, hsend⟩
    exact ⟨hne, fun u hu => ⟨hall u hu, hsend⟩⟩

/-- **Replies.** Whenever a writer takes the reply in the run after the packet that
caused it, it is sent on the packet's session alone exactly when its id, which is the
session's after the packet, then leads there and it fits into a packet. -/
theorem reply_sentOnlyOn_iff {b b' : Broker L} (hb : Run.Reachable b) {s : SessionPtr}
    {recvData : List UInt8} {task : MqttTask} (hc : Causes s recvData b b' task) :
    task.clientId = b'.clientId s ∧
      ∀ b₂ i, Machine.Reachable Run.step b' b₂ → b₂.mqttTaskQueue[i]? = some task →
        ∃ r, Run.Dispatches b₂ i task r ∧
          (SentOnlyOn s task r.sends ↔
            LeadsTo b₂ s task.clientId ∧ task.data.length ≤ 1024) := by
  obtain ⟨hstep, ⟨tasks, hqueue, hmem⟩, hreply⟩ := hc
  constructor
  · obtain ⟨-, hproc⟩ := Run.step_packet hstep
    obtain ⟨tasks', hqueue', hids⟩ := MqttSession.reply_clientId hproc
    obtain rfl : tasks = tasks' := List.append_cancel_left (hqueue.symm.trans hqueue')
    exact hids task hmem hreply.1
  · intro b₂ i hrun hi
    have hb₂ : Run.Reachable b₂ := Machine.Reachable.trans (hb.snoc hstep) hrun
    obtain ⟨hdata, htype⟩ := isReply_data hreply
    obtain ⟨r, hr⟩ := Run.exists_dispatches hi
    refine ⟨r, hr, ?_⟩
    rw [mqttEndPointWriter_sends hdata htype hr.2, sentOnlyOn_iff]
    exact and_congr_left' (recipients_iff (Run.reachable_sorted hb₂)
      (Run.reachable_subscribersConnected hb₂) s task.clientId)

/-! ## Two sessions without a CONNECT -/

/-- Two sessions that have not sent CONNECT and share the empty id. -/
def twoUnnamed : List Run.Event := [.accept 1, .accept 2]

/-- PUBLISH at QoS 1 under the identifier 5. -/
def publishFive : List UInt8 := [0x32, 6, 0, 1, 65, 0, 5, 72]

/-- The PUBACK of session 2 is sent on session 1. -/
theorem puback_to_other_session :
    ∃ (b b' : Broker Wire.libraries) (task : MqttTask) (r : Dispatched Wire.libraries),
      Machine.run Run.step .init twoUnnamed = some b ∧ Causes 2 publishFive b b' task ∧
      Run.Dispatches b' 0 task r ∧ r.sends = [⟨1, [0x40, 2, 0, 5, 10], 0, 0⟩] ∧
      ¬ SentOnlyOn 2 task r.sends := by
  refine ⟨_, _, ⟨0, 5, [0x40, 2, 0, 5, 10], ""⟩, _, rfl,
    ⟨rfl, ⟨_, rfl, List.mem_cons_self⟩, by decide, .puback, by decide, rfl⟩, ⟨rfl, rfl⟩, rfl, ?_⟩
  rintro ⟨-, hall⟩
  exact absurd (hall _ List.mem_cons_self).1 (by decide)

/-- With its own session the PUBACK has no other way to go. -/
theorem puback_sentOnlyOn_iff :
    ∃ (b b' : Broker Wire.libraries) (task : MqttTask),
      Machine.run Run.step .init [.accept 1] = some b ∧ Causes 1 publishFive b b' task ∧
      task.clientId = b'.clientId 1 ∧
      ∀ b₂ i, Machine.Reachable Run.step b' b₂ → b₂.mqttTaskQueue[i]? = some task →
        ∃ r, Run.Dispatches b₂ i task r ∧
          (SentOnlyOn 1 task r.sends ↔
            LeadsTo b₂ 1 task.clientId ∧ task.data.length ≤ 1024) := by
  have hc : ∃ b', Causes 1 publishFive (Run.accept 1 .init : Broker Wire.libraries) b'
      ⟨0, 5, [0x40, 2, 0, 5, 10], ""⟩ :=
    ⟨_, rfl, ⟨_, rfl, List.mem_cons_self⟩, by decide, .puback, by decide, rfl⟩
  obtain ⟨b', hc⟩ := hc
  obtain ⟨hid, hsent⟩ := reply_sentOnlyOn_iff ⟨[.accept 1], rfl⟩ hc
  exact ⟨_, b', _, rfl, hc, hid, hsent⟩

end Replies

end BddsBroker
