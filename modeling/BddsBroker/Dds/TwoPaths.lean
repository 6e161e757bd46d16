import BddsBroker.Dds.Samples
import BddsBroker.Mqtt.Drain
import BddsBroker.Mqtt.FanOut
import BddsBroker.Mqtt.Replies

/-! The two ways to the subscribers of "GPS". A forwarded PUBLISH becomes one task, and the
writer that takes it looks the subscribers up; a DDS sample becomes one task for each
subscriber, who is looked up when the sample comes. Either way a writer looks for the session
with the subscriber's client id. Where ids are distinct it finds the subscriber itself, and the
two ways lead to the same sends (`paths_agree`). -/

namespace BddsBroker.Dds.TwoPaths

open MqttSession Samples

variable {L : Libraries} {b : Broker L}

/-- No two connected sessions have one client id, none has the one for every subscriber, and
the subscribers of "GPS" are connected and have requested their subscription. -/
structure Addressable (b : Broker L) : Prop where
  distinct : ∀ u ∈ b.mqttClients, ∀ v ∈ b.mqttClients, b.clientId u = b.clientId v → u = v
  named : ∀ u ∈ b.mqttClients, b.clientId u ≠ broadcastId
  connected : ∀ u ∈ b.gpsSessions, u ∈ b.mqttClients
  requested : ∀ u ∈ b.gpsSessions, (b.session u).subRequested = true

/-- One writer takes the task at `i`, so many times, and sends. -/
def takes (i : Nat) : Nat → Broker L → Option (Broker L × List SendCall)
  | 0, b => some (b, [])
  | n + 1, b =>
      b.mqttTaskQueue[i]?.bind fun task =>
        (mqttEndPointWriter task { b with mqttTaskQueue := b.mqttTaskQueue.eraseIdx i }).bind
          fun r => (takes i n r.broker).map fun (b', sends) => (b', r.sends ++ sends)

/-- A send without the id of its task: the session, the bytes and what `send` returned. -/
abbrev Content := SessionPtr × List UInt8 × Int

def content (call : SendCall) : Content := (call.session, call.data, call.result)

/-- These tasks stand in the queue behind those of `before`. One writer that takes them makes
these sends, and leaves `before`. -/
structure Delivers (b : Broker L) (before tasks : List MqttTask) (calls : List Content) :
    Prop where
  queue : b.mqttTaskQueue = before ++ tasks
  taken : ∃ b' sends, takes before.length tasks.length b = some (b', sends) ∧
    sends.map content = calls ∧ b'.mqttTaskQueue = before

/-! ## Dispatches -/

/-- A task that fits is sent to the sessions it leads to, and nothing else changes. -/
theorem mqttEndPointWriter_fits {task : MqttTask} (hdata : task.data ≠ [])
    (hfits : task.data.length ≤ 1024)
    (h : ∀ u ∈ b.recipients task.clientId, (b.session u).subRequested = true) :
    ∃ called, mqttEndPointWriter task b =
      some ⟨b, called, (b.recipients task.clientId).map task.sentTo⟩ := by
  obtain ⟨called, hready⟩ := Drain.mqttEndPointWriter_ready hdata h
  rw [(Drain.copies_eq_zero_iff b task).mpr (.inl hfits), Broker.putBack_zero] at hready
  exact ⟨called, hready⟩

/-- Taking such tasks one after the other. -/
theorem takes_fits (before tasks : List MqttTask)
    (hdata : ∀ task ∈ tasks, task.data ≠ [] ∧ task.data.length ≤ 1024)
    (h : ∀ task ∈ tasks, ∀ u ∈ b.recipients task.clientId, (b.session u).subRequested = true) :
    takes before.length tasks.length { b with mqttTaskQueue := before ++ tasks } =
      some ({ b with mqttTaskQueue := before },
        tasks.flatMap fun task => (b.recipients task.clientId).map task.sentTo) := by
  induction tasks with
  | nil => simp [takes]
  | cons task tasks ih =>
    obtain ⟨hdata₁, hdata₂⟩ := List.forall_mem_cons.mp hdata
    obtain ⟨h₁, h₂⟩ := List.forall_mem_cons.mp h
    let b₁ : Broker L := { b with mqttTaskQueue := before ++ tasks }
    obtain ⟨called, hwriter⟩ := mqttEndPointWriter_fits (b := b₁) hdata₁.1 hdata₁.2 h₁
    have htask : (before ++ task :: tasks)[before.length]? = some task := by simp
    have herase : (before ++ task :: tasks).eraseIdx before.length = before ++ tasks := by
      rw [List.eraseIdx_append_of_length_le (Nat.le_refl _), Nat.sub_self, List.eraseIdx_cons_zero]
    rw [List.length_cons, takes, htask, Option.bind_some, herase, hwriter, Option.bind_some,
      ih hdata₂ h₂]
    rfl

/-! ## The subscribers -/

namespace Addressable

/-- The id of a subscriber leads to it. -/
theorem getClient (h : Addressable b) {u : SessionPtr} (hu : u ∈ b.gpsSessions) :
    b.getClient (b.clientId u) = some u := by
  have hmem := h.connected u hu
  cases hfound : b.getClient (b.clientId u) with
  | none =>
    rw [Broker.getClient, List.find?_eq_none] at hfound
    exact absurd (hfound u hmem) (by simp)
  | some v =>
    have hv := List.mem_of_find?_eq_some hfound
    have hid : b.clientId v = b.clientId u := by simpa using List.find?_some hfound
    rw [h.distinct v hv u hmem hid]

theorem recipients_self (h : Addressable b) {u : SessionPtr} (hu : u ∈ b.gpsSessions) :
    b.recipients (b.clientId u) = [u] := by
  rw [Broker.recipients, if_neg (h.named u (h.connected u hu)), h.getClient hu, Option.toList_some]

theorem recipients_broadcast (h : Addressable b) :
    b.recipients broadcastId = b.gpsSessions := by
  have hall : ∀ clients : List SessionPtr, (∀ u ∈ clients, u ∈ b.gpsSessions) →
      clients.filterMap (fun c => b.getClient (b.clientId c)) = clients := by
    intro clients hclients
    induction clients with
    | nil => rfl
    | cons client clients ih =>
      obtain ⟨hclient, hrest⟩ := List.forall_mem_cons.mp hclients
      simp only [List.filterMap_cons, h.getClient hclient, ih hrest]
  rw [Broker.recipients, if_pos rfl]
  exact hall b.gpsSessions fun u hu => hu

theorem of_same {b' : Broker L} (h : Addressable b) (hsame : SameReaders b b') :
    Addressable b' := by
  refine ⟨?_, ?_, ?_, ?_⟩
  · intro u hu v hv hid
    rw [hsame.clients] at hu hv
    rw [hsame.clientId, hsame.clientId] at hid
    exact h.distinct u hu v hv hid
  · intro u hu
    rw [hsame.clients] at hu
    rw [hsame.clientId]
    exact h.named u hu
  · intro u hu
    rw [hsame.gpsSessions] at hu
    rw [hsame.clients]
    exact h.connected u hu
  · intro u hu
    rw [hsame.gpsSessions] at hu
    rw [hsame.subRequested]
    exact h.requested u hu

end Addressable

/-! ## The two paths -/

/-- What is sent for the packet. -/
def calls (packet : List UInt8) (b : Broker L) : List Content :=
  b.gpsSessions.map fun u => (u, packet, 0)

theorem content_sentTo {packet : List UInt8} (hfits : packet.length ≤ 1024)
    (taskId taskOption : Int) (clientId : String) (u : SessionPtr) :
    content (MqttTask.sentTo ⟨taskId, taskOption, packet, clientId⟩ u) = (u, packet, 0) := by
  have hsend : MqttSession.send packet = 0 := if_neg (by omega)
  simp only [content, MqttTask.sentTo, hsend]

section Paths

variable {packet : List UInt8} (h : Addressable b) (hdata : packet ≠ [])
  (hfits : packet.length ≤ 1024)

include h hdata hfits

/-- The one task for every subscriber. -/
theorem delivers_broadcast (before : List MqttTask) (taskId : Int) :
    Delivers { b with mqttTaskQueue := before ++ [⟨taskId, 0, packet, broadcastId⟩] } before
      [⟨taskId, 0, packet, broadcastId⟩] (calls packet b) := by
  let task : MqttTask := ⟨taskId, 0, packet, broadcastId⟩
  have htakes := takes_fits (b := b) before [task]
    (by simpa [task] using ⟨hdata, hfits⟩)
    (by simpa [task, h.recipients_broadcast] using h.requested)
  refine ⟨rfl, _, _, htakes, ?_, rfl⟩
  simp only [task, List.flatMap_singleton, h.recipients_broadcast, List.map_map, calls]
  refine List.map_congr_left ?_
  intro u _
  exact content_sentTo hfits taskId 0 broadcastId u

/-- The tasks for the subscribers. -/
theorem delivers_each (before : List MqttTask) (count : Int) :
    let tasks := b.gpsSessions.mapIdx fun k u => ⟨count + k, 0, packet, b.clientId u⟩
    Delivers { b with mqttTaskQueue := before ++ tasks } before tasks (calls packet b) := by
  intro tasks
  have hmem : ∀ task ∈ tasks,
      task.data = packet ∧ ∃ u ∈ b.gpsSessions, task.clientId = b.clientId u := by
    intro task htask
    obtain ⟨k, hk, rfl⟩ := List.mem_mapIdx.mp htask
    exact ⟨rfl, _, List.getElem_mem hk, rfl⟩
  have htakes := takes_fits (b := b) before tasks
    (by
      intro task htask
      rw [(hmem task htask).1]
      exact ⟨hdata, hfits⟩)
    (by
      intro task htask u hu
      obtain ⟨-, v, hv, hid⟩ := hmem task htask
      rw [hid, h.recipients_self hv, List.mem_singleton] at hu
      exact hu ▸ h.requested v hv)
  refine ⟨rfl, _, _, htakes, ?_, rfl⟩
  rw [List.map_flatMap]
  refine Lists.flatMap_mapIdx ?_
  intro k u hu
  simp only [h.recipients_self hu, List.map_singleton, content_sentTo hfits]

end Paths

/-- A forwarded message changes no client, no id and no registry. -/
theorem forwards_same {s : SessionPtr} {recvData packet : List UInt8} {m : L.Publish}
    (hf : FanOut.Forwards L s b recvData m packet) {b' : Broker L}
    (hproc : messageProcess L s recvData b = some b') :
    SameReaders b b' := by
  cases hf with
  | direct ack htype hint hqos hack hpacket =>
    rw [messageProcess_forward htype hint hqos hack hpacket] at hproc
    obtain rfl := Option.some.inj hproc
    unfold acked
    split <;> exact ⟨rfl, rfl, fun _ => rfl, fun _ => rfl⟩
  | released packetId reply hrel hans htarget hm =>
    rw [messageProcess_release hrel hans htarget hm] at hproc
    obtain rfl := Option.some.inj hproc
    have herase : Change L s recvData (completed b s reply) ((completed b s reply).erasePublish s
      packetId) := .erasePublish (completed b s reply) packetId
    exact ⟨rfl, rfl, fun u => Broker.clientId_erasePublish (completed b s reply) s u packetId,
      herase.subRequested⟩

/-- **The two paths agree** on the sends and on the rest of the queue, whatever it holds. A
PUBLISH that a session forwards takes the one path, a sample that the listener forwards the
other. -/
theorem paths_agree (h : Addressable b) {packet : List UInt8} (hdata : packet ≠ [])
    (hfits : packet.length ≤ 1024) :
    (∀ before taskId,
      let one : List MqttTask := [⟨taskId, 0, packet, broadcastId⟩]
      let each := subscriberTasks packet b
      Delivers { b with mqttTaskQueue := before ++ one } before one (calls packet b) ∧
        Delivers { b with mqttTaskQueue := before ++ each } before each (calls packet b)) ∧
      (∀ s recvData m, FanOut.Forwards L s b recvData m packet →
        ∃ b' replies taskId, messageProcess L s recvData b = some b' ∧
          (∀ reply ∈ replies, reply.taskOption = 5) ∧
          Delivers b' (b.mqttTaskQueue ++ replies) [⟨taskId, 0, packet, broadcastId⟩]
            (calls packet b)) ∧
      ∀ (C : Codec L) (cfg : Loop.Config) (message : Message C.numbers) (json status : String),
        Encodes C cfg message json packet →
        ∃ f, onDataAvailable C cfg.sendTopicName cfg.globalQos message ⟨b, status⟩ = .ok () f ∧
          Delivers f.broker b.mqttTaskQueue (subscriberTasks packet b) (calls packet b) := by
  refine ⟨?_, ?_, ?_⟩
  · intro before taskId
    exact ⟨delivers_broadcast h hdata hfits before taskId,
      delivers_each h hdata hfits before b.taskCount⟩
  · intro s recvData m hf
    obtain ⟨b', replies, taskId, hproc, hqueue, hreplies⟩ := hf.enqueues
    have hsame := forwards_same hf hproc
    refine ⟨b', replies, taskId, hproc, hreplies, ?_⟩
    have hdelivers := delivers_broadcast (h.of_same hsame) hdata hfits
      (b.mqttTaskQueue ++ replies) taskId
    rw [← hqueue, calls, hsame.gpsSessions] at hdelivers
    exact hdelivers
  · intro C cfg message json status hencodes
    let b' := forwardSample cfg.sendTopicName json packet b
    have hclients := SameClients.ofRun (forwardSample_work cfg.sendTopicName json packet b)
    have hsession : b'.session = b.session := forwardSample_session _ json packet b
    have hsame : SameReaders b b' :=
      ⟨hclients.clients, hclients.topics, hclients.clientId, fun u => by rw [hsession]⟩
    have hqueue := mqttTaskQueue_forwardSample cfg.sendTopicName json packet b
    refine ⟨_, onDataAvailable_forwardSample hencodes.1 hencodes.2 ⟨b, status⟩, ?_⟩
    have hdelivers := delivers_each (h.of_same hsame) hdata hfits b.mqttTaskQueue b.taskCount
    simp only [hsame.gpsSessions, calls, hsame.clientId] at hdelivers
    rw [subscriberTasks] at hqueue ⊢
    rw [← hqueue] at hdelivers
    exact hdelivers

/-- Sessions 1 and 2 have the ids "a" and "b", and session 2 has subscribed twice. -/
def subscribedTwice : Broker Wire.libraries :=
  { Drain.subscribed [] with topicList := [⟨"GPS", [], [2, 1, 2]⟩] }

theorem subscribedTwice_addressable : Addressable subscribedTwice where
  distinct := by decide
  named := by decide
  connected := by decide
  requested _ _ := rfl

/-- The packet is sent three times on either path, twice to session 2. -/
theorem subscribedTwice_agree :
    let one : List MqttTask := [⟨0, 0, FanOut.publishA, broadcastId⟩]
    let each := subscriberTasks FanOut.publishA subscribedTwice
    calls FanOut.publishA subscribedTwice =
        [(2, FanOut.publishA, 0), (1, FanOut.publishA, 0), (2, FanOut.publishA, 0)] ∧
      Delivers { subscribedTwice with mqttTaskQueue := one } [] one
        (calls FanOut.publishA subscribedTwice) ∧
      Delivers { subscribedTwice with mqttTaskQueue := each } [] each
        (calls FanOut.publishA subscribedTwice) :=
  ⟨rfl, (paths_agree subscribedTwice_addressable (by decide) (by decide)).1 [] 0⟩

end BddsBroker.Dds.TwoPaths
