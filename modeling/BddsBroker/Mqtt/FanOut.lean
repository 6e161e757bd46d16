import BddsBroker.Mqtt.Effects
import BddsBroker.Mqtt.Run
import BddsBroker.Mqtt.Wire

/-! Topic isolation. A forwarded PUBLISH becomes a task without a topic, and the writer
that takes the task visits the subscribers of "GPS", each by its client id. So the message
reaches the subscribers of its own topic exactly when these are the same sessions and the
ids lead to them. -/

namespace BddsBroker.FanOut

open MqttSession

variable {L : Libraries}

/-- The packet makes the session forward the message `m`, encoded as `packet`: at once,
or by the release of a stored message. -/
inductive Forwards (L : Libraries) (s : SessionPtr) (b : Broker L) (recvData : List UInt8)
    (m : L.Publish) (packet : List UInt8) : Prop
  | direct (ack : List UInt8) (htype : packetType recvData = some .publish)
      (hint : L.interpretPublishPacket recvData = .ok m) (hqos : L.publishQos m ≠ 2)
      (hack : directAck L m = .ok ack) (hpacket : L.convertPublishIntoPacket m [] = .ok packet)
  | released (packetId : Int) (reply : List UInt8) (hrel : IsPubrel recvData)
      (hans : pubrelAnswer L recvData = .ok (packetId, reply))
      (htarget : (b.publishMap s).lookup packetId = some packet)
      (hm : L.interpretPublishPacket packet = .ok m)

theorem Forwards.nonempty (hL : L.PublishNonempty) {s : SessionPtr} {b : Broker L}
    (hb : Run.Reachable b) {recvData packet : List UInt8} {m : L.Publish}
    (h : Forwards L s b recvData m packet) : packet ≠ [] := by
  rintro rfl
  cases h with
  | direct ack htype hint hqos hack hpacket => exact hL m hpacket
  | released packetId reply hrel hans htarget hm =>
    obtain ⟨m', -, hpacket⟩ := Run.reachable_stored hb s packetId [] htarget
    exact hL m' hpacket

/-- The message goes to the queue once, after the replies to its own client. -/
theorem Forwards.enqueues {s : SessionPtr} {b : Broker L} {recvData packet : List UInt8}
    {m : L.Publish} (h : Forwards L s b recvData m packet) :
    ∃ b' replies taskId, messageProcess L s recvData b = some b' ∧
      b'.mqttTaskQueue = b.mqttTaskQueue ++ replies ++ [⟨taskId, 0, packet, broadcastId⟩] ∧
      ∀ reply ∈ replies, reply.taskOption = 5 := by
  cases h with
  | direct ack htype hint hqos hack hpacket =>
    have hproc := messageProcess_forward (s := s) (b := b) htype hint hqos hack hpacket
    by_cases h0 : L.publishQos m = 0
    · refine ⟨_, [], b.taskCount, hproc, ?_, by simp⟩
      simp [forwarded, acked, h0]
    · refine ⟨_, [⟨b.taskCount, 5, ack, b.clientId s⟩], b.taskCount + 1, hproc, ?_, by simp⟩
      simp [forwarded, acked, h0]
  | released packetId reply hrel hans htarget hm =>
    refine ⟨_, [⟨b.taskCount, 5, reply, b.clientId s⟩], b.taskCount + 1,
      messageProcess_release hrel hans htarget hm, ?_, by simp⟩
    simp [MqttSession.released, completed]

/-- The writer that takes the task at `i` calls `send_message` for the sessions listed
under that name and for no others, and these are the sessions that it sends to. -/
def CallsSubscribers (b : Broker L) (i : Nat) (topicName : String) : Prop :=
  ∃ task r, Run.Dispatches b i task r ∧
    (∀ u, u ∈ r.called ↔ Registry.Subscribed b.topicList topicName u) ∧
    ∀ u, (∃ call ∈ r.sends, call.session = u) ↔ Registry.Subscribed b.topicList topicName u

/-- "GPS" and the name list the same sessions. -/
def SameAsGps (b : Broker L) (topicName : String) : Prop :=
  ∀ u, Registry.Subscribed b.topicList "GPS" u ↔ Registry.Subscribed b.topicList topicName u

/-- The id of each session listed under that name leads to it. -/
def Addressed (b : Broker L) (topicName : String) : Prop :=
  ∀ u, Registry.Subscribed b.topicList topicName u → b.getClient (b.clientId u) = some u

/-- A session that an id leads to is led to by its own. -/
theorem getClient_found {b : Broker L} {clientId : String} {u : SessionPtr}
    (h : b.getClient clientId = some u) : b.getClient (b.clientId u) = some u := by
  have hid : b.clientId u = clientId := by simpa using List.find?_some h
  rw [hid, h]

/-- All the sessions of a list are found, and no others, just when each of them is found
under its own id. -/
theorem found_iff (b : Broker L) (clients : List SessionPtr) :
    (∀ u, u ∈ clients.filterMap (fun c => b.getClient (b.clientId c)) ↔ u ∈ clients) ↔
      ∀ u ∈ clients, b.getClient (b.clientId u) = some u := by
  constructor
  · intro hfound u hu
    obtain ⟨c, -, hc⟩ := List.mem_filterMap.mp ((hfound u).mpr hu)
    exact getClient_found hc
  · intro haddressed u
    rw [List.mem_filterMap]
    constructor
    · rintro ⟨c, hc, hcu⟩
      obtain rfl := Option.some.inj ((haddressed c hc).symm.trans hcu)
      exact hc
    · exact fun hu => ⟨u, hu, haddressed u hu⟩

theorem callsSubscribers_iff (hname : L.TopicKeepsName) {b : Broker L} (hb : Run.Reachable b)
    {i : Nat} {task : MqttTask} (hi : b.mqttTaskQueue[i]? = some task) (hdata : task.data ≠ [])
    (hid : task.clientId = broadcastId) (topicName : String) :
    CallsSubscribers b i topicName ↔ SameAsGps b topicName ∧ Addressed b topicName := by
  have hgps : ∀ u, u ∈ b.gpsSessions ↔ Registry.Subscribed b.topicList "GPS" u :=
    Registry.mem_findTopic (Run.reachable_names hname hb) "GPS"
  have hloop : ∀ r, Run.Dispatches b i task r → r.called = b.gpsSessions ∧
      r.sends.map SendCall.session =
        b.gpsSessions.filterMap fun c => b.getClient (b.clientId c) := by
    intro r hr
    have hfan := hr.2
    rw [mqttEndPointWriter_broadcast hdata hid] at hfan
    have hsessions := sessions_fanOut hfan
    exact ⟨called_fanOut hfan, hsessions⟩
  have hsent : ∀ r, Run.Dispatches b i task r → ∀ u, (∃ call ∈ r.sends, call.session = u) ↔
      u ∈ b.gpsSessions.filterMap fun c => b.getClient (b.clientId c) := by
    intro r hr u
    rw [← (hloop r hr).2, List.mem_map]
  constructor
  · rintro ⟨task', r, hr, hcalls, hsends⟩
    obtain rfl : task' = task := Option.some.inj (hr.1.symm.trans hi)
    have hlisted : ∀ u, u ∈ b.gpsSessions ↔ Registry.Subscribed b.topicList topicName u := by
      intro u
      rw [← hcalls, (hloop r hr).1]
    refine ⟨fun u => (hgps u).symm.trans (hlisted u), fun u hu => ?_⟩
    refine (found_iff b b.gpsSessions).mp (fun v => ?_) u ((hlisted u).mpr hu)
    rw [← hsent r hr, hsends, hlisted]
  · rintro ⟨hsame, haddressed⟩
    have hlisted : ∀ u, u ∈ b.gpsSessions ↔ Registry.Subscribed b.topicList topicName u :=
      fun u => (hgps u).trans (hsame u)
    obtain ⟨r, hr⟩ := Run.exists_dispatches hi
    refine ⟨task, r, hr, fun u => ?_, fun u => ?_⟩
    · rw [(hloop r hr).1, hlisted]
    · rw [hsent r hr, ← hlisted]
      exact (found_iff b b.gpsSessions).mpr (fun v hv => haddressed v ((hlisted v).mp hv)) u

/-- **Topic isolation**, from any reachable state in which a message is forwarded, and
whenever a writer takes the task in the run that follows. -/
theorem forwarded_to_subscribers_iff (hname : L.TopicKeepsName) (hpublish : L.PublishNonempty)
    {b : Broker L} (hb : Run.Reachable b) {s : SessionPtr} (hs : s ∈ b.mqttClients)
    {recvData packet : List UInt8} {m : L.Publish} (hf : Forwards L s b recvData m packet) :
    ∃ b' replies taskId, Run.step b (.packet s recvData) = some b' ∧
      b'.mqttTaskQueue = b.mqttTaskQueue ++ replies ++ [⟨taskId, 0, packet, broadcastId⟩] ∧
      (∀ reply ∈ replies, reply.taskOption = 5) ∧
      ∀ b₂ i, Machine.Reachable Run.step b' b₂ →
        b₂.mqttTaskQueue[i]? = some ⟨taskId, 0, packet, broadcastId⟩ →
        (CallsSubscribers b₂ i (L.publishTopicName m) ↔
          SameAsGps b₂ (L.publishTopicName m) ∧ Addressed b₂ (L.publishTopicName m)) := by
  obtain ⟨b', replies, taskId, hproc, hqueue, hreplies⟩ := hf.enqueues
  have hstep : Run.step b (.packet s recvData) = some b' := by
    rw [Run.step, if_pos hs, hproc]
  refine ⟨b', replies, taskId, hstep, hqueue, hreplies, ?_⟩
  intro b₂ i hrun hi
  have hb₂ : Run.Reachable b₂ := Machine.Reachable.trans (hb.snoc hstep) hrun
  exact callsSubscribers_iff hname hb₂ hi (hf.nonempty hpublish hb) rfl _

/-! ## A second topic -/

/-- Sessions 1, 2 and 3 connect as "a", "b" and "c", session 2 subscribes to "GPS" and
session 3 to "A", and the five replies are sent. -/
def twoTopics : List Run.Event :=
  [.accept 1, .packet 1 (Wire.connectAs 97), .accept 2, .packet 2 (Wire.connectAs 98), .accept 3,
    .packet 3 (Wire.connectAs 99), .packet 2 Wire.subscribeGps,
    .packet 3 [0x82, 6, 0, 1, 0, 1, 65, 0]] ++ List.replicate 5 (.dispatch 0)

/-- PUBLISH of "HI" on "A" at QoS 0. -/
def publishA : List UInt8 := [0x30, 5, 0, 1, 65, 72, 73]

theorem publishA_to_subscribers_iff :
    ∃ b, Machine.run Run.step (Broker.init : Broker Wire.libraries) twoTopics = some b ∧
      ∃ b' replies taskId, Run.step b (.packet 1 publishA) = some b' ∧
        b'.mqttTaskQueue = b.mqttTaskQueue ++ replies ++ [⟨taskId, 0, publishA, broadcastId⟩] ∧
        (∀ reply ∈ replies, reply.taskOption = 5) ∧
        ∀ b₂ i, Machine.Reachable Run.step b' b₂ →
          b₂.mqttTaskQueue[i]? = some ⟨taskId, 0, publishA, broadcastId⟩ →
          (CallsSubscribers b₂ i "A" ↔ SameAsGps b₂ "A" ∧ Addressed b₂ "A") := by
  refine ⟨_, rfl, ?_⟩
  exact forwarded_to_subscribers_iff Wire.topicKeepsName Wire.publishNonempty ⟨twoTopics, rfl⟩
    (by decide) (m := Wire.decode publishA) (.direct [] rfl rfl (by decide) rfl rfl)

/-- The message goes to session 2, which subscribes to another topic, and not to
session 3, which subscribes to its own. -/
theorem publishA_to_gps :
    ∃ (b b' : Broker Wire.libraries) (task : MqttTask) (r : Dispatched Wire.libraries),
      Machine.run Run.step .init twoTopics = some b ∧
      Run.step b (.packet 1 publishA) = some b' ∧ b'.mqttTaskQueue = [task] ∧
      Run.Dispatches b' 0 task r ∧ r.called = [2] ∧
      r.sends = [⟨2, publishA, task.taskId, 0⟩] ∧
      Registry.Subscribed b'.topicList "A" 3 ∧ ¬ Registry.Subscribed b'.topicList "A" 2 ∧
      ¬ CallsSubscribers b' 0 "A" := by
  have hsub : ∀ b : Broker Wire.libraries,
      Machine.run Run.step .init (twoTopics ++ [.packet 1 publishA]) = some b → ∀ u,
        u ∈ (Registry.findTopic "A" b.topicList).mqttClientSessions ↔
          Registry.Subscribed b.topicList "A" u :=
    fun b hb => Registry.mem_findTopic (Run.reachable_names Wire.topicKeepsName ⟨_, hb⟩) "A"
  refine ⟨_, _, _, _, rfl, rfl, rfl, ⟨rfl, rfl⟩, rfl, rfl, ?_, ?_, ?_⟩
  · exact (hsub _ rfl 3).mp (by decide)
  · rw [← hsub _ rfl]
    decide
  · rintro ⟨task, r, ⟨htask, hr⟩, hcalls, -⟩
    obtain rfl := Option.some.inj htask
    obtain rfl := Option.some.inj hr
    have hthree := (hcalls 3).mpr ((hsub _ rfl 3).mp (by decide))
    revert hthree
    decide

end BddsBroker.FanOut
