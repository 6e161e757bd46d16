import Mathlib.Data.List.Sort
import BddsBroker.Lib.Machine
import BddsBroker.Mqtt.Changes
import BddsBroker.Mqtt.Dispatch

/-! The running broker: connections are accepted, sessions process packets, writer
threads dispatch tasks, `BROKERSUB` clients subscribe and DDS samples arrive, in any
order and as whole steps. Sessions are never removed from `mqtt_clients_`. A writer
thread may take any task of the queue. -/

namespace BddsBroker.Run

variable {L : Libraries}

inductive Event
  | accept (s : SessionPtr)
  | packet (s : SessionPtr) (recvData : List UInt8)
  | dispatch (i : Nat)
  | addClient (topicName : String) (client : ClientPtr)
  | sample (topicName json : String) (packet : List UInt8)
  deriving DecidableEq, Repr

/-- `MQTTSession::start`: a new session is inserted in the order of the addresses. -/
def accept (s : SessionPtr) (b : Broker L) : Broker L :=
  { b.updateSession s fun _ => .new with mqttClients := b.mqttClients.orderedInsert (· ≤ ·) s }

/-- The task at `i` is taken, and this is what the writer does with it. -/
def Dispatches (b : Broker L) (i : Nat) (task : MqttTask) (r : Dispatched L) : Prop :=
  b.mqttTaskQueue[i]? = some task ∧
    mqttEndPointWriter task { b with mqttTaskQueue := b.mqttTaskQueue.eraseIdx i } = some r

def dispatch (i : Nat) (b : Broker L) : Option (Broker L) :=
  b.mqttTaskQueue[i]?.bind fun task =>
    (mqttEndPointWriter task { b with mqttTaskQueue := b.mqttTaskQueue.eraseIdx i }).map
      Dispatched.broker

def step (b : Broker L) : Event → Option (Broker L)
  | .accept s => if s ∈ b.mqttClients then none else some (accept s b)
  | .packet s recvData =>
      if s ∈ b.mqttClients then MqttSession.messageProcess L s recvData b else none
  | .dispatch i => dispatch i b
  | .addClient topicName client =>
      some { b with topicList := Registry.addClientToTopic topicName client b.topicList }
  | .sample topicName json packet => some (forwardSample topicName json packet b)

abbrev Reachable (b : Broker L) : Prop := Machine.Reachable step Broker.init b

@[simp] theorem publishMap_accept (b : Broker L) (s : SessionPtr) :
    (accept s b).publishMap s = ∅ := by
  simp [accept, Broker.publishMap, Broker.updateSession, MqttSession.new]

theorem publishMap_accept_of_ne (b : Broker L) {s u : SessionPtr} (h : u ≠ s) :
    (accept s b).publishMap u = b.publishMap u := by
  simp [accept, Broker.publishMap, Broker.updateSession, h]

/-! ## Invariants -/

theorem step_accept {b b' : Broker L} {s : SessionPtr} (hs : step b (.accept s) = some b') :
    s ∉ b.mqttClients ∧ b' = accept s b := by
  simp only [step, Option.ite_none_left_eq_some, Option.some.injEq] at hs
  exact ⟨hs.1, hs.2.symm⟩

theorem step_packet {b b' : Broker L} {s : SessionPtr} {recvData : List UInt8}
    (hs : step b (.packet s recvData) = some b') :
    s ∈ b.mqttClients ∧ MqttSession.messageProcess L s recvData b = some b' := by
  simp only [step, Option.ite_none_right_eq_some] at hs
  exact hs

theorem dispatch_eq_some {i : Nat} {b b' : Broker L} :
    dispatch i b = some b' ↔ ∃ task r, Dispatches b i task r ∧ r.broker = b' := by
  simp [dispatch, Dispatches, Option.bind_eq_some_iff, Option.map_eq_some_iff, and_assoc]

/-- No task stops a writer. -/
theorem exists_dispatches {b : Broker L} {i : Nat} {task : MqttTask}
    (h : b.mqttTaskQueue[i]? = some task) : ∃ r, Dispatches b i task r := by
  obtain ⟨r, hr⟩ := mqttEndPointWriter_isSome task
    { b with mqttTaskQueue := b.mqttTaskQueue.eraseIdx i }
  exact ⟨r, h, hr⟩

/-- A dispatch changes the queue and who has requested a subscription. -/
theorem dispatch_same {i : Nat} {b b' : Broker L} (h : dispatch i b = some b') :
    SameClients b b' := by
  obtain ⟨task, r, ⟨-, hr⟩, rfl⟩ := dispatch_eq_some.mp h
  have hsame := SameClients.ofRun (Sending.run_work (mqttEndPointWriter_sending hr))
  exact ⟨hsame.clients, hsame.topics, hsame.clientId, hsame.publishMap⟩

/-- Clients are only added. -/
theorem mem_clients_step {b b' : Broker L} {e : Event} (hs : step b e = some b') {u : SessionPtr}
    (hu : u ∈ b.mqttClients) : u ∈ b'.mqttClients := by
  cases e with
  | accept s =>
    obtain ⟨-, rfl⟩ := step_accept hs
    exact (List.mem_orderedInsert _).mpr (.inr hu)
  | packet s recvData =>
    obtain ⟨-, hproc⟩ := step_packet hs
    rw [Change.mqttClients_run (MqttSession.messageProcess_changes hproc)]
    exact hu
  | dispatch i =>
    rw [(dispatch_same hs).clients]
    exact hu
  | addClient topicName client =>
    obtain rfl := Option.some.inj hs
    exact hu
  | sample topicName json packet =>
    obtain rfl := Option.some.inj hs
    rw [(SameClients.ofRun (forwardSample_work topicName json packet b)).clients]
    exact hu

/-- **Step rule.** What the changes of packets and of the other events preserve, a step
of the broker does. -/
theorem step_of_work {I : Broker L → Prop}
    (hchange : ∀ s recvData b b', s ∈ b.mqttClients → Change L s recvData b b' → I b → I b')
    (haccept : ∀ s b, s ∉ b.mqttClients → I b → I (accept s b))
    (hclient : ∀ topicName client (b : Broker L), I b →
      I { b with topicList := Registry.addClientToTopic topicName client b.topicList })
    (hqueue : ∀ (b : Broker L) queue, I b → I { b with mqttTaskQueue := queue })
    (hwork : ∀ b b', Work b b' → I b → I b') {b b' : Broker L} {e : Event} (hI : I b)
    (hs : step b e = some b') : I b' := by
  have hrun : ∀ b b', Work.Run b b' → I b → I b' := by
    intro b b' hr hb
    induction hr with
    | refl => exact hb
    | tail _ h ih => exact hwork _ _ h ih
  cases e with
  | accept s =>
    obtain ⟨hnew, rfl⟩ := step_accept hs
    exact haccept s b hnew hI
  | packet s recvData =>
    obtain ⟨hmem, hproc⟩ := step_packet hs
    have hchanges := MqttSession.messageProcess_changes hproc
    clear hproc hs
    induction hchanges with
    | refl => exact hI
    | tail hbefore hc ih =>
      exact hchange s recvData _ _ (Change.mqttClients_run hbefore ▸ hmem) hc ih
  | dispatch i =>
    obtain ⟨task, r, ⟨-, hr⟩, rfl⟩ := dispatch_eq_some.mp hs
    exact hrun _ _ (Sending.run_work (mqttEndPointWriter_sending hr)) (hqueue b _ hI)
  | addClient topicName client =>
    obtain rfl := Option.some.inj hs
    exact hclient topicName client b hI
  | sample topicName json packet =>
    obtain rfl := Option.some.inj hs
    exact hrun _ _ (forwardSample_work topicName json packet b) hI

/-- The rule for what depends on the clients alone. -/
theorem step_of_changes {I : Broker L → Prop}
    (hchange : ∀ s recvData b b', s ∈ b.mqttClients → Change L s recvData b b' → I b → I b')
    (haccept : ∀ s b, s ∉ b.mqttClients → I b → I (accept s b))
    (hclient : ∀ topicName client (b : Broker L), I b →
      I { b with topicList := Registry.addClientToTopic topicName client b.topicList })
    (hsame : ∀ b b', SameClients b b' → I b → I b') {b b' : Broker L} {e : Event} (hI : I b)
    (hs : step b e = some b') : I b' :=
  step_of_work hchange haccept hclient
    (fun b _ => hsame b _ ⟨rfl, rfl, fun _ => rfl, fun _ => rfl⟩)
    (fun b b' h => hsame b b' (.ofWork h)) hI hs

/-- The clients are counted upwards, and a session's number is such a count. -/
def Numbered (b : Broker L) : Prop := 0 ≤ b.clientNo ∧ ∀ s, 0 ≤ (b.session s).clientN

/-- A change of a session that keeps its number keeps everybody's. -/
theorem numbered_updateSession {b : Broker L} {s : SessionPtr} {change : MqttSession → MqttSession}
    (hb : Numbered b) (h : 0 ≤ (change (b.session s)).clientN) :
    Numbered (b.updateSession s change) := by
  refine ⟨hb.1, ?_⟩
  intro u
  by_cases hu : u = s
  · subst hu
    rw [Broker.session_updateSession_self]
    exact h
  · rw [Broker.session_updateSession_of_ne b s u hu]
    exact hb.2 u

theorem reachable_numbered {b : Broker L} (hr : Reachable b) : Numbered b := by
  refine Machine.reachable_invariant (fun b e b' hb hs => ?_)
    (show Numbered (Broker.init : Broker L) from ⟨Int.le_refl 0, fun _ => Int.le_refl 0⟩) hr
  refine step_of_work (I := Numbered) ?_ ?_ ?_ ?_ ?_ hb hs
  · intro s recvData b b' _ hc hb
    cases hc with
    | plain hp =>
      cases hp with
      | increaseCount => exact ⟨Int.add_nonneg hb.1 (by decide), hb.2⟩
      | setClientN => exact numbered_updateSession hb hb.1
      | setConnectedClient | setRetainMessages => exact numbered_updateSession hb (hb.2 s)
      | _ => exact hb
    | storePublish | erasePublish => exact numbered_updateSession hb (hb.2 s)
  · intro s b _ hb
    have hnew : Numbered (b.updateSession s fun _ => .new) :=
      numbered_updateSession hb (Int.le_refl 0)
    exact ⟨hnew.1, hnew.2⟩
  · exact fun topicName client b hb => hb
  · exact fun b queue hb => hb
  · intro b b' hwork hb
    cases hwork with
    | setSubRequested s => exact numbered_updateSession hb (hb.2 s)
    | _ => exact hb

/-- The names in the registry are distinct. -/
theorem step_names (hL : L.TopicKeepsName) {b b' : Broker L} {e : Event}
    (hb : (Registry.names b.topicList).Nodup) (hs : step b e = some b') :
    (Registry.names b'.topicList).Nodup := by
  refine step_of_changes (I := fun b => (Registry.names b.topicList).Nodup) ?_ ?_ ?_ ?_ hb hs
  · intro s recvData b b' _ hc hb
    cases hc with
    | plain h =>
      cases h with
      | subscribe topicName => exact Registry.nodup_addMqttClientToTopic hL topicName s hb
      | _ => exact hb
    | _ => exact hb
  · exact fun s b _ hb => hb
  · exact fun topicName client b hb => Registry.nodup_addClientToTopic hL topicName client hb
  · exact fun b b' hsame hb => hsame.topics ▸ hb

theorem reachable_names (hL : L.TopicKeepsName) {b : Broker L} (hr : Reachable b) :
    (Registry.names b.topicList).Nodup :=
  Machine.reachable_invariant (I := fun b : Broker L => (Registry.names b.topicList).Nodup)
    (fun _ _ _ hb hs => step_names hL hb hs) (by simp [Registry.names, Broker.init]) hr

/-- Every stored message is the encoding of a PUBLISH. -/
def StoresEncoded (b : Broker L) : Prop :=
  ∀ s packetId packet, (b.publishMap s).lookup packetId = some packet →
    ∃ m, L.publishIdentifier m = packetId ∧ L.convertPublishIntoPacket m [] = .ok packet

theorem step_storesEncoded {b b' : Broker L} {e : Event} (hb : StoresEncoded b)
    (hs : step b e = some b') : StoresEncoded b' := by
  refine step_of_changes (I := StoresEncoded) ?_ ?_ ?_ ?_ hb hs
  · intro s recvData b b' _ hc hb u packetId packet h
    cases hc with
    | plain hp => exact hb u packetId packet (hp.publishMap u ▸ h)
    | storePublish m stored hpacket =>
      by_cases hu : u = s
      · subst hu
        rw [Broker.publishMap_storePublish] at h
        by_cases hid : packetId = L.publishIdentifier m
        · subst hid
          rw [Finmap.lookup_insert] at h
          obtain rfl := Option.some.inj h
          exact ⟨m, rfl, hpacket⟩
        · rw [Finmap.lookup_insert_of_ne _ hid] at h
          exact hb u packetId packet h
      · rw [Broker.publishMap_storePublish_of_ne _ _ _ hu] at h
        exact hb u packetId packet h
    | erasePublish erased =>
      by_cases hu : u = s
      · subst hu
        rw [Broker.publishMap_erasePublish] at h
        by_cases hid : packetId = erased
        · subst hid
          rw [Finmap.lookup_erase] at h
          cases h
        · rw [Finmap.lookup_erase_ne hid] at h
          exact hb u packetId packet h
      · rw [Broker.publishMap_erasePublish_of_ne _ _ _ hu] at h
        exact hb u packetId packet h
  · intro s b _ hb u packetId packet h
    by_cases hu : u = s
    · subst hu
      rw [publishMap_accept] at h
      cases h
    · exact hb u packetId packet (publishMap_accept_of_ne b hu ▸ h)
  · exact fun topicName client b hb => hb
  · exact fun b b' hsame hb u packetId packet h => hb u packetId packet (hsame.publishMap u ▸ h)

theorem reachable_stored {b : Broker L} (hr : Reachable b) (s : SessionPtr) (packetId : Int)
    (packet : List UInt8) (hstored : (b.publishMap s).lookup packetId = some packet) :
    ∃ m, L.publishIdentifier m = packetId ∧ L.convertPublishIntoPacket m [] = .ok packet := by
  have hinit : StoresEncoded (Broker.init : Broker L) := by
    intro s packetId packet h
    simp [Broker.publishMap, Broker.init, MqttSession.new] at h
  exact Machine.reachable_invariant (fun _ _ _ hb hs => step_storesEncoded hb hs) hinit hr s
    packetId packet hstored

/-- Only connected sessions are subscribers. -/
def SubscribersConnected (b : Broker L) : Prop :=
  ∀ topic ∈ b.topicList, ∀ s ∈ topic.mqttClientSessions, s ∈ b.mqttClients

theorem step_subscribersConnected {b b' : Broker L} {e : Event} (hb : SubscribersConnected b)
    (hs : step b e = some b') : SubscribersConnected b' := by
  refine step_of_changes (I := SubscribersConnected) ?_ ?_ ?_ ?_ hb hs
  · intro s recvData b b' hmem hc hb
    cases hc with
    | plain hp =>
      cases hp with
      | subscribe topicName =>
        exact Registry.forall_addMqttClientToTopic (· ∈ b.mqttClients) topicName hmem hb
      | _ => exact hb
    | _ => exact hb
  · intro s b _ hb topic htopic u hu
    exact (List.mem_orderedInsert _).mpr (.inr (hb topic htopic u hu))
  · intro topicName client b hb
    exact Registry.forall_addClientToTopic (· ∈ b.mqttClients) topicName client hb
  · intro b b' hsame hb
    unfold SubscribersConnected
    rw [hsame.topics, hsame.clients]
    exact hb

theorem reachable_subscribersConnected {b : Broker L} (hr : Reachable b) :
    SubscribersConnected b :=
  Machine.reachable_invariant (fun _ _ _ hb hs => step_subscribersConnected hb hs)
    (by simp [SubscribersConnected, Broker.init]) hr

/-- A subscriber of "GPS" that the loop of a writer visits is connected. -/
theorem SubscribersConnected.gps {b : Broker L} (hb : SubscribersConnected b) {s : SessionPtr}
    (hs : s ∈ b.gpsSessions) : s ∈ b.mqttClients := by
  obtain ⟨topic, htopic, hmem⟩ := Registry.exists_of_mem_findTopic hs
  exact hb topic htopic s hmem

/-- The loop over the subscribers of "GPS" loses none of them. -/
theorem mem_gpsSessions_step {b b' : Broker L} {e : Event} (hs : step b e = some b')
    {u : SessionPtr} (hu : u ∈ b.gpsSessions) : u ∈ b'.gpsSessions := by
  refine step_of_changes (I := fun b : Broker L => u ∈ b.gpsSessions) ?_ ?_ ?_ ?_ hu hs
  · intro s recvData b b' _ hc hb
    cases hc with
    | plain hp =>
      cases hp with
      | subscribe topicName =>
        exact Registry.mem_findTopic_addToTopic
          (fun topic => topic.getSubTopicStr_addMqttClient s)
          (fun topic hmem => List.mem_append_left _ hmem) topicName "GPS" hb
      | _ => exact hb
    | _ => exact hb
  · exact fun s b _ hb => hb
  · exact fun topicName client b hb => Registry.mem_findTopic_addToTopic
      (fun topic => topic.getSubTopicStr_addClient client) (fun _ hmem => hmem) topicName "GPS" hb
  · intro b b' hsame hb
    rw [hsame.gpsSessions]
    exact hb

/-- The connected sessions stand in the order of their addresses. -/
theorem reachable_sorted {b : Broker L} (hr : Reachable b) : b.mqttClients.Pairwise (· ≤ ·) := by
  refine Machine.reachable_invariant (I := fun b : Broker L => b.mqttClients.Pairwise (· ≤ ·))
    (fun b e b' hb hs => ?_) (by simp [Broker.init]) hr
  refine step_of_changes (I := fun b : Broker L => b.mqttClients.Pairwise (· ≤ ·)) ?_ ?_ ?_ ?_ hb hs
  · exact fun s recvData b b' _ hc hb => hc.mqttClients ▸ hb
  · exact fun s b _ hb => hb.orderedInsert s b.mqttClients
  · exact fun topicName client b hb => hb
  · exact fun b b' hsame hb => hsame.clients ▸ hb

end BddsBroker.Run
