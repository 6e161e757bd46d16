import BddsBroker.Mqtt.Replies
import BddsBroker.Mqtt.Wire

/-! Dispatches without anything new from outside, when every session has requested its
subscription. A task that `send` accepts leaves the queue; one that it refuses comes
back once for every client that it was refused by. So the queue drains exactly when
every task fits into a packet or leads to no client. -/

namespace BddsBroker

variable {L : Libraries} {b : Broker L}

namespace Broker

/-- The broker with so many copies of the task at the end of the queue. -/
def putBack (b : Broker L) (n : Nat) (task : MqttTask) : Broker L :=
  { b with mqttTaskQueue := b.mqttTaskQueue ++ List.replicate n task }

theorem putBack_zero (b : Broker L) (task : MqttTask) : b.putBack 0 task = b := by
  simp [putBack]

theorem putBack_putBack (b : Broker L) (m n : Nat) (task : MqttTask) :
    (b.putBack m task).putBack n task = b.putBack (m + n) task := by
  simp [putBack]

end Broker

namespace Drain

/-- All sessions' `sub_requested()` is true. -/
def Ready (b : Broker L) : Prop := ∀ s ∈ b.mqttClients, (b.session s).subRequested = true

/-- How often one client refuses the task. -/
def refusals (task : MqttTask) : Nat := if task.data.length ≤ 1024 then 0 else 1

/-- How many copies of the task a dispatch puts back. -/
def copies (b : Broker L) (task : MqttTask) : Nat :=
  refusals task * (b.recipients task.clientId).length

theorem copies_eq_zero_iff (b : Broker L) (task : MqttTask) :
    copies b task = 0 ↔ task.data.length ≤ 1024 ∨ b.recipients task.clientId = [] := by
  unfold copies refusals
  split <;> simp [*]

/-! ## What one dispatch does -/

theorem sendTo_ready {client : SessionPtr} (h : (b.session client).subRequested = true)
    (task : MqttTask) (sendMessageType : Option ControlPacketType) :
    sendTo client task sendMessageType b =
      (b.putBack (refusals task) task, [task.sentTo client]) := by
  unfold sendTo refusals MqttTask.sentTo MqttSession.send
  by_cases hfits : task.data.length ≤ 1024
  · have hlong : ¬ 1024 < task.data.length := by omega
    simp [h, hfits, hlong, Broker.putBack_zero]
  · have hlong : 1024 < task.data.length := by omega
    simp [h, hfits, hlong, Broker.putBack, Broker.enqueueMqtt]

theorem sendMessage_ready {task : MqttTask} (hdata : task.data ≠ []) {clientId : String}
    (h : ∀ u ∈ (b.getClient clientId).toList, (b.session u).subRequested = true) :
    sendMessage clientId task b =
      some (b.putBack (refusals task * (b.getClient clientId).toList.length) task,
        (b.getClient clientId).toList.map task.sentTo) := by
  obtain ⟨firstByte, rest, hcons⟩ := List.exists_cons_of_ne_nil hdata
  unfold sendMessage
  rw [hcons]
  dsimp only
  cases hclient : b.getClient clientId with
  | none => simp [Broker.putBack_zero]
  | some client =>
    have hready := h client (by simp [hclient])
    simp [sendTo_ready hready task (messageType firstByte)]

theorem fanOut_ready {task : MqttTask} (hdata : task.data ≠ []) (clients : List SessionPtr)
    (h : ∀ u ∈ clients.filterMap (fun c => b.getClient (b.clientId c)),
      (b.session u).subRequested = true) :
    fanOut task clients b = some
      ⟨b.putBack
        (refusals task * (clients.filterMap fun c => b.getClient (b.clientId c)).length) task,
        clients, (clients.filterMap fun c => b.getClient (b.clientId c)).map task.sentTo⟩ := by
  induction clients generalizing b with
  | nil => simp [fanOut, Broker.putBack_zero]
  | cons client clients ih =>
    have hcons : (client :: clients).filterMap (fun c => b.getClient (b.clientId c)) =
        (b.getClient (b.clientId client)).toList ++
          clients.filterMap fun c => b.getClient (b.clientId c) := by
      cases hclient : b.getClient (b.clientId client) <;> simp [hclient]
    rw [hcons] at h ⊢
    obtain ⟨hclient, hclients⟩ := List.forall_mem_append.mp h
    let b₁ := b.putBack (refusals task * (b.getClient (b.clientId client)).toList.length) task
    have hrest := ih (b := b₁) hclients
    unfold fanOut
    rw [sendMessage_ready hdata hclient, Option.bind_some]
    dsimp only
    rw [hrest, Option.map_some, Broker.putBack_putBack, ← Nat.mul_add, List.length_append,
      List.map_append]
    rfl

/-- The task is sent to the sessions that it leads to, and its refused copies come back. -/
theorem mqttEndPointWriter_ready {task : MqttTask} (hdata : task.data ≠ [])
    (h : ∀ u ∈ b.recipients task.clientId, (b.session u).subRequested = true) :
    ∃ called, mqttEndPointWriter task b =
      some ⟨b.putBack (copies b task) task, called,
        (b.recipients task.clientId).map task.sentTo⟩ := by
  unfold mqttEndPointWriter copies
  unfold Broker.recipients at h ⊢
  rw [if_neg hdata]
  by_cases hid : task.clientId = broadcastId
  · rw [if_pos hid] at h ⊢
    rw [if_pos hid, fanOut_ready hdata b.gpsSessions h]
    exact ⟨b.gpsSessions, rfl⟩
  · rw [if_neg hid] at h ⊢
    rw [if_neg hid, sendMessage_ready hdata h]
    exact ⟨[], rfl⟩

theorem Ready.recipients (h : Ready b) (clientId : String) :
    ∀ u ∈ b.recipients clientId, (b.session u).subRequested = true := by
  have hclient : ∀ id u, b.getClient id = some u → (b.session u).subRequested = true :=
    fun id u hu => h u (List.mem_of_find?_eq_some hu)
  intro u hu
  unfold Broker.recipients at hu
  split at hu
  · obtain ⟨c, -, hc⟩ := List.mem_filterMap.mp hu
    exact hclient _ u hc
  · exact hclient _ u (Option.mem_toList.mp hu)

theorem broker_ready (h : Ready b) {task : MqttTask} {r : Dispatched L}
    (hr : mqttEndPointWriter task b = some r) : r.broker = b.putBack (copies b task) task := by
  by_cases hdata : task.data = []
  · rw [mqttEndPointWriter, if_pos hdata] at hr
    obtain rfl := Option.some.inj hr
    simp [copies, refusals, hdata, Broker.putBack_zero]
  · obtain ⟨called, hready⟩ := mqttEndPointWriter_ready hdata (h.recipients task.clientId)
    obtain rfl := Option.some.inj (hready.symm.trans hr)
    rfl

/-- The task at `i` leaves the queue and its refused copies come back. -/
theorem dispatch_ready (h : Ready b) {i : Nat} {b' : Broker L}
    (hd : Run.dispatch i b = some b') :
    ∃ task, b.mqttTaskQueue[i]? = some task ∧
      b' = { b with mqttTaskQueue :=
        b.mqttTaskQueue.eraseIdx i ++ List.replicate (copies b task) task } := by
  obtain ⟨task, r, ⟨htask, hr⟩, rfl⟩ := Run.dispatch_eq_some.mp hd
  have hready : Ready { b with mqttTaskQueue := b.mqttTaskQueue.eraseIdx i } := h
  exact ⟨task, htask, broker_ready hready hr⟩

/-! ## The result -/

/-- One dispatch of the task at an index of the queue. -/
def step (b : Broker L) (i : Nat) : Option (Broker L) := Run.dispatch i b

/-- Dispatches never lengthen the queue, come to an end, and end with it empty. -/
structure Drains (b : Broker L) : Prop where
  never_longer : ∀ es b₁ i b₂, Machine.run step b es = some b₁ → step b₁ i = some b₂ →
    b₂.mqttTaskQueue.length ≤ b₁.mqttTaskQueue.length
  finite : ∃ n, ∀ es b', Machine.run step b es = some b' → es.length ≤ n
  emptied : ∀ es b', Machine.run step b es = some b' → (∀ i, step b' i = none) →
    b'.mqttTaskQueue = []

/-- Nothing of the queue would come back. -/
def Quiet (b : Broker L) : Prop := Ready b ∧ ∀ task ∈ b.mqttTaskQueue, copies b task = 0

/-- A task of the queue would come back. -/
def Clogged (b : Broker L) : Prop := Ready b ∧ ∃ task ∈ b.mqttTaskQueue, copies b task ≠ 0

theorem step_quiet {b' : Broker L} {i : Nat} (hb : Quiet b) (hs : step b i = some b') :
    Quiet b' ∧ b'.mqttTaskQueue.length < b.mqttTaskQueue.length := by
  obtain ⟨task, htask, rfl⟩ := dispatch_ready hb.1 hs
  obtain ⟨hi, -⟩ := List.getElem?_eq_some_iff.mp htask
  have hzero := hb.2 task (List.mem_of_getElem? htask)
  simp only [hzero, List.replicate_zero, List.append_nil]
  refine ⟨⟨hb.1, fun other hother => hb.2 other (List.mem_of_mem_eraseIdx hother)⟩, ?_⟩
  rw [List.length_eraseIdx_of_lt hi]
  omega

/-- The task that would come back does. -/
theorem step_clogged (hb : Clogged b) : ∃ i b', step b i = some b' ∧ Clogged b' := by
  obtain ⟨hready, task, hmem, hne⟩ := hb
  obtain ⟨i, hi⟩ := List.mem_iff_getElem?.mp hmem
  obtain ⟨r, hr⟩ := Run.exists_dispatches hi
  have hs : step b i = some r.broker := Run.dispatch_eq_some.mpr ⟨task, r, hr, rfl⟩
  obtain ⟨task', htask', hb'⟩ := dispatch_ready hready hs
  obtain rfl := Option.some.inj (hi.symm.trans htask')
  refine ⟨i, _, hs, hb' ▸ ⟨hready, task, ?_, hne⟩⟩
  exact List.mem_append_right _ (List.mem_replicate.mpr ⟨hne, rfl⟩)

/-- No task stops a writer. -/
theorem exists_step {b : Broker L} (h : b.mqttTaskQueue ≠ []) : ∃ i b', step b i = some b' := by
  obtain ⟨task, rest, hqueue⟩ := List.exists_cons_of_ne_nil h
  have htask : b.mqttTaskQueue[0]? = some task := by simp [hqueue]
  obtain ⟨r, hr⟩ := Run.exists_dispatches htask
  exact ⟨0, r.broker, Run.dispatch_eq_some.mpr ⟨task, r, hr, rfl⟩⟩

/-- **Draining**, for every queue, every set of sessions and every registry. -/
theorem drains_iff (hready : Ready b) :
    Drains b ↔ ∀ task ∈ b.mqttTaskQueue,
      task.data.length ≤ 1024 ∨ b.recipients task.clientId = [] := by
  simp only [← copies_eq_zero_iff]
  constructor
  · rintro ⟨-, ⟨n, hn⟩, -⟩ task hmem
    by_contra hne
    have hclogged : Clogged b := ⟨hready, task, hmem, hne⟩
    obtain ⟨es, b', hlen, hr, -⟩ :=
      Machine.exists_run_of_length (fun _ => step_clogged) hclogged (n + 1)
    have hle := hn es b' hr
    omega
  · intro hquiet
    have hb : Quiet b := ⟨hready, hquiet⟩
    have hkeeps : ∀ (b : Broker L) i b', Quiet b → step b i = some b' → Quiet b' :=
      fun b i b' hb hs => (step_quiet hb hs).1
    refine ⟨fun es b₁ i b₂ hr hs => ?_, ⟨b.mqttTaskQueue.length, fun es b' hr => ?_⟩, ?_⟩
    · have hb₁ := Machine.reachable_invariant hkeeps hb ⟨es, hr⟩
      exact (step_quiet hb₁ hs).2.le
    · have hle := Machine.length_le_of_measure (μ := fun b : Broker L => b.mqttTaskQueue.length)
        hkeeps (fun b i b' hb hs => (step_quiet hb hs).2) hb hr
      omega
    · intro es b' _ hstuck
      by_contra hne
      obtain ⟨i, b'', hs⟩ := exists_step hne
      rw [hstuck i] at hs
      cases hs

/-! ## Two subscribers -/

/-- Sessions 1 and 2 have the ids "a" and "b" and have subscribed to "GPS". -/
def subscribed (queue : List MqttTask) : Broker Wire.libraries where
  session s := { MqttSession.new with
    connectedClient := ⟨"", 0, 0, if s = 1 then "a" else "b", ""⟩, subRequested := true }
  mqttClients := [1, 2]
  topicList := [⟨"GPS", [], [1, 2]⟩]
  mqttTaskQueue := queue
  ddsTaskQueue := []
  taskCount := 1
  clientNo := 2
  brokerCache := []
  log := []

/-- A task for every subscriber with so many bytes. -/
def sized (n : Nat) : MqttTask := ⟨0, 0, List.replicate n 0x30, broadcastId⟩

theorem ready_subscribed (queue : List MqttTask) : Ready (subscribed queue) := fun _ _ => rfl

theorem largest_drains : Drains (subscribed [sized 1024]) := by
  refine (drains_iff (ready_subscribed _)).mpr fun task hmem => .inl ?_
  rw [List.mem_singleton.mp hmem, sized, List.length_replicate]

/-- Both subscribers refuse the task, and the queue has it twice. -/
theorem oversized_not_drains :
    Ready (subscribed [sized 1025]) ∧
      (∃ b', step (subscribed [sized 1025]) 0 = some b' ∧
        b'.mqttTaskQueue = [sized 1025, sized 1025]) ∧
      ¬ Drains (subscribed [sized 1025]) := by
  have hready := ready_subscribed [sized 1025]
  have hlong : refusals (sized 1025) = 1 := by
    simp only [refusals, sized, List.length_replicate]
    decide
  have htwo : copies (subscribed [sized 1025]) (sized 1025) = 2 := by
    rw [copies, hlong]
    decide
  obtain ⟨i, b', hs⟩ := exists_step (b := subscribed [sized 1025]) (by simp [subscribed])
  obtain ⟨task, htask, rfl⟩ := dispatch_ready hready hs
  obtain ⟨rfl, rfl⟩ : i = 0 ∧ task = sized 1025 := by
    cases i with
    | zero => exact ⟨rfl, (Option.some.inj htask).symm⟩
    | succ i => cases htask
  rw [htwo] at hs
  refine ⟨hready, ⟨_, hs, rfl⟩, ?_⟩
  intro hdrains
  have hle := hdrains.never_longer [] _ 0 _ rfl hs
  exact absurd hle (by decide)

end Drain

end BddsBroker
