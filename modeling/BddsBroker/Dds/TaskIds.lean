import BddsBroker.Dds.Listener

/-! The ids of the tasks. `task_count` numbers the tasks of both queues. An `MQTT_task`
takes the number and counts on, so these ids are the numbers from zero on
(`mqtt_distinct`). A `Broker_task` takes the number without counting, and keeps it
in a `short`, so two of them have one id when no `MQTT_task` is enqueued between them, or
65536 of them, or any multiple. Exactly the runs where this does not happen keep the ids
apart (`distinct_iff`). -/

namespace BddsBroker.Dds

open Program

/-- The calls that make tasks. A sample is one that was taken from the reader. -/
inductive Call {L : Libraries} (C : Codec L)
  | messageProcess (s : SessionPtr) (recvData : List UInt8)
  | onDataAvailable (topicName : String) (globalQos : Int) (message : Message C.numbers)

/-- A call, and the topics with their subscribers that it finds. -/
structure Arrival {L : Libraries} (C : Codec L) where
  topicList : List (BrokerTopic L)
  call : Call C

namespace TaskIds

variable {L : Libraries} {C : Codec L}

/-! ## Runs -/

/-- An exception leaves what the listener did before it. -/
def handle (b : Broker L) : Call C → Option (Broker L)
  | .messageProcess s recvData => MqttSession.messageProcess L s recvData b
  | .onDataAvailable topicName globalQos message =>
      match onDataAvailable C topicName globalQos message ⟨b, ""⟩ with
      | .ok _ f => some f.broker
      | .error _ f => some f.broker

/-- The number of `MQTT_task`s that the call enqueues before it makes a `Broker_task`, if
it makes one. -/
def enqueuedBefore (b : Broker L) : Call C → Option Nat
  | .messageProcess s recvData => (MqttSession.handsOver L s b recvData).map Prod.fst
  | .onDataAvailable _ _ message => (encode C.json message).toOption.map fun _ => 0

/-- Nothing is dispatched, so the queues hold every task that was enqueued. With each
`Broker_task` goes the number of `MQTT_task`s enqueued before it was made. -/
structure State (L : Libraries) where
  broker : Broker L
  made : List Nat

namespace State

def init : State L := ⟨Broker.init, []⟩

/-- The broker that the call finds. -/
def found (st : State L) (e : Arrival C) : Broker L := { st.broker with topicList := e.topicList }

/-- How many `MQTT_task`s come before the `Broker_task` that the call makes. -/
def makes (st : State L) (e : Arrival C) : Option Nat :=
  (enqueuedBefore (st.found e) e.call).map (st.broker.mqttTaskQueue.length + ·)

end State

def step (st : State L) (e : Arrival C) : Option (State L) :=
  (handle (st.found e) e.call).map fun b => ⟨b, st.made ++ (st.makes e).toList⟩

/-- `get_task_id` of the tasks that were enqueued. -/
structure Distinct (b : Broker L) : Prop where
  mqtt : (b.mqttTaskQueue.map MqttTask.taskId).Nodup
  dds : (b.ddsTaskQueue.map BrokerTask.taskId).Nodup

/-- The call makes no `Broker_task` when the number of `MQTT_task`s enqueued since an earlier
one is a multiple of 65536, zero included. -/
def Apart (st : State L) (e : Arrival C) : Prop :=
  ∀ n, st.makes e = some n → ∀ k ∈ st.made, ¬ (65536 : Int) ∣ n - k

/-! ## Tasks for MQTT -/

/-- A task takes the number of the counter, which counts on. -/
inductive Counts : Broker L → Broker L → Prop
  | enqueue (b : Broker L) (task : MqttTask) (hid : task.taskId = b.taskCount) :
      Counts b (b.countTask.enqueueMqtt task)
  | other {b b' : Broker L} (hcount : b'.taskCount = b.taskCount)
      (hqueue : b'.mqttTaskQueue = b.mqttTaskQueue) : Counts b b'

/-- The ids are the numbers below the counter. -/
structure Numbered (b : Broker L) : Prop where
  count : b.taskCount = b.mqttTaskQueue.length
  ids : b.mqttTaskQueue.map MqttTask.taskId =
    (List.range b.mqttTaskQueue.length).map Int.ofNat

theorem Counts.numbered {b b' : Broker L} (h : Counts b b') (hb : Numbered b) : Numbered b' := by
  cases h with
  | enqueue task hid =>
    constructor
    · simp [hb.count]
    · simp [hb.ids, hid, hb.count, List.range_succ]
  | other hcount hqueue =>
    constructor
    · rw [hcount, hqueue, hb.count]
    · rw [hqueue, hb.ids]

theorem numbered_run {b b' : Broker L} (h : Relation.ReflTransGen Counts b b')
    (hb : Numbered b) : Numbered b' := by
  induction h with
  | refl => exact hb
  | tail _ hc ih => exact hc.numbered ih

theorem Numbered.nodup {b : Broker L} (hb : Numbered b) :
    (b.mqttTaskQueue.map MqttTask.taskId).Nodup := by
  rw [hb.ids]
  exact List.nodup_range.map fun _ _ h => Int.ofNat.inj h

theorem covers (s : SessionPtr) : MqttSession.Covers s (Counts (L := L)) where
  task b _ _ _ := .enqueue b _ rfl
  enqueueDds _ _ := .other rfl rfl
  subscribe _ _ := .other rfl rfl
  setRetainMessages _ := .other rfl rfl
  storePublish _ _ _ := .other rfl rfl
  erasePublish _ _ := .other rfl rfl

theorem connect_counts {s : SessionPtr} {recvData : List UInt8} :
    Makes (Counts (L := L)) True (MqttSession.connect L s recvData) := by
  refine (makes_setStatus _).bind fun _ => (makes_call _).bind fun temp => ?_
  refine Moves.bind (makes_change fun b => .other rfl rfl) fun _ => ?_
  refine Moves.bind (makes_change fun b => .other rfl rfl) fun _ => ?_
  refine Moves.bind (makes_change fun b => .other rfl rfl) fun _ => ?_
  refine (makes_call _).bind fun locator => makes_self.bind fun m => ?_
  refine (makes_call _).bind fun connack => (makes_call _).bind fun packet => ?_
  exact ((covers s).reply 4 packet).bind fun _ => makes_setStatus _

theorem messageProcess_numbered {s : SessionPtr} {recvData : List UInt8} {b b' : Broker L}
    (h : MqttSession.messageProcess L s recvData b = some b') (hb : Numbered b) :
    Numbered b' := by
  have hmakes : Makes (Counts (L := L)) True (MqttSession.body L s recvData) := by
    by_cases htype : packetType recvData = some .connect
    · unfold MqttSession.body
      rw [htype]
      exact connect_counts
    · exact (covers s).body_makes htype
  exact numbered_run (MqttSession.run_of_makes hmakes (fun _ _ => .other rfl rfl) h) hb

theorem distribute_numbered {packet : List UInt8} {b : Broker L} (hb : Numbered b) :
    Numbered (distribute packet b) := by
  unfold distribute
  split
  · clear * -hb
    generalize b.gpsSessions = clients
    induction clients generalizing b with
    | nil => exact hb
    | cons client clients ih =>
      let task : MqttTask := ⟨b.taskCount, 0, packet, b.clientId client⟩
      exact ih ((Counts.enqueue b task rfl).numbered hb)
  · exact hb

/-! ## What a call does -/

/-- What the listener leaves: the tasks of both queues, whether it stops or not. -/
theorem onDataAvailable_leaves (topicName : String) (globalQos : Int)
    (message : Message C.numbers) {b : Broker L} (hb : Numbered b) :
    Ends (onDataAvailable C topicName globalQos message) ⟨b, ""⟩
      (fun _ f => Numbered f.broker ∧ f.broker.ddsTaskQueue.map BrokerTask.taskId =
        b.ddsTaskQueue.map BrokerTask.taskId ++
          ((encode C.json message).toOption.map fun _ => b.taskCount.bmod 65536).toList)
      fun _ f => Numbered f.broker ∧ f.broker.ddsTaskQueue.map BrokerTask.taskId =
        b.ddsTaskQueue.map BrokerTask.taskId ++
          ((encode C.json message).toOption.map fun _ => b.taskCount.bmod 65536).toList := by
  rw [ends_onDataAvailable]
  cases encode C.json message with
  | error what => exact ⟨hb, by simp [Except.toOption]⟩
  | ok json =>
    have hmade : Numbered (b.enqueueDds (.make b.taskCount topicName json)) := ⟨hb.count, hb.ids⟩
    dsimp only
    split
    · exact ⟨hmade, by simp [Except.toOption, BrokerTask.make]⟩
    · refine ⟨distribute_numbered hmade, ?_⟩
      rw [ddsTaskQueue_forwardSample]
      simp [Except.toOption, BrokerTask.make]

theorem handle_leaves {b b' : Broker L} {call : Call C} (h : handle b call = some b')
    (hb : Numbered b) :
    Numbered b' ∧ b'.ddsTaskQueue.map BrokerTask.taskId =
      b.ddsTaskQueue.map BrokerTask.taskId ++
        ((enqueuedBefore b call).map fun n : Nat => (b.taskCount + n).bmod 65536).toList := by
  cases call with
  | messageProcess s recvData =>
    refine ⟨messageProcess_numbered h hb, ?_⟩
    rw [MqttSession.messageProcess_handsOver h, List.map_append, enqueuedBefore]
    cases MqttSession.handsOver L s b recvData <;> rfl
  | onDataAvailable topicName globalQos message =>
    have hleaves := onDataAvailable_leaves topicName globalQos message hb
    unfold Ends at hleaves
    rw [handle] at h
    rw [enqueuedBefore]
    cases hr : onDataAvailable C topicName globalQos message ⟨b, ""⟩ with
    | ok a f =>
      rw [hr] at h hleaves
      obtain rfl := Option.some.inj h
      simpa [Option.map_map, Function.comp_def] using hleaves
    | error e f =>
      rw [hr] at h hleaves
      obtain rfl := Option.some.inj h
      simpa [Option.map_map, Function.comp_def] using hleaves

/-- A call that makes a `Broker_task` comes to its end. -/
theorem exists_handle {b : Broker L} {call : Call C} {n : Nat}
    (h : enqueuedBefore b call = some n) : ∃ b', handle b call = some b' := by
  cases call with
  | messageProcess s recvData =>
    obtain ⟨handed, hhanded, -⟩ := Option.map_eq_some_iff.mp h
    exact MqttSession.exists_messageProcess_of_handsOver hhanded
  | onDataAvailable topicName globalQos message =>
    rw [handle]
    split <;> exact ⟨_, rfl⟩

/-! ## Tasks for DDS -/

/-- What the `short` keeps of the number. -/
def shortId (k : Nat) : Int := (k : Int).bmod 65536

/-- The ids of the `Broker_task`s, by how many `MQTT_task`s came before. -/
structure Marked (st : State L) : Prop where
  numbered : Numbered st.broker
  ids : st.broker.ddsTaskQueue.map BrokerTask.taskId = st.made.map shortId

theorem marked_init : Marked (State.init : State L) where
  numbered := ⟨rfl, rfl⟩
  ids := rfl

theorem marked_step {st st' : State L} {e : Arrival C} (hst : Marked st)
    (hs : step st e = some st') : Marked st' := by
  obtain ⟨b, hb, rfl⟩ := Option.map_eq_some_iff.mp hs
  have hfound : Numbered (st.found e) := ⟨hst.numbered.count, hst.numbered.ids⟩
  obtain ⟨hnumbered, hids⟩ := handle_leaves hb hfound
  refine ⟨hnumbered, ?_⟩
  have hcount : (st.found e).taskCount = st.broker.mqttTaskQueue.length := hst.numbered.count
  rw [hids, List.map_append, hcount]
  show st.broker.ddsTaskQueue.map BrokerTask.taskId ++ _ = _
  rw [hst.ids]
  unfold State.makes
  cases enqueuedBefore (st.found e) e.call <;> rfl

theorem reachable_marked {st : State L} (hr : Machine.Reachable (step (C := C)) State.init st) :
    Marked st :=
  Machine.reachable_invariant (fun _ _ _ => marked_step) marked_init hr

/-- The ids of the `MQTT_task`s are distinct in every run. -/
theorem mqtt_distinct {st : State L} (hr : Machine.Reachable (step (C := C)) State.init st) :
    (st.broker.mqttTaskQueue.map MqttTask.taskId).Nodup :=
  (reachable_marked hr).numbered.nodup

theorem shortId_eq_iff (n k : Nat) : shortId n = shortId k ↔ (65536 : Int) ∣ n - k := by
  unfold shortId
  rw [Int.bmod_eq_bmod_iff_bmod_sub_eq_zero, ← Int.dvd_iff_bmod_eq_zero]
  rfl

/-- One more id is a new one exactly if it is kept apart. -/
theorem nodup_snoc_iff {made : List Nat} (h : (made.map shortId).Nodup) (n : Nat) :
    ((made ++ [n]).map shortId).Nodup ↔ ∀ k ∈ made, ¬ (65536 : Int) ∣ n - k := by
  rw [List.map_append, List.map_singleton, ← List.concat_eq_append, List.nodup_concat,
    List.mem_map]
  constructor
  · rintro ⟨hnew, -⟩ k hk hdvd
    exact hnew ⟨k, hk, ((shortId_eq_iff n k).mpr hdvd).symm⟩
  · intro hapart
    refine ⟨?_, h⟩
    rintro ⟨k, hk, heq⟩
    exact hapart k hk ((shortId_eq_iff n k).mp heq.symm)

/-- A state that was reached with all ids apart. -/
structure Kept (st : State L) : Prop extends Marked st where
  nodup : (st.made.map shortId).Nodup

theorem Kept.distinct {st : State L} (h : Kept st) : Distinct st.broker where
  mqtt := h.numbered.nodup
  dds := by
    rw [h.ids]
    exact h.nodup

theorem kept_step {st st' : State L} {e : Arrival C} (hst : Kept st) (hc : Apart st e)
    (hs : step st e = some st') : Kept st' := by
  refine ⟨marked_step hst.toMarked hs, ?_⟩
  obtain ⟨b, hb, rfl⟩ := Option.map_eq_some_iff.mp hs
  show ((st.made ++ (st.makes e).toList).map shortId).Nodup
  cases hmakes : st.makes e with
  | none => simpa using hst.nodup
  | some n => exact (nodup_snoc_iff hst.nodup n).mpr (hc n hmakes)

/-- A call that repeats an id does so in the state after it. -/
theorem apart_of_distinct {st : State L} {e : Arrival C} (hst : Kept st)
    (h : ∀ st', step st e = some st' → Distinct st'.broker) : Apart st e := by
  intro n hn
  obtain ⟨m, hm, -⟩ := Option.map_eq_some_iff.mp hn
  obtain ⟨b, hb⟩ := exists_handle hm
  have hs : step st e = some ⟨b, st.made ++ [n]⟩ := by
    unfold step
    rw [hb, hn]
    rfl
  have hnodup := (h _ hs).dds
  rw [(marked_step hst.toMarked hs).ids] at hnodup
  exact (nodup_snoc_iff hst.nodup n).mp hnodup

/-- **Task ids.** The ids of the `MQTT_task`s and of the `Broker_task`s are distinct
throughout the run exactly if no `Broker_task` is made when a multiple of 65536
`MQTT_task`s have been enqueued since an earlier one. -/
theorem distinct_iff (arrivals : List (Arrival C)) :
    (∀ before st, before <+: arrivals → Machine.run step State.init before = some st →
      Distinct st.broker) ↔ Machine.Along step Apart State.init arrivals :=
  Machine.forall_good_iff_along (fun _ h => h.distinct) (fun _ _ _ => kept_step)
    (fun _ _ => apart_of_distinct) ⟨marked_init, List.nodup_nil⟩ arrivals

/-- A sample that nobody has subscribed to. -/
def unsubscribed : Arrival Wire.codec := ⟨[], .onDataAvailable "GPS" 0 vehicle⟩

/-- It is numbered without counting on. -/
theorem step_unsubscribed {st : State Wire.libraries} (h : st.broker.mqttTaskQueue = []) :
    ∃ st', step st unsubscribed = some st' ∧ st'.broker.mqttTaskQueue = [] ∧
      st'.made = st.made ++ [0] := by
  have hjson : encode Wire.codec.json vehicle = .ok vehicleJson := encode_vehicle
  obtain ⟨packet, hpacket⟩ : ∃ packet,
      (Wire.codec.generateDefaultPublish vehicle.subjectId "GPS" vehicleJson 0 >>=
        fun p => Wire.libraries.convertPublishIntoPacket p []) = .ok packet := ⟨_, rfl⟩
  have hmakes : st.makes unsubscribed = some 0 := by
    have hbefore : enqueuedBefore (st.found unsubscribed) unsubscribed.call = some 0 := by
      show (encode Wire.codec.json vehicle).toOption.map (fun _ => 0) = some 0
      rw [hjson]
      rfl
    rw [State.makes, hbefore, h]
    rfl
  have hhandle : handle (st.found unsubscribed) unsubscribed.call =
      some (forwardSample "GPS" vehicleJson packet (st.found unsubscribed)) := by
    show (match onDataAvailable Wire.codec "GPS" 0 vehicle ⟨_, ""⟩ with
      | .ok _ f => some f.broker
      | .error _ f => some f.broker) = _
    rw [onDataAvailable_forwardSample hjson hpacket]
  have hstep : step st unsubscribed =
      some ⟨forwardSample "GPS" vehicleJson packet (st.found unsubscribed), st.made ++ [0]⟩ := by
    rw [step, hhandle, hmakes]
    rfl
  exact ⟨_, hstep, h, rfl⟩

/-- Two samples that nobody has subscribed to have one id. -/
theorem two_samples_not_distinct :
    ¬ ∀ before st, before <+: [unsubscribed, unsubscribed] →
      Machine.run step State.init before = some st → Distinct st.broker := by
  intro h
  have hinit : (State.init : State Wire.libraries).broker.mqttTaskQueue = [] := rfl
  obtain ⟨st₁, hs₁, hqueue, hmade₁⟩ := step_unsubscribed hinit
  obtain ⟨st₂, hs₂, -, hmade₂⟩ := step_unsubscribed hqueue
  have hmarked : Marked st₂ := marked_step (marked_step marked_init hs₁) hs₂
  have hnodup : (st₂.made.map shortId).Nodup := by
    rw [← hmarked.ids]
    refine (h _ st₂ (List.prefix_refl _) ?_).dds
    exact Machine.run_cons_eq_some.mpr ⟨st₁, hs₁, Machine.run_cons_eq_some.mpr ⟨st₂, hs₂, rfl⟩⟩
  rw [hmade₂, hmade₁] at hnodup
  revert hnodup
  decide

end TaskIds

end BddsBroker.Dds
