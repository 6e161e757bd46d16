import BddsBroker.Dds.Listener
import BddsBroker.Dds.Publisher
import BddsBroker.Lib.Lists

/-! From MQTT to DDS. A session puts a forwarded message into the DDS queue under the topic
it was published on, and the listener puts a sample there under the topic of the broker.
`work` has one DDS topic, takes the tasks of all of them and writes their samples: nothing
calls `get_topic`, and `check_topic` allows everything. So the topics stay apart in the runs
in which no task with another topic and a well-formed payload is taken
(`topics_apart_iff`). -/

namespace BddsBroker.Dds.Bridge

open PropertyTree Program

variable {L : Libraries} {N : Numbers} {J : Json}

/-- A sample that `work` wrote, its task, and the topic that an MQTT client published it on.
No code reads this topic. -/
structure Write (N : Numbers) where
  task : BrokerTask
  source : Option String
  message : Message N

structure State (L : Libraries) (N : Numbers) where
  broker : Broker L
  /-- Of the tasks in the DDS queue. -/
  sources : List (Option String)
  written : List (Write N)
  /-- An exception has left `work`, and the process has ended. -/
  ended : Bool

def init : State L N := ⟨.init, [], [], false⟩

inductive Event
  | broker (e : Run.Event)
  /-- `work` takes the task at `i`. -/
  | write (i : Nat)
  deriving DecidableEq, Repr

/-- The topic that the tasks of a step were published on. -/
def source (b : Broker L) : Run.Event → Option String
  | .packet s recvData => MqttSession.publishedOn L s b recvData
  | _ => none

def brokerStep (st : State L N) (e : Run.Event) : Option (State L N) :=
  (Run.step st.broker e).map fun b =>
    { st with
      broker := b
      sources := st.sources ++
        List.replicate (b.ddsTaskQueue.length - st.broker.ddsTaskQueue.length)
          (source st.broker e) }

/-- The body of the loop in `work`. -/
def writeStep (J : Json) (st : State L N) (i : Nat) : Option (State L N) :=
  match st.broker.ddsTaskQueue[i]?, st.sources[i]? with
  | some task, some source =>
      let st := { st with
        broker := { st.broker with ddsTaskQueue := st.broker.ddsTaskQueue.eraseIdx i }
        sources := st.sources.eraseIdx i }
      match decode J task.data with
      | .error _ => some { st with ended := true }
      | .ok message => some { st with written := st.written ++ [⟨task, source, message⟩] }
  | _, _ => none

def step (J : Json) (st : State L N) (e : Event) : Option (State L N) :=
  if st.ended then none
  else
    match e with
    | .broker e => brokerStep st e
    | .write i => writeStep J st i

/-- Every sample that was written comes from a task of that topic, and no message was
published on another one. -/
def Apart (topicName : String) (st : State L N) : Prop :=
  ∀ w ∈ st.written, w.task.topic = topicName ∧ ∀ name, w.source = some name → name = topicName

/-- A task with a well-formed payload that `work` takes has the topic. -/
def Condition (J : Json) (topicName : String) (st : State L N) : Event → Prop
  | .write i => st.ended = false → ∀ task, st.broker.ddsTaskQueue[i]? = some task →
      WellFormed N J task.data → task.topic = topicName
  | .broker _ => True

/-- `work` writes the sample of a well-formed payload, whatever the task's topic. -/
theorem step_write {st : State L N} {i : Nat} {task : BrokerTask} {src : Option String}
    {message : Message N} (hended : st.ended = false)
    (htask : st.broker.ddsTaskQueue[i]? = some task) (hsrc : st.sources[i]? = some src)
    (hmessage : decode J task.data = .ok message) :
    step J st (.write i) = some { st with
      broker := { st.broker with ddsTaskQueue := st.broker.ddsTaskQueue.eraseIdx i }
      sources := st.sources.eraseIdx i
      written := st.written ++ [⟨task, src, message⟩] } := by
  simp [step, hended, writeStep, htask, hsrc, hmessage]

/-! ## The loop of `work` -/

/-- Taking the first tasks is what `work` does with them. -/
theorem run_work {tasks rest : List BrokerTask} {st : State L N} {written : List (Message N)}
    (hqueue : st.broker.ddsTaskQueue = tasks ++ rest) (hsources : tasks.length ≤ st.sources.length)
    (hended : st.ended = false)
    (h : work J tasks (st.written.map Write.message) = .ok () written) :
    ∃ st', Machine.run (step J) st (List.replicate tasks.length (.write 0)) = some st' ∧
      st'.written.map Write.message = written ∧ st'.broker.ddsTaskQueue = rest := by
  induction tasks generalizing st with
  | nil =>
    refine ⟨st, rfl, ?_, hqueue⟩
    obtain ⟨-, hwritten⟩ := EStateM.Result.ok.inj h
    exact hwritten
  | cons task tasks ih =>
    obtain ⟨message, hdecode⟩ :=
      (decode_ok_iff J task.data).mpr (wellFormed_of_work h task List.mem_cons_self)
    obtain ⟨src, sources, hsrc⟩ : ∃ src sources, st.sources = src :: sources := by
      cases hs : st.sources with
      | nil => simp [hs] at hsources
      | cons src sources => exact ⟨src, sources, rfl⟩
    rw [work_cons_ok hdecode] at h
    let m : State L N := { st with
      broker := { st.broker with ddsTaskQueue := tasks ++ rest }
      sources := sources
      written := st.written ++ [⟨task, src, message⟩] }
    have hstep : step J st (.write 0) = some m := by
      rw [step_write hended (by rw [hqueue]; rfl) (by rw [hsrc]; rfl) hdecode, hqueue, hsrc]
      rfl
    have hlength : tasks.length ≤ m.sources.length := by
      rw [hsrc, List.length_cons, List.length_cons] at hsources
      exact Nat.le_of_succ_le_succ hsources
    have hleft : m.broker.ddsTaskQueue = tasks ++ rest := rfl
    obtain ⟨st', hrun, hwritten, hrest⟩ := ih hleft hlength hended (by simpa [m] using h)
    exact ⟨st', Machine.run_cons_eq_some.mpr ⟨m, hstep, hrun⟩, hwritten, hrest⟩

/-! ## Where tasks come from -/

/-- The task of a message has the topic that the message was published on. -/
structure Sourced (st : State L N) : Prop where
  length : st.sources.length = st.broker.ddsTaskQueue.length
  topics : ∀ p ∈ st.sources.zip st.broker.ddsTaskQueue, ∀ name, p.1 = some name →
    p.2.topic = name

theorem ddsTasks_step {b b' : Broker L} {e : Run.Event} (hs : Run.step b e = some b') :
    ∃ tasks, b'.ddsTaskQueue = b.ddsTaskQueue ++ tasks ∧
      ∀ task ∈ tasks, ∀ name, source b e = some name → task.topic = name := by
  cases e with
  | packet s recvData =>
    obtain ⟨-, hproc⟩ := Run.step_packet hs
    obtain ⟨tasks, -, hqueue, htopic⟩ := MqttSession.messageProcess_ddsTasks hproc
    refine ⟨tasks, hqueue, ?_⟩
    intro task htask name hname
    exact Option.some.inj ((htopic task htask).symm.trans hname)
  | sample topicName json packet =>
    obtain rfl := Option.some.inj hs
    refine ⟨[_], ddsTaskQueue_forwardSample topicName json packet b, ?_⟩
    intro _ _ _ hname
    cases hname
  | accept | dispatch | addClient =>
    obtain ⟨tasks, -, hqueue⟩ := ddsTaskQueue_step (by simp) hs
    refine ⟨tasks, hqueue, ?_⟩
    intro _ _ _ hname
    cases hname

theorem sourced_brokerStep {st st' : State L N} {e : Run.Event} (hst : Sourced st)
    (hs : brokerStep st e = some st') : Sourced st' := by
  obtain ⟨b, hb, rfl⟩ := Option.map_eq_some_iff.mp hs
  obtain ⟨tasks, hqueue, htopics⟩ := ddsTasks_step hb
  have hlength : b.ddsTaskQueue.length - st.broker.ddsTaskQueue.length = tasks.length := by
    rw [hqueue, List.length_append]
    omega
  rw [hlength]
  refine ⟨by simp [hqueue, hst.length], ?_⟩
  rw [hqueue, List.zip_append hst.length]
  refine List.forall_mem_append.mpr ⟨hst.topics, ?_⟩
  rintro ⟨src, task⟩ hp name rfl
  obtain ⟨hsrc, htask⟩ := List.of_mem_zip hp
  exact htopics task htask name (List.eq_of_mem_replicate hsrc).symm

theorem sourced_erase {st : State L N} (hst : Sourced st) (i : Nat) :
    Sourced { st with
      broker := { st.broker with ddsTaskQueue := st.broker.ddsTaskQueue.eraseIdx i }
      sources := st.sources.eraseIdx i } := by
  refine ⟨by simp [List.length_eraseIdx, hst.length], ?_⟩
  show ∀ p ∈ (st.sources.eraseIdx i).zip (st.broker.ddsTaskQueue.eraseIdx i), _
  rw [Lists.zip_eraseIdx]
  exact fun p hp => hst.topics p (List.mem_of_mem_eraseIdx hp)

/-! ## Every run -/

variable {topicName : String}

/-- What a step of `work` does. -/
theorem writeStep_eq_some {st st' : State L N} {i : Nat} (hs : writeStep J st i = some st') :
    ∃ task src, st.broker.ddsTaskQueue[i]? = some task ∧ st.sources[i]? = some src ∧
      (st'.written = st.written ∨ ∃ message, decode J task.data = .ok message ∧
        st'.written = st.written ++ [⟨task, src, message⟩]) ∧
      (Sourced st → Sourced st') := by
  unfold writeStep at hs
  split at hs
  · rename_i task src htask hsrc
    refine ⟨task, src, htask, hsrc, ?_⟩
    dsimp only at hs
    split at hs
    · obtain rfl := Option.some.inj hs
      refine ⟨.inl rfl, ?_⟩
      intro hst
      have herase := sourced_erase hst i
      exact ⟨herase.length, herase.topics⟩
    · rename_i message hmessage
      obtain rfl := Option.some.inj hs
      refine ⟨.inr ⟨message, hmessage, rfl⟩, ?_⟩
      intro hst
      have herase := sourced_erase hst i
      exact ⟨herase.length, herase.topics⟩
  · cases hs

/-- **Invariant.** A step under the condition keeps the topics apart. -/
theorem step_apart {st st' : State L N} {e : Event} (hst : Sourced st ∧ Apart topicName st)
    (hc : Condition J topicName st e) (hs : step J st e = some st') :
    Sourced st' ∧ Apart topicName st' := by
  obtain ⟨hsourced, hapart⟩ := hst
  simp only [step, Option.ite_none_left_eq_some] at hs
  obtain ⟨hended, hs⟩ := hs
  cases e with
  | broker e =>
    refine ⟨sourced_brokerStep hsourced hs, ?_⟩
    obtain ⟨b, -, rfl⟩ := Option.map_eq_some_iff.mp hs
    exact hapart
  | write i =>
    obtain ⟨task, src, htask, hsrc, hwritten, hkeeps⟩ := writeStep_eq_some hs
    refine ⟨hkeeps hsourced, ?_⟩
    rcases hwritten with hsame | ⟨message, hmessage, hnew⟩
    · unfold Apart
      rw [hsame]
      exact hapart
    · have hformed : WellFormed N J task.data := (decode_ok_iff J task.data).mp ⟨message, hmessage⟩
      have htopic := hc (Bool.eq_false_of_not_eq_true hended) task htask hformed
      unfold Apart
      rw [hnew]
      refine List.forall_mem_append.mpr ⟨hapart, List.forall_mem_singleton.mpr ⟨htopic, ?_⟩⟩
      intro name hname
      have hmem : (src, task) ∈ st.sources.zip st.broker.ddsTaskQueue :=
        List.mem_of_getElem? (List.getElem?_zip_eq_some.mpr ⟨hsrc, htask⟩)
      rw [← htopic]
      exact (hsourced.topics _ hmem name hname).symm

/-- A step that leads to topics that are apart has met the condition. -/
theorem condition_of_apart {st : State L N} {e : Event} (hsourced : Sourced st)
    (h : ∀ st', step J st e = some st' → Apart topicName st') : Condition J topicName st e := by
  cases e with
  | broker e => trivial
  | write i =>
    intro hended task htask hformed
    obtain ⟨message, hmessage⟩ := (decode_ok_iff (N := N) J task.data).mpr hformed
    have hlt : i < st.sources.length := by
      rw [hsourced.length]
      exact (List.getElem?_eq_some_iff.mp htask).1
    have hstep := step_write hended htask (List.getElem?_eq_getElem hlt) hmessage
    exact (h _ hstep _ (List.mem_append_right _ (List.mem_singleton_self _))).1

/-- **Topics stay apart** in every state of a run exactly if every task with a well-formed
payload that `work` takes has its topic. -/
theorem topics_apart_iff (J : Json) (topicName : String) (es : List Event) :
    (∀ fs st, fs <+: es → Machine.run (step J) (init : State L N) fs = some st →
        Apart topicName st) ↔
      Machine.Along (step J) (Condition J topicName) (init : State L N) es := by
  refine Machine.forall_good_iff_along (I := fun st => Sourced st ∧ Apart topicName st)
    (fun st hst => hst.2) (fun _ _ _ => step_apart) (fun st e hst => condition_of_apart hst.1) ?_ es
  exact ⟨⟨rfl, by simp [init]⟩, by simp [Apart, init]⟩

/-! ## A position on another topic -/

theorem text_bytesOf {chars : List Char} (h : ∀ c ∈ chars, c.toNat < 128) :
    BddsBroker.Wire.text (Wire.bytesOf (String.ofList chars)) = String.ofList chars := by
  unfold BddsBroker.Wire.text Wire.bytesOf
  rw [String.toList_ofList, List.map_map]
  congr 1
  refine (List.map_congr_left fun c hc => ?_).trans (List.map_id chars)
  have hc := h c hc
  simp [Nat.mod_eq_of_lt (show c.toNat < 256 by omega)]

def vehicleChars : List Char := (JsonText.pieces 16 0 (toTree vehicle)).flatMap JsonText.render ++
  ['\n']

theorem text_vehicleJson :
    BddsBroker.Wire.text (Wire.bytesOf vehicleJson) = vehicleJson := by
  have hascii : vehicleChars.all (fun c => c.toNat < 128) = true := by decide +kernel
  rw [vehicleJson, JsonText.textOfTree]
  exact text_bytesOf fun c hc => by simpa using List.all_eq_true.mp hascii c hc

/-- PUBLISH of the position on "A". -/
def positionOnA : Wire.Publish := ⟨0, 0, Wire.bytesOf "A", Wire.bytesOf vehicleJson⟩

theorem decode_positionOnA : Wire.decodePublish (Wire.encodePublish positionOnA) = positionOnA := by
  have hbytes : Wire.bytesOf vehicleJson = vehicleChars.map fun c => UInt8.ofNat c.toNat := by
    unfold Wire.bytesOf
    rw [vehicleJson, JsonText.textOfTree, String.toList_ofList]
    rfl
  have hfields : (fun p : Wire.Publish => (p.qos, p.identifier, p.topicName, p.payload))
      (Wire.decodePublish (Wire.encodePublish
        ⟨0, 0, Wire.bytesOf "A", vehicleChars.map fun c => UInt8.ofNat c.toNat⟩)) =
      (0, 0, Wire.bytesOf "A", vehicleChars.map fun c => UInt8.ofNat c.toNat) := by
    decide +kernel
  have hext : ∀ {p : Wire.Publish} {topicName payload : List UInt8},
      (p.qos, p.identifier, p.topicName, p.payload) = (0, 0, topicName, payload) →
        p = ⟨0, 0, topicName, payload⟩ := by
    rintro ⟨qos, identifier, _, _⟩ _ _ h
    cases h
    rfl
  unfold positionOnA
  rw [hbytes]
  exact hext hfields

theorem packetType_encodePublish {p : Wire.Publish} (hqos : p.qos = 0) :
    packetType (Wire.encodePublish p) = some .publish := by
  unfold Wire.encodePublish packetType
  rw [hqos]
  simp only [List.cons_append, List.headD_cons]
  decide

theorem interpret_positionOnA :
    Wire.libraries.interpretPublishPacket (Wire.encodePublish positionOnA) = .ok positionOnA :=
  congrArg Except.ok decode_positionOnA

theorem topicName_positionOnA : Wire.libraries.publishTopicName positionOnA = "A" := by
  decide +kernel

/-- The session puts the position into the DDS queue. -/
theorem positionOnA_queued :
    ∃ b : Broker Wire.libraries,
      Run.step (Run.accept 1 .init) (.packet 1 (Wire.encodePublish positionOnA)) = some b ∧
      b.ddsTaskQueue = [.make 1 "A" vehicleJson] := by
  have htype := packetType_encodePublish (p := positionOnA) rfl
  have hqos : Wire.libraries.publishQos positionOnA = 0 := rfl
  have hack : MqttSession.directAck Wire.libraries positionOnA = .ok [] := by
    simp [MqttSession.directAck, hqos]
  have hconvert : Wire.libraries.convertPublishIntoPacket positionOnA [] =
      .ok (Wire.encodePublish positionOnA) := congrArg Except.ok (List.nil_append _)
  have htext : ∀ p : Wire.Publish,
      Wire.libraries.publishPayload p = BddsBroker.Wire.text p.payload := fun _ => rfl
  have hpayload : Wire.libraries.publishPayload positionOnA = vehicleJson := by
    rw [htext, positionOnA, text_vehicleJson]
  let b : Broker Wire.libraries := Run.accept 1 .init
  let b₁ := MqttSession.forwarded (MqttSession.acked b 1 positionOnA []) positionOnA
    (Wire.encodePublish positionOnA)
  have hprocess : MqttSession.messageProcess Wire.libraries 1 (Wire.encodePublish positionOnA) b =
      some b₁ := MqttSession.messageProcess_forward htype interpret_positionOnA
    (by rw [hqos]; decide) hack hconvert
  refine ⟨b₁, ?_, ?_⟩
  · rw [Run.step, if_pos (by decide), hprocess]
  · simp only [b₁, MqttSession.forwarded, MqttSession.acked, if_pos hqos, topicName_positionOnA,
      hpayload]
    rfl

/-- The position is written to "GPS". -/
theorem positionOnA_written :
    ∃ (st : State Wire.libraries wholeNumbers) (w : Write wholeNumbers),
      Machine.run (step JsonText.json) init [.broker (.accept 1),
        .broker (.packet 1 (Wire.encodePublish positionOnA)), .write 0] = some st ∧
      st.written = [w] ∧ w.source = some "A" ∧ w.task.topic = "A" ∧ w.message = vehicle ∧
      ¬ Apart "GPS" st := by
  let b : Broker Wire.libraries := Run.accept 1 .init
  obtain ⟨b₁, hstep, hqueue⟩ := positionOnA_queued
  have hsource : MqttSession.publishedOn Wire.libraries 1 b (Wire.encodePublish positionOnA) =
      some "A" := by
    simp only [MqttSession.publishedOn, packetType_encodePublish (p := positionOnA) rfl,
      interpret_positionOnA, Except.toOption]
    exact congrArg some topicName_positionOnA
  let task : BrokerTask := .make 1 "A" vehicleJson
  let st₁ : State Wire.libraries wholeNumbers := ⟨b, [], [], false⟩
  let st₂ : State Wire.libraries wholeNumbers := ⟨b₁, [some "A"], [], false⟩
  have haccept : step JsonText.json init (.broker (.accept 1)) = some st₁ := rfl
  have hpublish : step JsonText.json st₁
      (.broker (.packet 1 (Wire.encodePublish positionOnA))) = some st₂ := by
    have hstep' : Run.step b (.packet 1 (Wire.encodePublish positionOnA)) = some b₁ := hstep
    simp only [step, brokerStep, st₁, hstep', Option.map_some, hqueue, source, hsource]
    rfl
  have hfirst : st₂.broker.ddsTaskQueue[0]? = some task := by
    rw [hqueue]
    rfl
  have hsourceA : st₂.sources[0]? = some (some "A") := rfl
  have hwrite := step_write rfl hfirst hsourceA decode_vehicle
  refine ⟨_, ⟨task, some "A", vehicle⟩, Machine.run_cons_eq_some.mpr ⟨st₁, haccept,
    Machine.run_cons_eq_some.mpr ⟨st₂, hpublish, Machine.run_cons_eq_some.mpr ⟨_, hwrite, rfl⟩⟩⟩,
    rfl, rfl, rfl, rfl, fun hapart => ?_⟩
  have htopics := (hapart ⟨task, some "A", vehicle⟩ (List.mem_singleton_self _)).1
  exact absurd htopics (by decide)

end BddsBroker.Dds.Bridge
