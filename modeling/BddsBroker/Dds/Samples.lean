import BddsBroker.Dds.Loop

/-! Any number of calls of `on_data_available`. A call forwards whatever
`take_next_sample` gives it with `RETCODE_OK`: the test of `valid_data` is commented out
here, while `BrokerDataReaderListener` makes it. Every call is counted, also one that took
nothing, and a sample that comes after `max_retain_queue_message_count` calls ends the
process. So the valid samples, and only those, are forwarded and the process goes on exactly
if all samples are valid and there are few enough calls before each (`forwardsValid_iff`). -/

namespace BddsBroker.Dds.Samples

open Loop Program

variable {L : Libraries} {C : Codec L}

/-- What `take_next_sample` gives. -/
inductive Taken (N : Numbers)
  | error
  | ok (validData : Bool) (message : Message N)

/-- A call, and the broker that it finds. -/
structure Call (L : Libraries) (C : Codec L) where
  broker : Broker L
  taken : Taken C.numbers

/-- The tasks that a call enqueues. -/
structure Output where
  dds : List BrokerTask
  mqtt : List MqttTask
  deriving DecidableEq, Repr

def Output.between (b b' : Broker L) : Output where
  dds := b'.ddsTaskQueue.drop b.ddsTaskQueue.length
  mqtt := b'.mqttTaskQueue.drop b.mqttTaskQueue.length

/-- `on_data_available` with that `retained_message_count`: what it enqueues, and whether the
process goes on. An exception ends it, and so does the call of `exit`. -/
def onCall (cfg : Config) (retained : Int) (call : Call L C) : Output × Bool :=
  match call.taken with
  | .error => (⟨[], []⟩, true)
  | .ok _ message =>
      match onDataAvailable C cfg.sendTopicName cfg.globalQos message ⟨call.broker, ""⟩ with
      | .error _ f => (.between call.broker f.broker, false)
      | .ok _ f =>
          (.between call.broker f.broker, decide (retained < cfg.maxRetainQueueMessageCount))

/-- The calls in their order, and what each enqueues. The counter is an `int`, which is
taken to wrap round. -/
def calls (cfg : Config) : Int → List (Call L C) → List Output × Bool
  | _, [] => ([], true)
  | retained, call :: rest =>
      match onCall cfg retained call with
      | (output, true) =>
          let (outputs, running) := calls cfg ((retained + 1).bmod (2 ^ 32)) rest
          (output :: outputs, running)
      | (output, false) => ([output], false)

/-- One task for each subscriber of "GPS". -/
def subscriberTasks (packet : List UInt8) (b : Broker L) : List MqttTask :=
  b.gpsSessions.mapIdx fun k client => ⟨b.taskCount + k, 0, packet, b.clientId client⟩

/-- The sample can be written as JSON and as a PUBLISH. -/
def Encodes (C : Codec L) (cfg : Config) (message : Message C.numbers) (json : String)
    (packet : List UInt8) : Prop :=
  encode C.json message = .ok json ∧
    (C.generateDefaultPublish message.subjectId "GPS" json cfg.globalQos >>=
      fun p => L.convertPublishIntoPacket p []) = .ok packet

/-- What the call is to enqueue. -/
def Expected (cfg : Config) (call : Call L C) (output : Output) : Prop :=
  match call.taken with
  | .ok true message => ∃ json packet, Encodes C cfg message json packet ∧
      output = ⟨[.make call.broker.taskCount cfg.sendTopicName json],
        subscriberTasks packet call.broker⟩
  | _ => output = ⟨[], []⟩

/-- The valid samples and only those are forwarded, and the process is still running. -/
structure ForwardsValid (cfg : Config) (cs : List (Call L C)) : Prop where
  outputs : List.Forall₂ (Expected cfg) cs (calls cfg 0 cs).1
  running : (calls cfg 0 cs).2 = true

/-- A sample is valid, no library call throws for it, and the counter is below its limit. -/
def Meets (cfg : Config) (retained : Int) (call : Call L C) : Prop :=
  ∀ validData message, call.taken = .ok validData message →
    validData = true ∧ (∃ json packet, Encodes C cfg message json packet) ∧
      retained < cfg.maxRetainQueueMessageCount

/-! ## What a sample enqueues -/

theorem mqttTaskQueue_foldl (packet : List UInt8) (clients : List SessionPtr) (b : Broker L) :
    (clients.foldl (fun b client =>
        b.countTask.enqueueMqtt ⟨b.taskCount, 0, packet, b.clientId client⟩) b).mqttTaskQueue =
      b.mqttTaskQueue ++
        clients.mapIdx fun k client => ⟨b.taskCount + k, 0, packet, b.clientId client⟩ := by
  induction clients generalizing b with
  | nil => simp
  | cons client clients ih =>
    let b₁ := b.countTask.enqueueMqtt ⟨b.taskCount, 0, packet, b.clientId client⟩
    have hid : ∀ u, b₁.clientId u = b.clientId u := fun _ => rfl
    have hcount : ∀ k : Nat, b₁.taskCount + (k : Int) = b.taskCount + ((k + 1 : Nat) : Int) := by
      intro k
      show b.taskCount + 1 + (k : Int) = _
      omega
    rw [List.foldl_cons, ih b₁, List.mapIdx_cons]
    have hzero : b.taskCount + ((0 : Nat) : Int) = b.taskCount := Int.add_zero _
    simp only [hid, hcount, hzero, b₁, Broker.mqttTaskQueue_enqueueMqtt,
      Broker.mqttTaskQueue_countTask, List.append_assoc, List.singleton_append]

/-- Without a topic "GPS" there are no subscribers. -/
theorem gpsSessions_eq_nil {b : Broker L}
    (h : ¬ (Registry.findTopic "GPS" b.topicList).getSubTopicStr ≠ "null") :
    b.gpsSessions = [] := by
  unfold Broker.gpsSessions
  generalize b.topicList = topics at h ⊢
  induction topics with
  | nil => rfl
  | cons topic topics ih =>
    unfold Registry.findTopic at h ⊢
    split at h
    · rename_i hname
      rw [hname] at h
      exact absurd (by decide) h
    · rename_i hname
      rw [if_neg hname]
      exact ih h

theorem mqttTaskQueue_forwardSample (topicName json : String) (packet : List UInt8)
    (b : Broker L) :
    (forwardSample topicName json packet b).mqttTaskQueue =
      b.mqttTaskQueue ++ subscriberTasks packet b := by
  rw [forwardSample_eq]
  unfold distribute
  split
  · exact mqttTaskQueue_foldl packet b.gpsSessions (b.enqueueDds _)
  · rename_i h
    rw [subscriberTasks, gpsSessions_eq_nil (b := b) h]
    simp

theorem between_forwardSample (topicName json : String) (packet : List UInt8) (b : Broker L) :
    Output.between b (forwardSample topicName json packet b) =
      ⟨[.make b.taskCount topicName json], subscriberTasks packet b⟩ := by
  rw [Output.between, ddsTaskQueue_forwardSample, mqttTaskQueue_forwardSample, List.drop_left,
    List.drop_left]

/-! ## One call -/

/-- A library call that throws ends the process. -/
theorem onCall_throws {cfg : Config} {call : Call L C} {validData : Bool}
    {message : Message C.numbers} (htaken : call.taken = .ok validData message)
    (h : ¬ ∃ json packet, Encodes C cfg message json packet) (retained : Int) :
    (onCall cfg retained call).2 = false := by
  have hends : Ends (onDataAvailable C cfg.sendTopicName cfg.globalQos message) ⟨call.broker, ""⟩
      (fun _ _ => False) fun _ _ => True := by
    rw [ends_onDataAvailable]
    split
    · trivial
    · rename_i json hjson
      split
      · trivial
      · rename_i packet hpacket
        exact h ⟨json, packet, hjson, hpacket⟩
  unfold Ends at hends
  unfold onCall
  rw [htaken]
  dsimp only
  split
  · rfl
  · rename_i hrun
    rw [hrun] at hends
    exact hends.elim

theorem onCall_encodes {cfg : Config} {call : Call L C} {validData : Bool}
    {message : Message C.numbers} (htaken : call.taken = .ok validData message) {json : String}
    {packet : List UInt8} (h : Encodes C cfg message json packet) (retained : Int) :
    onCall cfg retained call =
      (⟨[.make call.broker.taskCount cfg.sendTopicName json], subscriberTasks packet call.broker⟩,
        decide (retained < cfg.maxRetainQueueMessageCount)) := by
  unfold onCall
  rw [htaken]
  simp only [onDataAvailable_forwardSample h.1 h.2, between_forwardSample]

/-- An invalid sample is forwarded like any other. -/
theorem not_expected_of_invalid {cfg : Config} {call : Call L C} {message : Message C.numbers}
    (htaken : call.taken = .ok false message) {json : String} {packet : List UInt8}
    (h : Encodes C cfg message json packet) (retained : Int) :
    ¬ Expected cfg call (onCall cfg retained call).1 := by
  rw [onCall_encodes htaken h]
  intro hexpected
  simp [Expected, htaken] at hexpected

/-- A call does what it is to do exactly under its condition. -/
theorem onCall_iff (cfg : Config) (retained : Int) (call : Call L C) :
    Expected cfg call (onCall cfg retained call).1 ∧ (onCall cfg retained call).2 = true ↔
      Meets cfg retained call := by
  cases htaken : call.taken with
  | error =>
    simp [Expected, Meets, onCall, htaken]
  | ok validData message =>
    constructor
    · rintro ⟨hexpected, hrunning⟩ validData' message' htaken'
      obtain ⟨rfl, rfl⟩ := Taken.ok.inj (htaken.symm.trans htaken')
      by_cases hencodes : ∃ json packet, Encodes C cfg message json packet
      · obtain ⟨json, packet, h⟩ := hencodes
        refine ⟨?_, ⟨json, packet, h⟩, ?_⟩
        · by_contra hinvalid
          rw [Bool.not_eq_true] at hinvalid
          subst hinvalid
          exact not_expected_of_invalid htaken h retained hexpected
        · rw [onCall_encodes htaken h] at hrunning
          exact of_decide_eq_true hrunning
      · rw [onCall_throws htaken hencodes] at hrunning
        cases hrunning
    · intro hmeets
      obtain ⟨rfl, ⟨json, packet, h⟩, hcount⟩ := hmeets validData message htaken
      rw [onCall_encodes htaken h]
      refine ⟨?_, decide_eq_true hcount⟩
      simp only [Expected, htaken]
      exact ⟨json, packet, h, rfl⟩

/-! ## All calls -/

theorem bmod_succ (n : Nat) :
    (((n : Int).bmod (2 ^ 32)) + 1).bmod (2 ^ 32) = ((n + 1 : Nat) : Int).bmod (2 ^ 32) := by
  rw [Int.bmod_add_bmod, Int.natCast_add, Int.natCast_one]

/-- The calls after the first `n` ones. -/
theorem calls_iff (cfg : Config) (cs : List (Call L C)) (n : Nat) :
    List.Forall₂ (Expected cfg) cs (calls cfg ((n : Int).bmod (2 ^ 32)) cs).1 ∧
        (calls cfg ((n : Int).bmod (2 ^ 32)) cs).2 = true ↔
      ∀ k call, cs[k]? = some call → Meets cfg (((n + k : Nat) : Int).bmod (2 ^ 32)) call := by
  induction cs generalizing n with
  | nil => simp [calls]
  | cons call rest ih =>
    have hcall := onCall_iff cfg ((n : Int).bmod (2 ^ 32)) call
    have hrest := ih (n + 1)
    rw [← bmod_succ] at hrest
    have hsplit : (∀ k next, (call :: rest)[k]? = some next →
          Meets cfg (((n + k : Nat) : Int).bmod (2 ^ 32)) next) ↔
        Meets cfg ((n : Int).bmod (2 ^ 32)) call ∧
          ∀ k next, rest[k]? = some next →
            Meets cfg (((n + 1 + k : Nat) : Int).bmod (2 ^ 32)) next := by
      constructor
      · intro h
        refine ⟨h 0 call rfl, ?_⟩
        intro k next hk
        rw [Nat.add_assoc, Nat.add_comm 1 k]
        exact h (k + 1) next hk
      · rintro ⟨hfirst, hafter⟩ k next hk
        cases k with
        | zero =>
          obtain rfl := Option.some.inj hk
          exact hfirst
        | succ k =>
          rw [← Nat.add_assoc, Nat.add_right_comm]
          exact hafter k next hk
    rw [hsplit, ← hcall, ← hrest]
    cases hcase : onCall cfg ((n : Int).bmod (2 ^ 32)) call with
    | mk output running =>
      cases running with
      | true => simp only [calls, hcase, List.forall₂_cons, and_true, and_assoc]
      | false => simp only [calls, hcase, Bool.false_eq_true, and_false, false_and]

/-- **Forwarding**, for every sequence of calls. -/
theorem forwardsValid_iff (cfg : Config) (cs : List (Call L C)) :
    ForwardsValid cfg cs ↔
      ∀ (k : Nat) call, cs[k]? = some call → Meets cfg ((k : Int).bmod (2 ^ 32)) call := by
  have hcalls := calls_iff cfg cs 0
  simp only [Nat.zero_add, Int.natCast_zero, Int.zero_bmod] at hcalls
  exact ⟨fun h => hcalls.mp ⟨h.outputs, h.running⟩, fun h => ⟨(hcalls.mpr h).1, (hcalls.mpr h).2⟩⟩

/-- A sample without data, as DDS gives it when a vehicle leaves. -/
def disposed : Call Wire.libraries Wire.codec := ⟨.init, .ok false vehicle⟩

theorem disposed_forwarded :
    (∃ task, (calls releaseMode 0 [disposed]).1 = [⟨[task], []⟩]) ∧
      ¬ ForwardsValid releaseMode [disposed] := by
  have hencodes : Encodes Wire.codec releaseMode vehicle vehicleJson _ := ⟨encode_vehicle, rfl⟩
  have htaken : disposed.taken = .ok false vehicle := rfl
  have hcalls : calls releaseMode 0 [disposed] =
      ([(onCall releaseMode 0 disposed).1], true) := by
    simp only [calls, onCall_encodes htaken hencodes]
    rfl
  refine ⟨?_, fun h => ?_⟩
  · rw [hcalls, onCall_encodes htaken hencodes]
    exact ⟨_, rfl⟩
  · have hexpected := h.outputs
    rw [hcalls] at hexpected
    exact not_expected_of_invalid rfl hencodes 0 (List.forall₂_cons.mp hexpected).1

end BddsBroker.Dds.Samples
