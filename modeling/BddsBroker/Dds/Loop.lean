import BddsBroker.Dds.Bridge

/-! The broker between DDS and its queues. Its reader is on the topic `recv_topic_name`
and its writer on `send_topic_name`, both from the command line. A sample that the
publisher writes is delivered to every reader of the topic, also to the one of the
broker, when the two names are equal. The number of a message is given when it enters
from outside, and goes with it; no code reads it. -/

namespace BddsBroker.Dds.Loop

open PropertyTree Program

/-- The arguments of the broker. -/
structure Config where
  recvTopicName : String
  sendTopicName : String
  maxRetainQueueMessageCount : Int
  globalQos : Int

/-- A sample for the broker's reader. -/
structure Delivery (N : Numbers) where
  origin : Nat
  message : Message N

structure State (L : Libraries) (C : Codec L) where
  broker : Broker L
  /-- Where the tasks of the DDS queue stem from. -/
  origins : List Nat
  delivered : List (Delivery C.numbers)
  /-- The publisher has found a reader of its topic, and left its first loop. -/
  matched : Bool
  retainedMessageCount : Int
  /-- The listener sleeps before it calls `exit`. -/
  exiting : Bool
  /-- The process has ended. -/
  ended : Bool
  /-- The origins of the samples that were written. -/
  written : List Nat
  /-- How many messages have entered. -/
  entered : Nat

variable {L : Libraries} {C : Codec L}

def init : State L C where
  broker := .init
  origins := []
  delivered := []
  matched := false
  retainedMessageCount := 0
  exiting := false
  ended := false
  written := []
  entered := 0

inductive Event (N : Numbers)
  | broker (e : Run.Event)
  | sample (message : Message N)
  | dataAvailable (i : Nat)
  | matched
  | publish (i : Nat)
  | exit

/-- The broker's memory after a change, whose new DDS tasks stem from that message. -/
def State.withBroker (s : State L C) (b : Broker L) (origin : Nat) : State L C :=
  { s with
    broker := b
    origins := s.origins ++
      List.replicate (b.ddsTaskQueue.length - s.broker.ddsTaskQueue.length) origin }

/-- An event of `Run`, other than its samples, which come from the listener here. -/
def brokerStep (s : State L C) : Run.Event → Option (State L C)
  | .sample _ _ _ => none
  | e => (Run.step s.broker e).map fun b =>
      { s.withBroker b s.entered with entered := s.entered + 1 }

/-- The end of `on_data_available`. -/
def State.countMessage (cfg : Config) (s : State L C) : State L C :=
  if cfg.maxRetainQueueMessageCount ≤ s.retainedMessageCount then { s with exiting := true }
  else { s with retainedMessageCount := s.retainedMessageCount + 1 }

/-- `on_data_available`. An exception ends the process. -/
def dataAvailable (cfg : Config) (s : State L C) (i : Nat) : Option (State L C) :=
  s.delivered[i]?.map fun d =>
    let s := { s with delivered := s.delivered.eraseIdx i }
    match onDataAvailable C cfg.sendTopicName cfg.globalQos d.message ⟨s.broker, ""⟩ with
    | .error _ f => { s.withBroker f.broker d.origin with ended := true }
    | .ok _ f => (s.withBroker f.broker d.origin).countMessage cfg

/-- DDS delivers a sample of the broker. -/
def deliver (cfg : Config) (d : Delivery C.numbers) (s : State L C) : State L C :=
  if cfg.recvTopicName = cfg.sendTopicName then { s with delivered := s.delivered ++ [d] } else s

/-- The loop of `work` with the task at `i`. -/
def publishStep (cfg : Config) (s : State L C) (i : Nat) : Option (State L C) :=
  match s.broker.ddsTaskQueue[i]?, s.origins[i]? with
  | some task, some origin =>
      let s := { s with
        broker := { s.broker with ddsTaskQueue := s.broker.ddsTaskQueue.eraseIdx i }
        origins := s.origins.eraseIdx i }
      match decode C.json task.data with
      | .error _ => some { s with ended := true }
      | .ok message =>
          some (deliver cfg ⟨origin, message⟩ { s with written := s.written ++ [origin] })
  | _, _ => none

def step (cfg : Config) (s : State L C) (e : Event C.numbers) : Option (State L C) :=
  if s.ended then none
  else
    match e with
    | .broker e => brokerStep s e
    | .sample message =>
        some { s with delivered := s.delivered ++ [⟨s.entered, message⟩], entered := s.entered + 1 }
    | .dataAvailable i => if s.exiting then none else dataAvailable cfg s i
    | .matched => some { s with matched := true }
    | .publish i => if s.matched then publishStep cfg s i else none
    | .exit => if s.exiting then some { s with ended := true } else none

/-- No message is written more than once. -/
def AtMostOneWrite (s : State L C) : Prop := ∀ origin, s.written.count origin ≤ 1

/-! ## Different topics -/

/-- How often a message stands in the queue, at the reader and among the writes. -/
def State.places (s : State L C) (origin : Nat) : Nat :=
  s.origins.count origin + (s.delivered.map Delivery.origin).count origin + s.written.count origin

/-- A message is in at most one place, and none has entered yet under a later number. -/
def Unique (s : State L C) : Prop :=
  ∀ origin, s.places origin ≤ if origin < s.entered then 1 else 0

theorem places_withBroker {s : State L C} {b : Broker L} {tasks : List BrokerTask}
    (hlen : tasks.length ≤ 1) (hb : b.ddsTaskQueue = s.broker.ddsTaskQueue ++ tasks)
    (o origin : Nat) :
    (s.withBroker b o).places origin ≤ s.places origin + if origin = o then 1 else 0 := by
  have hcount : b.ddsTaskQueue.length - s.broker.ddsTaskQueue.length = tasks.length := by
    rw [hb, List.length_append]
    omega
  have hreplicate : (List.replicate tasks.length o).count origin ≤ if origin = o then 1 else 0 := by
    rw [List.count_replicate]
    split <;> split <;> simp_all
  simp only [State.places, State.withBroker, hcount, List.count_append]
  omega

/-- Taking a sample from the reader frees its message's place. -/
theorem places_eraseDelivered {s : State L C} {i : Nat} {d : Delivery C.numbers}
    (hd : s.delivered[i]? = some d) (origin : Nat) :
    { s with delivered := s.delivered.eraseIdx i }.places origin +
      (if origin = d.origin then 1 else 0) = s.places origin := by
  have hmap : (s.delivered.map Delivery.origin)[i]? = some d.origin := by
    rw [List.getElem?_map, hd, Option.map_some]
  have hcount := Lists.count_eraseIdx hmap origin
  rw [List.eraseIdx_map] at hcount
  simp only [State.places, eq_comm (a := origin)]
  omega

theorem dataAvailable_places {cfg : Config} {s s' : State L C} {i : Nat}
    (hs : dataAvailable cfg s i = some s') :
    (∀ origin, s'.places origin ≤ s.places origin) ∧ s'.entered = s.entered := by
  obtain ⟨d, hd, rfl⟩ := Option.map_eq_some_iff.mp hs
  have hends := ddsTaskQueue_onDataAvailable C cfg.sendTopicName cfg.globalQos d.message
    ⟨s.broker, ""⟩
  have hmove : ∀ {b : Broker L} {tasks : List BrokerTask}, tasks.length ≤ 1 →
      b.ddsTaskQueue = s.broker.ddsTaskQueue ++ tasks → ∀ origin,
        ({ s with delivered := s.delivered.eraseIdx i }.withBroker b d.origin).places origin ≤
          s.places origin := by
    intro b tasks hlen hb origin
    have htake := places_eraseDelivered hd origin
    have hput := places_withBroker (s := { s with delivered := s.delivered.eraseIdx i }) hlen hb
      d.origin origin
    omega
  unfold Ends at hends
  dsimp only
  split
  · rename_i e f hrun
    rw [hrun] at hends
    obtain ⟨tasks, hlen, hb⟩ := hends
    exact ⟨hmove hlen hb, rfl⟩
  · rename_i f hrun
    rw [hrun] at hends
    obtain ⟨task, hb⟩ := hends
    have hlen : [task].length ≤ 1 := Nat.le_refl 1
    unfold State.countMessage
    split
    · exact ⟨hmove hlen hb, rfl⟩
    · exact ⟨hmove hlen hb, rfl⟩

/-- A message that is written leaves the queue, and does not come back from another
topic. -/
theorem publishStep_places {cfg : Config} (hne : cfg.recvTopicName ≠ cfg.sendTopicName)
    {s s' : State L C} {i : Nat} (hs : publishStep cfg s i = some s') :
    (∀ origin, s'.places origin ≤ s.places origin) ∧ s'.entered = s.entered := by
  unfold publishStep at hs
  split at hs
  · rename_i task o htask ho
    have hcount := Lists.count_eraseIdx ho
    dsimp only at hs
    split at hs
    · obtain rfl := Option.some.inj hs
      refine ⟨fun origin => ?_, rfl⟩
      have ho := hcount origin
      simp only [State.places]
      omega
    · rw [deliver, if_neg hne] at hs
      obtain rfl := Option.some.inj hs
      refine ⟨fun origin => ?_, rfl⟩
      have ho := hcount origin
      simp only [State.places, List.count_append, List.count_singleton, beq_iff_eq]
      omega
  · cases hs

theorem Unique.keep {s s' : State L C} (hs : Unique s)
    (h : (∀ origin, s'.places origin ≤ s.places origin) ∧ s'.entered = s.entered) :
    Unique s' := by
  intro origin
  have hle := h.1 origin
  have hold := hs origin
  rw [h.2]
  omega

theorem Unique.enter {s s' : State L C} (hs : Unique s)
    (h : ∀ origin, s'.places origin ≤ s.places origin + if origin = s.entered then 1 else 0)
    (he : s'.entered = s.entered + 1) : Unique s' := by
  intro origin
  have hle := h origin
  have hold := hs origin
  rw [he]
  split at hold <;> split at hle <;> split <;> omega

/-- **Step lemma.** Between different topics a message moves from place to place. -/
theorem step_unique {cfg : Config} (hne : cfg.recvTopicName ≠ cfg.sendTopicName)
    {s s' : State L C} {e : Event C.numbers} (hI : Unique s) (hs : step cfg s e = some s') :
    Unique s' := by
  unfold step at hs
  split at hs
  · cases hs
  cases e with
  | broker e =>
    have hstep : (∀ topicName json packet, e ≠ .sample topicName json packet) ∧
        ∃ b, Run.step s.broker e = some b ∧
          { s.withBroker b s.entered with entered := s.entered + 1 } = s' := by
      cases e with
      | sample => cases hs
      | _ => exact ⟨by simp, Option.map_eq_some_iff.mp hs⟩
    obtain ⟨he, b, hb, rfl⟩ := hstep
    obtain ⟨tasks, hlen, htasks⟩ := ddsTaskQueue_step he hb
    exact hI.enter (places_withBroker hlen htasks s.entered) rfl
  | sample message =>
    obtain rfl := Option.some.inj hs
    refine hI.enter (fun origin => ?_) rfl
    simp only [State.places, List.map_append, List.map_cons, List.map_nil, List.count_append,
      List.count_singleton, beq_iff_eq, eq_comm (a := origin)]
    omega
  | dataAvailable i =>
    simp only [Option.ite_none_left_eq_some] at hs
    exact hI.keep (dataAvailable_places hs.2)
  | matched =>
    obtain rfl := Option.some.inj hs
    exact hI.keep ⟨fun _ => Nat.le_refl _, rfl⟩
  | publish i =>
    simp only [Option.ite_none_right_eq_some] at hs
    exact hI.keep (publishStep_places hne hs.2)
  | exit =>
    simp only [Option.ite_none_right_eq_some, Option.some.injEq] at hs
    obtain ⟨-, rfl⟩ := hs
    exact hI.keep ⟨fun _ => Nat.le_refl _, rfl⟩

theorem unique_init : Unique (init : State L C) := by
  intro origin
  simp [State.places, init]

theorem reachable_unique {cfg : Config} (hne : cfg.recvTopicName ≠ cfg.sendTopicName)
    {s : State L C} (hr : Machine.Reachable (step cfg) init s) : Unique s :=
  Machine.reachable_invariant (I := Unique) (fun _ _ _ hI hs => step_unique hne hI hs)
    unique_init hr

theorem Unique.atMostOneWrite {s : State L C} (hs : Unique s) : AtMostOneWrite s := by
  intro origin
  have hle := hs origin
  unfold State.places at hle
  split at hle <;> omega

/-! ## One topic -/

/-- The sample can be written as JSON and read back, and its PUBLISH can be made. -/
def Survives (C : Codec L) (cfg : Config) (message : Message C.numbers) : Prop :=
  ∃ json packet, encode C.json message = .ok json ∧ decode C.json json = .ok message ∧
    (C.generateDefaultPublish message.subjectId "GPS" json cfg.globalQos >>=
      fun p => L.convertPublishIntoPacket p []) = .ok packet

/-- The message with the number `o` has gone through the broker `n` times, and is at its
reader again. -/
structure Circling (o : Nat) (message : Message C.numbers) (n : Nat) (s : State L C) : Prop where
  delivered : s.delivered = [⟨o, message⟩]
  origins : s.origins = []
  queue : s.broker.ddsTaskQueue = []
  matched : s.matched = true
  running : s.ended = false
  written : s.written = List.replicate n o

/-- It is in the queue for the next time. -/
structure Queued (o : Nat) (message : Message C.numbers) (n : Nat) (s : State L C) : Prop where
  delivered : s.delivered = []
  origins : s.origins = [o]
  queue : ∃ task, s.broker.ddsTaskQueue = [task] ∧ decode C.json task.data = .ok message
  matched : s.matched = true
  running : s.ended = false
  written : s.written = List.replicate n o

section Circle

variable {cfg : Config} {o : Nat} {message : Message C.numbers} {n : Nat} {s : State L C}

/-- The listener counts the message, or decides to exit. -/
theorem Circling.listen (hm : Survives C cfg message) (hs : Circling o message n s)
    (hexit : s.exiting = false) :
    ∃ s', step cfg s (.dataAvailable 0) = some s' ∧ Queued o message n s' ∧
      (s.retainedMessageCount < cfg.maxRetainQueueMessageCount →
        s'.exiting = false ∧ s'.retainedMessageCount = s.retainedMessageCount + 1) := by
  obtain ⟨json, packet, hjson, hdecode, hpacket⟩ := hm
  obtain ⟨hdelivered, horigins, hqueue, hmatched, hrunning, hwritten⟩ := hs
  have hlisten : onDataAvailable C cfg.sendTopicName cfg.globalQos message ⟨s.broker, ""⟩ =
      .ok () ⟨forwardSample cfg.sendTopicName json packet s.broker, ""⟩ :=
    onDataAvailable_forwardSample hjson hpacket ⟨s.broker, ""⟩
  have hdds := ddsTaskQueue_forwardSample cfg.sendTopicName json packet s.broker
  rw [hqueue, List.nil_append] at hdds
  have htask : ∃ task,
      (forwardSample cfg.sendTopicName json packet s.broker).ddsTaskQueue = [task] ∧
      decode C.json task.data = .ok message := ⟨_, hdds, hdecode⟩
  generalize hb : forwardSample cfg.sendTopicName json packet s.broker = b at *
  let s₁ : State L C := { s with delivered := [] }.withBroker b o
  have horigins₁ : s₁.origins = [o] := by
    simp [s₁, State.withBroker, horigins, hqueue, hdds]
  have hdata : dataAvailable cfg s 0 = some (s₁.countMessage cfg) := by
    unfold dataAvailable
    rw [hdelivered]
    simp only [List.getElem?_cons_zero, Option.map_some, hlisten]
    rfl
  have hstep : step cfg s (.dataAvailable 0) = some (s₁.countMessage cfg) := by
    unfold step
    rw [if_neg (by simp [hrunning])]
    exact (if_neg (by simp [hexit])).trans hdata
  refine ⟨_, hstep, ?_, fun hlt => ?_⟩
  · unfold State.countMessage
    split
    · exact ⟨rfl, horigins₁, htask, hmatched, hrunning, hwritten⟩
    · exact ⟨rfl, horigins₁, htask, hmatched, hrunning, hwritten⟩
  · have hcount : s₁.countMessage cfg =
        { s₁ with retainedMessageCount := s.retainedMessageCount + 1 } :=
      if_neg (Int.not_le.mpr hlt)
    rw [hcount]
    exact ⟨hexit, rfl⟩

theorem Queued.publish (hsame : cfg.recvTopicName = cfg.sendTopicName)
    (hs : Queued o message n s) :
    ∃ s', step cfg s (.publish 0) = some s' ∧ Circling o message (n + 1) s' ∧
      s'.exiting = s.exiting ∧ s'.retainedMessageCount = s.retainedMessageCount := by
  obtain ⟨hdelivered, horigins, ⟨task, hqueue, hdecode⟩, hmatched, hrunning, hwritten⟩ := hs
  have hstep : step cfg s (.publish 0) = some (deliver cfg ⟨o, message⟩ { s with
      broker := { s.broker with ddsTaskQueue := [] }
      origins := []
      written := s.written ++ [o] }) := by
    simp [step, publishStep, hrunning, hmatched, hqueue, horigins, hdecode]
  rw [deliver, if_pos hsame] at hstep
  refine ⟨_, hstep, ⟨?_, rfl, rfl, hmatched, hrunning, ?_⟩, rfl, rfl⟩
  · simp [hdelivered]
  · rw [hwritten, List.replicate_succ']

end Circle

/-- The events of a message from outside that goes through the broker `n` times. -/
def circle (message : Message C.numbers) (n : Nat) : List (Event C.numbers) :=
  [.sample message, .matched] ++
    (List.replicate n [Event.dataAvailable 0, .publish 0]).flatten

theorem circle_succ (message : Message C.numbers) (n : Nat) :
    circle message (n + 1) = circle message n ++ [.dataAvailable 0, .publish 0] := by
  simp [circle, List.replicate_succ']

/-- One more time. -/
theorem Circling.round {cfg : Config} (hsame : cfg.recvTopicName = cfg.sendTopicName)
    {o : Nat} {message : Message C.numbers} (hm : Survives C cfg message) {n : Nat}
    {s : State L C} (hs : Circling o message n s) (hexit : s.exiting = false) :
    ∃ s', Machine.run (step cfg) s [.dataAvailable 0, .publish 0] = some s' ∧
      Circling o message (n + 1) s' ∧
      (s.retainedMessageCount < cfg.maxRetainQueueMessageCount →
        s'.exiting = false ∧ s'.retainedMessageCount = s.retainedMessageCount + 1) := by
  obtain ⟨s₁, hlisten, hqueued, hcount⟩ := hs.listen hm hexit
  obtain ⟨s₂, hpublish, hcircling, hexiting, hretained⟩ := hqueued.publish hsame
  refine ⟨s₂, ?_, hcircling, fun hlt => ?_⟩
  · simp [Machine.run, hlisten, hpublish]
  · rw [hexiting, hretained]
    exact hcount hlt

/-- **The loop.** On one topic a sample goes round until the listener has counted to its
maximum. -/
theorem circle_runs {cfg : Config} (hsame : cfg.recvTopicName = cfg.sendTopicName)
    {message : Message C.numbers} (hm : Survives C cfg message) {n : Nat}
    (hn : (n : Int) ≤ cfg.maxRetainQueueMessageCount) :
    ∃ s : State L C, Machine.run (step cfg) init (circle message n) = some s ∧
      Circling 0 message n s ∧ s.exiting = false ∧ s.retainedMessageCount = n := by
  induction n with
  | zero => exact ⟨_, rfl, ⟨rfl, rfl, rfl, rfl, rfl, rfl⟩, rfl, rfl⟩
  | succ n ih =>
    obtain ⟨s, hrun, hcircling, hexit, hcount⟩ := ih (by omega)
    obtain ⟨s', hround, hcircling', hnext⟩ := hcircling.round hsame hm hexit
    obtain ⟨hexit', hcount'⟩ := hnext (by omega)
    refine ⟨s', ?_, hcircling', hexit', by omega⟩
    rw [circle_succ, Machine.run_append, hrun]
    exact hround

/-- Then it still goes round once. -/
theorem circle_writes {cfg : Config} (hsame : cfg.recvTopicName = cfg.sendTopicName)
    {message : Message C.numbers} (hm : Survives C cfg message) {n : Nat}
    (hn : (n : Int) ≤ cfg.maxRetainQueueMessageCount) :
    ∃ s : State L C, Machine.run (step cfg) init (circle message (n + 1)) = some s ∧
      s.written = List.replicate (n + 1) 0 := by
  obtain ⟨s, hrun, hcircling, hexit, -⟩ := circle_runs (L := L) (C := C) hsame hm hn
  obtain ⟨s', hround, hcircling', -⟩ := hcircling.round hsame hm hexit
  refine ⟨s', ?_, hcircling'.written⟩
  rw [circle_succ, Machine.run_append, hrun]
  exact hround

/-! ## A message of a client -/

/-- These steps of the sessions and writer threads put the message into the DDS queue. -/
def Publishes (C : Codec L) (message : Message C.numbers) (es : List Run.Event) : Prop :=
  (∀ e ∈ es, ∀ topicName json packet, e ≠ .sample topicName json packet) ∧
    ∃ (b : Broker L) (task : BrokerTask), Machine.run Run.step .init es = some b ∧
      b.ddsTaskQueue = [task] ∧ decode C.json task.data = .ok message

/-- The broker's own steps, before the listener and the publisher have done anything. -/
structure Entering (s : State L C) (b : Broker L) : Prop where
  broker : s.broker = b
  origins : s.origins.length = b.ddsTaskQueue.length
  delivered : s.delivered = []
  exiting : s.exiting = false
  running : s.ended = false
  written : s.written = []

theorem entering_run (cfg : Config) {es : List Run.Event}
    (hes : ∀ e ∈ es, ∀ topicName json packet, e ≠ .sample topicName json packet) {b : Broker L}
    (hr : Machine.run Run.step .init es = some b) :
    ∃ s : State L C, Machine.run (step cfg) init (es.map .broker) = some s ∧ Entering s b := by
  induction es using List.reverseRecOn generalizing b with
  | nil =>
    obtain rfl := Option.some.inj hr
    exact ⟨_, rfl, rfl, rfl, rfl, rfl, rfl, rfl⟩
  | append_singleton es e ih =>
    rw [Machine.run_append] at hr
    obtain ⟨m, hm, hlast⟩ := Option.bind_eq_some_iff.mp hr
    obtain ⟨m', hstep, hnil⟩ := Machine.run_cons_eq_some.mp hlast
    obtain rfl := Option.some.inj hnil
    obtain ⟨s, hrun, hs⟩ := ih (fun e he => hes e (List.mem_append_left _ he)) hm
    have he := hes e (by simp)
    obtain ⟨tasks, -, htasks⟩ := ddsTaskQueue_step he hstep
    let s' : State L C := { s.withBroker m' s.entered with entered := s.entered + 1 }
    have hmap : (Run.step s.broker e).map (fun b =>
        { s.withBroker b s.entered with entered := s.entered + 1 }) = some s' := by
      rw [hs.broker, hstep]
      rfl
    have hbroker : brokerStep s e = some s' := by
      cases e with
      | sample topicName json packet => exact absurd rfl (he topicName json packet)
      | _ => exact hmap
    have hloop : step cfg s (.broker e) = some s' := by
      rw [step, hs.running]
      exact hbroker
    refine ⟨s', ?_, rfl, ?_, hs.delivered, hs.exiting, hs.running, hs.written⟩
    · rw [List.map_append]
      exact Machine.run_snoc hrun hloop
    · simp only [s', State.withBroker, List.length_append, List.length_replicate, hs.origins,
        hs.broker, htasks]
      omega

/-- On one topic the message of a client is written twice, whatever the retain count: the
listener puts it into the queue before it looks at the count. -/
theorem published_writes {cfg : Config} (hsame : cfg.recvTopicName = cfg.sendTopicName)
    {message : Message C.numbers} (hm : Survives C cfg message) {es : List Run.Event}
    (hes : Publishes C message es) :
    ∃ o, ∃ s : State L C, Machine.Reachable (step cfg) init s ∧
      s.written = List.replicate 2 o := by
  obtain ⟨hbroker, b, task, hrun, hqueue, hdecode⟩ := hes
  obtain ⟨s, hloop, hs⟩ := entering_run (C := C) cfg hbroker hrun
  obtain ⟨o, horigins⟩ : ∃ o, s.origins = [o] := by
    have hlen := hs.origins
    rw [hqueue] at hlen
    exact List.length_eq_one_iff.mp hlen
  have hmatched : step cfg s .matched = some { s with matched := true } := by
    rw [step, hs.running]
    rfl
  have hqueued : Queued o message 0 { s with matched := true } :=
    ⟨hs.delivered, horigins, ⟨task, by rw [← hqueue, ← hs.broker], hdecode⟩, rfl, hs.running,
      hs.written⟩
  obtain ⟨s₁, hfirst, hcircling, hexit, -⟩ := hqueued.publish hsame
  obtain ⟨s₂, hround, hcircling', -⟩ := hcircling.round hsame hm (hexit.trans hs.exiting)
  refine ⟨o, s₂, ⟨es.map .broker ++ [.matched, .publish 0] ++ [.dataAvailable 0, .publish 0], ?_⟩,
    hcircling'.written⟩
  have hboth : Machine.run (step cfg) s [.matched, .publish 0] = some s₁ := by
    simp [Machine.run, hmatched, hfirst]
  rw [Machine.run_append, Machine.run_append, hloop, Option.bind_some, hboth]
  exact hround

theorem not_atMostOneWrite {s : State L C} {o n : Nat} (hn : 1 < n)
    (h : s.written = List.replicate n o) : ¬ AtMostOneWrite s := by
  intro honce
  have hcount := honce o
  rw [h, List.count_replicate_self] at hcount
  omega

/-- Messages are written at most once in every run when the topics differ. With one topic
every sample that survives the way through JSON is written more often in some run: from a
vehicle, when the retain count is above zero, and from a client always. -/
theorem atMostOneWrite_iff (C : Codec L) (cfg : Config) :
    (cfg.recvTopicName ≠ cfg.sendTopicName →
      ∀ s : State L C, Machine.Reachable (step cfg) init s → AtMostOneWrite s) ∧
    (cfg.recvTopicName = cfg.sendTopicName → 0 < cfg.maxRetainQueueMessageCount →
      ∀ message : Message C.numbers, Survives C cfg message →
        ∃ s : State L C, Machine.Reachable (step cfg) init s ∧ ¬ AtMostOneWrite s) ∧
    (cfg.recvTopicName = cfg.sendTopicName → ∀ message : Message C.numbers,
      Survives C cfg message → ∀ es, Publishes C message es →
        ∃ s : State L C, Machine.Reachable (step cfg) init s ∧ ¬ AtMostOneWrite s) := by
  refine ⟨fun hne s hr => (reachable_unique hne hr).atMostOneWrite, ?_, ?_⟩
  · intro hsame hmax message hm
    obtain ⟨s, hrun, hwritten⟩ := circle_writes (L := L) (C := C) hsame hm (n := 1) (by omega)
    exact ⟨s, ⟨_, hrun⟩, not_atMostOneWrite (by omega) hwritten⟩
  · intro hsame message hm es hes
    obtain ⟨o, s, hr, hwritten⟩ := published_writes hsame hm hes
    exact ⟨s, hr, not_atMostOneWrite (by omega) hwritten⟩

/-! ## The run line -/

/-- "1 100 0 4 GPS GPS". -/
def releaseMode : Config := ⟨"GPS", "GPS", 100, 0⟩

theorem survives_vehicle (cfg : Config) : Survives Wire.codec cfg vehicle :=
  ⟨vehicleJson, _, encode_vehicle, decode_vehicle, rfl⟩

/-- A client publishes the vehicle's position. -/
theorem publishes_position : Publishes Wire.codec vehicle
    [.accept 1, .packet 1 (Wire.encodePublish Bridge.positionOnA)] := by
  obtain ⟨b, hstep, hqueue⟩ := Bridge.positionOnA_queued
  refine ⟨by simp, b, _, ?_, hqueue, decode_vehicle⟩
  exact Machine.run_cons_eq_some.mpr ⟨_, rfl, Machine.run_cons_eq_some.mpr ⟨b, hstep, rfl⟩⟩

/-- With its own output on another topic the broker writes every message once, and with
the topics of the run line it does not, nor with a retain count of zero. -/
theorem releaseMode_not_once :
    (∀ s : State Wire.libraries Wire.codec,
      Machine.Reachable (step { releaseMode with sendTopicName := "Output" }) init s →
        AtMostOneWrite s) ∧
      (∃ s : State Wire.libraries Wire.codec,
        Machine.Reachable (step releaseMode) init s ∧ ¬ AtMostOneWrite s) ∧
      ∃ s : State Wire.libraries Wire.codec, Machine.Reachable
        (step { releaseMode with maxRetainQueueMessageCount := 0 }) init s ∧ ¬ AtMostOneWrite s :=
  ⟨(atMostOneWrite_iff Wire.codec { releaseMode with sendTopicName := "Output" }).1 (by decide),
    (atMostOneWrite_iff Wire.codec releaseMode).2.1 rfl (by decide) vehicle
      (survives_vehicle releaseMode),
    (atMostOneWrite_iff Wire.codec { releaseMode with maxRetainQueueMessageCount := 0 }).2.2 rfl
      vehicle (survives_vehicle _) _ publishes_position⟩

/-- One sample of a vehicle, written twice. -/
theorem vehicle_written_twice :
    ∃ s : State Wire.libraries Wire.codec,
      Machine.run (step releaseMode) init [.sample vehicle, .matched, .dataAvailable 0, .publish 0,
        .dataAvailable 0, .publish 0] = some s ∧
      s.written = [0, 0] ∧ ¬ AtMostOneWrite s := by
  have hsame : releaseMode.recvTopicName = releaseMode.sendTopicName := rfl
  obtain ⟨s, hrun, hwritten⟩ := circle_writes (L := Wire.libraries) (C := Wire.codec) hsame
    (survives_vehicle releaseMode) (n := 1) (by decide)
  exact ⟨s, hrun, hwritten, not_atMostOneWrite (by omega) hwritten⟩

end BddsBroker.Dds.Loop
