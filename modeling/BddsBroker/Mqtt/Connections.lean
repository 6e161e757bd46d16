import BddsBroker.Lib.Tally
import BddsBroker.Mqtt.OneWrite

/-! The sessions' sockets under the `io_service` threads. A session has no strand and no
lock: `start` and every completion handler that does not report an error call `read`,
which starts the next `async_receive`, so the right to receive is passed along one chain
of calls. Any thread of the pool may take any handler that is ready. The writer threads go
on statement by statement; a step of the threads here that changes the broker's memory is
a step of the broker (`step_writers`).

No error path removes a session from `mqtt_clients_`. -/

namespace BddsBroker.Connections

open OneWrite

variable {L : Libraries} {T W : Type}

/-- `MAX_PACKET_SIZE`. -/
def maxPacketSize : Nat := 1024

/-- How far an `async_receive` has come. -/
inductive Stage
  | pending
  /-- The bytes stand in `packet_`, and the handler waits for a thread. -/
  | received
  | failed
  deriving DecidableEq, Repr

/-- An `async_receive` whose handler has not been called. -/
structure Receive where
  session : SessionPtr
  stage : Stage
  deriving DecidableEq, Repr

/-- The contents of `packet_` at one of the session's receives. -/
structure Packet where
  session : SessionPtr
  contents : List UInt8
  deriving DecidableEq, Repr

/-- Where a thread of the pool stands. -/
inductive Phase
  /-- In `io_service::run`, without a handler. -/
  | idle
  /-- In `start`, behind the insertion into `mqtt_clients_`. -/
  | starting (s : SessionPtr)
  /-- In `message_process`. -/
  | processing (s : SessionPtr)
  /-- In the handler, at the `read` behind `message_process`. -/
  | rearming (s : SessionPtr)
  deriving DecidableEq, Repr

/-- The last four fields are a record that no code reads. -/
structure State (L : Libraries) (T W : Type) where
  writers : Writers.State L W
  /-- `packet_` of the sessions. -/
  packet : SessionPtr → List UInt8
  receives : List Receive
  /-- The `async_write`s whose handler has not been called. -/
  writes : List Write
  threads : T → Phase
  /-- The receives that brought bytes, in the order of their completion. -/
  completed : List Packet
  /-- What `message_process` was called with. -/
  processed : List Packet
  /-- The sessions whose handler was called with an error, of a receive or of a write. -/
  readFailed : List SessionPtr
  writeFailed : List SessionPtr

namespace State

def init : State L T W where
  writers := .init
  packet := fun _ => []
  receives := []
  writes := []
  threads := fun _ => .idle
  completed := []
  processed := []
  readFailed := []
  writeFailed := []

abbrev broker (st : State L T W) : Broker L := st.writers.broker

def goto [DecidableEq T] (st : State L T W) (t : T) (p : Phase) : State L T W :=
  { st with threads := Function.update st.threads t p }

/-- The broker's memory has become `b`; what was enqueued gets new numbers. -/
def adopt (st : State L T W) (b : Broker L) : State L T W :=
  let tasks := b.mqttTaskQueue.drop st.broker.mqttTaskQueue.length
  { st with writers := { st.writers with
      broker := b
      origins := st.writers.origins ++ List.range' st.writers.enqueued.length tasks.length
      enqueued := st.writers.enqueued ++ tasks } }

end State

inductive Event (T W : Type)
  /-- The handler of `async_accept` makes a session, whose `packet_` has some contents. -/
  | accept (t : T) (s : SessionPtr) (contents : List UInt8)
  /-- `read`, called by `start` or by the handler. -/
  | read (t : T)
  | receive (i : Nat) (bytes : List UInt8)
  | receiveError (i : Nat)
  /-- A thread calls the handler of a completed receive. -/
  | handle (t : T) (i : Nat)
  | process (t : T)
  /-- A thread calls the handler of an `async_write`. -/
  | written (t : T) (i : Nat) (error : Bool)
  /-- A writer, a `BROKERSUB` client or a DDS sample. -/
  | other (e : Writers.Event W)
  deriving DecidableEq

/-- Sessions and their packets have events of their own. -/
def IsOther : Writers.Event W → Prop
  | .environment (.accept _) | .environment (.packet ..) => False
  | _ => True

instance : ∀ e : Writers.Event W, Decidable (IsOther e)
  | .environment (.accept _) | .environment (.packet ..) => isFalse id
  | .environment (.dispatch _) | .environment (.addClient ..) | .environment (.sample ..)
  | .dequeue .. | .advance _ => isTrue trivial

section Steps

variable [DecidableEq T] [DecidableEq W]

/-- `MQTTSession::start` up to `read`. -/
def accept (st : State L T W) (t : T) (s : SessionPtr) (contents : List UInt8) :
    Option (State L T W) :=
  if st.threads t = .idle ∧ s ∉ st.broker.mqttClients ∧ contents.length = maxPacketSize then
    some ({ st.adopt (Run.accept s st.broker) with
      packet := Function.update st.packet s contents }.goto t (.starting s))
  else none

/-- `MQTTSession::read`. -/
def read (st : State L T W) (t : T) : Option (State L T W) :=
  match st.threads t with
  | .starting s | .rearming s =>
      some ({ st with receives := st.receives ++ [Receive.mk s .pending] }.goto t .idle)
  | .idle | .processing _ => none

/-- What the bytes of a receive make of `packet_`. -/
def overwrite (contents bytes : List UInt8) : List UInt8 := bytes ++ contents.drop bytes.length

def receive (st : State L T W) (i : Nat) (bytes : List UInt8) : Option (State L T W) :=
  match st.receives[i]? with
  | some ⟨s, .pending⟩ =>
      if bytes ≠ [] ∧ bytes.length ≤ maxPacketSize then
        some { st with
          packet := Function.update st.packet s (overwrite (st.packet s) bytes)
          receives := st.receives.set i ⟨s, .received⟩
          completed := st.completed ++ [⟨s, overwrite (st.packet s) bytes⟩] }
      else none
  | _ => none

def receiveError (st : State L T W) (i : Nat) : Option (State L T W) :=
  match st.receives[i]? with
  | some ⟨s, .pending⟩ => some { st with receives := st.receives.set i ⟨s, .failed⟩ }
  | _ => none

/-- The handler of `read` up to `message_process`; with an error there is nothing left
that it does. -/
def handle (st : State L T W) (t : T) (i : Nat) : Option (State L T W) :=
  match st.threads t, st.receives[i]? with
  | .idle, some ⟨s, .received⟩ =>
      some ({ st with receives := st.receives.eraseIdx i }.goto t (.processing s))
  | .idle, some ⟨s, .failed⟩ =>
      some { st with
        receives := st.receives.eraseIdx i
        readFailed := st.readFailed ++ [s] }
  | _, _ => none

/-- `message_process(packet_)`. -/
def process (st : State L T W) (t : T) : Option (State L T W) :=
  match st.threads t with
  | .processing s =>
      (MqttSession.messageProcess L s (st.packet s) st.broker).map fun b =>
        { st.adopt b with
          processed := st.processed ++ [Packet.mk s (st.packet s)] }.goto t (.rearming s)
  | _ => none

/-- The handler of `send`, which does nothing with an error. -/
def written (st : State L T W) (t : T) (i : Nat) (error : Bool) : Option (State L T W) :=
  match st.threads t, st.writes[i]? with
  | .idle, some w =>
      some { st with
        writes := st.writes.eraseIdx i
        writeFailed := st.writeFailed ++ if error then [w.session] else [] }
  | _, _ => none

def other (st : State L T W) (e : Writers.Event W) : Option (State L T W) :=
  if IsOther e then
    (Writers.step st.writers e).map fun w =>
      { st with writers := w, writes := st.writes ++ started st.writers e }
  else none

def step (st : State L T W) : Event T W → Option (State L T W)
  | .accept t s contents => accept st t s contents
  | .read t => read st t
  | .receive i bytes => receive st i bytes
  | .receiveError i => receiveError st i
  | .handle t i => handle st t i
  | .process t => process st t
  | .written t i error => written st t i error
  | .other e => other st e

abbrev Reachable (st : State L T W) : Prop := Machine.Reachable step State.init st

/-! ## What a step is -/

inductive Step (st : State L T W) : Event T W → State L T W → Prop
  | accept {t : T} {s : SessionPtr} {contents : List UInt8} (ht : st.threads t = .idle)
      (hnew : s ∉ st.broker.mqttClients) :
      Step st (.accept t s contents) ({ st.adopt (Run.accept s st.broker) with
        packet := Function.update st.packet s contents }.goto t (.starting s))
  | read {t : T} {s : SessionPtr} (ht : st.threads t = .starting s ∨ st.threads t = .rearming s) :
      Step st (.read t) ({ st with
        receives := st.receives ++ [Receive.mk s .pending] }.goto t .idle)
  | receive {i : Nat} {s : SessionPtr} {bytes : List UInt8}
      (hi : st.receives[i]? = some ⟨s, .pending⟩) :
      Step st (.receive i bytes) { st with
        packet := Function.update st.packet s (overwrite (st.packet s) bytes)
        receives := st.receives.set i ⟨s, .received⟩
        completed := st.completed ++ [⟨s, overwrite (st.packet s) bytes⟩] }
  | receiveError {i : Nat} {s : SessionPtr} (hi : st.receives[i]? = some ⟨s, .pending⟩) :
      Step st (.receiveError i) { st with receives := st.receives.set i ⟨s, .failed⟩ }
  | handle {t : T} {i : Nat} {s : SessionPtr} (ht : st.threads t = .idle)
      (hi : st.receives[i]? = some ⟨s, .received⟩) :
      Step st (.handle t i) ({ st with
        receives := st.receives.eraseIdx i }.goto t (.processing s))
  | handleError {t : T} {i : Nat} {s : SessionPtr} (ht : st.threads t = .idle)
      (hi : st.receives[i]? = some ⟨s, .failed⟩) :
      Step st (.handle t i) { st with
        receives := st.receives.eraseIdx i
        readFailed := st.readFailed ++ [s] }
  | process {t : T} {s : SessionPtr} {b : Broker L} (ht : st.threads t = .processing s)
      (hb : MqttSession.messageProcess L s (st.packet s) st.broker = some b) :
      Step st (.process t) ({ st.adopt b with
        processed := st.processed ++ [Packet.mk s (st.packet s)] }.goto t (.rearming s))
  | written {t : T} {i : Nat} {w : Write} {error : Bool} (ht : st.threads t = .idle)
      (hw : st.writes[i]? = some w) :
      Step st (.written t i error) { st with
        writes := st.writes.eraseIdx i
        writeFailed := st.writeFailed ++ if error then [w.session] else [] }
  | other {e : Writers.Event W} {w : Writers.State L W} (he : IsOther e)
      (hw : Writers.step st.writers e = some w) :
      Step st (.other e) { st with writers := w, writes := st.writes ++ started st.writers e }

omit [DecidableEq T] in
/-- What depends on neither the topics nor the queue, and no work changes, none of the other
events does. -/
theorem other_same {β : Type} {f : Broker L → β} (hwork : ∀ b b', Work b b' → f b' = f b)
    (hrest : ∀ b topics tasks, f { b with topicList := topics, mqttTaskQueue := tasks } = f b)
    {w w' : Writers.State L W} {e : Writers.Event W} (he : IsOther e)
    (hs : Writers.step w e = some w') : f w'.broker = f w.broker := by
  cases e with
  | environment e =>
    obtain ⟨b, tasks, hdispatch, hstep, -, rfl⟩ := Writers.environment_eq_some hs
    cases e with
    | accept | packet => exact he.elim
    | dispatch i => exact absurd rfl (hdispatch i)
    | addClient topicName client =>
      obtain rfl := Option.some.inj hstep
      exact hrest w.broker _ w.broker.mqttTaskQueue
    | sample topicName json packet =>
      obtain rfl := Option.some.inj hstep
      exact Program.kept hwork (forwardSample_work topicName json packet w.broker)
  | dequeue t i =>
    obtain ⟨origin, task, -, -, -, rfl⟩ := Writers.dequeue_eq_some hs
    exact hrest w.broker w.broker.topicList _
  | advance t =>
    obtain ⟨m, q, hstatement, rfl⟩ := Writers.advance_statement hs
    exact Program.kept hwork hstatement.run_work

theorem step_cases {st st' : State L T W} {e : Event T W} (h : step st e = some st') :
    Step st e st' := by
  cases e with
  | accept t s contents =>
    simp only [step, accept, Option.ite_none_right_eq_some, Option.some.injEq] at h
    obtain ⟨⟨ht, hnew, -⟩, rfl⟩ := h
    exact .accept ht hnew
  | read t =>
    simp only [step, read] at h
    split at h
    · rename_i s ht
      exact Option.some.inj h ▸ .read (.inl ht)
    · rename_i s ht
      exact Option.some.inj h ▸ .read (.inr ht)
    · cases h
    · cases h
  | receive i bytes =>
    simp only [step, receive] at h
    split at h
    · rename_i s hi
      simp only [Option.ite_none_right_eq_some, Option.some.injEq] at h
      exact h.2 ▸ .receive hi
    · cases h
  | receiveError i =>
    simp only [step, receiveError] at h
    split at h
    · rename_i s hi
      exact Option.some.inj h ▸ .receiveError hi
    · cases h
  | handle t i =>
    simp only [step, handle] at h
    split at h
    · rename_i s ht hi
      exact Option.some.inj h ▸ .handle ht hi
    · rename_i s ht hi
      exact Option.some.inj h ▸ .handleError ht hi
    · cases h
  | process t =>
    simp only [step, process] at h
    split at h
    · rename_i s ht
      obtain ⟨b, hb, rfl⟩ := Option.map_eq_some_iff.mp h
      exact .process ht hb
    · cases h
  | written t i error =>
    simp only [step, written] at h
    split at h
    · rename_i w ht hw
      exact Option.some.inj h ▸ .written ht hw
    · cases h
  | other e =>
    simp only [step, other, Option.ite_none_right_eq_some] at h
    obtain ⟨he, h⟩ := h
    obtain ⟨w, hw, rfl⟩ := Option.map_eq_some_iff.mp h
    exact .other he hw

end Steps

/-! ## The writers and the clients

What the running broker keeps, its writers keep statement by statement. -/

/-- The client that a writer is sending to. -/
def client : Writers.Phase → Option SessionPtr
  | .testing _ c | .marking _ c | .returning _ c | .sending _ c _ => some c
  | .waiting | .taken .. | .looping _ | .resolving .. | .failed .. => none

def ClientIn (clients : List SessionPtr) (p : Writers.Phase) : Prop :=
  ∀ c, client p = some c → c ∈ clients

/-- The writers send to connected clients, and the subscribers are connected. -/
structure SendsToClients (w : Writers.State L W) : Prop where
  subscribers : Run.SubscribersConnected w.broker
  threads : ∀ t, ClientIn w.broker.mqttClients (w.threads t)

theorem subscribers_of_same {b b' : Broker L} (h : SameClients b b')
    (hb : Run.SubscribersConnected b) : Run.SubscribersConnected b' := by
  unfold Run.SubscribersConnected
  rw [h.topics, h.clients]
  exact hb

theorem client_statement {w m : Writers.State L W} {p q : Writers.Phase}
    (h : Writers.Statement w p m q) {c : SessionPtr} (hc : client q = some c) :
    client p = some c ∨ c ∈ w.broker.mqttClients := by
  cases h with
  | found hclient =>
    obtain rfl := Option.some.inj hc
    exact .inr (List.mem_of_find?_eq_some hclient)
  | ready | suback | unready | mark | giveBack => exact .inl hc
  | _ => cases hc

theorem step_sendsToClients [DecidableEq W] {w w' : Writers.State L W} {e : Writers.Event W}
    (hw : SendsToClients w) (hs : Writers.step w e = some w') :
    SendsToClients w' ∧ ∀ c ∈ w.broker.mqttClients, c ∈ w'.broker.mqttClients := by
  cases e with
  | environment e =>
    obtain ⟨b, tasks, -, hstep, -, rfl⟩ := Writers.environment_eq_some hs
    have hclients : ∀ c ∈ w.broker.mqttClients, c ∈ b.mqttClients :=
      fun c hc => Run.mem_clients_step hstep hc
    exact ⟨⟨Run.step_subscribersConnected hw.subscribers hstep,
      fun t c hc => hclients c (hw.threads t c hc)⟩, hclients⟩
  | dequeue t i =>
    obtain ⟨origin, task, -, -, -, rfl⟩ := Writers.dequeue_eq_some hs
    have htaken : ClientIn w.broker.mqttClients (.taken origin task) := fun c hc => nomatch hc
    exact ⟨⟨hw.subscribers, Writers.forall_goto htaken fun u _ => hw.threads u⟩, fun c hc => hc⟩
  | advance t =>
    obtain ⟨m, q, hstatement, rfl⟩ := Writers.advance_statement hs
    obtain ⟨-, hthreads, hsame⟩ := hstatement.keeps
    have hclients : ∀ c ∈ w.broker.mqttClients, c ∈ m.broker.mqttClients :=
      fun c hc => hsame.clients ▸ hc
    have hq : ClientIn m.broker.mqttClients q := by
      intro c hc
      rcases client_statement hstatement hc with hbefore | hmem
      · exact hclients c (hw.threads t c hbefore)
      · exact hclients c hmem
    refine ⟨⟨subscribers_of_same hsame hw.subscribers, Writers.forall_goto hq fun u _ => ?_⟩,
      hclients⟩
    rw [hthreads]
    exact fun c hc => hclients c (hw.threads u c hc)

/-- A write is started on a client that a writer sends to. -/
theorem client_started {w : Writers.State L W} {e : Writers.Event W} {x : Write}
    (h : x ∈ started w e) : ∃ t, client (w.threads t) = some x.session := by
  cases e with
  | environment | dequeue => cases h
  | advance t =>
    simp only [started] at h
    split at h
    · rename_i r c data ht
      split at h
      · cases h
      · obtain rfl := List.mem_singleton.mp h
        exact ⟨t, by rw [ht]; rfl⟩
    · cases h

/-! ## Owned sessions -/

/-- The session that a thread starts or whose handler it runs. -/
def Phase.session : Phase → Option SessionPtr
  | .idle => none
  | .starting s | .processing s | .rearming s => some s

def Phase.SessionIn (clients : List SessionPtr) (p : Phase) : Prop :=
  ∀ s, p.session = some s → s ∈ clients

/-- `mqtt_clients_` owns every session that anything points to. -/
structure Owned (st : State L T W) : Prop where
  writers : SendsToClients st.writers
  receives : ∀ r ∈ st.receives, r.session ∈ st.broker.mqttClients
  writes : ∀ w ∈ st.writes, w.session ∈ st.broker.mqttClients
  threads : ∀ t, (st.threads t).SessionIn st.broker.mqttClients

theorem owned_init : Owned (State.init : State L T W) where
  writers := ⟨by simp [Run.SubscribersConnected, State.init, Writers.State.init, Broker.init],
    fun _ _ h => nomatch h⟩
  receives _ h := absurd h List.not_mem_nil
  writes _ h := absurd h List.not_mem_nil
  threads _ _ h := nomatch h

section Invariants

variable [DecidableEq T] [DecidableEq W]

/-- **Refinement.** A step of the pool is a step of the broker, or leaves it alone. -/
theorem step_writers {st st' : State L T W} {e : Event T W} (hst : Owned st)
    (hs : Step st e st') :
    st'.writers = st.writers ∨ ∃ e', Writers.step st.writers e' = some st'.writers := by
  cases hs with
  | @accept t s contents ht hnew =>
    refine .inr ⟨.environment (.accept s), ?_⟩
    simp only [Writers.step, Writers.environment, Run.step, if_neg hnew, Option.map_some]
    rfl
  | @process t s b ht hb =>
    have hmem := hst.threads t s (by rw [ht]; rfl)
    refine .inr ⟨.environment (.packet s (st.packet s)), ?_⟩
    simp only [Writers.step, Writers.environment, Run.step, if_pos hmem, hb, Option.map_some]
    rfl
  | other he hw => exact .inr ⟨_, hw⟩
  | _ => exact .inl rfl

theorem step_sends {st st' : State L T W} {e : Event T W} (hst : Owned st)
    (hs : Step st e st') :
    SendsToClients st'.writers ∧ ∀ c ∈ st.broker.mqttClients, c ∈ st'.broker.mqttClients := by
  rcases step_writers hst hs with hsame | ⟨e', he⟩
  · unfold State.broker
    rw [hsame]
    exact ⟨hst.writers, fun c hc => hc⟩
  · exact step_sendsToClients hst.writers he

omit [DecidableEq W] in
theorem forall_goto {P : Phase → Prop} {st : State L T W} {t : T} {p : Phase} (hp : P p)
    (hother : ∀ u, P (st.threads u)) (u : T) : P ((st.goto t p).threads u) := by
  by_cases hu : u = t
  · subst hu
    simpa [State.goto] using hp
  · simpa [State.goto, hu] using hother u

/-- No step drops an owner, and every new pointer is to an owned session. -/
theorem step_owned {st st' : State L T W} {e : Event T W} (hst : Owned st)
    (hs : Step st e st') : Owned st' := by
  obtain ⟨hwriters, hclients⟩ := step_sends hst hs
  have hreceives : ∀ r ∈ st.receives, r.session ∈ st'.broker.mqttClients :=
    fun r hr => hclients _ (hst.receives r hr)
  have hwrites : ∀ w ∈ st.writes, w.session ∈ st'.broker.mqttClients :=
    fun w hw => hclients _ (hst.writes w hw)
  have hthreads : ∀ t, (st.threads t).SessionIn st'.broker.mqttClients :=
    fun t s h => hclients s (hst.threads t s h)
  have hmem : ∀ {s : SessionPtr} {p : Phase}, p.session = some s →
      s ∈ st'.broker.mqttClients → p.SessionIn st'.broker.mqttClients := by
    intro s p hp hs u hu
    rw [hp] at hu
    exact Option.some.inj hu ▸ hs
  have hset : ∀ {i : Nat} {s : SessionPtr} {stage : Stage} (next : Stage),
      st.receives[i]? = some ⟨s, stage⟩ →
        ∀ r ∈ st.receives.set i ⟨s, next⟩, r.session ∈ st'.broker.mqttClients := by
    intro i s stage next hi r hr
    have hs := hreceives _ (List.mem_of_getElem? hi)
    rcases List.mem_or_eq_of_mem_set hr with hr | rfl
    · exact hreceives r hr
    · exact hs
  have herase : ∀ i, ∀ r ∈ st.receives.eraseIdx i, r.session ∈ st'.broker.mqttClients :=
    fun i r hr => hreceives r (List.mem_of_mem_eraseIdx hr)
  cases hs with
  | @accept t s contents ht hnew =>
    have hs := (List.mem_orderedInsert (r := (· ≤ ·)) (l := st.broker.mqttClients)).mpr
      (.inl (Eq.refl s))
    exact ⟨hwriters, hreceives, hwrites, forall_goto (hmem rfl hs) hthreads⟩
  | @read t s ht =>
    have hs : s ∈ st.broker.mqttClients := by
      rcases ht with ht | ht <;> exact hst.threads t s (by rw [ht]; rfl)
    refine ⟨hwriters, ?_, hwrites, forall_goto (fun u hu => nomatch hu) hthreads⟩
    exact List.forall_mem_append.mpr ⟨hreceives, List.forall_mem_singleton.mpr hs⟩
  | receive hi => exact ⟨hwriters, hset .received hi, hwrites, hthreads⟩
  | receiveError hi => exact ⟨hwriters, hset .failed hi, hwrites, hthreads⟩
  | @handle t i s ht hi =>
    have hs := hreceives _ (List.mem_of_getElem? hi)
    exact ⟨hwriters, herase i, hwrites, forall_goto (hmem rfl hs) hthreads⟩
  | handleError ht hi => exact ⟨hwriters, herase _, hwrites, hthreads⟩
  | @process t s b ht hb =>
    have hs := hthreads t s (by rw [ht]; rfl)
    exact ⟨hwriters, hreceives, hwrites, forall_goto (hmem rfl hs) hthreads⟩
  | written ht hw =>
    exact ⟨hwriters, hreceives, fun w hw => hwrites w (List.mem_of_mem_eraseIdx hw), hthreads⟩
  | other he hw =>
    refine ⟨hwriters, hreceives, List.forall_mem_append.mpr ⟨hwrites, fun x hx => ?_⟩, hthreads⟩
    obtain ⟨t, ht⟩ := client_started hx
    exact hclients _ (hst.writers.threads t x.session ht)

theorem reachable_owned {st : State L T W} (hr : Reachable st) : Owned st :=
  Machine.reachable_invariant (fun _ _ _ hst hs => step_owned hst (step_cases hs)) owned_init hr

/-- **Registered pointers stay valid.** In every reachable state, with any handlers,
errors and writers in between, `mqtt_clients_` owns every session of a topic, every session
that waits for a receive and every session whose packet is processed. -/
theorem registered_sessions_owned {st : State L T W} (hr : Reachable st) :
    (∀ topic ∈ st.broker.topicList, ∀ s ∈ topic.mqttClientSessions,
        s ∈ st.broker.mqttClients) ∧
      (∀ r ∈ st.receives, r.session ∈ st.broker.mqttClients) ∧
      ∀ t s, st.threads t = .processing s → s ∈ st.broker.mqttClients := by
  have howned := reachable_owned hr
  refine ⟨howned.writers.subscribers, howned.receives, ?_⟩
  intro t s ht
  exact howned.threads t s (by rw [ht]; rfl)

end Invariants

open AtMostOnce

/-- A thread of the pool takes the next packet of a session, which waits for it. -/
def serve {T W : Type} (t : T) (bytes : List UInt8) : List (Event T W) :=
  [.receive 0 bytes, .handle t 0, .process t]

/-- Session 1 is accepted and subscribes, and its next packet has arrived. -/
def subscribing {T W : Type} (t : T) : List (Event T W) :=
  [.accept t 1 (List.replicate 1024 0), .read t] ++ serve t Wire.subscribeGps ++
    [.read t, .receive 0 publishGps, .handle t 0]

theorem subscribing_owned :
    ∃ st : State Wire.libraries Unit Unit,
      Machine.run step State.init (subscribing ()) = some st ∧
        st.broker.gpsSessions = [1] ∧ st.threads () = .processing 1 ∧
        1 ∈ st.broker.mqttClients := by
  have hrun : (Machine.run step (State.init : State Wire.libraries Unit Unit)
      (subscribing ())).map (fun st => (st.broker.gpsSessions, st.threads ())) =
        some ([1], .processing 1) := by
    decide +kernel
  obtain ⟨st, hr, hst⟩ := Option.map_eq_some_iff.mp hrun
  obtain ⟨hgps, ht⟩ := Prod.mk.inj hst
  exact ⟨st, hr, hgps, ht, (registered_sessions_owned ⟨_, hr⟩).2.2 () 1 ht⟩

end BddsBroker.Connections
