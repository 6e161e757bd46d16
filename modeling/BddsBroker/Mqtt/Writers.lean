import BddsBroker.Mqtt.Effects
import BddsBroker.Mqtt.Run

/-! The writer threads of `BrokerMQTTPublisher`, statement by statement and in any
interleaving with each other and with the rest of the broker. A task keeps the number
of the enqueue it comes from, also when it is put back; nothing of the code reads these
numbers. A thread that runs alone from its `wait_dequeue` to the next does what one
dispatch of the running broker does (`dispatch_alone`). -/

namespace BddsBroker.Writers

variable {L : Libraries}

/-- A task that a thread works on: the subscribers in the thread's copy of the topic,
split at the loop. A task for one client has no loop. -/
structure Round where
  origin : Nat
  task : MqttTask
  passed : List SessionPtr
  rest : List SessionPtr
  deriving DecidableEq, Repr

/-- The next subscriber of the loop. -/
def Round.next (r : Round) : Round :=
  { r with passed := r.passed ++ r.rest.take 1, rest := r.rest.drop 1 }

/-- Where a thread stands. -/
inductive Phase
  /-- At `wait_dequeue`. -/
  | waiting
  | taken (origin : Nat) (task : MqttTask)
  /-- At the head of the loop, or after `send_message`. -/
  | looping (r : Round)
  /-- At `get_client(client_id)`. -/
  | resolving (r : Round) (clientId : String)
  /-- At `client->sub_requested()`. -/
  | testing (r : Round) (client : SessionPtr)
  /-- At `client->set_sub_requeseted(true)`. -/
  | marking (r : Round) (client : SessionPtr)
  /-- At the `enqueue` for a client that has not requested a subscription. -/
  | returning (r : Round) (client : SessionPtr)
  | sending (r : Round) (client : SessionPtr) (data : List UInt8)
  /-- At the `enqueue` after a failed `send`. -/
  | failed (r : Round) (data : List UInt8)
  deriving DecidableEq, Repr

/-- A call of `client->send`, with the enqueue that its task comes from. -/
structure Sent where
  origin : Nat
  session : SessionPtr
  data : List UInt8
  deriving DecidableEq, Repr

structure State (L : Libraries) (T : Type) where
  broker : Broker L
  /-- Of the tasks in the queue. -/
  origins : List Nat
  /-- Every task that was enqueued and not put back, in order. -/
  enqueued : List MqttTask
  threads : T → Phase
  sent : List Sent

variable {T : Type} [DecidableEq T]

namespace State

def init : State L T where
  broker := .init
  origins := []
  enqueued := []
  threads := fun _ => .waiting
  sent := []

def goto (st : State L T) (t : T) (p : Phase) : State L T :=
  { st with threads := Function.update st.threads t p }

/-- `enqueue(std::move(task_message))` by a writer. -/
def putBack (st : State L T) (origin : Nat) (task : MqttTask) : State L T :=
  { st with broker := st.broker.enqueueMqtt task, origins := st.origins ++ [origin] }

def setSubRequested (st : State L T) (client : SessionPtr) : State L T :=
  { st with broker := st.broker.setSubRequested client }

def record (st : State L T) (origin : Nat) (client : SessionPtr) (data : List UInt8) : State L T :=
  { st with sent := st.sent ++ [⟨origin, client, data⟩] }

end State

inductive Event (T : Type)
  /-- Anything but a dispatch. -/
  | environment (e : Run.Event)
  | dequeue (t : T) (i : Nat)
  | advance (t : T)
  deriving DecidableEq

/-- The rest of the broker takes a step; what it enqueues gets new numbers. -/
def environment (st : State L T) (e : Run.Event) : Option (State L T) :=
  match e with
  | .dispatch _ => none
  | e => (Run.step st.broker e).map fun b =>
      let tasks := b.mqttTaskQueue.drop st.broker.mqttTaskQueue.length
      { st with
        broker := b
        origins := st.origins ++ List.range' st.enqueued.length tasks.length
        enqueued := st.enqueued ++ tasks }

def dequeue (st : State L T) (t : T) (i : Nat) : Option (State L T) :=
  match st.threads t, st.origins[i]?, st.broker.mqttTaskQueue[i]? with
  | .waiting, some origin, some task =>
      some ({ st with
        broker := { st.broker with mqttTaskQueue := st.broker.mqttTaskQueue.eraseIdx i }
        origins := st.origins.eraseIdx i }.goto t (.taken origin task))
  | _, _, _ => none

/-- The next statement of a thread that has a task. -/
def advance (st : State L T) (t : T) : Option (State L T) :=
  match st.threads t with
  | .waiting => none
  | .taken origin task =>
      if task.data = [] then st.goto t .waiting
      else if task.clientId = broadcastId then
        st.goto t (.looping ⟨origin, task, [], st.broker.gpsSessions⟩)
      else st.goto t (.resolving ⟨origin, task, [], []⟩ task.clientId)
  | .looping r =>
      match r.rest with
      | [] => st.goto t .waiting
      | client :: _ => st.goto t (.resolving r (st.broker.clientId client))
  | .resolving r clientId =>
      match st.broker.getClient clientId with
      | none => st.goto t (.looping r.next)
      | some client => st.goto t (.testing r client)
  | .testing r client =>
      if (st.broker.session client).subRequested then st.goto t (.sending r client r.task.data)
      else if packetType r.task.data = some .suback then st.goto t (.marking r client)
      else if packetType r.task.data = some .publish then st.goto t (.returning r client)
      else st.goto t (.sending r client r.task.data)
  | .marking r client =>
      (st.setSubRequested client).goto t (.sending r client r.task.data)
  -- The move leaves the local task without data.
  | .returning r client => (st.putBack r.origin r.task).goto t (.sending r client [])
  | .sending r client data =>
      if MqttSession.send data < 0 then (st.record r.origin client data).goto t (.failed r data)
      else (st.record r.origin client data).goto t (.looping r.next)
  | .failed r data => (st.putBack r.origin { r.task with data := data }).goto t (.looping r.next)

def step (st : State L T) : Event T → Option (State L T)
  | .environment e => environment st e
  | .dequeue t i => dequeue st t i
  | .advance t => advance st t

/-! ## A thread that moves -/

@[simp] theorem threads_goto (st : State L T) (t : T) (p : Phase) :
    (st.goto t p).threads t = p := by
  simp [State.goto]

theorem threads_goto_of_ne (st : State L T) {t u : T} (h : u ≠ t) (p : Phase) :
    (st.goto t p).threads u = st.threads u := by
  simp [State.goto, h]

@[simp] theorem broker_goto (st : State L T) (t : T) (p : Phase) :
    (st.goto t p).broker = st.broker := rfl

/-- What holds of the thread that moves and of the other ones holds of all. -/
theorem forall_goto {P : Phase → Prop} {st : State L T} {t : T} {p : Phase} (hp : P p)
    (hother : ∀ u, u ≠ t → P (st.threads u)) (u : T) : P ((st.goto t p).threads u) := by
  by_cases hu : u = t
  · subst hu
    rw [threads_goto]
    exact hp
  · rw [threads_goto_of_ne st hu]
    exact hother u hu

/-! ## What a statement does -/

/-- The statement at `p` turns the state `st` into `m` and leads to `q`. -/
inductive Statement (st : State L T) : Phase → State L T → Phase → Prop
  | drop {origin : Nat} {task : MqttTask} (hdata : task.data = []) :
      Statement st (.taken origin task) st .waiting
  | loop {origin : Nat} {task : MqttTask} (hdata : task.data ≠ [])
      (hid : task.clientId = broadcastId) :
      Statement st (.taken origin task) st (.looping ⟨origin, task, [], st.broker.gpsSessions⟩)
  | call {origin : Nat} {task : MqttTask} (hdata : task.data ≠ [])
      (hid : task.clientId ≠ broadcastId) :
      Statement st (.taken origin task) st (.resolving ⟨origin, task, [], []⟩ task.clientId)
  | finish {r : Round} (hrest : r.rest = []) : Statement st (.looping r) st .waiting
  | visit {r : Round} {client : SessionPtr} (hrest : r.rest.head? = some client) :
      Statement st (.looping r) st (.resolving r (st.broker.clientId client))
  | absent {r : Round} {clientId : String} (hclient : st.broker.getClient clientId = none) :
      Statement st (.resolving r clientId) st (.looping r.next)
  | found {r : Round} {clientId : String} {client : SessionPtr}
      (hclient : st.broker.getClient clientId = some client) :
      Statement st (.resolving r clientId) st (.testing r client)
  | ready {r : Round} {client : SessionPtr} :
      Statement st (.testing r client) st (.sending r client r.task.data)
  | suback {r : Round} {client : SessionPtr} :
      Statement st (.testing r client) st (.marking r client)
  | unready {r : Round} {client : SessionPtr} (htype : packetType r.task.data = some .publish)
      (hready : (st.broker.session client).subRequested = false) :
      Statement st (.testing r client) st (.returning r client)
  | mark {r : Round} {client : SessionPtr} :
      Statement st (.marking r client) (st.setSubRequested client)
        (.sending r client r.task.data)
  | giveBack {r : Round} {client : SessionPtr} :
      Statement st (.returning r client) (st.putBack r.origin r.task) (.sending r client [])
  | fail {r : Round} {client : SessionPtr} {data : List UInt8} (hlong : 1024 < data.length) :
      Statement st (.sending r client data) (st.record r.origin client data) (.failed r data)
  | send {r : Round} {client : SessionPtr} {data : List UInt8} :
      Statement st (.sending r client data) (st.record r.origin client data) (.looping r.next)
  | retry {r : Round} {data : List UInt8} :
      Statement st (.failed r data) (st.putBack r.origin { r.task with data := data })
        (.looping r.next)

theorem advance_statement {st st' : State L T} {t : T} (h : advance st t = some st') :
    ∃ m q, Statement st (st.threads t) m q ∧ st' = m.goto t q := by
  unfold advance at h
  cases hp : st.threads t with
  | waiting =>
    rw [hp] at h
    cases h
  | taken origin task =>
    simp only [hp] at h
    split at h
    · rename_i hdata
      exact ⟨st, _, .drop hdata, (Option.some.inj h).symm⟩
    · rename_i hdata
      split at h
      · rename_i hid
        exact ⟨st, _, .loop hdata hid, (Option.some.inj h).symm⟩
      · rename_i hid
        exact ⟨st, _, .call hdata hid, (Option.some.inj h).symm⟩
  | looping r =>
    simp only [hp] at h
    split at h
    · rename_i hrest
      exact ⟨st, _, .finish hrest, (Option.some.inj h).symm⟩
    · rename_i client rest hrest
      exact ⟨st, _, .visit (by rw [hrest]; rfl), (Option.some.inj h).symm⟩
  | resolving r clientId =>
    simp only [hp] at h
    split at h
    · rename_i hclient
      exact ⟨st, _, .absent hclient, (Option.some.inj h).symm⟩
    · rename_i client hclient
      exact ⟨st, _, .found hclient, (Option.some.inj h).symm⟩
  | testing r client =>
    simp only [hp] at h
    split at h
    · exact ⟨st, _, .ready, (Option.some.inj h).symm⟩
    · rename_i hready
      split at h
      · exact ⟨st, _, .suback, (Option.some.inj h).symm⟩
      · split at h
        · rename_i htype
          exact ⟨st, _, .unready htype (Bool.eq_false_of_not_eq_true hready),
            (Option.some.inj h).symm⟩
        · exact ⟨st, _, .ready, (Option.some.inj h).symm⟩
  | marking r client =>
    simp only [hp] at h
    exact ⟨_, _, .mark, (Option.some.inj h).symm⟩
  | returning r client =>
    simp only [hp] at h
    exact ⟨_, _, .giveBack, (Option.some.inj h).symm⟩
  | sending r client data =>
    simp only [hp] at h
    split at h
    · rename_i hfail
      refine ⟨_, _, .fail ?_, (Option.some.inj h).symm⟩
      unfold MqttSession.send at hfail
      split at hfail
      · assumption
      · cases hfail
    · exact ⟨_, _, .send, (Option.some.inj h).symm⟩
  | failed r data =>
    simp only [hp] at h
    exact ⟨_, _, .retry, (Option.some.inj h).symm⟩

omit [DecidableEq T] in
/-- A statement does one piece of work on the broker, or none. -/
theorem Statement.run_work {st m : State L T} {p q : Phase} (h : Statement st p m q) :
    Work.Run st.broker m.broker := by
  cases h with
  | mark => exact .single (.setSubRequested st.broker _)
  | giveBack | retry => exact .single (.enqueueMqtt st.broker _)
  | _ => exact .refl

omit [DecidableEq T] in
/-- A statement leaves the enqueues, the other threads and the clients alone. -/
theorem Statement.keeps {st m : State L T} {p q : Phase} (h : Statement st p m q) :
    m.enqueued = st.enqueued ∧ m.threads = st.threads ∧ SameClients st.broker m.broker := by
  have hclients := SameClients.ofRun h.run_work
  cases h <;> exact ⟨rfl, rfl, hclients⟩

omit [DecidableEq T] in
/-- A statement makes the call that the thread stands at, or none. -/
theorem sent_statement {w m : State L T} {p q : Phase} (h : Statement w p m q) :
    (m.sent = w.sent ∧ ∀ r client data, p ≠ .sending r client data) ∨
      ∃ r client data, p = .sending r client data ∧
        m.sent = w.sent ++ [⟨r.origin, client, data⟩] := by
  cases h with
  | fail | send => exact .inr ⟨_, _, _, rfl, rfl⟩
  | _ => exact .inl ⟨rfl, by simp⟩

omit [DecidableEq T] in
theorem Statement.sent_prefix {w m : State L T} {p q : Phase} (h : Statement w p m q) :
    w.sent <+: m.sent := by
  rcases sent_statement h with ⟨hm, -⟩ | ⟨r, client, data, -, hm⟩
  · exact hm ▸ List.prefix_refl _
  · exact hm ▸ List.prefix_append _ _

/-! ## The other steps -/

/-- The rest of the broker only adds tasks. -/
theorem step_appends {b b' : Broker L} {e : Run.Event} (hs : Run.step b e = some b')
    (he : ∀ i, e ≠ .dispatch i) : ∃ tasks, b'.mqttTaskQueue = b.mqttTaskQueue ++ tasks := by
  cases e with
  | accept s =>
    obtain ⟨-, rfl⟩ := Run.step_accept hs
    exact ⟨[], (List.append_nil _).symm⟩
  | packet s recvData =>
    obtain ⟨-, hproc⟩ := Run.step_packet hs
    obtain ⟨tasks, hqueue, -⟩ := MqttSession.reply_clientId hproc
    exact ⟨tasks, hqueue⟩
  | dispatch i => exact absurd rfl (he i)
  | addClient topicName client =>
    obtain rfl := Option.some.inj hs
    exact ⟨[], (List.append_nil _).symm⟩
  | sample topicName json packet =>
    obtain rfl := Option.some.inj hs
    exact forwardSample_mqttTaskQueue topicName json packet b

omit [DecidableEq T] in
/-- What a step of the rest of the broker is. -/
theorem environment_eq_some {st st' : State L T} {e : Run.Event}
    (h : environment st e = some st') :
    ∃ b tasks, (∀ i, e ≠ .dispatch i) ∧ Run.step st.broker e = some b ∧
      b.mqttTaskQueue = st.broker.mqttTaskQueue ++ tasks ∧
      st' = { st with
        broker := b
        origins := st.origins ++ List.range' st.enqueued.length tasks.length
        enqueued := st.enqueued ++ tasks } := by
  unfold environment at h
  split at h
  · cases h
  · rename_i hdispatch
    obtain ⟨b, hstep, rfl⟩ := Option.map_eq_some_iff.mp h
    obtain ⟨tasks, hqueue⟩ := step_appends hstep hdispatch
    refine ⟨b, tasks, hdispatch, hstep, hqueue, ?_⟩
    simp only [hqueue, List.drop_left]

/-- What a `wait_dequeue` is. -/
theorem dequeue_eq_some {st st' : State L T} {t : T} {i : Nat}
    (h : dequeue st t i = some st') :
    ∃ origin task, st.threads t = .waiting ∧ st.origins[i]? = some origin ∧
      st.broker.mqttTaskQueue[i]? = some task ∧
      st' = { st with
        broker := { st.broker with mqttTaskQueue := st.broker.mqttTaskQueue.eraseIdx i }
        origins := st.origins.eraseIdx i }.goto t (.taken origin task) := by
  unfold dequeue at h
  split at h
  · rename_i origin task ht horigin htask
    exact ⟨origin, task, ht, horigin, htask, (Option.some.inj h).symm⟩
  · cases h

/-! ## A thread alone -/

section Alone

/-- The thread takes its next statements until it stands at `p`. -/
def Reaches (t : T) (st st' : State L T) : Prop :=
  ∃ n, Machine.run step st (List.replicate n (.advance t)) = some st'

theorem Reaches.refl (t : T) (st : State L T) : Reaches t st st := ⟨0, rfl⟩

theorem Reaches.head {t : T} {st st' st'' : State L T} (h : advance st t = some st')
    (h' : Reaches t st' st'') : Reaches t st st'' := by
  obtain ⟨n, hn⟩ := h'
  exact ⟨n + 1, Machine.run_cons_eq_some.mpr ⟨st', h, hn⟩⟩

theorem Reaches.trans {t : T} {st st' st'' : State L T} (h : Reaches t st st')
    (h' : Reaches t st' st'') : Reaches t st st'' := by
  obtain ⟨n, hn⟩ := h
  obtain ⟨m, hm⟩ := h'
  exact ⟨n + m, by rw [List.replicate_add, Machine.run_append, hn]; exact hm⟩

/-- The thread comes to stand at `p`, and on its way it changes the broker to `b` and
makes these sends. -/
def Does (t : T) (st : State L T) (b : Broker L) (sends : List Sent) (p : Phase) : Prop :=
  ∃ st', Reaches t st st' ∧ st'.broker = b ∧ st'.sent = st.sent ++ sends ∧
    st'.enqueued = st.enqueued ∧ st'.threads = Function.update st.threads t p

theorem Does.refl {t : T} {st : State L T} {p : Phase} (ht : st.threads t = p) :
    Does t st st.broker [] p :=
  ⟨st, .refl t st, rfl, (List.append_nil _).symm, rfl, by rw [← ht, Function.update_eq_self]⟩

/-- After its next statement, a thread does the rest. -/
theorem Does.head {t : T} {st m : State L T} {b : Broker L} {c d : List Sent}
    {p q : Phase} (h : advance st t = some (m.goto t q)) (hsent : m.sent = st.sent ++ c)
    (henqueued : m.enqueued = st.enqueued) (hthreads : m.threads = st.threads)
    (h' : Does t (m.goto t q) b d p) : Does t st b (c ++ d) p := by
  obtain ⟨st', hreach, hb, hrest, hen, hth⟩ := h'
  refine ⟨st', .head h hreach, hb, ?_, hen.trans henqueued, ?_⟩
  · rw [hrest, ← List.append_assoc, ← hsent]
    rfl
  · rw [hth, State.goto, hthreads, Function.update_idem]

/-- A statement that only moves on. -/
theorem Does.skip {t : T} {st : State L T} {b : Broker L} {sends : List Sent} {p q : Phase}
    (h : advance st t = some (st.goto t q)) (h' : Does t (st.goto t q) b sends p) :
    Does t st b sends p :=
  Does.head h (List.append_nil _).symm rfl rfl h'

theorem Does.trans {t : T} {st : State L T} {b c : Broker L} {sends rest : List Sent}
    {p q : Phase} (h : Does t st b sends q)
    (h' : ∀ m : State L T, m.broker = b → m.threads t = q → Does t m c rest p) :
    Does t st c (sends ++ rest) p := by
  obtain ⟨m, hm, hb, hsent, hen, hth⟩ := h
  obtain ⟨st', hst', hc, hrest, hen', hth'⟩ := h' m hb (by rw [hth, Function.update_self])
  refine ⟨st', hm.trans hst', hc, ?_, hen'.trans hen, ?_⟩
  · rw [hrest, hsent, List.append_assoc]
  · rw [hth', hth, Function.update_idem]

/-- `client->send`, and the `enqueue` when it fails. -/
theorem sending_alone {t : T} {st : State L T} {r : Round} {client : SessionPtr}
    {data : List UInt8} (ht : st.threads t = .sending r client data) :
    Does t st (if MqttSession.send data < 0 then
        st.broker.enqueueMqtt { r.task with data := data } else st.broker)
      [⟨r.origin, client, data⟩] (.looping r.next) := by
  by_cases hfail : MqttSession.send data < 0
  · rw [if_pos hfail]
    refine Does.head (m := st.record r.origin client data) (d := []) (q := .failed r data)
      (by simp only [advance, ht, if_pos hfail]) rfl rfl rfl ?_
    let m := (st.record r.origin client data).goto t (.failed r data)
    refine Does.head (m := m.putBack r.origin { r.task with data := data }) (c := [])
      (q := .looping r.next) (by simp only [m, advance, threads_goto]) (List.append_nil _).symm
      rfl rfl ?_
    exact Does.refl (threads_goto _ t _)
  · rw [if_neg hfail]
    refine Does.head (m := st.record r.origin client data) (d := []) (q := .looping r.next)
      (by simp only [advance, ht, if_neg hfail]) rfl rfl rfl ?_
    exact Does.refl (threads_goto _ t _)

def Sent.ofCall (origin : Nat) (call : SendCall) : Sent := ⟨origin, call.session, call.data⟩

/-- The part of `send_message` for a connected client. -/
theorem testing_alone {t : T} {st : State L T} {r : Round} {client : SessionPtr}
    (ht : st.threads t = .testing r client) :
    Does t st (sendTo client r.task (packetType r.task.data) st.broker).1
      ((sendTo client r.task (packetType r.task.data) st.broker).2.map (Sent.ofCall r.origin))
      (.looping r.next) := by
  by_cases hready : (st.broker.session client).subRequested
  · refine Does.skip (q := .sending r client r.task.data)
      (by simp only [advance, ht, if_pos hready]) ?_
    simpa [sendTo, hready, Sent.ofCall] using sending_alone (threads_goto st t _)
  by_cases hsuback : packetType r.task.data = some .suback
  · refine Does.skip (q := .marking r client)
      (by simp only [advance, ht, if_neg hready, if_pos hsuback]) ?_
    refine Does.head (m := (st.goto t (.marking r client)).setSubRequested client) (c := [])
      (q := .sending r client r.task.data)
      (by simp only [advance, threads_goto]) (List.append_nil _).symm rfl rfl ?_
    simpa [sendTo, hready, hsuback, Sent.ofCall, State.setSubRequested] using
      sending_alone (threads_goto (State.setSubRequested (st.goto t _) client) t _)
  by_cases hpublish : packetType r.task.data = some .publish
  · refine Does.skip (q := .returning r client)
      (by simp only [advance, ht, if_neg hready, if_neg hsuback, if_pos hpublish]) ?_
    refine Does.head (m := (st.goto t (.returning r client)).putBack r.origin r.task) (c := [])
      (q := .sending r client [])
      (by simp only [advance, threads_goto]) (List.append_nil _).symm rfl rfl ?_
    simpa [sendTo, hready, hpublish, Sent.ofCall, State.putBack] using
      sending_alone (threads_goto (State.putBack (st.goto t _) r.origin r.task) t _)
  · refine Does.skip (q := .sending r client r.task.data)
      (by simp only [advance, ht, if_neg hready, if_neg hsuback, if_neg hpublish]) ?_
    simpa [sendTo, hready, hsuback, hpublish, Sent.ofCall] using
      sending_alone (threads_goto st t _)

theorem sendMessage_alone {t : T} {st : State L T} {r : Round} {clientId : String}
    {b : Broker L} {sends : List SendCall} (ht : st.threads t = .resolving r clientId)
    (h : sendMessage clientId r.task st.broker = some (b, sends)) :
    Does t st b (sends.map (Sent.ofCall r.origin)) (.looping r.next) := by
  unfold sendMessage at h
  split at h
  · cases h
  · rename_i firstByte rest hdata
    have htype : messageType firstByte = packetType r.task.data := by rw [hdata]; rfl
    split at h
    · rename_i hclient
      simp only [Option.some.injEq, Prod.mk.injEq] at h
      obtain ⟨rfl, rfl⟩ := h
      refine Does.skip (q := .looping r.next) (by simp only [advance, ht, hclient]) ?_
      exact Does.refl (threads_goto st t _)
    · rename_i client hclient
      refine Does.skip (q := .testing r client) (by simp only [advance, ht, hclient]) ?_
      have hsends := testing_alone (threads_goto st t (.testing r client))
      rw [broker_goto, ← htype, Option.some.inj h] at hsends
      exact hsends

theorem fanOut_alone {t : T} {clients : List SessionPtr} {st : State L T} {r : Round}
    {d : Dispatched L} (ht : st.threads t = .looping r)
    (hrest : r.rest = clients) (h : fanOut r.task clients st.broker = some d) :
    Does t st d.broker (d.sends.map (Sent.ofCall r.origin)) .waiting := by
  induction clients generalizing st r d with
  | nil =>
    obtain rfl := Option.some.inj h
    refine Does.skip (q := .waiting) (by simp only [advance, ht, hrest]) ?_
    exact Does.refl (threads_goto st t _)
  | cons client clients ih =>
    obtain ⟨b₁, sends, rest, hsend, hloop, rfl⟩ := fanOut_cons h
    refine Does.skip (q := .resolving r (st.broker.clientId client))
      (by simp only [advance, ht, hrest]) ?_
    rw [List.map_append]
    refine (sendMessage_alone (threads_goto st t _) hsend).trans fun m hm hthread => ?_
    exact ih (r := r.next) hthread (by rw [Round.next, hrest]; rfl) (by rw [hm]; exact hloop)

theorem writer_alone {t : T} {st : State L T} {origin : Nat} {task : MqttTask}
    {r : Dispatched L} (ht : st.threads t = .taken origin task)
    (h : mqttEndPointWriter task st.broker = some r) :
    Does t st r.broker (r.sends.map (Sent.ofCall origin)) .waiting := by
  unfold mqttEndPointWriter at h
  split at h
  · rename_i hdata
    obtain rfl := Option.some.inj h
    refine Does.skip (q := .waiting) (by simp only [advance, ht, if_pos hdata]) ?_
    exact Does.refl (threads_goto st t _)
  · rename_i hdata
    split at h
    · rename_i hid
      refine Does.skip (q := .looping ⟨origin, task, [], st.broker.gpsSessions⟩)
        (by simp only [advance, ht, if_neg hdata, if_pos hid]) ?_
      exact fanOut_alone (threads_goto st t _) rfl h
    · rename_i hid
      obtain ⟨⟨b, sends⟩, hf, rfl⟩ := Option.map_eq_some_iff.mp h
      refine Does.skip (q := .resolving ⟨origin, task, [], []⟩ task.clientId)
        (by simp only [advance, ht, if_neg hdata, if_neg hid]) ?_
      have hsend := sendMessage_alone (threads_goto st t (.resolving ⟨origin, task, [], []⟩ _)) hf
      rw [← List.append_nil (sends.map _)]
      refine hsend.trans fun m hm hthread => ?_
      obtain rfl := hm
      refine Does.skip (q := .waiting)
        (by simp only [advance, hthread, Round.next, List.drop_nil]) ?_
      exact Does.refl (threads_goto m t _)

/-- **Refinement.** A thread that nobody interrupts does one dispatch. -/
theorem dispatch_alone {t : T} {st : State L T} {i origin : Nat} {task : MqttTask}
    {r : Dispatched L} (ht : st.threads t = .waiting) (horigin : st.origins[i]? = some origin)
    (h : Run.Dispatches st.broker i task r) :
    ∃ n st', Machine.run step st (.dequeue t i :: List.replicate n (.advance t)) = some st' ∧
      st'.broker = r.broker ∧ st'.sent = st.sent ++ r.sends.map (Sent.ofCall origin) ∧
      st'.enqueued = st.enqueued ∧ st'.threads = st.threads := by
  obtain ⟨htask, hr⟩ := h
  let m : State L T := { st with
    broker := { st.broker with mqttTaskQueue := st.broker.mqttTaskQueue.eraseIdx i }
    origins := st.origins.eraseIdx i }
  have hstep : step st (.dequeue t i) = some (m.goto t (.taken origin task)) := by
    simp only [step, dequeue, ht, horigin, htask, m]
  obtain ⟨st', ⟨n, hn⟩, hb, hsent, hen, hth⟩ :=
    writer_alone (threads_goto m t (.taken origin task)) hr
  refine ⟨n, st', Machine.run_cons_eq_some.mpr ⟨_, hstep, hn⟩, hb, hsent, hen, ?_⟩
  rw [hth, State.goto, Function.update_idem, ← ht]
  exact Function.update_eq_self t st.threads

end Alone

end BddsBroker.Writers
