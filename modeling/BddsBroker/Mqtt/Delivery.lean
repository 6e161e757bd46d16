import BddsBroker.Mqtt.AtMostOnce
import BddsBroker.Mqtt.Connections
import BddsBroker.Mqtt.SubackGate
import BddsBroker.Mqtt.Origins

/-! Every subscriber of "GPS" whose id leads to it gets every message. From its enqueue on, a
task for every subscriber is in the queue, or with a thread that still has to come to the
subscriber, or was sent to it; so when the queue is empty and all threads wait, it was sent, and
exactly once where ids are distinct and no look-up of an id is overtaken. Where all sessions have
their SUBACK and every task fits into a packet, the threads come to that point by themselves,
whatever the scheduler does. -/

namespace BddsBroker.Delivery

open Writers Tally AtMostOnce

variable {L : Libraries} {T : Type} {st st' : State L T} {c : SessionPtr} {name : String} {o : Nat}

/-! ## A subscriber -/

/-- The session is listed under "GPS", its id leads to it, and it has its SUBACK. -/
structure Listens (b : Broker L) (c : SessionPtr) (name : String) : Prop where
  listed : c ∈ b.gpsSessions
  clientId : b.clientId c = name
  found : b.getClient name = some c
  subRequested : (b.session c).subRequested = true

instance (b : Broker L) (c : SessionPtr) (name : String) : Decidable (Listens b c name) :=
  decidable_of_iff (c ∈ b.gpsSessions ∧ b.clientId c = name ∧ b.getClient name = some c ∧
      (b.session c).subRequested = true)
    ⟨fun h => ⟨h.1, h.2.1, h.2.2.1, h.2.2.2⟩, fun h => ⟨h.1, h.2, h.3, h.4⟩⟩

/-- A thread with the task of that enqueue still has to send it to the session. -/
def Owes (c : SessionPtr) (name : String) (o : Nat) : Phase → Prop
  | .waiting => False
  | .taken origin _ => origin = o
  | .looping r => r.origin = o ∧ c ∈ r.rest
  | .resolving r clientId => r.origin = o ∧ (c ∈ r.rest.drop 1 ∨ c ∈ r.rest ∧ clientId = name)
  | .testing r client | .marking r client =>
      r.origin = o ∧ (c ∈ r.rest.drop 1 ∨ c ∈ r.rest ∧ client = c)
  | .sending r client data =>
      r.origin = o ∧ (c ∈ r.rest.drop 1 ∨ client = c ∧ data = r.task.data)
  | .returning r _ | .failed r _ => r.origin = o ∧ c ∈ r.rest.drop 1

/-- The task was sent to the session, is queued, or is with a thread that owes it. -/
def Due (c : SessionPtr) (name : String) (o : Nat) (packet : List UInt8) (st : State L T) : Prop :=
  0 < calls o packet c st ∨ o ∈ st.origins ∨ ∃ t, Owes c name o (st.threads t)

/-- Nothing is queued, and all threads are at `wait_dequeue`. -/
def AtRest (st : State L T) : Prop := st.origins = [] ∧ ∀ t, st.threads t = .waiting

theorem calls_mono {m : State L T} {packet : List UInt8} (h : st.sent <+: m.sent) :
    calls o packet c st ≤ calls o packet c m := by
  obtain ⟨more, hmore⟩ := h
  rw [calls, calls, ← hmore, List.countP_append]
  exact Nat.le_add_right ..

theorem calls_record {r : Round} {data : List UInt8} (horigin : r.origin = o) :
    0 < calls o data c (st.record r.origin c data) := by
  rw [calls, State.record, List.countP_append, List.countP_singleton]
  simp [horigin]

theorem mem_rest {r : Round} (h : c ∈ r.rest) : r.rest.head? = some c ∨ c ∈ r.rest.drop 1 := by
  cases hrest : r.rest with
  | nil =>
    rw [hrest] at h
    cases h
  | cons head rest =>
    rw [hrest, List.mem_cons] at h
    exact h.imp (fun heq => congrArg some heq.symm) fun hmem => hmem

/-! ## Steps -/

/-- What a statement makes of a debt. -/
theorem owes_statement {m : State L T} {p q : Phase} {task : MqttTask}
    (h : Statement st p m q) (hp : Carries st.enqueued p) (hlistens : Listens st.broker c name)
    (ho : st.enqueued[o]? = some task) (hid : task.clientId = broadcastId)
    (hdata : task.data ≠ []) (howes : Owes c name o p) :
    0 < calls o task.data c m ∨ o ∈ m.origins ∨ Owes c name o q := by
  have htask : ∀ {origin : Nat} {task' : MqttTask}, st.enqueued[origin]? = some task' →
      origin = o → task' = task := by
    rintro origin task' htask' rfl
    exact Option.some.inj (htask'.symm.trans ho)
  cases h with
  | drop hempty => exact absurd hempty (htask hp howes ▸ hdata)
  | loop => exact .inr (.inr ⟨howes, hlistens.listed⟩)
  | call _ hother => exact absurd hid (htask hp howes ▸ hother)
  | finish hrest =>
    obtain ⟨-, hmem⟩ := howes
    rw [hrest] at hmem
    cases hmem
  | @visit r client hhead =>
    obtain ⟨horigin, hmem⟩ := howes
    refine .inr (.inr ⟨horigin, ?_⟩)
    rcases mem_rest hmem with heq | hlater
    · obtain rfl := Option.some.inj (hhead.symm.trans heq)
      exact .inr ⟨hmem, hlistens.clientId⟩
    · exact .inl hlater
  | absent hclient =>
    obtain ⟨horigin, hlater | ⟨-, rfl⟩⟩ := howes
    · exact .inr (.inr ⟨horigin, hlater⟩)
    · rw [hlistens.found] at hclient
      cases hclient
  | found hclient =>
    obtain ⟨horigin, hlater | ⟨hmem, rfl⟩⟩ := howes
    · exact .inr (.inr ⟨horigin, .inl hlater⟩)
    · exact .inr (.inr ⟨horigin, .inr ⟨hmem, Option.some.inj (hclient.symm.trans hlistens.found)⟩⟩)
  | ready | mark =>
    obtain ⟨horigin, hlater | ⟨-, hclient⟩⟩ := howes
    · exact .inr (.inr ⟨horigin, .inl hlater⟩)
    · exact .inr (.inr ⟨horigin, .inr ⟨hclient, rfl⟩⟩)
  | suback => exact .inr (.inr howes)
  | unready _ hready =>
    obtain ⟨horigin, hlater | ⟨-, rfl⟩⟩ := howes
    · exact .inr (.inr ⟨horigin, hlater⟩)
    · rw [hlistens.subRequested] at hready
      cases hready
  | @giveBack r client | @retry r data =>
    obtain ⟨rfl, -⟩ := howes
    exact .inr (.inl (List.mem_append_right _ (List.mem_singleton_self _)))
  | fail | send =>
    obtain ⟨horigin, hlater | ⟨rfl, rfl⟩⟩ := howes
    · exact .inr (.inr ⟨horigin, hlater⟩)
    · rw [← htask hp.1 horigin]
      exact .inl (calls_record horigin)

section Steps

variable [DecidableEq T]

theorem due_advance {t : T} {task : MqttTask} (hst : Genuine st) (hs : advance st t = some st')
    (hlistens : Listens st.broker c name) (ho : st.enqueued[o]? = some task)
    (hid : task.clientId = broadcastId) (hdata : task.data ≠ []) (h : Due c name o task.data st) :
    Due c name o task.data st' := by
  obtain ⟨m, q, hstatement, rfl⟩ := advance_statement hs
  obtain ⟨-, hth, -⟩ := hstatement.keeps
  have hcalls : calls o task.data c st ≤ calls o task.data c m :=
    calls_mono hstatement.sent_prefix
  rcases h with hsent | hqueued | ⟨u, howes⟩
  · exact .inl (Nat.lt_of_lt_of_le hsent hcalls)
  · refine .inr (.inl ?_)
    rcases hstatement.queue with ⟨heq, -⟩ | ⟨origin, back, -, heq, -⟩
    · exact heq ▸ hqueued
    · exact heq ▸ List.mem_append_left _ hqueued
  · by_cases hut : u = t
    · subst hut
      refine (owes_statement hstatement (hst.threads u) hlistens ho hid hdata howes).imp id
        fun h => h.imp id fun howes' => ⟨u, ?_⟩
      rw [threads_goto]
      exact howes'
    · refine .inr (.inr ⟨u, ?_⟩)
      rw [threads_goto_of_ne m hut, hth]
      exact howes

theorem due_dequeue {t : T} {i : Nat} {packet : List UInt8} (hs : dequeue st t i = some st')
    (h : Due c name o packet st) : Due c name o packet st' := by
  obtain ⟨origin, task, ht, horigin, -, rfl⟩ := dequeue_eq_some hs
  rcases h with hsent | hqueued | ⟨u, howes⟩
  · exact .inl hsent
  · rcases Lists.mem_eraseIdx_or hqueued i with hmem | htaken
    · exact .inr (.inl hmem)
    · refine .inr (.inr ⟨t, ?_⟩)
      rw [threads_goto]
      exact Option.some.inj (horigin.symm.trans htaken)
  · have hut : u ≠ t := by
      rintro rfl
      rw [ht] at howes
      exact howes
    refine .inr (.inr ⟨u, ?_⟩)
    rw [threads_goto_of_ne _ hut]
    exact howes

omit [DecidableEq T] in
theorem due_environment {e : Run.Event} {packet : List UInt8}
    (hs : environment st e = some st') (h : Due c name o packet st) :
    Due c name o packet st' := by
  obtain ⟨b, tasks, -, -, -, rfl⟩ := environment_eq_some hs
  exact h.imp_right (Or.imp_left (List.mem_append_left _))

omit [DecidableEq T] in
/-- A task is queued when it is enqueued. -/
theorem queued_environment {e : Run.Event} (hs : environment st e = some st')
    (hold : st.enqueued.length ≤ o) (hnew : o < st'.enqueued.length) : o ∈ st'.origins := by
  obtain ⟨b, tasks, -, -, -, rfl⟩ := environment_eq_some hs
  have hlt : o < st.enqueued.length + tasks.length := by
    rw [← List.length_append]
    exact hnew
  exact List.mem_append_right _ (List.mem_range'_1.mpr ⟨hold, hlt⟩)

theorem enqueued_writer {e : Event T} (he : ∀ e', e ≠ .environment e') (hs : step st e = some st') :
    st'.enqueued = st.enqueued := by
  cases e with
  | environment e' => exact absurd rfl (he e')
  | dequeue t i =>
    obtain ⟨origin, task, -, -, -, rfl⟩ := dequeue_eq_some hs
    rfl
  | advance t =>
    obtain ⟨m, q, hstatement, rfl⟩ := advance_statement hs
    exact hstatement.keeps.1

/-- If that enqueue exists and is a task for every subscriber, the session gets it. -/
def Served (c : SessionPtr) (name : String) (o : Nat) (st : State L T) : Prop :=
  ∀ task, st.enqueued[o]? = some task → task.clientId = broadcastId → task.data ≠ [] →
    Due c name o task.data st

/-- **Invariant.** No debt is forgotten. -/
theorem step_served {e : Event T} (hst : Genuine st ∧ Served c name o st)
    (hc : o < st.enqueued.length → Listens st.broker c name) (hs : step st e = some st') :
    Genuine st' ∧ Served c name o st' := by
  refine ⟨step_genuine hst.1 hs, fun task ho hid hdata => ?_⟩
  cases e with
  | environment e =>
    by_cases hold : o < st.enqueued.length
    · obtain ⟨b, tasks, -, -, -, heq⟩ := environment_eq_some hs
      have hsame : st.enqueued[o]? = some task := by
        rw [heq] at ho
        exact (List.getElem?_append_left hold).symm.trans ho
      exact due_environment hs (hst.2 task hsame hid hdata)
    · exact .inr (.inl (queued_environment hs (Nat.le_of_not_lt hold)
        (List.getElem?_eq_some_iff.mp ho).1))
  | dequeue t i =>
    rw [enqueued_writer (by simp) hs] at ho
    exact due_dequeue hs (hst.2 task ho hid hdata)
  | advance t =>
    rw [enqueued_writer (by simp) hs] at ho
    have hlistens := hc (List.getElem?_eq_some_iff.mp ho).1
    exact due_advance hst.1 hs hlistens ho hid hdata (hst.2 task ho hid hdata)

end Steps

/-- At rest nothing is owed any more. -/
theorem calls_of_rest {packet : List UInt8} (hrest : AtRest st) (h : Due c name o packet st) :
    0 < calls o packet c st := by
  rcases h with hsent | hqueued | ⟨t, howes⟩
  · exact hsent
  · rw [hrest.1] at hqueued
    cases hqueued
  · rw [hrest.2 t] at howes
    exact absurd howes id

/-- **Exactly once.** In every run that keeps the subscribers and the ids distinct, whose
statements all meet the condition under which nothing is sent twice, and that ends at rest, a
task for every subscriber was sent exactly once to each session that listened from the enqueue
on. -/
theorem delivered_exactly_once [Fintype T] [DecidableEq T] {es : List (Writers.Event T)}
    {task : MqttTask}
    (hc : Machine.Along Writers.step (fun st e => (Distinct st ∧ Condition st e) ∧
      (o < st.enqueued.length → Listens st.broker c name)) (State.init : State L T) es)
    (hr : Machine.run Writers.step State.init es = some st) (hrest : AtRest st)
    (ho : st.enqueued[o]? = some task) (hid : task.clientId = broadcastId)
    (hdata : task.data ≠ []) : calls o task.data c st = 1 := by
  have hinit : (Consistent (State.init : State L T) ∧ Bounded (State.init : State L T)) ∧
      Genuine (State.init : State L T) ∧ Served c name o (State.init : State L T) :=
    ⟨⟨consistent_init, bounded_init⟩, genuine_init, fun task h => by simp [State.init] at h⟩
  obtain ⟨⟨-, hbound⟩, -, hserved⟩ := Machine.run_invariant
    (I := fun st => (Consistent st ∧ Bounded st) ∧ Genuine st ∧ Served c name o st)
    (fun _ _ _ hst hc hs => ⟨step_keeps hst.1 hc.1 hs, step_served hst.2 hc.2 hs⟩) hinit hc hr
  have htracks : Tracks st o task.data := by
    intro task' htask'
    obtain rfl : task' = task := Option.some.inj (htask'.symm.trans ho)
    exact ⟨hid, rfl⟩
  have hmost := hbound o task.data c htracks
  rw [if_pos (List.getElem?_eq_some_iff.mp ho).1] at hmost
  have hleast := calls_of_rest hrest (hserved task ho hid hdata)
  unfold spent settled at hmost
  omega

/-- Both SUBACKs are sent, one by each thread, before session 1 publishes. -/
def subscribed {T : Type} (t u : T) : List (Writers.Event T) :=
  published.take 6 ++ serve t 5 ++ serve u 5 ++ serve t 6 ++ serve u 6 ++ published.drop 6 ++
    serve t 10

theorem delivered_exactly_once_subscribed :
    ∃ st : State Wire.libraries (Fin 2),
      Machine.run Writers.step State.init (subscribed 0 1) = some st ∧
        calls 4 publishGps 1 st = 1 ∧ calls 4 publishGps 2 st = 1 := by
  have hdistinct : ∀ c ∈ [(1, "a"), (2, "b")], Machine.Along Writers.step
      (fun st e => (Distinct st ∧ Condition st e) ∧
        (4 < st.enqueued.length → Listens st.broker c.1 c.2))
      (State.init : State Wire.libraries (Fin 2)) (subscribed 0 1) := by
    decide +kernel
  obtain ⟨st, hst, hrest, ho⟩ : ∃ st : State Wire.libraries (Fin 2),
      Machine.run Writers.step State.init (subscribed 0 1) = some st ∧ AtRest st ∧
        st.enqueued[4]? = some ⟨4, 0, publishGps, broadcastId⟩ :=
    ⟨_, rfl, ⟨rfl, by decide⟩, rfl⟩
  refine ⟨st, hst, ?_, ?_⟩
  · exact delivered_exactly_once (hdistinct (1, "a") (by simp)) hst hrest ho rfl
      (by simp [publishGps])
  · exact delivered_exactly_once (hdistinct (2, "b") (by simp)) hst hrest ho rfl
      (by simp [publishGps])

/-! ## The threads alone -/

/-- A step of the writers. -/
inductive Move (T : Type)
  | dequeue (t : T) (i : Nat)
  | advance (t : T)

def move [DecidableEq T] (st : State L T) : Move T → Option (State L T)
  | .dequeue t i => dequeue st t i
  | .advance t => advance st t

/-- The most statements that a queued task takes, with its `wait_dequeue`. -/
def taskWork (listed : Nat) : Nat := 5 * listed + 8

def phaseWork (listed : Nat) : Phase → Nat
  | .waiting => 0
  | .taken .. => 5 * listed + 7
  | .looping r => 5 * r.rest.length + 1
  | .resolving r _ => 5 * (r.rest.length - 1) + 5
  | .testing r _ => 5 * (r.rest.length - 1) + 4
  | .marking r _ => 5 * (r.rest.length - 1) + 3
  | .sending r _ _ => 5 * (r.rest.length - 1) + 2
  -- The task is still to be put back.
  | .returning r _ => 5 * (r.rest.length - 1) + 3 + taskWork listed
  | .failed r _ => 5 * (r.rest.length - 1) + 2 + taskWork listed

def work [Fintype T] (st : State L T) : Nat :=
  let listed := st.broker.gpsSessions.length
  taskWork listed * st.origins.length + tally (phaseWork listed) st.threads

/-- All sessions have their SUBACK, and every task fits into a packet. -/
structure Quiet (st : State L T) : Prop where
  genuine : Genuine st
  sends : Connections.SendsToClients st
  ready : ∀ s ∈ st.broker.mqttClients, (st.broker.session s).subRequested = true
  fits : ∀ task ∈ st.enqueued, task.data.length ≤ 1024

theorem subRequested_statement {m : State L T} {p q : Phase} (h : Statement st p m q)
    {u : SessionPtr} (hu : (st.broker.session u).subRequested = true) :
    (m.broker.session u).subRequested = true := by
  cases h with
  | @mark r client =>
    by_cases huc : u = client
    · subst huc
      exact SubackGate.subRequested_setSubRequested st.broker u
    · show ((st.broker.setSubRequested client).session u).subRequested = true
      rw [Broker.setSubRequested, Broker.session_updateSession_of_ne _ _ _ huc]
      exact hu
  | _ => exact hu

/-- A statement takes one from the work of its thread; what it puts back counts for the
queue. -/
theorem work_statement {m : State L T} {p q : Phase} (h : Statement st p m q) (hst : Quiet st)
    (hp : Carries st.enqueued p) (hclient : Connections.ClientIn st.broker.mqttClients p) :
    let listed := st.broker.gpsSessions.length
    taskWork listed * m.origins.length + phaseWork listed q <
      taskWork listed * st.origins.length + phaseWork listed p := by
  cases h with
  | drop | loop | call => simp only [phaseWork, List.length_nil]; omega
  | finish => simp only [phaseWork]; omega
  | @visit r client hhead =>
    obtain ⟨rest, hrest⟩ := List.head?_eq_some_iff.mp hhead
    simp only [phaseWork, hrest, List.length_cons]
    omega
  | absent => simp only [phaseWork, Round.next, List.length_drop]; omega
  | found | ready | suback => simp only [phaseWork]; omega
  | @unready r client _ hready =>
    rw [hst.ready client (hclient client rfl)] at hready
    cases hready
  | mark =>
    show taskWork _ * st.origins.length + _ < _
    simp only [phaseWork]
    omega
  | @giveBack r client =>
    show taskWork _ * (st.origins ++ [r.origin]).length + _ < _
    simp only [phaseWork, List.length_append, List.length_singleton, Nat.mul_add]
    omega
  | @fail r client data hlong =>
    obtain ⟨htask, rfl | rfl⟩ := hp
    · simp at hlong
    · have hfits := hst.fits r.task (List.mem_of_getElem? htask)
      omega
  | send =>
    show taskWork _ * st.origins.length + _ < _
    simp only [phaseWork, Round.next, List.length_drop]
    omega
  | @retry r data =>
    show taskWork _ * (st.origins ++ [r.origin]).length + _ < _
    simp only [phaseWork, Round.next, List.length_drop, List.length_append, List.length_singleton,
      Nat.mul_add]
    omega

section Moves

variable [DecidableEq T]

theorem step_of_move {m : Move T} (hs : move st m = some st') :
    ∃ e, (∀ e', e ≠ .environment e') ∧ step st e = some st' := by
  cases m with
  | dequeue t i => exact ⟨.dequeue t i, by simp, hs⟩
  | advance t => exact ⟨.advance t, by simp, hs⟩

/-- What the writers alone leave as it is. -/
theorem move_keeps {m : Move T} (hs : move st m = some st') :
    SameClients st.broker st'.broker ∧ st'.enqueued = st.enqueued ∧
      ∀ u, (st.broker.session u).subRequested = true →
        (st'.broker.session u).subRequested = true := by
  cases m with
  | dequeue t i =>
    obtain ⟨origin, task, -, -, -, rfl⟩ := dequeue_eq_some hs
    exact ⟨⟨rfl, rfl, fun _ => rfl, fun _ => rfl⟩, rfl, fun _ hu => hu⟩
  | advance t =>
    obtain ⟨m, q, hstatement, rfl⟩ := advance_statement hs
    obtain ⟨henqueued, -, hsame⟩ := hstatement.keeps
    exact ⟨hsame, henqueued, fun u hu => subRequested_statement hstatement hu⟩

theorem move_quiet {m : Move T} (hst : Quiet st) (hs : move st m = some st') : Quiet st' := by
  obtain ⟨e, -, hstep⟩ := step_of_move hs
  obtain ⟨hsame, henqueued, hready⟩ := move_keeps hs
  refine ⟨step_genuine hst.genuine hstep, (Connections.step_sendsToClients hst.sends hstep).1,
    fun s hmem => ?_, fun task htask => ?_⟩
  · rw [hsame.clients] at hmem
    exact hready s (hst.ready s hmem)
  · rw [henqueued] at htask
    exact hst.fits task htask

theorem move_listens {m : Move T} (hs : move st m = some st') (h : Listens st.broker c name) :
    Listens st'.broker c name := by
  obtain ⟨hsame, -, hready⟩ := move_keeps hs
  refine ⟨hsame.gpsSessions ▸ h.listed, (hsame.clientId c).trans h.clientId, ?_,
    hready c h.subRequested⟩
  unfold Broker.getClient
  rw [hsame.clients]
  simp only [hsame.clientId]
  exact h.found

theorem move_lowers [Fintype T] {m : Move T} (hst : Quiet st) (hs : move st m = some st') :
    work st' < work st := by
  obtain ⟨hsame, -, -⟩ := move_keeps hs
  unfold work
  rw [hsame.gpsSessions]
  cases m with
  | dequeue t i =>
    obtain ⟨origin, task, ht, horigin, -, rfl⟩ := dequeue_eq_some hs
    obtain ⟨hlt, -⟩ := List.getElem?_eq_some_iff.mp horigin
    have htally := tally_update (phaseWork st.broker.gpsSessions.length) st.threads t
      (.taken origin task)
    have hlength : (st.origins.eraseIdx i).length + 1 = st.origins.length := by
      rw [List.length_eraseIdx_of_lt hlt]
      omega
    rw [ht] at htally
    simp only [State.goto, ← hlength, Nat.mul_add, phaseWork, taskWork] at htally ⊢
    omega
  | advance t =>
    obtain ⟨m, q, hstatement, rfl⟩ := advance_statement hs
    obtain ⟨-, hth, -⟩ := hstatement.keeps
    have hwork := work_statement hstatement hst (hst.genuine.threads t) (hst.sends.threads t)
    have htally := tally_update (phaseWork st.broker.gpsSessions.length) st.threads t q
    simp only [State.goto, hth] at hwork ⊢
    omega

/-- A thread that has a task can go on. -/
theorem advance_isSome {t : T} (h : st.threads t ≠ .waiting) : (advance st t).isSome := by
  unfold advance
  cases ht : st.threads t with
  | waiting => exact absurd ht h
  | looping r => cases hrest : r.rest <;> simp [hrest]
  | resolving r clientId => cases hclient : st.broker.getClient clientId <;> simp [hclient]
  | marking | returning | failed => rfl
  | taken | testing | sending =>
    simp only
    split_ifs <;> rfl

/-- The writers stop at rest only. -/
theorem atRest_iff [Nonempty T] (hst : Genuine st) :
    AtRest st ↔ ∀ m : Move T, move st m = none := by
  constructor
  · rintro ⟨horigins, hthreads⟩ m
    cases m with
    | dequeue t i => simp [move, dequeue, hthreads, horigins]
    | advance t => simp [move, advance, hthreads]
  · intro h
    have hthreads : ∀ t, st.threads t = .waiting := by
      intro t
      by_contra hne
      have hsome := advance_isSome hne
      rw [show advance st t = none from h (.advance t)] at hsome
      cases hsome
    refine ⟨?_, hthreads⟩
    obtain ⟨t⟩ := ‹Nonempty T›
    have hnone := h (.dequeue t 0)
    by_contra hne
    have hlt : 0 < st.origins.length := List.length_pos_iff.mpr hne
    have hqueue : 0 < st.broker.mqttTaskQueue.length := hst.numbered ▸ hlt
    simp only [move, dequeue, hthreads, List.getElem?_eq_getElem hlt,
      List.getElem?_eq_getElem hqueue] at hnone
    cases hnone

/-- When only the writers go on from `w`, what `w` has queued stays due to its listeners. -/
def Pledged (w st : State L T) : Prop :=
  ∀ o ∈ w.origins, ∀ task, w.enqueued[o]? = some task → task.clientId = broadcastId →
    task.data ≠ [] → ∀ c name, Listens w.broker c name →
      st.enqueued = w.enqueued ∧ Listens st.broker c name ∧ Due c name o task.data st

omit [DecidableEq T] in
theorem pledged_self (w : State L T) : Pledged w w :=
  fun _ hqueued _ _ _ _ _ _ hlistens => ⟨rfl, hlistens, .inr (.inl hqueued)⟩

theorem move_pledged {w : State L T} {m : Move T} (hst : Genuine st) (h : Pledged w st)
    (hs : move st m = some st') : Pledged w st' := by
  intro o hqueued task ho hid hdata c name hlistens
  obtain ⟨henqueued, hlistens', hdue⟩ := h o hqueued task ho hid hdata c name hlistens
  obtain ⟨-, hsame, -⟩ := move_keeps hs
  refine ⟨hsame.trans henqueued, move_listens hs hlistens', ?_⟩
  cases m with
  | dequeue t i => exact due_dequeue hs hdue
  | advance t => exact due_advance hst hs hlistens' (henqueued ▸ ho) hid hdata hdue

/-- **Draining.** Once all sessions have their SUBACK and every task fits into a packet, the
writers alone come to rest, in at most `work` steps and under every schedule; and at rest every
queued task for every subscriber was sent to each session that listens. -/
theorem every_schedule_delivers [Fintype T] [Nonempty T] {w : State L T}
    (hw : Machine.Reachable Writers.step State.init w)
    (hready : ∀ s ∈ w.broker.mqttClients, (w.broker.session s).subRequested = true)
    (hfits : ∀ task ∈ w.enqueued, task.data.length ≤ 1024) {ms : List (Move T)}
    (hr : Machine.run move w ms = some st) :
    ms.length + work st ≤ work w ∧ (AtRest st ↔ ∀ m : Move T, move st m = none) ∧
      (AtRest st → ∀ o ∈ w.origins, ∀ task, w.enqueued[o]? = some task →
        task.clientId = broadcastId → task.data ≠ [] → ∀ c name, Listens w.broker c name →
          0 < calls o task.data c st) := by
  have hsends : Connections.SendsToClients w := Machine.reachable_invariant
    (fun _ _ _ h hs => (Connections.step_sendsToClients h hs).1)
    ⟨by simp [Run.SubscribersConnected, State.init, Broker.init], fun _ _ h => by cases h⟩ hw
  have hquiet : Quiet w := ⟨reachable_genuine hw, hsends, hready, hfits⟩
  obtain ⟨hst, hpledged⟩ : Quiet st ∧ Pledged w st :=
    Machine.reachable_invariant (I := fun st => Quiet st ∧ Pledged w st)
      (fun _ _ _ h hs => ⟨move_quiet h.1 hs, move_pledged h.1.genuine h.2 hs⟩)
      ⟨hquiet, pledged_self w⟩ ⟨ms, hr⟩
  refine ⟨Machine.length_le_of_measure (I := Quiet) (fun _ _ _ h hs => move_quiet h hs)
    (fun _ _ _ h hs => move_lowers h hs) hquiet hr, atRest_iff hst.genuine, ?_⟩
  intro hrest o hqueued task ho hid hdata c name hlistens
  exact calls_of_rest hrest (hpledged o hqueued task ho hid hdata c name hlistens).2.2

/-- After the two SUBACKs session 1 publishes, and the second thread takes the message. -/
theorem every_schedule_delivers_published :
    ∃ w st : State Wire.libraries (Fin 2),
      Machine.run Writers.step State.init ((subscribed 0 1).take 33) = some w ∧
        Machine.run move w (.dequeue 1 0 :: List.replicate 10 (.advance 1)) = some st ∧
          11 ≤ work w ∧ 0 < calls 4 publishGps 2 st := by
  obtain ⟨w, st, hw, hr, hrest, hready, hfits, hqueued, ho, hlistens⟩ :
      ∃ w st : State Wire.libraries (Fin 2),
        Machine.run Writers.step State.init ((subscribed 0 1).take 33) = some w ∧
          Machine.run move w (.dequeue 1 0 :: List.replicate 10 (.advance 1)) = some st ∧
            AtRest st ∧
            (∀ s ∈ w.broker.mqttClients, (w.broker.session s).subRequested = true) ∧
            (∀ task ∈ w.enqueued, task.data.length ≤ 1024) ∧ 4 ∈ w.origins ∧
            w.enqueued[4]? = some ⟨4, 0, publishGps, broadcastId⟩ ∧ Listens w.broker 2 "b" :=
    ⟨_, _, rfl, rfl, ⟨rfl, by decide⟩, by decide, by decide, by decide, rfl, by decide⟩
  obtain ⟨hlength, -, hall⟩ := every_schedule_delivers ⟨_, hw⟩ hready hfits hr
  refine ⟨w, st, hw, hr, ?_, hall hrest 4 hqueued _ ho rfl (by simp [publishGps]) 2 "b" hlistens⟩
  have heleven :
      (.dequeue 1 0 :: List.replicate 10 (.advance 1) : List (Move (Fin 2))).length = 11 := rfl
  omega

end Moves

end BddsBroker.Delivery
