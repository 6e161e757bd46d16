import BddsBroker.Mqtt.Origins
import BddsBroker.Mqtt.SubackGate

/-! The order of the messages of one session. The queue gives the tasks of one producer in
their order, but a writer that has taken a message sends it on its own time: another one
that has taken the next message may pass it to a subscriber first. So the order is kept in
the runs in which a writer takes a message only when no other writer has still to pass an
earlier one on (`publish_in_order`), as it is with one writer (`takenInOrder_alone`). -/

namespace BddsBroker.PublishOrder

open Writers

variable {L : Libraries} {P T : Type}

/-- What is recorded of an enqueue: the session whose packet made it, and the subscribers of
"GPS" at that time that have requested their subscription. Nothing of the code reads it. -/
structure Ticket where
  owner : Option SessionPtr
  audience : List SessionPtr
  deriving DecidableEq, Repr

structure State (L : Libraries) (P T : Type) where
  writers : Writers.State L T
  /-- The producers of the tasks in the queue: threads of the rest of the broker, and
  writers that put tasks back. -/
  producers : List (P ⊕ T)
  /-- Of all enqueues. -/
  tickets : List Ticket

namespace State

def init : State L P T := ⟨.init, [], []⟩

def owner (st : State L P T) (k : Nat) : Option SessionPtr := st.tickets[k]?.bind Ticket.owner

def audience (st : State L P T) (k : Nat) : List SessionPtr :=
  (st.tickets[k]?.map Ticket.audience).getD []

end State

/-- The subscribers of "GPS" that have requested their subscription. -/
def ready (b : Broker L) : List SessionPtr :=
  b.gpsSessions.filter fun c => (b.session c).subRequested

inductive Event (P T : Type)
  /-- Anything but a dispatch, in that thread. -/
  | environment (p : P) (e : Run.Event)
  | dequeue (t : T) (i : Nat)
  | advance (t : T)
  deriving DecidableEq

section Machine

variable [DecidableEq P] [DecidableEq T]

/-- No earlier task of its producer is in the queue. -/
def Fifo (producers : List (P ⊕ T)) (i : Nat) : Prop := ∀ k < i, producers[k]? ≠ producers[i]?

instance (producers : List (P ⊕ T)) (i : Nat) : Decidable (Fifo producers i) :=
  inferInstanceAs (Decidable (∀ k < i, _))

def environment (st : State L P T) (p : P) (e : Run.Event) : Option (State L P T) :=
  (Writers.environment st.writers e).map fun w =>
    let n := w.enqueued.length - st.writers.enqueued.length
    { writers := w
      producers := st.producers ++ List.replicate n (.inl p)
      tickets := st.tickets ++ List.replicate n
        ⟨SubackGate.owner (T := T) (.environment e), ready st.writers.broker⟩ }

/-- The tasks of one producer leave the queue in their order. -/
def dequeue (st : State L P T) (t : T) (i : Nat) : Option (State L P T) :=
  if Fifo st.producers i then
    (Writers.dequeue st.writers t i).map fun w =>
      { st with writers := w, producers := st.producers.eraseIdx i }
  else none

def advance (st : State L P T) (t : T) : Option (State L P T) :=
  (Writers.advance st.writers t).map fun w =>
    { st with
      writers := w
      producers := st.producers ++
        List.replicate (w.origins.length - st.writers.origins.length) (.inr t) }

def step (st : State L P T) : Event P T → Option (State L P T)
  | .environment p e => environment st p e
  | .dequeue t i => dequeue st t i
  | .advance t => advance st t

end Machine

/-! ## The order -/

/-- The enqueue is a task with data for every subscriber. -/
def Broadcast (enqueued : List MqttTask) (k : Nat) : Prop :=
  ∃ task ∈ enqueued[k]?, task.clientId = broadcastId ∧ task.data ≠ []

/-- `k` is an earlier message of the session that made `j`. -/
def Precedes (st : State L P T) (k j : Nat) : Prop :=
  k < j ∧ Broadcast st.writers.enqueued k ∧ Broadcast st.writers.enqueued j ∧
    st.owner k ≠ none ∧ st.owner k = st.owner j

/-- `client->send` was called for the session with the message. -/
def Passed (enqueued : List MqttTask) (calls : List Sent) (k : Nat) (c : SessionPtr) : Prop :=
  ∃ task ∈ enqueued[k]?, ⟨k, c, task.data⟩ ∈ calls

/-- A session that was ready when the first message was enqueued gets it first. -/
def InOrder (st : State L P T) : Prop :=
  ∀ k j, Precedes st k j → ∀ c ∈ st.audience k, ∀ before call,
    before ++ [call] <+: st.writers.sent → call.origin = j → call.session = c →
      Passed st.writers.enqueued before k c

/-! ## The runs in question -/

/-- The writer has still to pass the message to the session. -/
def Due (k : Nat) (c : SessionPtr) : Phase → Prop
  | .waiting => False
  | .taken origin _ => origin = k
  | .looping r | .resolving r _ | .testing r _ | .marking r _ | .returning r _
  | .sending r _ _ => r.origin = k ∧ c ∈ r.rest
  | .failed r _ => r.origin = k ∧ c ∈ r.next.rest

/-- Two threads that are not writers are the same. -/
def SameThread : P ⊕ T → P ⊕ T → Prop
  | .inl p, .inl q => p = q
  | _, _ => True

/-- Of the earlier messages of the session, none waits in the queue of another producer, and
no writer has still to pass one to a session that has not got it. -/
def TakenInOrder (st : State L P T) (i j : Nat) : Prop :=
  ∀ k < j, Precedes st k j →
    (∀ e ∈ st.writers.origins.zip st.producers, e.1 = k →
      ∀ y ∈ st.producers[i]?, SameThread e.2 y) ∧
    ∀ c ∈ st.audience k, ∀ t, Due k c (st.writers.threads t) →
      Passed st.writers.enqueued st.writers.sent k c

/-- The id that was read from a subscriber finds this subscriber. -/
def FindsSubscriber (b : Broker L) : Phase → Prop
  | .resolving r clientId =>
      r.task.clientId = broadcastId → b.getClient clientId = r.rest.head?
  | _ => True

def Condition (st : State L P T) : Event P T → Prop
  | .dequeue _ i => ∀ j ∈ st.writers.origins[i]?, TakenInOrder st i j
  | .advance t => FindsSubscriber st.writers.broker (st.writers.threads t)
  | .environment .. => True

instance (enqueued : List MqttTask) (k : Nat) : Decidable (Broadcast enqueued k) :=
  inferInstanceAs (Decidable (∃ task ∈ enqueued[k]?, _))

instance (st : State L P T) (k j : Nat) : Decidable (Precedes st k j) :=
  inferInstanceAs (Decidable (_ ∧ _))

instance (enqueued : List MqttTask) (calls : List Sent) (k : Nat) (c : SessionPtr) :
    Decidable (Passed enqueued calls k c) :=
  inferInstanceAs (Decidable (∃ task ∈ enqueued[k]?, _))

instance (k : Nat) (c : SessionPtr) : ∀ p, Decidable (Due k c p)
  | .waiting => isFalse id
  | .taken origin _ => inferInstanceAs (Decidable (origin = k))
  | .looping r | .resolving r _ | .testing r _ | .marking r _ | .returning r _
  | .sending r _ _ => inferInstanceAs (Decidable (r.origin = k ∧ c ∈ r.rest))
  | .failed r _ => inferInstanceAs (Decidable (r.origin = k ∧ c ∈ r.next.rest))

instance [DecidableEq P] : ∀ x y : P ⊕ T, Decidable (SameThread x y)
  | .inl p, .inl q => inferInstanceAs (Decidable (p = q))
  | .inl _, .inr _ | .inr _, _ => isTrue trivial

instance (b : Broker L) : ∀ p, Decidable (FindsSubscriber b p)
  | .resolving r clientId => inferInstanceAs (Decidable
      (r.task.clientId = broadcastId → b.getClient clientId = r.rest.head?))
  | .waiting | .taken .. | .looping _ | .testing .. | .marking .. | .returning .. | .sending ..
  | .failed .. => isTrue trivial

instance [DecidableEq P] [Fintype T] (st : State L P T) (i j : Nat) :
    Decidable (TakenInOrder st i j) :=
  inferInstanceAs (Decidable (∀ k < j, _))

instance [DecidableEq P] [Fintype T] (st : State L P T) : ∀ e, Decidable (Condition st e)
  | .dequeue _ i => inferInstanceAs (Decidable (∀ j ∈ st.writers.origins[i]?, TakenInOrder st i j))
  | .advance t =>
      inferInstanceAs (Decidable (FindsSubscriber st.writers.broker (st.writers.threads t)))
  | .environment .. => isTrue trivial

/-! ## What stays -/

section Extends

variable {enqueued more : List MqttTask} {calls later : List Sent} {k j : Nat} {c : SessionPtr}
  {st st' : State L P T}

theorem Passed.mono (h : Passed enqueued calls k c) (hmore : enqueued <+: more)
    (hlater : calls <+: later) : Passed more later k c := by
  obtain ⟨task, htask, hcall⟩ := h
  exact ⟨task, Lists.getElem?_of_extends hmore htask, hlater.subset hcall⟩

/-- Later enqueues make no earlier messages. -/
theorem Precedes.of_extends (h : Precedes st' k j) (htickets : st.tickets <+: st'.tickets)
    (henqueued : st.writers.enqueued <+: st'.writers.enqueued)
    (hlength : st.tickets.length = st.writers.enqueued.length)
    (hj : j < st.writers.enqueued.length) : Precedes st k j := by
  obtain ⟨hlt, hk, hjs, howner, hsame⟩ := h
  have hbroadcast : ∀ i < st.writers.enqueued.length, Broadcast st'.writers.enqueued i →
      Broadcast st.writers.enqueued i := by
    intro i hi h
    unfold Broadcast at *
    rwa [Lists.getElem?_of_extends_lt henqueued hi] at h
  have howners : ∀ i < st.writers.enqueued.length, st'.owner i = st.owner i := by
    intro i hi
    unfold State.owner
    rw [Lists.getElem?_of_extends_lt htickets (hlength ▸ hi)]
  have hk' : k < st.writers.enqueued.length := hlt.trans hj
  rw [howners k hk', howners j hj] at hsame
  rw [howners k hk'] at howner
  exact ⟨hlt, hbroadcast k hk' hk, hbroadcast j hj hjs, howner, hsame⟩

theorem audience_of_extends (htickets : st.tickets <+: st'.tickets) (hk : k < st.tickets.length) :
    st'.audience k = st.audience k := by
  unfold State.audience
  rw [Lists.getElem?_of_extends_lt htickets hk]

/-- A subscriber stays ready. -/
theorem mem_ready {b : Broker L} :
    c ∈ ready b ↔ c ∈ b.gpsSessions ∧ (b.session c).subRequested = true := by
  simp [ready]

theorem ready_environment {b b' : Broker L} {e : Run.Event} (hs : Run.step b e = some b')
    (he : ∀ i, e ≠ .dispatch i) (hb : Run.SubscribersConnected b) (hc : c ∈ ready b) :
    c ∈ ready b' := by
  obtain ⟨hgps, hflag⟩ := mem_ready.mp hc
  refine mem_ready.mpr ⟨Run.mem_gpsSessions_step hs hgps, ?_⟩
  rcases SubackGate.step_subRequested hs he c with hsame | ⟨hnew, -⟩
  · rw [hsame, hflag]
  · exact absurd (hb.gps hgps) hnew

theorem ready_statement {w m : Writers.State L T} {p q : Phase} (h : Statement w p m q)
    (hc : c ∈ ready w.broker) : c ∈ ready m.broker := by
  cases h with
  | @mark r client =>
    obtain ⟨hgps, hflag⟩ := mem_ready.mp hc
    refine mem_ready.mpr ⟨hgps, ?_⟩
    show ((w.broker.setSubRequested client).session c).subRequested = true
    by_cases hclient : c = client
    · subst hclient
      exact SubackGate.subRequested_setSubRequested w.broker c
    · unfold Broker.setSubRequested
      rw [Broker.session_updateSession_of_ne _ _ _ hclient]
      exact hflag
  | _ => exact hc

end Extends

/-! ## A message on its way -/

/-- A client that was found is the subscriber at the head of the loop, and what is not the
whole message is for somebody who was not ready. -/
def AtSubscriber (audience : Nat → List SessionPtr) : Phase → Prop
  | .testing r client | .marking r client =>
      r.task.clientId = broadcastId → r.rest.head? = some client
  | .returning r client =>
      r.task.clientId = broadcastId → r.rest.head? = some client ∧ client ∉ audience r.origin
  | .sending r client data =>
      r.task.clientId = broadcastId →
        r.rest.head? = some client ∧ (data = r.task.data ∨ client ∉ audience r.origin)
  | _ => True

section Statements

variable {audience : Nat → List SessionPtr} {w m : Writers.State L T} {p q : Phase}

theorem AtSubscriber.congr {audience' : Nat → List SessionPtr} (h : AtSubscriber audience p)
    (heq : ∀ o, p.held = some o → audience' o = audience o) : AtSubscriber audience' p := by
  cases p with
  | returning | sending =>
    intro hid
    rw [heq _ rfl]
    exact h hid
  | testing | marking => exact h
  | waiting | taken | looping | resolving | failed => trivial

theorem atSubscriber_statement (h : Statement w p m q) (hp : AtSubscriber audience p)
    (haudience : ∀ k, ∀ c ∈ audience k, c ∈ ready w.broker) (hfinds : FindsSubscriber w.broker p) :
    AtSubscriber audience q := by
  cases h with
  | drop | finish | loop | call | visit | absent | fail | send | retry => trivial
  | found hclient => exact fun hid => (hfinds hid).symm.trans hclient
  | ready | mark => exact fun hid => ⟨hp hid, .inl rfl⟩
  | suback => exact hp
  | unready htype hready =>
    refine fun hid => ⟨hp hid, fun hmem => ?_⟩
    have hflag := (mem_ready.mp (haudience _ _ hmem)).2
    rw [hready] at hflag
    cases hflag
  | giveBack => exact fun hid => ⟨(hp hid).1, .inr (hp hid).2⟩

/-- A writer with a message for a ready session has passed it on, or has still to. -/
theorem due_statement (h : Statement w p m q) (hcarries : Carries w.enqueued p)
    (hp : AtSubscriber audience p) (hfinds : FindsSubscriber w.broker p) {k : Nat}
    {c : SessionPtr} (hk : Broadcast w.enqueued k) (hc : c ∈ audience k)
    (hready : c ∈ ready w.broker) (hdue : Due k c p) :
    Due k c q ∨ Passed w.enqueued m.sent k c := by
  obtain ⟨task, htask, hid, hdata⟩ := hk
  have hown : ∀ {o task'}, o = k → w.enqueued[o]? = some task' → task' = task := by
    rintro o task' rfl hcarried
    exact Option.some.inj (hcarried.symm.trans htask)
  have hsend : ∀ {r : Round} {client : SessionPtr} {data : List UInt8},
      p = .sending r client data → m.sent = w.sent ++ [⟨r.origin, client, data⟩] →
        c ∈ r.next.rest ∨ Passed w.enqueued m.sent k c := by
    rintro r client data rfl hsent
    obtain ⟨horigin, hmem⟩ := hdue
    have htask' := hown horigin hcarries.1
    obtain ⟨hhead, hwhole⟩ := hp (by rw [htask', hid])
    obtain ⟨rest, hrest⟩ := List.head?_eq_some_iff.mp hhead
    rw [hrest] at hmem
    rcases List.mem_cons.mp hmem with rfl | hmem
    · refine .inr ⟨task, htask, ?_⟩
      rcases hwhole with rfl | hnot
      · rw [hsent, ← htask', ← horigin]
        simp
      · rw [horigin] at hnot
        exact absurd hc hnot
    · refine .inl ?_
      rw [Round.next, hrest]
      exact hmem
  cases h with
  | drop hempty =>
    rw [hown hdue hcarries] at hempty
    exact absurd hempty hdata
  | loop => exact .inl ⟨hdue, (mem_ready.mp hready).1⟩
  | call _ hother =>
    rw [hown hdue hcarries] at hother
    exact absurd hid hother
  | finish hrest =>
    obtain ⟨-, hmem⟩ := hdue
    rw [hrest] at hmem
    cases hmem
  | visit | found | ready | suback | unready | mark | giveBack => exact .inl hdue
  | absent hclient =>
    obtain ⟨horigin, hmem⟩ := hdue
    have hnone := (hfinds (by rw [hown horigin hcarries, hid])).symm.trans hclient
    rw [List.head?_eq_none_iff.mp hnone] at hmem
    cases hmem
  | fail | send =>
    rcases hsend rfl rfl with hmem | hpassed
    · exact .inl ⟨hdue.1, hmem⟩
    · exact .inr hpassed
  | retry => exact .inl hdue

end Statements

/-! ## Every run -/

/-- The entries of the queue: their numbers and their producers. -/
def State.entries (st : State L P T) : List (Nat × (P ⊕ T)) :=
  st.writers.origins.zip st.producers

/-- The task was taken from the queue before: a writer has it, or has put it back. -/
def Handled (st : State L P T) (j : Nat) : Prop :=
  (∃ t, (j, .inr t) ∈ st.entries) ∨ ∃ t, (st.writers.threads t).held = some j

structure Ordered (st : State L P T) : Prop where
  genuine : Genuine st.writers
  produced : st.producers.length = st.writers.origins.length
  ticketed : st.tickets.length = st.writers.enqueued.length
  connected : Run.SubscribersConnected st.writers.broker
  audience : ∀ k, ∀ c ∈ st.audience k, c ∈ ready st.writers.broker
  fifo : st.entries.Pairwise fun a b => ∀ p, a.2 = .inl p → b.2 = .inl p → a.1 < b.1
  threads : ∀ t, AtSubscriber st.audience (st.writers.threads t)
  due : ∀ k, Broadcast st.writers.enqueued k → ∀ c ∈ st.audience k,
    Passed st.writers.enqueued st.writers.sent k c ∨ (∃ p, (k, .inl p) ∈ st.entries) ∨
      ∃ t, Due k c (st.writers.threads t)
  behind : ∀ j, Handled st j → ∀ k, Precedes st k j → ∀ c ∈ st.audience k,
    Passed st.writers.enqueued st.writers.sent k c
  order : InOrder st

theorem Ordered.handled_lt {st : State L P T} (hst : Ordered st) {j : Nat} (hj : Handled st j) :
    j < st.writers.enqueued.length := by
  rcases hj with ⟨t, hmem⟩ | ⟨t, hheld⟩
  · exact hst.genuine.origin_lt (List.of_mem_zip hmem).1
  · exact (hst.genuine.threads t).enqueued hheld

theorem ordered_init : Ordered (State.init : State L P T) where
  genuine := genuine_init
  produced := rfl
  ticketed := rfl
  connected := by simp [Run.SubscribersConnected, State.init, Writers.State.init, Broker.init]
  audience k c hc := by simp [State.audience, State.init] at hc
  fifo := List.Pairwise.nil
  threads _ := trivial
  due k hk c hc := by simp [State.audience, State.init] at hc
  behind j hj := by simp [Handled, State.entries, State.init, Writers.State.init, Phase.held] at hj
  order k j hkj c hc := by simp [State.audience, State.init] at hc

/-- One more call keeps the order if the earlier messages have been passed on. -/
theorem InOrder.snoc {st : State L P T} (h : InOrder st) {call : Sent}
    (hcall : ∀ k, Precedes st k call.origin → ∀ c ∈ st.audience k,
      Passed st.writers.enqueued st.writers.sent k c) {k j : Nat} (hkj : Precedes st k j)
    {c : SessionPtr} (hc : c ∈ st.audience k) {before : List Sent} {next : Sent}
    (hnext : before ++ [next] <+: st.writers.sent ++ [call]) (hj : next.origin = j)
    (hsession : next.session = c) : Passed st.writers.enqueued before k c := by
  rcases List.prefix_concat_iff.mp hnext with heq | hprefix
  · obtain ⟨rfl, rfl⟩ := List.concat_inj.mp (by simpa using heq)
    subst hj
    exact hcall k hkj c hc
  · exact h k j hkj c hc before next hprefix hj hsession

section Steps

variable [DecidableEq T]

/-- A writer at its next statement, and what the statement puts back. -/
def State.advanced (st : State L P T) (m : Writers.State L T) (t : T) (q : Phase) :
    State L P T :=
  { st with
    writers := m.goto t q
    producers := st.producers ++
      List.replicate (m.origins.length - st.writers.origins.length) (.inr t) }

theorem advance_eq_some {st st' : State L P T} {t : T} (h : advance st t = some st') :
    ∃ m q, Statement st.writers (st.writers.threads t) m q ∧ st' = st.advanced m t q ∧
      Writers.advance st.writers t = some (m.goto t q) := by
  obtain ⟨w, hw, rfl⟩ := Option.map_eq_some_iff.mp h
  obtain ⟨m, q, hstatement, rfl⟩ := advance_statement hw
  exact ⟨m, q, hstatement, rfl, hw⟩

section Advanced

variable {st : State L P T} {m : Writers.State L T} {q : Phase} {t : T}

/-- A statement puts its own task back, or nothing. -/
theorem entries_advanced (hst : Ordered st)
    (h : Statement st.writers (st.writers.threads t) m q) :
    (st.advanced m t q).producers.length = m.origins.length ∧
      ((st.advanced m t q).entries = st.entries ∨
        ∃ o, (st.writers.threads t).held = some o ∧
          (st.advanced m t q).entries = st.entries ++ [(o, .inr t)]) := by
  show (st.producers ++ _).length = _ ∧ (m.origins.zip (st.producers ++ _) = _ ∨
    ∃ o, _ ∧ m.origins.zip (st.producers ++ _) = _)
  rcases h.queue with ⟨ho, -⟩ | ⟨o, task, hheld, ho, -⟩
  · rw [ho, Nat.sub_self, List.replicate_zero, List.append_nil]
    exact ⟨hst.produced, .inl rfl⟩
  · have hone : m.origins.length - st.writers.origins.length = 1 := by
      rw [ho, List.length_append, List.length_singleton]
      omega
    rw [hone, ho]
    refine ⟨by simp [hst.produced], .inr ⟨o, hheld, ?_⟩⟩
    rw [List.zip_append hst.produced.symm]
    rfl

theorem threads_advanced_of_ne (h : Statement st.writers (st.writers.threads t) m q) {u : T}
    (hu : u ≠ t) : (st.advanced m t q).writers.threads u = st.writers.threads u :=
  (threads_goto_of_ne m hu q).trans (congrFun h.keeps.2.1 u)

/-- No statement takes a task. -/
theorem handled_advanced (hst : Ordered st)
    (h : Statement st.writers (st.writers.threads t) m q) {j : Nat}
    (hj : Handled (st.advanced m t q) j) : Handled st j := by
  rcases hj with ⟨u, hmem⟩ | ⟨u, hheld⟩
  · rcases (entries_advanced hst h).2 with hsame | ⟨o, ho, hnew⟩
    · rw [hsame] at hmem
      exact .inl ⟨u, hmem⟩
    · rw [hnew] at hmem
      rcases List.mem_append.mp hmem with hold | hlast
      · exact .inl ⟨u, hold⟩
      · obtain ⟨rfl, -⟩ := Prod.mk.inj (List.mem_singleton.mp hlast)
        exact .inr ⟨t, ho⟩
  · by_cases hu : u = t
    · subst hu
      have hself : (st.advanced m u q).writers.threads u = q := threads_goto m u q
      rw [hself] at hheld
      rcases held_statement h with rfl | hkeep
      · cases hheld
      · exact .inr ⟨u, hkeep ▸ hheld⟩
    · rw [threads_advanced_of_ne h hu] at hheld
      exact .inr ⟨u, hheld⟩

/-- What was on its way still is, or has been passed on. -/
theorem due_advanced (hst : Ordered st)
    (h : Statement st.writers (st.writers.threads t) m q)
    (hfinds : FindsSubscriber st.writers.broker (st.writers.threads t)) {k : Nat}
    (hk : Broadcast st.writers.enqueued k) {c : SessionPtr} (hc : c ∈ st.audience k) :
    Passed st.writers.enqueued m.sent k c ∨ (∃ p, (k, .inl p) ∈ (st.advanced m t q).entries) ∨
      ∃ u, Due k c ((st.advanced m t q).writers.threads u) := by
  rcases hst.due k hk c hc with hdone | ⟨p, hmem⟩ | ⟨u, hdue⟩
  · exact .inl (hdone.mono (List.prefix_refl _) h.sent_prefix)
  · refine .inr (.inl ⟨p, ?_⟩)
    rcases (entries_advanced hst h).2 with hsame | ⟨o, -, hnew⟩
    · rw [hsame]
      exact hmem
    · rw [hnew]
      exact List.mem_append_left _ hmem
  · by_cases hu : u = t
    · subst hu
      have hself : (st.advanced m u q).writers.threads u = q := threads_goto m u q
      rcases due_statement h (hst.genuine.threads u) (hst.threads u) hfinds hk hc
        (hst.audience k c hc) hdue with hstill | hdone
      · exact .inr (.inr ⟨u, by rwa [hself]⟩)
      · exact .inl hdone
    · refine .inr (.inr ⟨u, ?_⟩)
      rw [threads_advanced_of_ne h hu]
      exact hdue

omit [DecidableEq T] in
/-- A call comes from a writer that has handled the task. -/
theorem inOrder_advanced (hst : Ordered st)
    (h : Statement st.writers (st.writers.threads t) m q) {k j : Nat} (hkj : Precedes st k j)
    {c : SessionPtr} (hc : c ∈ st.audience k) {before : List Sent} {call : Sent}
    (hcalls : before ++ [call] <+: m.sent) (hj : call.origin = j) (hsession : call.session = c) :
    Passed st.writers.enqueued before k c := by
  rcases sent_statement h with ⟨hm, -⟩ | ⟨r, client, data, hp, hm⟩
  · rw [hm] at hcalls
    exact hst.order k j hkj c hc before call hcalls hj hsession
  · rw [hm] at hcalls
    refine hst.order.snoc (fun i hi d hd => ?_) hkj hc hcalls hj hsession
    exact hst.behind r.origin (.inr ⟨t, by rw [hp]; rfl⟩) i hi d hd

end Advanced

theorem ordered_advance {st st' : State L P T} {t : T} (hst : Ordered st)
    (hfinds : FindsSubscriber st.writers.broker (st.writers.threads t))
    (h : advance st t = some st') : Ordered st' := by
  obtain ⟨m, q, hstatement, rfl, hw⟩ := advance_eq_some h
  have hgenuine : Genuine (m.goto t q) := genuine_advance hst.genuine hw
  obtain ⟨hen, hth, hsame⟩ := hstatement.keeps
  obtain ⟨hproduced, hentries⟩ := entries_advanced hst hstatement
  have henqueued : (st.advanced m t q).writers.enqueued = st.writers.enqueued := hen
  have hprecedes : ∀ {k j}, Precedes (st.advanced m t q) k j → Precedes st k j := by
    intro k j hkj
    unfold Precedes at hkj
    rwa [henqueued] at hkj
  refine ⟨hgenuine, hproduced, hst.ticketed.trans (congrArg List.length hen.symm), ?_,
    fun k c hc => ?_, ?_, fun u => ?_, fun k hk c hc => ?_, fun j hj k hkj c hc => ?_, ?_⟩
  · show ∀ topic ∈ m.broker.topicList, ∀ s ∈ topic.mqttClientSessions, s ∈ m.broker.mqttClients
    rw [hsame.topics, hsame.clients]
    exact hst.connected
  · have hready : c ∈ ready m.broker := ready_statement hstatement (hst.audience k c hc)
    exact hready
  · rcases hentries with hsame | ⟨o, -, hnew⟩
    · rw [hsame]
      exact hst.fifo
    · rw [hnew]
      refine List.pairwise_append.mpr ⟨hst.fifo, List.pairwise_singleton _ _, ?_⟩
      intro a _ b hb p _ hbp
      rw [List.mem_singleton.mp hb] at hbp
      cases hbp
  · refine forall_goto (P := AtSubscriber st.audience)
      (atSubscriber_statement hstatement (hst.threads t) hst.audience hfinds) (fun v _ => ?_) u
    rw [hth]
    exact hst.threads v
  · rw [henqueued] at hk ⊢
    exact due_advanced hst hstatement hfinds hk hc
  · rw [henqueued]
    have hpassed := hst.behind j (handled_advanced hst hstatement hj) k (hprecedes hkj) c hc
    exact hpassed.mono (List.prefix_refl _) hstatement.sent_prefix
  · intro k j hkj c hc before call hcalls hj hsession
    rw [henqueued]
    exact inOrder_advanced hst hstatement (hprecedes hkj) hc hcalls hj hsession

omit [DecidableEq T] in
/-- The earlier messages of a task that is taken in its order have been passed on. -/
theorem passed_of_takenInOrder {st : State L P T} (hst : Ordered st) {i j : Nat}
    {y : P ⊕ T} (hentry : st.entries[i]? = some (j, y)) (hfifo : Fifo st.producers i)
    (htaken : TakenInOrder st i j) {k : Nat} (hkj : Precedes st k j) {c : SessionPtr}
    (hc : c ∈ st.audience k) : Passed st.writers.enqueued st.writers.sent k c := by
  have hlt : k < j := hkj.1
  obtain ⟨-, hproducer⟩ := List.getElem?_zip_eq_some.mp hentry
  cases y with
  | inr u => exact hst.behind j (.inl ⟨u, List.mem_of_getElem? hentry⟩) k hkj c hc
  | inl p =>
    obtain ⟨hqueue, hdue⟩ := htaken k hlt hkj
    rcases hst.due k hkj.2.1 c hc with hdone | ⟨q, hmem⟩ | ⟨u, hu⟩
    · exact hdone
    · obtain rfl : q = p := hqueue _ hmem rfl _ hproducer
      obtain ⟨a, ha⟩ := List.mem_iff_getElem?.mp hmem
      obtain ⟨-, hsame⟩ := List.getElem?_zip_eq_some.mp ha
      rcases Nat.lt_trichotomy a i with hai | rfl | hia
      · exact absurd (hsame.trans hproducer.symm) (hfifo a hai)
      · rw [ha] at hentry
        obtain ⟨rfl, -⟩ := Prod.mk.inj (Option.some.inj hentry)
        exact absurd hlt (lt_irrefl k)
      -- One producer's tasks stand in the queue in their order.
      · obtain ⟨hi, hj⟩ := List.getElem?_eq_some_iff.mp hentry
        obtain ⟨ha', hk'⟩ := List.getElem?_eq_some_iff.mp ha
        have hjk := List.pairwise_iff_getElem.mp hst.fifo i a hi ha' hia q
        rw [hj, hk'] at hjk
        exact absurd (hjk rfl rfl) (by omega)
    · exact hdue c hc u hu

variable [DecidableEq P]

theorem ordered_dequeue {st st' : State L P T} {t : T} {i : Nat} (hst : Ordered st)
    (hcond : ∀ j ∈ st.writers.origins[i]?, TakenInOrder st i j)
    (h : dequeue st t i = some st') : Ordered st' := by
  unfold dequeue at h
  split at h
  · rename_i hfifo
    obtain ⟨w, hw, rfl⟩ := Option.map_eq_some_iff.mp h
    have hgenuine : Genuine w := genuine_dequeue hst.genuine hw
    obtain ⟨j, task, hwaiting, horigin, -, rfl⟩ := dequeue_eq_some hw
    have hi : i < st.producers.length := by
      rw [hst.produced]
      exact (List.getElem?_eq_some_iff.mp horigin).1
    have hentry : st.entries[i]? = some (j, st.producers[i]) :=
      List.getElem?_zip_eq_some.mpr ⟨horigin, List.getElem?_eq_getElem hi⟩
    have hentries : ∀ {e}, e ∈ (st.writers.origins.eraseIdx i).zip (st.producers.eraseIdx i) →
        e ∈ st.entries := by
      intro e he
      rw [Lists.zip_eraseIdx] at he
      exact List.mem_of_mem_eraseIdx he
    refine ⟨hgenuine, ?_, hst.ticketed, hst.connected, hst.audience, ?_, fun u => ?_, ?_, ?_,
      hst.order⟩
    · simp only [State.goto, List.length_eraseIdx, hst.produced]
    · show List.Pairwise _ ((st.writers.origins.eraseIdx i).zip (st.producers.eraseIdx i))
      rw [Lists.zip_eraseIdx]
      exact hst.fifo.sublist (List.eraseIdx_sublist _ i)
    · refine forall_goto (P := AtSubscriber st.audience) ?_ (fun v _ => hst.threads v) u
      exact (trivial : AtSubscriber st.audience (.taken j task))
    · intro k hk c hc
      rcases hst.due k hk c hc with hdone | ⟨p, hmem⟩ | ⟨u, hdue⟩
      · exact .inl hdone
      · rcases Lists.mem_eraseIdx_or hmem i with hstill | hgone
        · refine .inr (.inl ⟨p, ?_⟩)
          show _ ∈ (st.writers.origins.eraseIdx i).zip (st.producers.eraseIdx i)
          rwa [Lists.zip_eraseIdx]
        · rw [hentry] at hgone
          obtain ⟨rfl, -⟩ := Prod.mk.inj (Option.some.inj hgone)
          exact .inr (.inr ⟨t, by rw [threads_goto]; rfl⟩)
      · have hu : u ≠ t := by
          rintro rfl
          rw [hwaiting] at hdue
          exact hdue
        exact .inr (.inr ⟨u, by rw [threads_goto_of_ne _ hu]; exact hdue⟩)
    · rintro o (⟨u, hmem⟩ | ⟨u, hheld⟩) k hkj c hc
      · exact hst.behind o (.inl ⟨u, hentries hmem⟩) k hkj c hc
      · by_cases hu : u = t
        · subst hu
          rw [threads_goto] at hheld
          obtain rfl : j = o := Option.some.inj hheld
          exact passed_of_takenInOrder hst hentry hfifo (hcond j horigin) hkj hc
        · rw [threads_goto_of_ne _ hu] at hheld
          exact hst.behind o (.inr ⟨u, hheld⟩) k hkj c hc
  · cases h

/-- The tasks that the thread enqueues, each with a ticket. -/
def State.supplied (st : State L P T) (b : Broker L) (tasks : List MqttTask) (p : P)
    (ticket : Ticket) : State L P T where
  writers := { st.writers with
    broker := b
    origins := st.writers.origins ++ List.range' st.writers.enqueued.length tasks.length
    enqueued := st.writers.enqueued ++ tasks }
  producers := st.producers ++ List.replicate tasks.length (.inl p)
  tickets := st.tickets ++ List.replicate tasks.length ticket

omit [DecidableEq T] [DecidableEq P] in
theorem environment_supplies {st st' : State L P T} {p : P} {e : Run.Event}
    (h : environment st p e = some st') :
    ∃ b tasks owner, (∀ i, e ≠ .dispatch i) ∧ Run.step st.writers.broker e = some b ∧
      st' = st.supplied b tasks p ⟨owner, ready st.writers.broker⟩ ∧
      Writers.environment st.writers e = some st'.writers := by
  obtain ⟨w, hw, rfl⟩ := Option.map_eq_some_iff.mp h
  have hwriters := hw
  obtain ⟨b, tasks, hdispatch, hstep, -, rfl⟩ := environment_eq_some hw
  refine ⟨b, tasks, SubackGate.owner (T := T) (.environment e), hdispatch, hstep, ?_, hwriters⟩
  simp only [State.supplied, List.length_append, Nat.add_sub_cancel_left]

section Supplied

omit [DecidableEq T] [DecidableEq P]

variable {st : State L P T} {b : Broker L} {tasks : List MqttTask} {p : P} {ticket : Ticket}

theorem tickets_supplied : st.tickets <+: (st.supplied b tasks p ticket).tickets :=
  List.prefix_append _ _

theorem enqueued_supplied :
    st.writers.enqueued <+: (st.supplied b tasks p ticket).writers.enqueued :=
  List.prefix_append _ _

/-- The new numbers, under the thread that enqueued them. -/
theorem entries_supplied (hst : Ordered st) :
    (st.supplied b tasks p ticket).entries = st.entries ++
      (List.range' st.writers.enqueued.length tasks.length).map fun k => (k, .inl p) := by
  show List.zip (_ ++ _) (_ ++ _) = _
  rw [List.zip_append hst.produced.symm, ← Lists.zip_replicate_length, List.length_range']
  rfl

theorem audience_supplied {k : Nat} {c : SessionPtr}
    (hc : c ∈ (st.supplied b tasks p ticket).audience k) :
    c ∈ st.audience k ∨ c ∈ ticket.audience := by
  unfold State.audience State.supplied at hc
  rcases Nat.lt_or_ge k st.tickets.length with hk | hk
  · rw [List.getElem?_append_left hk] at hc
    exact .inl hc
  · rw [List.getElem?_append_right hk, List.getElem?_replicate] at hc
    split at hc
    · exact .inr hc
    · simp at hc

/-- What is enqueued is new. -/
theorem handled_supplied (hst : Ordered st) {j : Nat}
    (hj : Handled (st.supplied b tasks p ticket) j) : Handled st j := by
  rcases hj with ⟨u, hmem⟩ | hheld
  · rw [entries_supplied hst] at hmem
    rcases List.mem_append.mp hmem with hold | hnew
    · exact .inl ⟨u, hold⟩
    · obtain ⟨o, -, ho⟩ := List.mem_map.mp hnew
      cases ho
  · exact .inr hheld

theorem due_supplied (hst : Ordered st) {k : Nat}
    (hk : Broadcast (st.supplied b tasks p ticket).writers.enqueued k) {c : SessionPtr}
    (hc : c ∈ (st.supplied b tasks p ticket).audience k) :
    Passed (st.supplied b tasks p ticket).writers.enqueued st.writers.sent k c ∨
      (∃ q, (k, .inl q) ∈ (st.supplied b tasks p ticket).entries) ∨
        ∃ t, Due k c (st.writers.threads t) := by
  rw [entries_supplied hst]
  rcases Nat.lt_or_ge k st.writers.enqueued.length with hold | hnew
  · rw [audience_of_extends tickets_supplied (hst.ticketed ▸ hold)] at hc
    have hk : Broadcast st.writers.enqueued k := by
      unfold Broadcast at *
      rwa [Lists.getElem?_of_extends_lt enqueued_supplied hold] at hk
    rcases hst.due k hk c hc with hdone | ⟨q, hmem⟩ | hdue
    · exact .inl (hdone.mono enqueued_supplied (List.prefix_refl _))
    · exact .inr (.inl ⟨q, List.mem_append_left _ hmem⟩)
    · exact .inr (.inr hdue)
  · obtain ⟨task, htask, -⟩ := hk
    obtain ⟨hk, -⟩ := List.getElem?_eq_some_iff.mp htask
    have hlast : k < st.writers.enqueued.length + tasks.length := by
      rw [← List.length_append]
      exact hk
    refine .inr (.inl ⟨p, List.mem_append_right _ (List.mem_map.mpr ⟨k, ?_, rfl⟩)⟩)
    exact List.mem_range'_1.mpr ⟨hnew, hlast⟩

end Supplied

omit [DecidableEq T] [DecidableEq P] in
theorem ordered_environment {st st' : State L P T} {p : P} {e : Run.Event} (hst : Ordered st)
    (h : environment st p e = some st') : Ordered st' := by
  obtain ⟨b, tasks, owner, hdispatch, hstep, rfl, hw⟩ := environment_supplies h
  have hready : ∀ {c}, c ∈ ready st.writers.broker → c ∈ ready b :=
    ready_environment hstep hdispatch hst.connected
  refine ⟨genuine_environment hst.genuine hw, ?_, ?_,
    Run.step_subscribersConnected hst.connected hstep, fun k c hc => ?_, ?_, fun u => ?_,
    fun k hk c hc => due_supplied hst hk hc, fun j hj k hkj c hc => ?_, ?_⟩
  · simp [State.supplied, hst.produced]
  · simp [State.supplied, hst.ticketed]
  · rcases audience_supplied hc with hold | hnew
    · exact hready (hst.audience k c hold)
    · exact hready hnew
  · rw [entries_supplied hst]
    refine List.pairwise_append.mpr ⟨hst.fifo, List.pairwise_map.mpr ?_, fun x hx y hy _ _ _ => ?_⟩
    · exact (List.pairwise_lt_range' 1).imp fun hlt _ _ _ => hlt
    · obtain ⟨o, ho, rfl⟩ := List.mem_map.mp hy
      have hx : x.1 < st.writers.enqueued.length :=
        hst.genuine.origin_lt (List.of_mem_zip hx).1
      exact hx.trans_le (List.mem_range'_1.mp ho).1
  · refine (hst.threads u).congr fun o ho => audience_of_extends tickets_supplied ?_
    rw [hst.ticketed]
    exact (hst.genuine.threads u).enqueued ho
  · have hj := handled_supplied hst hj
    have hlt := hst.handled_lt hj
    have hkj := hkj.of_extends tickets_supplied enqueued_supplied hst.ticketed hlt
    rw [audience_of_extends tickets_supplied (hst.ticketed ▸ hkj.1.trans hlt)] at hc
    exact (hst.behind j hj k hkj c hc).mono enqueued_supplied (List.prefix_refl _)
  · intro k j hkj c hc before call hcalls hj hsession
    have hlt : j < st.writers.enqueued.length := by
      obtain ⟨task, htask, -⟩ := hst.genuine.sent call (hcalls.subset (by simp))
      rw [← hj]
      exact (List.getElem?_eq_some_iff.mp htask).1
    have hkj := hkj.of_extends tickets_supplied enqueued_supplied hst.ticketed hlt
    rw [audience_of_extends tickets_supplied (hst.ticketed ▸ hkj.1.trans hlt)] at hc
    exact (hst.order k j hkj c hc before call hcalls hj hsession).mono enqueued_supplied
      (List.prefix_refl _)

/-- What a step in the order keeps. -/
theorem step_ordered {st st' : State L P T} {e : Event P T} (hst : Ordered st)
    (hcond : Condition st e) (h : step st e = some st') : Ordered st' := by
  cases e with
  | environment p e => exact ordered_environment hst h
  | dequeue t i => exact ordered_dequeue hst hcond h
  | advance t => exact ordered_advance hst hcond h

omit [DecidableEq T] [DecidableEq P] in
/-- With all writers at `wait_dequeue` and one producer a message is taken in its order. -/
theorem takenInOrder_alone [Subsingleton P] {st : State L P T}
    (hwaiting : ∀ t, st.writers.threads t = .waiting) (i j : Nat) : TakenInOrder st i j := by
  intro k _ _
  refine ⟨?_, fun c _ t hdue => ?_⟩
  · rintro ⟨_, x⟩ _ _ y _
    cases x with
    | inl p =>
      cases y with
      | inl q => exact Subsingleton.elim p q
      | inr u => trivial
    | inr t => trivial
  · rw [hwaiting t] at hdue
    exact hdue.elim

/-- **The order is kept.** However many writers there are and however their statements are
mixed: where messages are taken in their order, a session that was ready when a message was
enqueued is passed it before every later message of the same session. -/
theorem publish_in_order {es : List (Event P T)} {st : State L P T}
    (hc : Machine.Along step Condition (State.init : State L P T) es)
    (hr : Machine.run step State.init es = some st) : InOrder st :=
  (Machine.run_invariant (fun _ _ _ => step_ordered) ordered_init hc hr).order

end Steps

/-! ## Two writers -/

/-- PUBLISH of "HO" on "GPS" at QoS 0. -/
def publishNext : List UInt8 := [0x30, 7, 0, 3, 71, 80, 83, 72, 79]

def serve {P T : Type} (t : T) (n : Nat) : List (Event P T) :=
  .dequeue t 0 :: List.replicate n (.advance t)

/-- Session 1 connects and subscribes, is sent its CONNACK and SUBACK, and publishes twice. -/
def fed {P T : Type} (p : P) (t : T) : List (Event P T) :=
  [.environment p (.accept 1), .environment p (.packet 1 (Wire.connectAs 97)),
    .environment p (.packet 1 Wire.subscribeGps)] ++ serve t 5 ++ serve t 6 ++
    [.environment p (.packet 1 AtMostOnce.publishGps), .environment p (.packet 1 publishNext)]

/-- The second writer takes the second message when the first one is done. -/
def inTurns {P T : Type} (p : P) (t u : T) : List (Event P T) := fed p t ++ serve t 6 ++ serve u 6

theorem inTurns_in_order :
    ∃ st : State Wire.libraries Unit Bool,
      Machine.run step State.init (inTurns () false true) = some st ∧
        Precedes st 2 3 ∧ st.audience 2 = [1] ∧
        st.writers.sent.map Sent.origin = [0, 1, 2, 3] ∧ InOrder st := by
  have hc : Machine.Along step Condition (State.init : State Wire.libraries Unit Bool)
      (inTurns () false true) := by
    decide +kernel
  refine ⟨_, rfl, ?_, rfl, rfl, publish_in_order hc rfl⟩
  decide +kernel

/-- Both writers take a message and the second one goes on first. -/
def overtaking {P T : Type} (p : P) (t u : T) : List (Event P T) :=
  fed p t ++ serve t 0 ++ serve u 5

theorem overtaking_out_of_order :
    ∃ st : State Wire.libraries Unit Bool,
      Machine.run step State.init (overtaking () false true) = some st ∧ ¬ InOrder st := by
  refine ⟨_, rfl, ?_⟩
  intro horder
  have hpassed := horder 2 3 (by decide +kernel) 1 (by decide +kernel)
    [⟨0, 1, [0x20, 2, 0, 0]⟩, ⟨1, 1, [0x90, 2, 0, 1]⟩] ⟨3, 1, publishNext⟩ (by decide +kernel)
    rfl rfl
  exact absurd hpassed (by decide +kernel)

end BddsBroker.PublishOrder
