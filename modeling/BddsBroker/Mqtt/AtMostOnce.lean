import BddsBroker.Lib.Lists
import BddsBroker.Lib.Tally
import BddsBroker.Mqtt.Wire
import BddsBroker.Mqtt.Writers

/-! A task for every subscriber is sent at most once to each of them, for any number of
writer threads, as long as it is not put back while its loop has other subscribers and
it fits into a packet. Each enqueue is worth one send to each session; the sends made
and the worth of what the queue and the threads hold never exceed it. -/

namespace BddsBroker.AtMostOnce

open Writers Tally

variable {L : Libraries} {T : Type}

/-! ## The runs in question -/

/-- The id that a thread looks up belongs to nobody but the subscriber it was read from. -/
def LooksUpOwner (b : Broker L) : Phase → Prop
  | .resolving ⟨_, _, _, client :: _⟩ clientId =>
      ∀ u ∈ b.mqttClients, b.clientId u = clientId → u = client
  | _ => True

/-- Every subscriber of "GPS" is listed once, and client ids are distinct, also from an
id that a thread has read and not looked up yet. -/
structure Distinct (st : State L T) : Prop where
  listedOnce : st.broker.gpsSessions.Nodup
  ids : ∀ u ∈ st.broker.mqttClients, ∀ v ∈ st.broker.mqttClients,
    st.broker.clientId u = st.broker.clientId v → u = v
  lookUps : ∀ t, LooksUpOwner st.broker (st.threads t)

/-- The next statement of a thread with a task for every subscriber does not put it back
while its loop has other subscribers, and does not send more than a packet. -/
def KeepsOnce (b : Broker L) : Phase → Prop
  | .testing r client =>
      r.task.clientId = broadcastId → packetType r.task.data = some .publish →
        (b.session client).subRequested = false → r.passed = [] ∧ r.rest.length = 1
  | .sending r _ data => r.task.clientId = broadcastId → data.length ≤ 1024
  | _ => True

def Condition (st : State L T) : Writers.Event T → Prop
  | .advance t => KeepsOnce st.broker (st.threads t)
  | _ => True

instance (b : Broker L) : ∀ p, Decidable (LooksUpOwner b p)
  | .resolving ⟨_, _, _, client :: _⟩ clientId =>
      inferInstanceAs (Decidable (∀ u ∈ b.mqttClients, b.clientId u = clientId → u = client))
  | .resolving ⟨_, _, _, []⟩ _ => isTrue trivial
  | .waiting | .taken .. | .looping _ | .testing .. | .marking .. | .returning .. | .sending ..
  | .failed .. => isTrue trivial

instance [Fintype T] (st : State L T) : Decidable (Distinct st) :=
  decidable_of_iff (st.broker.gpsSessions.Nodup ∧
    (∀ u ∈ st.broker.mqttClients, ∀ v ∈ st.broker.mqttClients,
      st.broker.clientId u = st.broker.clientId v → u = v) ∧
    ∀ t, LooksUpOwner st.broker (st.threads t))
    ⟨fun h => ⟨h.1, h.2.1, h.2.2⟩, fun h => ⟨h.1, h.2, h.3⟩⟩

instance (b : Broker L) : ∀ p, Decidable (KeepsOnce b p)
  | .testing r client =>
      inferInstanceAs (Decidable (r.task.clientId = broadcastId →
        packetType r.task.data = some .publish → (b.session client).subRequested = false →
          r.passed = [] ∧ r.rest.length = 1))
  | .sending r _ data =>
      inferInstanceAs (Decidable (r.task.clientId = broadcastId → data.length ≤ 1024))
  | .waiting | .taken .. | .looping _ | .resolving .. | .marking .. | .returning .. | .failed .. =>
      isTrue trivial

instance (st : State L T) : ∀ e, Decidable (Condition st e)
  | .advance t => inferInstanceAs (Decidable (KeepsOnce st.broker (st.threads t)))
  | .environment _ | .dequeue .. => isTrue trivial

/-! ## What a task is worth -/

/-- The session is still to come in the loop, or the task may be put back as a whole. -/
def MayReach (r : Round) (s : SessionPtr) : Prop :=
  s ∈ r.rest ∨ r.passed = [] ∧ r.rest.length = 1

instance (r : Round) (s : SessionPtr) : Decidable (MayReach r s) :=
  inferInstanceAs (Decidable (_ ∨ _))

def roundWorth (o : Nat) (s : SessionPtr) (r : Round) : Nat :=
  if r.origin = o ∧ MayReach r s then 1 else 0

/-- What the task that a thread holds is worth to the session. -/
def worth (o : Nat) (s : SessionPtr) : Phase → Nat
  | .waiting => 0
  | .taken origin _ => if origin = o then 1 else 0
  | .looping r | .resolving r _ | .testing r _ | .marking r _ | .returning r _ => roundWorth o s r
  -- An emptied task has been put back already.
  | .sending r _ data => roundWorth o s (if data = [] then r.next else r)
  | .failed _ _ => 0

/-- The calls of `client->send` with the packet, for tasks of that enqueue. -/
def calls (o : Nat) (packet : List UInt8) (s : SessionPtr) (st : State L T) : Nat :=
  st.sent.countP fun call => call.origin = o ∧ call.session = s ∧ call.data = packet

/-- What was sent and what the queue holds. -/
def settled (o : Nat) (packet : List UInt8) (s : SessionPtr) (st : State L T) : Nat :=
  calls o packet s st + st.origins.count o

def spent [Fintype T] (o : Nat) (packet : List UInt8) (s : SessionPtr) (st : State L T) : Nat :=
  settled o packet s st + tally (worth o s) st.threads

theorem roundWorth_le_one (o : Nat) (s : SessionPtr) (r : Round) : roundWorth o s r ≤ 1 := by
  unfold roundWorth
  split <;> omega

theorem mayReach_next {r : Round} {s : SessionPtr} (h : MayReach r.next s) :
    s ∈ r.rest.drop 1 := by
  rcases h with hmem | ⟨hpassed, hone⟩
  · exact hmem
  · simp only [Round.next, List.append_eq_nil_iff, List.take_eq_nil_iff] at hpassed
    obtain ⟨-, hzero | hrest⟩ := hpassed
    · omega
    · simp [Round.next, hrest] at hone

/-- The worth of a round does not grow. -/
theorem roundWorth_next_le (o : Nat) (s : SessionPtr) (r : Round) :
    roundWorth o s r.next ≤ roundWorth o s r := by
  unfold roundWorth
  split
  · rename_i h
    have hreach : MayReach r s := .inl (List.mem_of_mem_drop (mayReach_next h.2))
    rw [if_pos ⟨h.1, hreach⟩]
  · exact Nat.zero_le _

/-- A send to the subscriber at the head uses up what the round is worth to it. -/
theorem roundWorth_send {o : Nat} {s : SessionPtr} {r : Round} (hnodup : r.rest.Nodup)
    (horigin : r.origin = o) (hhead : r.rest.head? = some s) :
    roundWorth o s r = 1 ∧ roundWorth o s r.next = 0 := by
  obtain ⟨rest, hrest⟩ := List.head?_eq_some_iff.mp hhead
  rw [hrest] at hnodup
  constructor
  · exact if_pos ⟨horigin, .inl (by simp [hrest])⟩
  · refine if_neg fun h => (List.nodup_cons.mp hnodup).1 ?_
    simpa [hrest] using mayReach_next h.2

/-- The worth of the only subscriber's round goes back to the queue. -/
theorem roundWorth_giveBack {o : Nat} (s : SessionPtr) {r : Round} (horigin : r.origin = o)
    (hpassed : r.passed = []) (hone : r.rest.length = 1) :
    roundWorth o s r = 1 ∧ roundWorth o s r.next = 0 := by
  constructor
  · exact if_pos ⟨horigin, .inr ⟨hpassed, hone⟩⟩
  · refine if_neg fun h => ?_
    have hmem := mayReach_next h.2
    rw [List.drop_of_length_le (by omega)] at hmem
    cases hmem

/-! ## The tasks that threads hold -/

/-- The round belongs to an enqueue, and its loop runs over connected sessions, each
once. -/
structure RoundOk (st : State L T) (r : Round) : Prop where
  enqueued : st.enqueued[r.origin]? = some r.task
  data : r.task.data ≠ []
  nodup : r.rest.Nodup
  connected : ∀ c ∈ r.rest, c ∈ st.broker.mqttClients

/-- The client found is the subscriber at the head of the loop. -/
def AtHead (r : Round) (client : SessionPtr) : Prop :=
  r.task.clientId = broadcastId → r.rest.head? = some client

/-- What a thread at that point holds. -/
def Holds (st : State L T) : Phase → Prop
  | .waiting => True
  | .taken origin task => st.enqueued[origin]? = some task
  | .looping r => RoundOk st r
  | .resolving r _ => RoundOk st r ∧ (r.task.clientId = broadcastId → r.rest ≠ [])
  | .testing r client | .marking r client => RoundOk st r ∧ AtHead r client
  | .returning r client => RoundOk st r ∧ AtHead r client ∧
      (r.task.clientId = broadcastId → r.passed = [] ∧ r.rest.length = 1)
  | .sending r client data =>
      RoundOk st r ∧ AtHead r client ∧ (data = [] ∨ data = r.task.data)
  | .failed r data => RoundOk st r ∧ r.task.clientId ≠ broadcastId ∧ data = r.task.data

structure Consistent (st : State L T) : Prop where
  origins : st.origins.length = st.broker.mqttTaskQueue.length
  queue : ∀ p ∈ st.origins.zip st.broker.mqttTaskQueue, st.enqueued[p.1]? = some p.2
  threads : ∀ t, Holds st (st.threads t)
  subscribers : Run.SubscribersConnected st.broker

theorem RoundOk.next {st : State L T} {r : Round} (h : RoundOk st r) : RoundOk st r.next where
  enqueued := h.enqueued
  data := h.data
  nodup := h.nodup.drop
  connected c hc := h.connected c (List.mem_of_mem_drop hc)

/-- More enqueues and more clients change nothing. -/
theorem RoundOk.mono {st m : State L T} {r : Round} (h : RoundOk st r)
    (henqueued : st.enqueued <+: m.enqueued)
    (hclients : st.broker.mqttClients ⊆ m.broker.mqttClients) : RoundOk m r where
  enqueued := Lists.getElem?_of_extends henqueued h.enqueued
  data := h.data
  nodup := h.nodup
  connected c hc := hclients (h.connected c hc)

theorem Holds.mono {st m : State L T} {p : Phase} (h : Holds st p)
    (henqueued : st.enqueued <+: m.enqueued)
    (hclients : st.broker.mqttClients ⊆ m.broker.mqttClients) : Holds m p := by
  cases p with
  | waiting => trivial
  | taken origin task => exact Lists.getElem?_of_extends henqueued h
  | looping r => exact RoundOk.mono h henqueued hclients
  | resolving | testing | marking | returning | sending | failed =>
    exact ⟨h.1.mono henqueued hclients, h.2⟩

/-- A client found belongs to the subscriber at the head. -/
theorem atHead_of_getClient {b : Broker L} {r : Round} {clientId : String} {client : SessionPtr}
    (hlook : LooksUpOwner b (.resolving r clientId))
    (hne : r.task.clientId = broadcastId → r.rest ≠ [])
    (hclient : b.getClient clientId = some client) : AtHead r client := by
  intro hid
  obtain ⟨origin, task, passed, rest⟩ := r
  cases rest with
  | nil => exact absurd rfl (hne hid)
  | cons head rest =>
    have hmem := List.mem_of_find?_eq_some hclient
    have howner := List.find?_some hclient
    rw [hlook client hmem (by simpa using howner)]
    rfl

/-- What the next point of a thread holds. -/
theorem holds_statement {st m : State L T} {p q : Phase} (h : Statement st p m q)
    (hp : Holds st p) (hgps : st.broker.gpsSessions.Nodup)
    (hconnected : Run.SubscribersConnected st.broker) (hlook : LooksUpOwner st.broker p)
    (hkeeps : KeepsOnce st.broker p) : Holds m q := by
  cases h with
  | drop | finish => trivial
  | loop hdata hid => exact ⟨hp, hdata, hgps, fun c hc => hconnected.gps hc⟩
  | call hdata hid =>
    exact ⟨⟨hp, hdata, List.nodup_nil, by simp⟩, fun hbroadcast => absurd hbroadcast hid⟩
  | visit hrest =>
    refine ⟨hp, ?_⟩
    intro _ hnil
    rw [hnil] at hrest
    cases hrest
  | absent hclient => exact hp.1.next
  | found hclient => exact ⟨hp.1, atHead_of_getClient hlook hp.2 hclient⟩
  | ready => exact ⟨hp.1, hp.2, .inr rfl⟩
  | suback => exact hp
  | unready htype hready => exact ⟨hp.1, hp.2, fun hid => hkeeps hid htype hready⟩
  | mark => exact ⟨hp.1.mono (List.prefix_refl _) (List.Subset.refl _), hp.2, .inr rfl⟩
  | giveBack => exact ⟨hp.1.mono (List.prefix_refl _) (List.Subset.refl _), hp.2.1, .inl rfl⟩
  | fail hlong =>
    obtain ⟨hok, -, hdata⟩ := hp
    refine ⟨hok.mono (List.prefix_refl _) (List.Subset.refl _), fun hid => ?_, ?_⟩
    · have hshort := hkeeps hid
      omega
    · rcases hdata with rfl | hdata
      · simp at hlong
      · exact hdata
  | send => exact hp.1.next.mono (List.prefix_refl _) (List.Subset.refl _)
  | retry => exact hp.1.next.mono (List.prefix_refl _) (List.Subset.refl _)

/-! ## A statement spends what it uses up -/

/-- If that enqueue exists, it is a task for every subscriber with that packet. -/
def Tracks (st : State L T) (o : Nat) (packet : List UInt8) : Prop :=
  ∀ task, st.enqueued[o]? = some task → task.clientId = broadcastId ∧ task.data = packet

theorem settled_record (o : Nat) (packet : List UInt8) (s : SessionPtr) (st : State L T)
    (origin : Nat) (client : SessionPtr) (data : List UInt8) :
    settled o packet s (st.record origin client data) =
      settled o packet s st + if origin = o ∧ client = s ∧ data = packet then 1 else 0 := by
  simp only [settled, calls, State.record, List.countP_append, List.countP_singleton,
    decide_eq_true_eq]
  omega

theorem settled_putBack (o : Nat) (packet : List UInt8) (s : SessionPtr) (st : State L T)
    (origin : Nat) (task : MqttTask) :
    settled o packet s (st.putBack origin task) =
      settled o packet s st + if origin = o then 1 else 0 := by
  simp only [settled, calls, State.putBack, List.count_append, List.count_singleton, beq_iff_eq]
  omega

theorem roundWorth_of_ne {o : Nat} {r : Round} (h : r.origin ≠ o) (s : SessionPtr) :
    roundWorth o s r = 0 ∧ roundWorth o s r.next = 0 :=
  ⟨if_neg fun h' => h h'.1, if_neg fun h' => h h'.1⟩

theorem roundWorth_le_taken (o : Nat) (s : SessionPtr) (r : Round) :
    roundWorth o s r ≤ if r.origin = o then 1 else 0 := by
  split
  · exact roundWorth_le_one o s r
  · rename_i h
    exact (roundWorth_of_ne h s).1.le

theorem worth_sending {r : Round} (hdata : r.task.data ≠ []) (o : Nat) (s client : SessionPtr) :
    worth o s (.sending r client r.task.data) = roundWorth o s r := by
  simp only [worth, if_neg hdata]

/-- A send of a task for every subscriber goes to the head of its loop. -/
theorem settled_send {st : State L T} {r : Round} {client : SessionPtr} {data : List UInt8}
    {o : Nat} {packet : List UInt8} (htracks : Tracks st o packet)
    (hp : Holds st (.sending r client data)) (s : SessionPtr) :
    settled o packet s (st.record r.origin client data) + roundWorth o s r.next ≤
      settled o packet s st + worth o s (.sending r client data) := by
  obtain ⟨hok, hhead, hdata⟩ := hp
  rw [settled_record]
  by_cases horigin : r.origin = o
  · obtain ⟨hid, hpacket⟩ := htracks r.task (horigin ▸ hok.enqueued)
    rcases hdata with rfl | rfl
    · have hne : ¬ (r.origin = o ∧ client = s ∧ [] = packet) :=
        fun h => hok.data (hpacket.trans h.2.2.symm)
      rw [if_neg hne, worth, if_pos rfl, Nat.add_zero]
    · rw [worth_sending hok.data]
      by_cases hs : client = s
      · subst hs
        obtain ⟨hworth, hnext⟩ := roundWorth_send hok.nodup horigin (hhead hid)
        rw [if_pos ⟨horigin, rfl, hpacket⟩]
        omega
      · have hle := roundWorth_next_le o s r
        rw [if_neg fun h => hs h.2.1]
        omega
  · rw [if_neg fun h => horigin h.1, (roundWorth_of_ne horigin s).2]
    omega

theorem settled_statement {st m : State L T} {p q : Phase} (h : Statement st p m q)
    (hp : Holds st p) (hq : Holds m q) {o : Nat} {packet : List UInt8}
    (htracks : Tracks st o packet) (s : SessionPtr) :
    settled o packet s m + worth o s q ≤ settled o packet s st + worth o s p := by
  cases h with
  | drop | finish => exact Nat.add_le_add_left (Nat.zero_le _) _
  | loop | call => exact Nat.add_le_add_left (roundWorth_le_taken o s _) _
  | visit | found | suback | unready => exact le_refl _
  | absent => exact Nat.add_le_add_left (roundWorth_next_le o s _) _
  | ready =>
    rw [worth_sending hp.1.data]
    exact le_refl _
  | mark =>
    rw [worth_sending hp.1.data]
    exact le_refl _
  | @giveBack r client =>
    obtain ⟨hok, -, honly⟩ := hp
    rw [settled_putBack]
    simp only [worth, if_true]
    by_cases horigin : r.origin = o
    · obtain ⟨hid, -⟩ := htracks r.task (horigin ▸ hok.enqueued)
      obtain ⟨hpassed, hone⟩ := honly hid
      obtain ⟨hworth, hnext⟩ := roundWorth_giveBack s horigin hpassed hone
      rw [if_pos horigin]
      omega
    · rw [if_neg horigin, (roundWorth_of_ne horigin s).2]
      omega
  | @fail r client data =>
    have horigin : r.origin ≠ o :=
      fun h => hq.2.1 (htracks r.task (h ▸ hp.1.enqueued)).1
    rw [settled_record, if_neg fun h => horigin h.1]
    simp only [worth]
    omega
  | send => exact settled_send htracks hp s
  | @retry r data =>
    have horigin : r.origin ≠ o :=
      fun h => hp.2.1 (htracks r.task (h ▸ hp.1.enqueued)).1
    rw [settled_putBack, if_neg horigin]
    simp only [worth, (roundWorth_of_ne horigin s).2]
    omega

/-! ## The queue -/

/-- A statement leaves the queue alone or puts a task back under its number. -/
theorem queue_statement {st m : State L T} {p q : Phase} (h : Statement st p m q)
    (hp : Holds st p) :
    (m.origins = st.origins ∧ m.broker.mqttTaskQueue = st.broker.mqttTaskQueue) ∨
      ∃ origin task, m.origins = st.origins ++ [origin] ∧
        m.broker.mqttTaskQueue = st.broker.mqttTaskQueue ++ [task] ∧
        st.enqueued[origin]? = some task := by
  cases h with
  | @giveBack r client => exact .inr ⟨r.origin, r.task, rfl, rfl, hp.1.enqueued⟩
  | @retry r data =>
    obtain ⟨hok, -, rfl⟩ := hp
    exact .inr ⟨r.origin, r.task, rfl, rfl, hok.enqueued⟩
  | _ => exact .inl ⟨rfl, rfl⟩

/-! ## Steps -/

section Steps

theorem consistent_init : Consistent (State.init : State L T) where
  origins := rfl
  queue p hp := by simp [State.init] at hp
  threads _ := trivial
  subscribers := by simp [Run.SubscribersConnected, State.init, Broker.init]

variable [DecidableEq T]

theorem consistent_advance {st m : State L T} {t : T} {q : Phase} (hst : Consistent st)
    (h : Statement st (st.threads t) m q) (hq : Holds m q) : Consistent (m.goto t q) := by
  obtain ⟨hen, hth, hsame⟩ := h.keeps
  have hprefix : st.enqueued <+: m.enqueued := hen ▸ List.prefix_refl _
  have hclients : st.broker.mqttClients ⊆ m.broker.mqttClients :=
    hsame.clients ▸ List.Subset.refl _
  refine ⟨?_, ?_, fun u => ?_, ?_⟩
  · rcases queue_statement h (hst.threads t) with ⟨ho, hqueue⟩ | ⟨origin, task, ho, hqueue, -⟩
    · simpa [State.goto, ho, hqueue] using hst.origins
    · simpa [State.goto, ho, hqueue] using hst.origins
  · show ∀ p ∈ m.origins.zip m.broker.mqttTaskQueue, m.enqueued[p.1]? = some p.2
    rw [hen]
    rcases queue_statement h (hst.threads t) with ⟨ho, hqueue⟩ | ⟨origin, task, ho, hqueue, htask⟩
    · rw [ho, hqueue]
      exact hst.queue
    · rw [ho, hqueue, List.zip_append hst.origins]
      refine List.forall_mem_append.mpr ⟨hst.queue, ?_⟩
      rintro p hp
      obtain rfl : p = (origin, task) := by simpa using hp
      exact htask
  · refine forall_goto (P := Holds (m.goto t q))
      (hq.mono (List.prefix_refl _) (List.Subset.refl _)) (fun v _ => ?_) u
    rw [hth]
    exact (hst.threads v).mono hprefix hclients
  · show ∀ topic ∈ m.broker.topicList, ∀ s ∈ topic.mqttClientSessions, s ∈ m.broker.mqttClients
    rw [hsame.topics, hsame.clients]
    exact hst.subscribers

theorem consistent_dequeue {st st' : State L T} {t : T} {i : Nat} (hst : Consistent st)
    (h : dequeue st t i = some st') : Consistent st' := by
  obtain ⟨origin, task, ht, horigin, htask, rfl⟩ := dequeue_eq_some h
  refine ⟨?_, ?_, fun u => ?_, hst.subscribers⟩
  · simp only [State.goto, List.length_eraseIdx, hst.origins]
  · show ∀ p ∈ (st.origins.eraseIdx i).zip (st.broker.mqttTaskQueue.eraseIdx i), _
    rw [Lists.zip_eraseIdx]
    exact fun p hp => hst.queue p (List.mem_of_mem_eraseIdx hp)
  · have hmem : (origin, task) ∈ st.origins.zip st.broker.mqttTaskQueue :=
      List.mem_of_getElem? (List.getElem?_zip_eq_some.mpr ⟨horigin, htask⟩)
    refine forall_goto (P := Holds _) ?_ (fun v _ => ?_) u
    · exact hst.queue _ hmem
    · exact (hst.threads v).mono (List.prefix_refl _) (List.Subset.refl _)

omit [DecidableEq T] in
theorem consistent_environment {st st' : State L T} {e : Run.Event} (hst : Consistent st)
    (h : environment st e = some st') : Consistent st' := by
  obtain ⟨b, tasks, -, hstep, hqueue, rfl⟩ := environment_eq_some h
  have hprefix : st.enqueued <+: st.enqueued ++ tasks := List.prefix_append _ _
  refine ⟨?_, ?_, fun u => ?_, Run.step_subscribersConnected hst.subscribers hstep⟩
  · simp [hqueue, hst.origins]
  · rw [hqueue, List.zip_append hst.origins]
    refine List.forall_mem_append.mpr
      ⟨fun p hp => Lists.getElem?_of_extends hprefix (hst.queue p hp), ?_⟩
    rintro ⟨o, task⟩ hp
    obtain ⟨j, hj⟩ := List.mem_iff_getElem?.mp hp
    obtain ⟨ho, htask⟩ := List.getElem?_zip_eq_some.mp hj
    obtain ⟨hlt, rfl⟩ := List.getElem?_eq_some_iff.mp ho
    rw [List.getElem_range', List.getElem?_append_right (by omega)]
    simpa using htask
  · exact (hst.threads u).mono hprefix fun c hc => Run.mem_clients_step hstep hc

variable [Fintype T]

/-- No enqueue spends more than it is worth. -/
def Bounded (st : State L T) : Prop :=
  ∀ o packet s, Tracks st o packet →
    spent o packet s st ≤ if o < st.enqueued.length then 1 else 0

omit [DecidableEq T] in
theorem bounded_init : Bounded (State.init : State L T) := by
  intro o packet s _
  have htally : tally (worth o s) (fun _ : T => Phase.waiting) = 0 :=
    tally_eq_zero.mpr fun _ => rfl
  simp [spent, settled, calls, State.init, htally]

/-- A thread that moves changes the sum by the difference of two worths. -/
theorem spent_goto (o : Nat) (packet : List UInt8) (s : SessionPtr) (m : State L T) (t : T)
    (q : Phase) :
    spent o packet s (m.goto t q) + worth o s (m.threads t) =
      settled o packet s m + worth o s q + tally (worth o s) m.threads := by
  have htally := tally_update (worth o s) m.threads t q
  show settled o packet s m + tally (worth o s) (Function.update m.threads t q) + _ = _
  omega

theorem bounded_advance {st m : State L T} {t : T} {q : Phase} (hst : Consistent st)
    (hb : Bounded st) (h : Statement st (st.threads t) m q) (hq : Holds m q) :
    Bounded (m.goto t q) := by
  obtain ⟨hen, hth, -⟩ := h.keeps
  intro o packet s htracks
  have htracks' : Tracks st o packet := fun task htask => htracks task (hen ▸ htask)
  have hspent := spent_goto o packet s m t q
  have hle := settled_statement h (hst.threads t) hq htracks' s
  have hbound := hb o packet s htracks'
  rw [hth] at hspent
  show spent o packet s (m.goto t q) ≤ if o < m.enqueued.length then 1 else 0
  rw [hen]
  unfold spent at hbound
  omega

theorem bounded_dequeue {st st' : State L T} {t : T} {i : Nat} (hb : Bounded st)
    (h : dequeue st t i = some st') : Bounded st' := by
  obtain ⟨origin, task, ht, horigin, htask, rfl⟩ := dequeue_eq_some h
  intro o packet s htracks
  have hbound := hb o packet s htracks
  have hcount := Lists.count_eraseIdx horigin o
  have htally := tally_update (worth o s) st.threads t (.taken origin task)
  rw [ht] at htally
  refine le_trans (le_of_eq ?_) hbound
  simp only [spent, settled, calls, State.goto, worth] at htally ⊢
  omega

omit [DecidableEq T] in
theorem bounded_environment {st st' : State L T} {e : Run.Event} (hb : Bounded st)
    (h : environment st e = some st') : Bounded st' := by
  obtain ⟨b, tasks, -, hstep, hqueue, rfl⟩ := environment_eq_some h
  intro o packet s htracks
  have hbound := hb o packet s fun task htask =>
    htracks task (Lists.getElem?_of_extends (List.prefix_append _ _) htask)
  simp only [spent, settled, calls, List.count_append, List.count_range_1', List.length_append]
    at hbound ⊢
  split_ifs at hbound ⊢ <;> omega

end Steps

/-! ## The result -/

section Result

variable [Fintype T] [DecidableEq T]

/-- **Invariant.** What a run keeps. -/
theorem step_keeps {st st' : State L T} {e : Writers.Event T}
    (hst : Consistent st ∧ Bounded st) (hc : Distinct st ∧ Condition st e)
    (hs : Writers.step st e = some st') : Consistent st' ∧ Bounded st' := by
  obtain ⟨hcons, hbound⟩ := hst
  obtain ⟨hdistinct, hcond⟩ := hc
  cases e with
  | environment e => exact ⟨consistent_environment hcons hs, bounded_environment hbound hs⟩
  | dequeue t i => exact ⟨consistent_dequeue hcons hs, bounded_dequeue hbound hs⟩
  | advance t =>
    obtain ⟨m, q, hstatement, rfl⟩ := advance_statement hs
    have hq := holds_statement hstatement (hcons.threads t) hdistinct.listedOnce
      hcons.subscribers (hdistinct.lookUps t) hcond
    exact ⟨consistent_advance hcons hstatement hq, bounded_advance hcons hbound hstatement hq⟩

/-- **At most once.** In every run of the broker and its writers that keeps the
subscribers and the ids distinct and whose statements all meet the condition, a task
for every subscriber is sent at most once to each session. -/
theorem sent_at_most_once {es : List (Writers.Event T)} {st : State L T}
    (hc : Machine.Along Writers.step (fun st e => Distinct st ∧ Condition st e)
      (State.init : State L T) es)
    (hr : Machine.run Writers.step State.init es = some st) {o : Nat} {task : MqttTask}
    (ho : st.enqueued[o]? = some task) (hid : task.clientId = broadcastId) (s : SessionPtr) :
    calls o task.data s st ≤ 1 := by
  obtain ⟨-, hbound⟩ := Machine.run_invariant (I := fun st => Consistent st ∧ Bounded st)
    (fun _ _ _ hst hc hs => step_keeps hst hc hs) ⟨consistent_init, bounded_init⟩ hc hr
  have htracks : Tracks st o task.data := by
    intro task' htask'
    obtain rfl : task' = task := Option.some.inj (htask'.symm.trans ho)
    exact ⟨hid, rfl⟩
  have hle := hbound o task.data s htracks
  rw [if_pos (List.getElem?_eq_some_iff.mp ho).1] at hle
  unfold spent settled at hle
  omega

end Result

/-! ## A subscriber whose SUBACK is late -/

/-- PUBLISH of "HI" on "GPS" at QoS 0. -/
def publishGps : List UInt8 := [0x30, 7, 0, 3, 71, 80, 83, 72, 73]

/-- Sessions 1 and 2 connect as "a" and "b" and subscribe, and session 1 publishes. The
queue then holds two CONNACKs, two SUBACKs and the task for every subscriber. -/
def published {T : Type} : List (Writers.Event T) :=
  ([.accept 1, .packet 1 (Wire.connectAs 97), .accept 2, .packet 2 (Wire.connectAs 98),
    .packet 1 Wire.subscribeGps, .packet 2 Wire.subscribeGps, .packet 1 publishGps] :
      List Run.Event).map .environment

/-- A thread takes the first task and goes on for `n` statements. -/
def serve {T : Type} (t : T) (n : Nat) : List (Writers.Event T) :=
  .dequeue t 0 :: List.replicate n (.advance t)

/-- One thread sends the CONNACKs and the SUBACK of session 1, takes the SUBACK of
session 2 and pauses. The other one takes the message: session 2 is not ready, so the
task goes back as a whole and is taken again. -/
def lateSuback {T : Type} (t u : T) : List (Writers.Event T) :=
  published ++ serve t 5 ++ serve t 5 ++ serve t 6 ++ serve t 0 ++ serve u 11 ++ serve u 5

theorem lateSuback_sent_twice :
    ∃ (st : State Wire.libraries (Fin 2)) (task : MqttTask),
      Machine.Along Writers.step (fun st _ => Distinct st)
        (State.init : State Wire.libraries (Fin 2)) (lateSuback 0 1) ∧
      Machine.run Writers.step State.init (lateSuback 0 1) = some st ∧
      st.enqueued[4]? = some task ∧ task.clientId = broadcastId ∧ calls 4 task.data 1 st = 2 := by
  refine ⟨_, ⟨4, 0, publishGps, broadcastId⟩, ?_, rfl, rfl, rfl, rfl⟩
  decide +kernel

/-- Both SUBACKs are sent before the message. -/
def timely {T : Type} (t u : T) : List (Writers.Event T) :=
  published ++ serve t 5 ++ serve t 5 ++ serve t 6 ++ serve t 6 ++ serve u 10

theorem timely_at_most_once :
    ∃ (st : State Wire.libraries (Fin 2)) (task : MqttTask),
      Machine.run Writers.step State.init (timely 0 1) = some st ∧ st.enqueued[4]? = some task ∧
      st.sent.map Sent.session = [1, 2, 1, 2, 1, 2] ∧ ∀ s, calls 4 task.data s st ≤ 1 := by
  have hc : Machine.Along Writers.step (fun st e => Distinct st ∧ Condition st e)
      (State.init : State Wire.libraries (Fin 2)) (timely 0 1) := by
    decide +kernel
  refine ⟨_, ⟨4, 0, publishGps, broadcastId⟩, rfl, rfl, rfl, ?_⟩
  exact sent_at_most_once hc rfl rfl rfl

end BddsBroker.AtMostOnce
