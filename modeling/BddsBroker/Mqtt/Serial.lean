import BddsBroker.Mqtt.Connections

/-! One receive at a time. Between its `start` and its first receive error a session has
exactly one of an outstanding `async_receive` and a running handler, whatever the number of
threads and the order of the completions: each of them is made from the other, and nothing
makes a second one. So no receive writes to `packet_` while `message_process` reads it, and
the packets are processed in the order in which their receives completed
(`sessions_serial`). -/

namespace BddsBroker.Connections

open Tally

variable {L : Libraries} {T W : Type}

namespace Phase

def starts (s : SessionPtr) (p : Phase) : Nat := if p = .starting s then 1 else 0

/-- In the completion handler of the session: in `message_process` or behind it. -/
def handles (s : SessionPtr) (p : Phase) : Nat :=
  if p = .processing s ∨ p = .rearming s then 1 else 0

def processes (s : SessionPtr) (p : Phase) : Nat := if p = .processing s then 1 else 0

/-- A thread carries the token of its session. -/
def token (s : SessionPtr) (p : Phase) : Nat := if p.session = some s then 1 else 0

theorem starts_add_handles (s : SessionPtr) (p : Phase) : p.starts s + p.handles s = p.token s := by
  cases p <;> simp [starts, handles, token, session]

end Phase

namespace State

/-- The `async_receive`s of the session whose handler has not been called. -/
def outstanding (st : State L T W) (s : SessionPtr) : Nat :=
  (st.receives.map Receive.session).count s

variable [Fintype T]

def starting (st : State L T W) (s : SessionPtr) : Nat := tally (Phase.starts s) st.threads

/-- The completion handlers of the session that are running. -/
def running (st : State L T W) (s : SessionPtr) : Nat := tally (Phase.handles s) st.threads

/-- The receives that the session's chain of calls has come to. -/
def tokens (st : State L T W) (s : SessionPtr) : Nat :=
  st.outstanding s + st.starting s + st.running s + st.readFailed.count s

end State

/-- The contents of `packet_` at the session's receives. -/
def contentsOf (packets : List Packet) (s : SessionPtr) : List (List UInt8) :=
  (packets.filter fun p => p.session == s).map Packet.contents

theorem contentsOf_append (packets : List Packet) (u : SessionPtr) (contents : List UInt8)
    (s : SessionPtr) : contentsOf (packets ++ [⟨u, contents⟩]) s =
      contentsOf packets s ++ if u = s then [contents] else [] := by
  by_cases hu : u = s <;> simp [contentsOf, hu]

/-! ## The chain of calls -/

section Chain

variable [DecidableEq T] [DecidableEq W]

omit [DecidableEq W] in
/-- A thread that moves on. -/
theorem tokens_goto [Fintype T] (st : State L T W) {t : T} {q : Phase} (ht : st.threads t = q)
    (p : Phase) (s : SessionPtr) :
    (st.goto t p).tokens s + q.token s = st.tokens s + p.token s := by
  have hstarts := tally_update (Phase.starts s) st.threads t p
  have hhandles := tally_update (Phase.handles s) st.threads t p
  rw [ht] at hstarts hhandles
  rw [← Phase.starts_add_handles s p, ← Phase.starts_add_handles s q]
  simp only [State.tokens, State.starting, State.running, State.outstanding, State.goto]
  omega

omit [DecidableEq T] [DecidableEq W] in
/-- The receives of a state are replaced. -/
theorem tokens_receives [Fintype T] (st : State L T W) (receives : List Receive)
    (s : SessionPtr) :
    { st with receives := receives }.tokens s + (st.receives.map Receive.session).count s =
      st.tokens s + (receives.map Receive.session).count s := by
  simp only [State.tokens, State.outstanding, State.starting, State.running]
  omega

theorem count_session_set {receives : List Receive} {i : Nat} {s : SessionPtr} {stage : Stage}
    (h : receives[i]? = some ⟨s, stage⟩) (next : Stage) :
    (receives.set i ⟨s, next⟩).map Receive.session = receives.map Receive.session := by
  have hsession : (receives.map Receive.session)[i]? = some s := by
    rw [List.getElem?_map, h, Option.map_some]
  obtain ⟨hi, rfl⟩ := List.getElem?_eq_some_iff.mp hsession
  rw [List.map_set, List.set_getElem_self]

theorem count_session_eraseIdx {receives : List Receive} {i : Nat} {s : SessionPtr}
    {stage : Stage} (h : receives[i]? = some ⟨s, stage⟩) (u : SessionPtr) :
    ((receives.eraseIdx i).map Receive.session).count u + (if s = u then 1 else 0) =
      (receives.map Receive.session).count u := by
  have hsession : (receives.map Receive.session)[i]? = some s := by
    rw [List.getElem?_map, h, Option.map_some]
  have hcount := Lists.count_eraseIdx hsession u
  rw [List.eraseIdx_map] at hcount
  exact hcount

/-- The event is the `start` of the session. -/
def Accepts (s : SessionPtr) : Event T W → Prop
  | .accept _ u _ => u = s
  | _ => False

instance (s : SessionPtr) : ∀ e : Event T W, Decidable (Accepts s e)
  | .accept _ u _ => inferInstanceAs (Decidable (u = s))
  | .read _ | .receive .. | .receiveError _ | .handle .. | .process _ | .written .. | .other _ =>
    isFalse id

/-- Only `start` changes `mqtt_clients_`. -/
theorem mem_clients_step {st st' : State L T W} {e : Event T W} (hs : Step st e st')
    (s : SessionPtr) :
    s ∈ st'.broker.mqttClients ↔ s ∈ st.broker.mqttClients ∨ Accepts s e := by
  cases hs with
  | @accept t u contents ht hnew =>
    have hinsert := List.mem_orderedInsert (r := (· ≤ ·)) (a := s) (b := u)
      (l := st.broker.mqttClients)
    show s ∈ st.broker.mqttClients.orderedInsert (· ≤ ·) u ↔ _ ∨ u = s
    rw [hinsert, or_comm, eq_comm]
  | process ht hb =>
    have hsame := Change.mqttClients_run (MqttSession.messageProcess_changes hb)
    exact hsame ▸ (or_iff_left id).symm
  | other he hw =>
    have hsame := other_same (f := Broker.mqttClients)
      (fun _ _ h => (SameClients.ofWork h).clients) (fun _ _ _ => rfl) he hw
    exact hsame ▸ (or_iff_left id).symm
  | _ => exact (or_iff_left id).symm

/-- A step passes the session's token on; `start` makes it. -/
theorem tokens_step [Fintype T] {st st' : State L T W} {e : Event T W} (hs : Step st e st')
    (s : SessionPtr) : st'.tokens s = st.tokens s + if Accepts s e then 1 else 0 := by
  cases hs with
  | @accept t u contents ht hnew =>
    have hgoto := tokens_goto { st.adopt (Run.accept u st.broker) with
      packet := Function.update st.packet u contents } ht (.starting u) s
    simp only [Phase.token, Phase.session, Option.some.injEq] at hgoto
    exact hgoto
  | @read t u ht =>
    have hreceives := tokens_receives st (st.receives ++ [Receive.mk u .pending]) s
    have hgoto := tokens_goto { st with
      receives := st.receives ++ [Receive.mk u .pending] } (Eq.refl (st.threads t)) .idle s
    have hsession : (st.threads t).token s = if u = s then 1 else 0 := by
      rcases ht with ht | ht <;> rw [ht] <;> simp [Phase.token, Phase.session]
    have hidle : Phase.idle.token s = 0 := rfl
    simp only [List.map_append, List.map_cons, List.map_nil, List.count_append,
      List.count_singleton, beq_iff_eq] at hreceives
    show State.tokens _ s = st.tokens s + 0
    omega
  | @receive i u bytes hi =>
    have hreceives := tokens_receives st (st.receives.set i ⟨u, .received⟩) s
    rw [count_session_set hi] at hreceives
    exact Nat.add_right_cancel hreceives
  | @receiveError i u hi =>
    have hreceives := tokens_receives st (st.receives.set i ⟨u, .failed⟩) s
    rw [count_session_set hi] at hreceives
    exact Nat.add_right_cancel hreceives
  | @handle t i u ht hi =>
    have hreceives := tokens_receives st (st.receives.eraseIdx i) s
    have hcount := count_session_eraseIdx hi s
    have hgoto := tokens_goto { st with receives := st.receives.eraseIdx i } ht (.processing u) s
    simp only [Phase.token, Phase.session, reduceCtorEq, if_false, Option.some.injEq] at hgoto
    show State.tokens _ s = st.tokens s + 0
    omega
  | @handleError t i u ht hi =>
    have hreceives := tokens_receives st (st.receives.eraseIdx i) s
    have hcount := count_session_eraseIdx hi s
    have hfailed : { st with
        receives := st.receives.eraseIdx i
        readFailed := st.readFailed ++ [u] }.tokens s =
          { st with receives := st.receives.eraseIdx i }.tokens s + if u = s then 1 else 0 := by
      simp only [State.tokens, State.outstanding, State.starting, State.running,
        List.count_append, List.count_singleton, beq_iff_eq]
      omega
    show State.tokens _ s = st.tokens s + 0
    omega
  | @process t u b ht hb =>
    have hgoto := tokens_goto { st.adopt b with
      processed := st.processed ++ [Packet.mk u (st.packet u)] } ht (.rearming u) s
    exact Nat.add_right_cancel hgoto
  | written ht hw => rfl
  | other he hw => rfl

/-- A connected session has its token, and no other one has. -/
def Serial [Fintype T] (st : State L T W) : Prop :=
  ∀ s, st.tokens s = if s ∈ st.broker.mqttClients then 1 else 0

theorem step_serial [Fintype T] {st st' : State L T W} {e : Event T W} (hst : Serial st)
    (hs : Step st e st') : Serial st' := by
  intro s
  rw [tokens_step hs s, hst s]
  simp only [mem_clients_step hs s]
  by_cases haccept : Accepts s e
  · have hnew : s ∉ st.broker.mqttClients := by
      cases hs with
      | accept ht hnew => exact haccept ▸ hnew
      | _ => exact haccept.elim
    simp [haccept, hnew]
  · simp [haccept]

omit [DecidableEq T] [DecidableEq W] in
theorem Serial.tokens_le_one [Fintype T] {st : State L T W} (hst : Serial st) (s : SessionPtr) :
    st.tokens s ≤ 1 := by
  rw [hst s]
  split <;> omega

/-! ## The order of the packets -/

/-- The packets of the session that have arrived and are not yet processed. -/
def State.unread [Fintype T] (st : State L T W) (s : SessionPtr) : Nat :=
  st.receives.count ⟨s, .received⟩ + tally (Phase.processes s) st.threads

/-- The packets are processed in the order of their arrival, and what is unread stands in
`packet_`. -/
def InOrder [Fintype T] (st : State L T W) : Prop :=
  ∀ s, contentsOf st.completed s =
    contentsOf st.processed s ++ List.replicate (st.unread s) (st.packet s)

section Unread

omit [DecidableEq T] [DecidableEq W]

/-- What is unread takes the token, and so does a pending receive. -/
theorem unread_add_pending_le [Fintype T] (st : State L T W) (s : SessionPtr) :
    st.unread s + st.receives.count ⟨s, .pending⟩ ≤ st.tokens s := by
  have hreceives : st.receives.count ⟨s, .received⟩ + st.receives.count ⟨s, .pending⟩ ≤
      (st.receives.map Receive.session).count s :=
    Lists.count_add_count_le_count_map (f := Receive.session) (a := ⟨s, .received⟩)
      (b := ⟨s, .pending⟩) (by simp) rfl st.receives
  have hthreads : tally (Phase.processes s) st.threads ≤ tally (Phase.handles s) st.threads := by
    refine tally_mono (fun p => ?_) st.threads
    cases p <;> simp [Phase.processes, Phase.handles]
  simp only [State.unread, State.tokens, State.outstanding, State.running]
  omega

/-- While a receive is pending its session has nothing unread. -/
theorem unread_eq_zero [Fintype T] {st : State L T W} (hst : Serial st) {i : Nat} {s : SessionPtr}
    (hi : st.receives[i]? = some ⟨s, .pending⟩) : st.unread s = 0 := by
  have hle := unread_add_pending_le st s
  have hone := hst.tokens_le_one s
  have hpending := List.count_pos_iff.mpr (List.mem_of_getElem? hi)
  omega

/-- A session that is not connected has nothing unread. -/
theorem unread_of_not_mem [Fintype T] {st : State L T W} (hst : Serial st) {s : SessionPtr}
    (hs : s ∉ st.broker.mqttClients) : st.unread s = 0 := by
  have hle := unread_add_pending_le st s
  rw [hst s, if_neg hs] at hle
  omega

/-- The packet that is processed is the one that is unread. -/
theorem unread_eq_one [Fintype T] {st : State L T W} (hst : Serial st) {t : T} {s : SessionPtr}
    (ht : st.threads t = .processing s) : st.unread s = 1 := by
  have hle := unread_add_pending_le st s
  have hone := hst.tokens_le_one s
  have hpos : 1 ≤ tally (Phase.processes s) st.threads := by
    have hthread := le_tally (Phase.processes s) st.threads t
    rw [ht] at hthread
    simpa [Phase.processes] using hthread
  have hdef : st.unread s =
      st.receives.count ⟨s, .received⟩ + tally (Phase.processes s) st.threads := rfl
  omega

theorem unread_receives [Fintype T] (st : State L T W) (receives : List Receive)
    (s : SessionPtr) :
    { st with receives := receives }.unread s + st.receives.count ⟨s, .received⟩ =
      st.unread s + receives.count ⟨s, .received⟩ := by
  simp only [State.unread]
  omega

/-- A pending receive is completed. -/
theorem count_received_set {receives : List Receive} {i : Nat} {u : SessionPtr}
    (hi : receives[i]? = some ⟨u, .pending⟩) (next : Stage) (s : SessionPtr) :
    (receives.set i ⟨u, next⟩).count ⟨s, .received⟩ =
      receives.count ⟨s, .received⟩ + if u = s ∧ next = .received then 1 else 0 := by
  obtain ⟨hlt, hget⟩ := List.getElem?_eq_some_iff.mp hi
  rw [List.count_set hlt, hget]
  simp

end Unread

omit [DecidableEq W] in
theorem unread_goto [Fintype T] (st : State L T W) {t : T} {q : Phase} (ht : st.threads t = q)
    (p : Phase) (s : SessionPtr) :
    (st.goto t p).unread s + q.processes s = st.unread s + p.processes s := by
  have hthreads := tally_update (Phase.processes s) st.threads t p
  rw [ht] at hthreads
  simp only [State.unread, State.goto]
  omega

/-- What a step does to the packets of a session. -/
inductive Turn [Fintype T] (st st' : State L T W) (s : SessionPtr) : Prop
  | same (hunread : st'.unread s = st.unread s)
      (hcompleted : contentsOf st'.completed s = contentsOf st.completed s)
      (hprocessed : contentsOf st'.processed s = contentsOf st.processed s)
      (hpacket : st'.packet s = st.packet s ∨ st.unread s = 0)
  | arrives (hbefore : st.unread s = 0) (hafter : st'.unread s = 1)
      (hcompleted : contentsOf st'.completed s = contentsOf st.completed s ++ [st'.packet s])
      (hprocessed : contentsOf st'.processed s = contentsOf st.processed s)
  | processed (hbefore : st.unread s = 1) (hafter : st'.unread s = 0)
      (hcompleted : contentsOf st'.completed s = contentsOf st.completed s)
      (hprocessed : contentsOf st'.processed s = contentsOf st.processed s ++ [st.packet s])

omit [DecidableEq T] [DecidableEq W] in
/-- A packet arrives at its session. -/
theorem turn_receive [Fintype T] {st : State L T W} (hst : Serial st) {i : Nat}
    {u : SessionPtr} (hi : st.receives[i]? = some ⟨u, .pending⟩) (bytes : List UInt8)
    (s : SessionPtr) :
    Turn st { st with
      receives := st.receives.set i ⟨u, .received⟩
      packet := Function.update st.packet u (overwrite (st.packet u) bytes)
      completed := st.completed ++ [⟨u, overwrite (st.packet u) bytes⟩] } s := by
  have hreceives := unread_receives st (st.receives.set i ⟨u, .received⟩) s
  have hcompleted := contentsOf_append st.completed u (overwrite (st.packet u) bytes) s
  rw [count_received_set hi .received s] at hreceives
  by_cases hu : u = s
  · subst hu
    have hzero := unread_eq_zero hst hi
    rw [if_pos ⟨rfl, rfl⟩] at hreceives
    rw [if_pos rfl] at hcompleted
    refine .arrives hzero ?_ ?_ rfl
    · show { st with receives := st.receives.set i ⟨u, .received⟩ }.unread u = 1
      omega
    · show _ = _ ++ [Function.update st.packet u (overwrite (st.packet u) bytes) u]
      rw [Function.update_self]
      exact hcompleted
  · rw [if_neg fun h => hu h.1, Nat.add_zero] at hreceives
    rw [if_neg hu, List.append_nil] at hcompleted
    exact .same (Nat.add_right_cancel hreceives) hcompleted rfl
      (.inl (Function.update_of_ne (Ne.symm hu) _ st.packet))

omit [DecidableEq W] in
/-- The packet of a session is processed. -/
theorem turn_process [Fintype T] {st : State L T W} (hst : Serial st) {t : T} {u : SessionPtr}
    (ht : st.threads t = .processing u) (b : Broker L) (s : SessionPtr) :
    Turn st (({ st.adopt b with
      processed := st.processed ++ [⟨u, st.packet u⟩] } : State L T W).goto t (.rearming u)) s := by
  have hprocessed := contentsOf_append st.processed u (st.packet u) s
  have hone := unread_eq_one hst ht
  have hgoto := unread_goto { st.adopt b with
    processed := st.processed ++ [Packet.mk u (st.packet u)] } ht (.rearming u) s
  simp only [Phase.processes, Phase.processing.injEq, reduceCtorEq, if_false] at hgoto
  by_cases hu : u = s
  · subst hu
    rw [if_pos rfl] at hprocessed hgoto
    refine .processed hone ?_ rfl hprocessed
    exact Nat.add_right_cancel (hgoto.trans hone)
  · rw [if_neg hu] at hgoto hprocessed
    rw [List.append_nil] at hprocessed
    exact .same hgoto rfl hprocessed (.inl rfl)

theorem turn_step [Fintype T] {st st' : State L T W} {e : Event T W} (hst : Serial st)
    (hs : Step st e st') (s : SessionPtr) : Turn st st' s := by
  cases hs with
  | @accept t u contents ht hnew =>
    have hgoto := unread_goto { st.adopt (Run.accept u st.broker) with
      packet := Function.update st.packet u contents } ht (.starting u) s
    refine .same hgoto rfl rfl ?_
    by_cases hu : s = u
    · exact .inr (hu ▸ unread_of_not_mem hst hnew)
    · refine .inl ?_
      show Function.update st.packet u contents s = _
      rw [Function.update_of_ne hu]
  | @read t u ht =>
    have hreceives := unread_receives st (st.receives ++ [Receive.mk u .pending]) s
    have hgoto := unread_goto { st with
      receives := st.receives ++ [Receive.mk u .pending] } (Eq.refl (st.threads t)) .idle s
    have hthread : (st.threads t).processes s = 0 := by
      rcases ht with ht | ht <;> rw [ht] <;> simp [Phase.processes]
    have hnew : (st.receives ++ [Receive.mk u .pending]).count ⟨s, .received⟩ =
        st.receives.count ⟨s, .received⟩ := by
      simp
    have hidle : Phase.idle.processes s = 0 := rfl
    refine .same ?_ rfl rfl (.inl rfl)
    omega
  | receive hi => exact turn_receive hst hi _ s
  | @receiveError i u hi =>
    have hreceives := unread_receives st (st.receives.set i ⟨u, .failed⟩) s
    rw [count_received_set hi .failed s, if_neg fun h => nomatch h.2, Nat.add_zero] at hreceives
    exact .same (Nat.add_right_cancel hreceives) rfl rfl (.inl rfl)
  | @handle t i u ht hi =>
    have hreceives := unread_receives st (st.receives.eraseIdx i) s
    have hcount := Lists.count_eraseIdx hi ⟨s, .received⟩
    have hgoto := unread_goto { st with receives := st.receives.eraseIdx i } ht (.processing u) s
    simp only [Phase.processes, Phase.processing.injEq, reduceCtorEq, if_false] at hgoto
    simp only [Receive.mk.injEq, and_true] at hcount
    refine .same ?_ rfl rfl (.inl rfl)
    omega
  | @handleError t i u ht hi =>
    have hreceives := unread_receives st (st.receives.eraseIdx i) s
    have hcount := Lists.count_eraseIdx hi ⟨s, .received⟩
    simp only [Receive.mk.injEq, reduceCtorEq, and_false, if_false] at hcount
    refine .same ?_ rfl rfl (.inl rfl)
    show { st with receives := st.receives.eraseIdx i }.unread s = st.unread s
    omega
  | process ht hb => exact turn_process hst ht _ s
  | written ht hw => exact .same rfl rfl rfl (.inl rfl)
  | other he hw => exact .same rfl rfl rfl (.inl rfl)

theorem step_inOrder [Fintype T] {st st' : State L T W} {e : Event T W} (hst : Serial st)
    (horder : InOrder st) (hs : Step st e st') : InOrder st' := by
  intro s
  have hbefore := horder s
  cases turn_step hst hs s with
  | same hunread hcompleted hprocessed hpacket =>
    rw [hunread, hcompleted, hprocessed, hbefore]
    rcases hpacket with hpacket | hzero
    · rw [hpacket]
    · rw [hzero, List.replicate_zero, List.replicate_zero]
  | arrives hzero hone hcompleted hprocessed =>
    rw [hzero, List.replicate_zero, List.append_nil] at hbefore
    rw [hone, hcompleted, hprocessed, hbefore, List.replicate_one]
  | processed hone hzero hcompleted hprocessed =>
    rw [hone, List.replicate_one] at hbefore
    rw [hzero, hcompleted, hprocessed, hbefore, List.replicate_zero, List.append_nil]

omit [DecidableEq T] [DecidableEq W] in
theorem serial_init [Fintype T] : Serial (State.init : State L T W) := by
  intro s
  have hstarts : tally (Phase.starts s) (State.init : State L T W).threads = 0 :=
    tally_eq_zero.mpr fun _ => rfl
  have hhandles : tally (Phase.handles s) (State.init : State L T W).threads = 0 :=
    tally_eq_zero.mpr fun _ => by simp [State.init, Phase.handles]
  simp only [State.tokens, State.starting, State.running, hstarts, hhandles]
  rfl

omit [DecidableEq T] [DecidableEq W] in
theorem inOrder_init [Fintype T] : InOrder (State.init : State L T W) := by
  intro s
  have hprocesses : tally (Phase.processes s) (State.init : State L T W).threads = 0 :=
    tally_eq_zero.mpr fun _ => rfl
  simp only [State.unread, hprocesses]
  rfl

theorem reachable_serial [Fintype T] {st : State L T W} (hr : Reachable st) :
    Serial st ∧ InOrder st :=
  Machine.reachable_invariant (I := fun st : State L T W => Serial st ∧ InOrder st)
    (fun _ _ _ hst hs =>
      ⟨step_serial hst.1 (step_cases hs), step_inOrder hst.1 hst.2 (step_cases hs)⟩)
    ⟨serial_init, inOrder_init⟩ hr

/-! ## Serial processing -/

/-- The session's `start` has returned. -/
def Started (st : State L T W) (s : SessionPtr) : Prop :=
  s ∈ st.broker.mqttClients ∧ ∀ t, st.threads t ≠ .starting s

/-- One receive and no handler, one handler and no receive, or neither after an error. -/
def OneCall [Fintype T] (st : State L T W) (s : SessionPtr) : Prop :=
  (st.outstanding s = 1 ∧ st.running s = 0 ∧ s ∉ st.readFailed) ∨
    (st.outstanding s = 0 ∧ st.running s = 1 ∧ s ∉ st.readFailed) ∨
    (st.outstanding s = 0 ∧ st.running s = 0 ∧ s ∈ st.readFailed)

omit [DecidableEq T] [DecidableEq W] in
theorem Serial.oneCall [Fintype T] {st : State L T W} (hst : Serial st) {s : SessionPtr}
    (hs : Started st s) : OneCall st s := by
  have htokens := hst s
  have hstarting : st.starting s = 0 :=
    tally_eq_zero.mpr fun t => if_neg (hs.2 t)
  have hfailed : st.readFailed.count s = 0 ↔ s ∉ st.readFailed := List.count_eq_zero
  rw [if_pos hs.1] at htokens
  unfold State.tokens at htokens
  by_cases hmem : s ∈ st.readFailed
  · have hpos := List.count_pos_iff.mpr hmem
    exact .inr (.inr ⟨by omega, by omega, hmem⟩)
  · have hzero := hfailed.mpr hmem
    by_cases hout : st.outstanding s = 0
    · exact .inr (.inl ⟨hout, by omega, hmem⟩)
    · exact .inl ⟨by omega, by omega, hmem⟩

/-- **Each session is processed serially**, on any number of threads and with the
completions, errors and handlers in any order. -/
theorem sessions_serial [Fintype T] {st : State L T W} (hr : Reachable st) :
    (∀ s, Started st s → OneCall st s) ∧
      (∀ i bytes st' t s, step st (.receive i bytes) = some st' →
        st.threads t = .processing s → st'.packet s = st.packet s) ∧
      ∀ s, contentsOf st.processed s <+: contentsOf st.completed s := by
  obtain ⟨hserial, horder⟩ := reachable_serial hr
  refine ⟨fun s hs => hserial.oneCall hs, ?_, fun s => ⟨_, (horder s).symm⟩⟩
  intro i bytes st' t s hstep ht
  have hone := unread_eq_one hserial ht
  rcases step_cases hstep with _ | _ | @⟨_, u, _, hi⟩
  by_cases hu : u = s
  · subst hu
    have hzero := unread_eq_zero hserial hi
    omega
  · exact Function.update_of_ne (Ne.symm hu) _ st.packet

end Chain

/-- Two threads take turns with the packets of session 1, which arrive as they are read. -/
def takingTurns {T W : Type} (t u : T) : List (Event T W) :=
  [.accept t 1 (List.replicate 1024 0), .read t] ++ serve u Wire.subscribeGps ++
    [.read u] ++ serve t AtMostOnce.publishGps ++ [.read t, .receive 0 AtMostOnce.publishGps]

theorem takingTurns_serial :
    ∃ st : State Wire.libraries Bool Unit,
      Machine.run step State.init (takingTurns false true) = some st ∧ Started st 1 ∧
        (contentsOf st.processed 1).length = 2 ∧ (contentsOf st.completed 1).length = 3 ∧
        OneCall st 1 := by
  have hrun : (Machine.run step (State.init : State Wire.libraries Bool Unit)
      (takingTurns false true)).map (fun st => (st.broker.mqttClients, st.threads false,
        st.threads true, (contentsOf st.processed 1).length, (contentsOf st.completed 1).length)) =
          some ([1], .idle, .idle, 2, 3) := by
    decide +kernel
  obtain ⟨st, hr, hst⟩ := Option.map_eq_some_iff.mp hrun
  simp only [Prod.mk.injEq] at hst
  obtain ⟨hclients, hfirst, hsecond, hprocessed, hcompleted⟩ := hst
  have hstarted : Started st 1 := by
    refine ⟨hclients ▸ List.mem_singleton_self 1, ?_⟩
    intro t
    cases t with
    | false => rw [hfirst]; nofun
    | true => rw [hsecond]; nofun
  exact ⟨st, hr, hstarted, hprocessed, hcompleted,
    (sessions_serial ⟨_, hr⟩).1 1 hstarted⟩

end BddsBroker.Connections
