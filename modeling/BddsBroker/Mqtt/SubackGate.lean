import BddsBroker.Mqtt.AtMostOnce

/-! The gate in front of a PUBLISH. A thread sends a PUBLISH only when `sub_requested` is
set, and the SUBACK sets it; but it is set before the SUBACK is sent, for the first client
with the id of the reply, and a PUBLISH that finds it unset goes back to the queue and is
sent all the same, without its data. So a session's SUBACK comes first in every run in
which a PUBLISH finds the flag set and no SUBACK on its way, and the flag is set for the
session's own SUBACK (`suback_first`). A PUBLISH that finds it otherwise can be sent too
early at once (`breaks_of_not_open`). -/

namespace BddsBroker.SubackGate

open Writers

variable {L : Libraries} {T : Type}

/-! ## Whose SUBACK -/

/-- The writers, and for each enqueue the session whose packet made it. Nothing of the
code reads these sessions. -/
structure Owned (L : Libraries) (T : Type) where
  writers : State L T
  owners : List (Option SessionPtr)

def Owned.init : Owned L T := ⟨.init, []⟩

/-- The session whose packet makes the enqueues of a step. -/
def owner : Event T → Option SessionPtr
  | .environment (.packet s _) => some s
  | _ => none

/-- The session's SUBACK, made by one of its own packets. -/
def OwnSuback (owners : List (Option SessionPtr)) (call : Sent) : Prop :=
  packetType call.data = some .suback ∧ owners[call.origin]? = some (some call.session)

/-- The session's SUBACK is among the calls. -/
def Acked (owners : List (Option SessionPtr)) (calls : List Sent) (s : SessionPtr) : Prop :=
  ∃ call ∈ calls, call.session = s ∧ OwnSuback owners call

/-- No PUBLISH and no emptied frame is passed to `client->send` before the SUBACK. -/
def SubackFirst (owners : List (Option SessionPtr)) (calls : List Sent) : Prop :=
  ∀ before call, before ++ [call] <+: calls →
    packetType call.data = some .publish ∨ call.data = [] → Acked owners before call.session

instance (owners : List (Option SessionPtr)) (call : Sent) : Decidable (OwnSuback owners call) :=
  inferInstanceAs (Decidable (_ ∧ _))

instance (owners : List (Option SessionPtr)) (calls : List Sent) (s : SessionPtr) :
    Decidable (Acked owners calls s) :=
  inferInstanceAs (Decidable (∃ call ∈ calls, _))

variable {owners more : List (Option SessionPtr)} {calls : List Sent} {s : SessionPtr}

theorem OwnSuback.mono {call : Sent} (h : OwnSuback owners call) (hmore : owners <+: more) :
    OwnSuback more call :=
  ⟨h.1, Lists.getElem?_of_extends hmore h.2⟩

theorem Acked.mono {later : List Sent} (h : Acked owners calls s) (hmore : owners <+: more)
    (hlater : calls <+: later) : Acked more later s := by
  obtain ⟨call, hcall, hs, hown⟩ := h
  exact ⟨call, hlater.subset hcall, hs, hown.mono hmore⟩

theorem SubackFirst.mono (h : SubackFirst owners calls) (hmore : owners <+: more) :
    SubackFirst more calls :=
  fun before call hcalls hheld => (h before call hcalls hheld).mono hmore (List.prefix_refl _)

/-- One more call keeps the order if it is no PUBLISH or the SUBACK has been sent. -/
theorem SubackFirst.snoc (h : SubackFirst owners calls) {call : Sent}
    (hcall : packetType call.data = some .publish ∨ call.data = [] →
      Acked owners calls call.session) : SubackFirst owners (calls ++ [call]) := by
  intro before next hnext hheld
  rcases List.prefix_concat_iff.mp hnext with heq | hprefix
  · obtain ⟨rfl, rfl⟩ := List.concat_inj.mp (by simpa using heq)
    exact hcall hheld
  · exact h before next hprefix hheld

def step [DecidableEq T] (st : Owned L T) (e : Event T) : Option (Owned L T) :=
  (Writers.step st.writers e).map fun w =>
    { writers := w
      owners := st.owners ++
        List.replicate (w.enqueued.length - st.writers.enqueued.length) (owner e) }

/-! ## The runs in question -/

/-- The thread is about to pass a SUBACK to the session. -/
def PassesSuback (s : SessionPtr) : Phase → Prop
  | .sending _ client data => client = s ∧ packetType data = some .suback
  | _ => False

/-- The flag is set, and no SUBACK is on its way to a session that waits for its own. -/
def Open (owners : List (Option SessionPtr)) (w : State L T) (s : SessionPtr) : Prop :=
  (w.broker.session s).subRequested = true ∧
    ∀ t, PassesSuback s (w.threads t) → Acked owners w.sent s

/-- A PUBLISH finds the gate open, and only the session's own SUBACK opens it. -/
def KeepsGate (owners : List (Option SessionPtr)) (w : State L T) : Phase → Prop
  | .testing r client =>
      (packetType r.task.data = some .publish → Open owners w client) ∧
        (packetType r.task.data = some .suback →
          (w.broker.session client).subRequested = false →
            owners[r.origin]? = some (some client))
  | _ => True

def Condition (st : Owned L T) : Event T → Prop
  | .advance t => KeepsGate st.owners st.writers (st.writers.threads t)
  | _ => True

instance (s : SessionPtr) : ∀ p, Decidable (PassesSuback s p)
  | .sending _ client data =>
      inferInstanceAs (Decidable (client = s ∧ packetType data = some .suback))
  | .waiting | .taken .. | .looping _ | .resolving .. | .testing .. | .marking .. | .returning ..
  | .failed .. => isFalse id

instance [Fintype T] (owners : List (Option SessionPtr)) (w : State L T) (s : SessionPtr) :
    Decidable (Open owners w s) :=
  inferInstanceAs (Decidable (_ ∧ ∀ t, PassesSuback s (w.threads t) → Acked owners w.sent s))

instance [Fintype T] (owners : List (Option SessionPtr)) (w : State L T) :
    ∀ p, Decidable (KeepsGate owners w p)
  | .testing r client =>
      inferInstanceAs (Decidable
        ((packetType r.task.data = some .publish → Open owners w client) ∧
          (packetType r.task.data = some .suback →
            (w.broker.session client).subRequested = false →
              owners[r.origin]? = some (some client))))
  | .waiting | .taken .. | .looping _ | .resolving .. | .marking .. | .returning .. | .sending ..
  | .failed .. => isTrue trivial

instance [Fintype T] (st : Owned L T) : ∀ e, Decidable (Condition st e)
  | .advance t =>
      inferInstanceAs (Decidable (KeepsGate st.owners st.writers (st.writers.threads t)))
  | .environment _ | .dequeue .. => isTrue trivial

/-! ## The flag -/

/-- Only a writer sets the flag, and only a new session comes without it. -/
theorem step_subRequested {b b' : Broker L} {e : Run.Event} (hs : Run.step b e = some b')
    (he : ∀ i, e ≠ .dispatch i) (u : SessionPtr) :
    (b'.session u).subRequested = (b.session u).subRequested ∨
      u ∉ b.mqttClients ∧ (b'.session u).subRequested = false := by
  cases e with
  | accept s =>
    obtain ⟨hnew, rfl⟩ := Run.step_accept hs
    by_cases hu : u = s
    · subst hu
      refine .inr ⟨hnew, ?_⟩
      show ((b.updateSession u fun _ => .new).session u).subRequested = false
      rw [Broker.session_updateSession_self]
      rfl
    · refine .inl ?_
      show ((b.updateSession s fun _ => .new).session u).subRequested = _
      rw [Broker.session_updateSession_of_ne b s u hu]
  | packet s recvData =>
    obtain ⟨-, hproc⟩ := Run.step_packet hs
    exact .inl (Program.kept (f := fun b : Broker L => (b.session u).subRequested)
      (fun _ _ hc => hc.subRequested u) (MqttSession.messageProcess_changes hproc))
  | dispatch i => exact absurd rfl (he i)
  | addClient topicName client =>
    obtain rfl := Option.some.inj hs
    exact .inl rfl
  | sample topicName json packet =>
    obtain rfl := Option.some.inj hs
    exact .inl (by rw [forwardSample_session])

/-- What a thread knows of the flag after its test. -/
def Tested (b : Broker L) : Phase → Phase → Prop
  | .testing r client, .sending .. =>
      packetType r.task.data = some .suback → (b.session client).subRequested = true
  | .testing r client, .marking .. =>
      packetType r.task.data = some .suback ∧ (b.session client).subRequested = false
  | _, _ => True

/-- What a thread holds: a task with data, and a PUBLISH about to be sent or a flag about
to be set has the session's SUBACK behind it. -/
def Holds (owners : List (Option SessionPtr)) (calls : List Sent) : Phase → Prop
  | .waiting | .taken .. => True
  | .looping r | .resolving r _ | .testing r _ | .failed r _ => r.task.data ≠ []
  | .marking r client =>
      r.task.data ≠ [] ∧ OwnSuback owners ⟨r.origin, client, r.task.data⟩
  | .returning .. => False
  | .sending r client data =>
      r.task.data ≠ [] ∧ data ≠ [] ∧
        (packetType data = some .publish → Acked owners calls client)

/-- The session's SUBACK has been sent, or a thread is about to send it. -/
def OnTheWay (owners : List (Option SessionPtr)) (w : State L T) (s : SessionPtr) : Prop :=
  Acked owners w.sent s ∨ ∃ t r data, w.threads t = .sending r s data ∧
    OwnSuback owners ⟨r.origin, s, data⟩

structure Gated (owners : List (Option SessionPtr)) (w : State L T) : Prop where
  threads : ∀ t, Holds owners w.sent (w.threads t)
  flag : ∀ u, (w.broker.session u).subRequested = true → OnTheWay owners w u
  first : SubackFirst owners w.sent

theorem Holds.mono {later : List Sent} {p : Phase} (h : Holds owners calls p)
    (hmore : owners <+: more) (hlater : calls <+: later) : Holds more later p := by
  cases p with
  | marking r client => exact ⟨h.1, h.2.mono hmore⟩
  | sending r client data => exact ⟨h.1, h.2.1, fun htype => (h.2.2 htype).mono hmore hlater⟩
  | _ => exact h

theorem OnTheWay.mono {w : State L T} (h : OnTheWay owners w s) (hmore : owners <+: more) :
    OnTheWay more w s := by
  rcases h with hsent | ⟨t, r, data, ht, hown⟩
  · exact .inl (hsent.mono hmore (List.prefix_refl _))
  · exact .inr ⟨t, r, data, ht, hown.mono hmore⟩

theorem Gated.mono {w : State L T} (h : Gated owners w) (hmore : owners <+: more) :
    Gated more w where
  threads t := (h.threads t).mono hmore (List.prefix_refl _)
  flag u hu := (h.flag u hu).mono hmore
  first := h.first.mono hmore

/-- A session that the gate is open for has been sent its SUBACK. -/
theorem Gated.acked {w : State L T} (h : Gated owners w) (hopen : Open owners w s) :
    Acked owners w.sent s := by
  rcases h.flag s hopen.1 with hsent | ⟨t, r, data, ht, hown⟩
  · exact hsent
  · refine hopen.2 t ?_
    rw [ht]
    exact ⟨rfl, hown.1⟩

section Steps

variable [DecidableEq T]

/-- A statement, with what a test of the flag says. -/
theorem advance_tested {w w' : State L T} {t : T} (h : advance w t = some w') :
    ∃ m q, Statement w (w.threads t) m q ∧ w' = m.goto t q ∧ Tested w.broker (w.threads t) q := by
  cases hp : w.threads t with
  | testing r client =>
    simp only [advance, hp] at h
    split at h
    · rename_i hready
      exact ⟨w, _, .ready, (Option.some.inj h).symm, fun _ => hready⟩
    · rename_i hready
      have hready := Bool.eq_false_of_not_eq_true hready
      split at h
      · rename_i htype
        exact ⟨w, _, .suback, (Option.some.inj h).symm, htype, hready⟩
      · rename_i hsuback
        split at h
        · rename_i htype
          exact ⟨w, _, .unready htype hready, (Option.some.inj h).symm, trivial⟩
        · exact ⟨w, _, .ready, (Option.some.inj h).symm, fun htype => absurd htype hsuback⟩
  | _ =>
    obtain ⟨m, q, hstatement, rfl⟩ := advance_statement h
    rw [hp] at hstatement
    exact ⟨m, q, hstatement, rfl, trivial⟩

omit [DecidableEq T] in
theorem holds_statement {w m : State L T} {p q : Phase} (hw : Gated owners w)
    (h : Statement w p m q) (hp : Holds owners w.sent p) (htested : Tested w.broker p q)
    (hkeeps : KeepsGate owners w p) : Holds owners m.sent q := by
  cases h with
  | drop | finish => trivial
  | loop hdata | call hdata => exact hdata
  | visit | absent | found | retry => exact hp
  | ready => exact ⟨hp, hp, fun htype => hw.acked (hkeeps.1 htype)⟩
  | suback => exact ⟨hp, htested.1, hkeeps.2 htested.1 htested.2⟩
  | unready htype hready =>
    have hflag := (hkeeps.1 htype).1
    rw [hready] at hflag
    cases hflag
  | mark =>
    obtain ⟨hdata, hsuback, -⟩ := hp
    refine ⟨hdata, hdata, ?_⟩
    intro htype
    rw [hsuback] at htype
    cases htype
  | giveBack => exact hp.elim
  | fail | send => exact hp.1

/-- A SUBACK on its way stays so until it is sent. -/
theorem OnTheWay.advance {w m : State L T} {t : T} {q : Phase}
    (h : Statement w (w.threads t) m q) (hu : OnTheWay owners w s) :
    OnTheWay owners (m.goto t q) s := by
  rcases hu with hsent | ⟨v, r, data, hv, hown⟩
  · exact .inl (hsent.mono (List.prefix_refl _) h.sent_prefix)
  · by_cases hvt : v = t
    · subst hvt
      rcases sent_statement h with ⟨-, hne⟩ | ⟨r', client, data', hp, hm⟩
      · exact absurd hv (hne r s data)
      · obtain ⟨rfl, rfl, rfl⟩ := Phase.sending.inj (hv.symm.trans hp)
        refine .inl ⟨⟨r.origin, s, data⟩, ?_, rfl, hown⟩
        show _ ∈ m.sent
        rw [hm]
        simp
    · exact .inr ⟨v, r, data, by rw [threads_goto_of_ne m hvt, h.keeps.2.1, hv], hown⟩

/-- Who has the flag after a statement. -/
theorem flag_statement {w m : State L T} {t : T} {q : Phase} (hw : Gated owners w)
    (h : Statement w (w.threads t) m q) (u : SessionPtr)
    (hu : (m.broker.session u).subRequested = true) : OnTheWay owners (m.goto t q) u := by
  by_cases hbefore : (w.broker.session u).subRequested = true
  · exact (hw.flag u hbefore).advance h
  · have hp := hw.threads t
    generalize hpt : w.threads t = p at h hp
    cases h with
    | @mark r client =>
      by_cases huc : u = client
      · subst huc
        exact .inr ⟨t, r, r.task.data, threads_goto _ t _, hp.2⟩
      · refine absurd ?_ hbefore
        rw [← hu]
        show _ = ((w.broker.setSubRequested client).session u).subRequested
        unfold Broker.setSubRequested
        rw [Broker.session_updateSession_of_ne _ _ _ huc]
    | _ => exact absurd hu hbefore

theorem gated_advance {w w' : State L T} {t : T} (hw : Gated owners w)
    (hkeeps : KeepsGate owners w (w.threads t)) (h : advance w t = some w') :
    Gated owners w' := by
  obtain ⟨m, q, hstatement, rfl, htested⟩ := advance_tested h
  have hq := holds_statement hw hstatement (hw.threads t) htested hkeeps
  refine ⟨forall_goto hq fun v _ => ?_, fun u hu => flag_statement hw hstatement u hu, ?_⟩
  · rw [hstatement.keeps.2.1]
    exact (hw.threads v).mono (List.prefix_refl _) hstatement.sent_prefix
  · show SubackFirst owners m.sent
    rcases sent_statement hstatement with ⟨hm, -⟩ | ⟨r, client, data, hp, hm⟩
    · rw [hm]
      exact hw.first
    · have hholds := hw.threads t
      rw [hp] at hholds
      rw [hm]
      refine hw.first.snoc fun hheld => ?_
      rcases hheld with htype | hempty
      · exact hholds.2.2 htype
      · exact absurd hempty hholds.2.1

theorem gated_dequeue {w w' : State L T} {t : T} {i : Nat} (hw : Gated owners w)
    (h : dequeue w t i = some w') : Gated owners w' := by
  obtain ⟨origin, task, ht, -, -, rfl⟩ := dequeue_eq_some h
  refine ⟨forall_goto trivial fun v _ => hw.threads v, fun u hu => ?_, hw.first⟩
  · rcases hw.flag u hu with hsent | ⟨v, r, data, hv, hown⟩
    · exact .inl hsent
    · refine .inr ⟨v, r, data, ?_, hown⟩
      have hvt : v ≠ t := by
        rintro rfl
        rw [ht] at hv
        cases hv
      exact (threads_goto_of_ne _ hvt _).trans hv

omit [DecidableEq T] in
theorem gated_environment {w w' : State L T} {e : Run.Event} (hw : Gated owners w)
    (h : environment w e = some w') : Gated owners w' := by
  obtain ⟨b, tasks, hdispatch, hstep, -, rfl⟩ := environment_eq_some h
  refine ⟨hw.threads, fun u hu => ?_, hw.first⟩
  have hkept := step_subRequested hstep hdispatch u
  have hbefore : (w.broker.session u).subRequested = true := by
    rcases hkept with hsame | ⟨-, hnew⟩
    · exact hsame ▸ hu
    · exact absurd hu (by simp [hnew])
  exact hw.flag u hbefore

/-- **Invariant.** What a step under the condition keeps. -/
theorem step_gated {st st' : Owned L T} {e : Event T} (hst : Gated st.owners st.writers)
    (hc : Condition st e) (hs : step st e = some st') : Gated st'.owners st'.writers := by
  obtain ⟨w, hw, rfl⟩ := Option.map_eq_some_iff.mp hs
  have hgated : Gated st.owners w := by
    cases e with
    | environment e => exact gated_environment hst hw
    | dequeue t i => exact gated_dequeue hst hw
    | advance t => exact gated_advance hst hc hw
  exact hgated.mono (List.prefix_append _ _)

omit [DecidableEq T] in
theorem gated_init : Gated [] (State.init : State L T) where
  threads _ := trivial
  flag _ hu := absurd hu (by simp [State.init, Broker.init, MqttSession.new])
  first before call hcalls := absurd hcalls (by simp [State.init])

/-- **The SUBACK comes first.** In every run of the broker and its writers whose tests all
meet the condition, no session is passed a PUBLISH or an emptied frame before its SUBACK. -/
theorem suback_first {es : List (Event T)} {st : Owned L T}
    (hc : Machine.Along step Condition (Owned.init : Owned L T) es)
    (hr : Machine.run step Owned.init es = some st) :
    SubackFirst st.owners st.writers.sent :=
  (Machine.run_invariant (I := fun st : Owned L T => Gated st.owners st.writers)
    (fun _ _ _ hst hc hs => step_gated hst hc hs) gated_init hc hr).first

end Steps

/-! ## A PUBLISH before the SUBACK -/

open AtMostOnce

/-- The writer of `lateSuback` that takes the message finds the flag of session 2 unset,
puts the task back and passes what is left of it to session 2. -/
theorem lateSuback_empties_first :
    ∃ st : Owned Wire.libraries (Fin 2),
      Machine.run step Owned.init (lateSuback 0 1) = some st ∧
        ¬ SubackFirst st.owners st.writers.sent := by
  refine ⟨_, rfl, ?_⟩
  intro hfirst
  have hacked := hfirst
    [⟨0, 1, [0x20, 2, 0, 0]⟩, ⟨1, 2, [0x20, 2, 0, 0]⟩, ⟨2, 1, [0x90, 2, 0, 1]⟩, ⟨4, 1, publishGps⟩]
    ⟨4, 2, []⟩ ⟨[⟨4, 1, publishGps⟩], rfl⟩ (.inr rfl)
  exact absurd hacked (by decide +kernel)

theorem timely_suback_first :
    ∃ st : Owned Wire.libraries (Fin 2),
      Machine.run step Owned.init (timely 0 1) = some st ∧
        st.writers.sent.map Sent.session = [1, 2, 1, 2, 1, 2] ∧
        SubackFirst st.owners st.writers.sent := by
  have hc : Machine.Along step Condition (Owned.init : Owned Wire.libraries (Fin 2))
      (timely 0 1) := by
    decide +kernel
  exact ⟨_, rfl, rfl, suback_first hc rfl⟩

/-! ## What a PUBLISH can do that finds the gate shut -/

/-- The session is connected, and has the flag if this is a SUBACK. -/
def Knows (b : Broker L) (client : SessionPtr) (data : List UInt8) : Prop :=
  client ∈ b.mqttClients ∧
    (packetType data = some .suback → (b.session client).subRequested = true)

/-- What a thread that has found a client knows of it. -/
def Found (b : Broker L) : Phase → Prop
  | .testing _ client | .marking _ client | .returning _ client => Knows b client []
  | .sending _ client data => Knows b client data
  | _ => True

structure Flagged (w : State L T) : Prop where
  threads : ∀ t, Found w.broker (w.threads t)
  sent : ∀ call ∈ w.sent, Knows w.broker call.session call.data

/-- Clients and their flags are only added. -/
def Grows (b b' : Broker L) : Prop :=
  ∀ client data, Knows b client data → Knows b' client data

theorem Grows.found {b b' : Broker L} (hgrows : Grows b b') {p : Phase} (h : Found b p) :
    Found b' p := by
  cases p with
  | testing | marking | returning | sending => exact hgrows _ _ h
  | _ => trivial

theorem subRequested_setSubRequested (b : Broker L) (s : SessionPtr) :
    ((b.setSubRequested s).session s).subRequested = true := by
  unfold Broker.setSubRequested
  rw [Broker.session_updateSession_self]

theorem grows_setSubRequested (b : Broker L) (s : SessionPtr) : Grows b (b.setSubRequested s) := by
  rintro client data ⟨hmem, hflag⟩
  refine ⟨hmem, ?_⟩
  intro htype
  by_cases hs : client = s
  · subst hs
    exact subRequested_setSubRequested b client
  · unfold Broker.setSubRequested
    rw [Broker.session_updateSession_of_ne b s client hs]
    exact hflag htype

theorem grows_environment {b b' : Broker L} {e : Run.Event} (hs : Run.step b e = some b')
    (he : ∀ i, e ≠ .dispatch i) : Grows b b' := by
  rintro client data ⟨hmem, hflag⟩
  refine ⟨Run.mem_clients_step hs hmem, ?_⟩
  intro htype
  rcases step_subRequested hs he client with hsame | ⟨hnew, -⟩
  · rw [hsame]
    exact hflag htype
  · exact absurd hmem hnew

theorem grows_statement {w m : State L T} {p q : Phase} (h : Statement w p m q) :
    Grows w.broker m.broker := by
  cases h with
  | mark => exact grows_setSubRequested w.broker _
  | _ => exact fun client data hknows => hknows

theorem found_statement {w m : State L T} {p q : Phase} (h : Statement w p m q)
    (hp : Found w.broker p) (htested : Tested w.broker p q) : Found m.broker q := by
  cases h with
  | drop | loop | call | finish | visit | absent | fail | send | retry => trivial
  | found hclient =>
    exact ⟨List.mem_of_find?_eq_some hclient, fun htype => absurd htype (by decide)⟩
  | ready => exact ⟨hp.1, htested⟩
  | suback | unready | giveBack => exact hp
  | @mark r client => exact ⟨hp.1, fun _ => subRequested_setSubRequested w.broker client⟩

section Breaks

variable [DecidableEq T]

theorem step_flagged {w w' : State L T} {e : Event T} (hw : Flagged w)
    (hs : Writers.step w e = some w') : Flagged w' := by
  cases e with
  | environment e =>
    obtain ⟨b, tasks, hdispatch, hstep, -, rfl⟩ := environment_eq_some hs
    have hgrows := grows_environment hstep hdispatch
    exact ⟨fun t => hgrows.found (hw.threads t), fun call hcall => hgrows _ _ (hw.sent call hcall)⟩
  | dequeue t i =>
    obtain ⟨origin, task, -, -, -, rfl⟩ := dequeue_eq_some hs
    exact ⟨forall_goto trivial fun v _ => hw.threads v, hw.sent⟩
  | advance t =>
    obtain ⟨m, q, hstatement, rfl, htested⟩ := advance_tested hs
    have hgrows := grows_statement hstatement
    have hfound := found_statement hstatement (hw.threads t) htested
    refine ⟨forall_goto hfound fun v _ => ?_, ?_⟩
    · rw [hstatement.keeps.2.1]
      exact hgrows.found (hw.threads v)
    · show ∀ call ∈ m.sent, Knows m.broker call.session call.data
      rcases sent_statement hstatement with ⟨hm, -⟩ | ⟨r, client, data, hp, hm⟩
      · rw [hm]
        exact fun call hcall => hgrows _ _ (hw.sent call hcall)
      · have hknows := hw.threads t
        rw [hp] at hknows
        rw [hm]
        exact List.forall_mem_append.mpr ⟨fun call hcall => hgrows _ _ (hw.sent call hcall),
          List.forall_mem_singleton.mpr (hgrows _ _ hknows)⟩

omit [DecidableEq T] in
theorem flagged_init : Flagged (State.init : State L T) where
  threads _ := trivial
  sent call hcall := absurd hcall (by simp [State.init])

theorem reachable_flagged {st : Owned L T} (hr : Machine.Reachable step Owned.init st) :
    Flagged st.writers := by
  refine Machine.reachable_invariant (I := fun st : Owned L T => Flagged st.writers)
    (fun st e st' hst hs => ?_) flagged_init hr
  obtain ⟨w, hw, rfl⟩ := Option.map_eq_some_iff.mp hs
  exact step_flagged hst hw

omit [DecidableEq T] in
/-- A session that was sent its SUBACK has the flag. -/
theorem Flagged.subRequested {w : State L T} (hw : Flagged w) (h : Acked owners w.sent s) :
    (w.broker.session s).subRequested = true := by
  obtain ⟨call, hcall, rfl, hown⟩ := h
  exact (hw.sent call hcall).2 hown.1

omit [DecidableEq T] in
/-- A gate that is not open belongs to a session without its SUBACK. -/
theorem Flagged.not_acked {w : State L T} (hw : Flagged w) (h : ¬ Open owners w s) :
    ¬ Acked owners w.sent s :=
  fun hacked => h ⟨hw.subRequested hacked, fun _ _ => hacked⟩

/-- The statements of a thread make no enqueue that needs an owner. -/
theorem run_of_reaches {t : T} {w w' : State L T} (h : Reaches t w w')
    (owners : List (Option SessionPtr)) :
    Machine.Reachable step (⟨w, owners⟩ : Owned L T) ⟨w', owners⟩ := by
  obtain ⟨n, hn⟩ := h
  refine ⟨List.replicate n (.advance t), ?_⟩
  induction n generalizing w with
  | zero => exact congrArg (Option.map fun w => Owned.mk w owners) hn
  | succ n ih =>
    obtain ⟨m, hm, hn⟩ := Machine.run_cons_eq_some.mp hn
    refine Machine.run_cons_eq_some.mpr ⟨⟨m, owners⟩, ?_, ih hn⟩
    obtain ⟨m', q, hstatement, rfl⟩ := advance_statement hm
    have hlength : (m'.goto t q).enqueued.length - w.enqueued.length = 0 := by
      show m'.enqueued.length - _ = 0
      rw [hstatement.keeps.1, Nat.sub_self]
    simp only [step, hm, Option.map_some, hlength, List.replicate_zero, List.append_nil]

/-- **The condition is needed.** When a PUBLISH finds the gate not open, the next
statements of its thread pass it to the session too early. -/
theorem breaks_of_not_open {st : Owned L T} (hr : Machine.Reachable step Owned.init st) {t : T}
    {r : Round} {client : SessionPtr} (ht : st.writers.threads t = .testing r client)
    (htype : packetType r.task.data = some .publish) (h : ¬ Open st.owners st.writers client) :
    ∃ st', Machine.Reachable step st st' ∧ ¬ SubackFirst st'.owners st'.writers.sent := by
  have hacked := (reachable_flagged hr).not_acked h
  obtain ⟨w, hreaches, -, hsent, -⟩ := testing_alone ht
  refine ⟨⟨w, st.owners⟩, run_of_reaches hreaches st.owners, fun hfirst => hacked ?_⟩
  rw [hsent] at hfirst
  by_cases hready : (st.writers.broker.session client).subRequested = true
  · refine hfirst st.writers.sent ⟨r.origin, client, r.task.data⟩ ?_ (.inl htype)
    simp [sendTo, hready, Sent.ofCall]
  · refine hfirst st.writers.sent ⟨r.origin, client, []⟩ ?_ (.inr rfl)
    simp [sendTo, hready, htype, Sent.ofCall]

end Breaks

end BddsBroker.SubackGate
