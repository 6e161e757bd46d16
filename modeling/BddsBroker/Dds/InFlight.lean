import BddsBroker.Dds.Loop
import BddsBroker.Mqtt.AtMostOnce
import BddsBroker.Mqtt.Identifiers
import BddsBroker.Mqtt.Origins

/-! Identifiers in flight. The broker assigns none: a sample is sent under the lower two
bytes of its `subject_id`, and a forwarded message under the identifier of its publisher,
whatever the subscriber has still to acknowledge. So what is in flight to a subscriber has
distinct identifiers other than zero in the runs in which every message that is sent comes
with such an identifier, and in no others (`identifiers_in_flight`). -/

namespace BddsBroker.Dds.InFlight

open PropertyTree Writers Loop

variable {L : Libraries} {C : Codec L} {T : Type}

/-- What a task comes from: a DDS sample, or a message that a client published under an
identifier. -/
inductive Source
  | sample (subjectId : Int)
  | client (identifier : Int)
  deriving DecidableEq, Repr

/-- In two bytes. -/
def Source.identifier : Source → Int
  | .sample subjectId => subjectId % 65536
  | .client identifier => identifier

/-- A PUBLISH that was sent and not acknowledged. -/
structure Flight where
  origin : Nat
  identifier : Int
  deriving DecidableEq, Repr

structure State (L : Libraries) (T : Type) where
  writers : Writers.State L T
  /-- Of all enqueues. Nothing of the code reads them. -/
  sources : List (Option Source)
  /-- What each subscriber has still to acknowledge. -/
  inFlight : SessionPtr → List Flight

namespace State

def init : State L T := ⟨.init, [], fun _ => []⟩

def source (st : State L T) (k : Nat) : Option Source := st.sources[k]?.join

/-- Other writers, with such sources for what was enqueued. -/
def extended (st : State L T) (w : Writers.State L T) (source : Option Source)
    (inFlight : SessionPtr → List Flight) : State L T where
  writers := w
  sources := st.sources ++
    List.replicate (w.enqueued.length - st.writers.enqueued.length) source
  inFlight := inFlight

end State

inductive Event (C : Codec L) (T : Type)
  /-- Anything but a sample or a dispatch. -/
  | environment (e : Run.Event)
  | sample (message : Message C.numbers)
  | dequeue (t : T) (i : Nat)
  | advance (t : T)

/-- The identifier under which data is sent, if it is a PUBLISH above QoS 0. More than 1024
bytes are not sent. -/
def sentIdentifier (L : Libraries) (data : List UInt8) : Option Int :=
  if packetType data = some .publish ∧ 0 ≤ MqttSession.send data then
    match L.interpretPublishPacket data with
    | .ok m => if 0 < L.publishQos m then some (L.publishIdentifier m) else none
    | .error _ => none
  else none

/-- The identifier that a PUBACK or a PUBCOMP settles. -/
def settledIdentifier (I : Identifiers L) (recvData : List UInt8) : Option Int :=
  match packetType recvData with
  | some .puback | some .pubcomp => some (I.encodedIdentifier recvData)
  | _ => none

/-- What the task of a packet comes from. -/
def packetSource (L : Libraries) : Run.Event → Option Source
  | .packet _ recvData => (forwardedIdentifier L recvData).map .client
  | _ => none

def settle (I : Identifiers L) (inFlight : SessionPtr → List Flight) :
    Run.Event → SessionPtr → List Flight
  | .packet s recvData =>
      match settledIdentifier I recvData with
      | some id => Function.update inFlight s ((inFlight s).filter fun f => f.identifier ≠ id)
      | none => inFlight
  | _ => inFlight

def launch (L : Libraries) (inFlight : SessionPtr → List Flight) (call : Sent) :
    SessionPtr → List Flight :=
  match sentIdentifier L call.data with
  | some id =>
      Function.update inFlight call.session (inFlight call.session ++ [⟨call.origin, id⟩])
  | none => inFlight

section Machine

variable [DecidableEq T] (I : Identifiers L) (C : Codec L) (cfg : Config)

def environment (st : State L T) : Run.Event → Option (State L T)
  | .sample .. => none
  | e => (Writers.environment st.writers e).map fun w =>
      st.extended w (packetSource L e) (settle I st.inFlight e)

/-- `on_data_available` with a sample. An exception ends the process. -/
def sample (st : State L T) (message : Message C.numbers) : Option (State L T) :=
  match encode C.json message with
  | .error _ => none
  | .ok json =>
    match C.generateDefaultPublish message.subjectId "GPS" json cfg.globalQos >>=
        fun p => L.convertPublishIntoPacket p [] with
    | .error _ => none
    | .ok packet =>
        (Writers.environment st.writers (.sample cfg.sendTopicName json packet)).map fun w =>
          st.extended w (some (.sample message.subjectId)) st.inFlight

def dequeue (st : State L T) (t : T) (i : Nat) : Option (State L T) :=
  (Writers.dequeue st.writers t i).map fun w => { st with writers := w }

def advance (st : State L T) (t : T) : Option (State L T) :=
  (Writers.advance st.writers t).map fun w =>
    { st with
      writers := w
      inFlight := (w.sent.drop st.writers.sent.length).foldl (launch L) st.inFlight }

def step (st : State L T) : Event C T → Option (State L T)
  | .environment e => environment I st e
  | .sample message => sample C cfg st message
  | .dequeue t i => dequeue st t i
  | .advance t => advance st t

end Machine

/-! ## The identifiers -/

/-- Distinct two-byte identifiers other than zero. -/
structure Proper (flights : List Flight) : Prop where
  distinct : (flights.map Flight.identifier).Nodup
  word : ∀ f ∈ flights, 0 < f.identifier ∧ f.identifier < 65536

/-- What is in flight carries the identifier of its source. -/
def FromSources (st : State L T) : Prop :=
  ∀ s, ∀ f ∈ st.inFlight s, ∃ source, st.source f.origin = some source ∧
    f.identifier = source.identifier

/-- The message that is sent comes with an identifier that is not in flight. -/
def Fresh (st : State L T) : Phase → Prop
  | .sending r client data =>
      (sentIdentifier L data).isSome → ∀ source ∈ st.source r.origin,
        source.identifier ≠ 0 ∧ ∀ f ∈ st.inFlight client, f.identifier ≠ source.identifier
  | _ => True

def Condition (st : State L T) : Event C T → Prop
  | .advance t => Fresh st (st.writers.threads t)
  | _ => True

instance (st : State L T) : ∀ p, Decidable (Fresh st p)
  | .sending r client data => inferInstanceAs (Decidable
      ((sentIdentifier L data).isSome → ∀ source ∈ st.source r.origin,
        source.identifier ≠ 0 ∧ ∀ f ∈ st.inFlight client, f.identifier ≠ source.identifier))
  | .waiting | .taken .. | .looping _ | .resolving .. | .testing .. | .marking .. | .returning ..
  | .failed .. => isTrue trivial

instance (st : State L T) : ∀ e : Event C T, Decidable (Condition st e)
  | .advance t => inferInstanceAs (Decidable (Fresh st (st.writers.threads t)))
  | .environment _ | .sample _ | .dequeue .. => isTrue trivial

/-- What the libraries are relied on for. `generate_default_publish` takes the lower two
bytes of the identifier that it is given. -/
structure Library (I : Identifiers L) (C : Codec L) : Prop where
  encode : I.Encode
  connack : L.ConnackTyped
  roundTrips : L.PublishRoundTrips
  sample : ∀ id topic payload qos m, C.generateDefaultPublish id topic payload qos = .ok m →
    0 < L.publishQos m → L.publishIdentifier m = id % 65536

/-! ## Sources -/

/-- If the data is sent under an identifier, it is the one of this source. -/
def Sourced (L : Libraries) (source : Option Source) (data : List UInt8) : Prop :=
  ∀ id ∈ sentIdentifier L data, ∃ x, source = some x ∧ id = x.identifier

theorem sentIdentifier_eq_some {data : List UInt8} {id : Int}
    (h : sentIdentifier L data = some id) :
    packetType data = some .publish ∧ ∃ m, L.interpretPublishPacket data = .ok m ∧
      0 < L.publishQos m ∧ L.publishIdentifier m = id := by
  unfold sentIdentifier at h
  split at h
  · rename_i htype
    split at h
    · rename_i m hm
      rw [Option.ite_none_right_eq_some] at h
      exact ⟨htype.1, m, hm, h.1, Option.some.inj h.2⟩
    · cases h
  · cases h

theorem sourced_nil (source : Option Source) : Sourced L source [] := by
  intro id hid
  cases (sentIdentifier_eq_some hid).1

variable {I : Identifiers L}

theorem sourced_packet (hlib : Library I C) {identifier : Option Int} {data : List UInt8}
    (h : PublishedUnder L identifier data) : Sourced L (identifier.map .client) data := by
  intro id hid
  obtain ⟨htype, m, hm, -, rfl⟩ := sentIdentifier_eq_some hid
  obtain ⟨m', hconvert, rfl⟩ := h htype
  obtain rfl := Except.ok.inj (hm.symm.trans (hlib.roundTrips m' data hconvert))
  exact ⟨_, rfl, rfl⟩

theorem sourced_sample (hlib : Library I C) {id qos : Int} {topic payload : String}
    {packet : List UInt8} (h : (C.generateDefaultPublish id topic payload qos >>=
      fun p => L.convertPublishIntoPacket p []) = .ok packet) :
    Sourced L (some (.sample id)) packet := by
  intro identifier hid
  obtain ⟨-, m, hm, hqos, rfl⟩ := sentIdentifier_eq_some hid
  obtain ⟨m', hgenerate, hconvert⟩ := Program.bind_eq_ok.mp h
  obtain rfl := Except.ok.inj (hm.symm.trans (hlib.roundTrips m' packet hconvert))
  exact ⟨_, rfl, hlib.sample id topic payload qos m hgenerate hqos⟩

/-- A sample enqueues its packet only. -/
theorem forwardSample_adds {P : List UInt8 → Prop} {packet : List UInt8} (h : P packet)
    (topicName json : String) (b : Broker L) :
    Adds P b (forwardSample topicName json packet b) := by
  rw [forwardSample_eq]
  have hdds : Adds P b (b.enqueueDds (.make b.taskCount topicName json)) := .same rfl
  refine hdds.trans ?_
  unfold distribute
  split
  · exact List.foldlRecOn (motive := fun a : Broker L => Adds P _ a) _ _ (.same rfl)
      fun a ha client _ => ha.trans (.single rfl h)
  · exact .same rfl

structure Sound (st : State L T) : Prop where
  genuine : Genuine st.writers
  stored : StoredUnder st.writers.broker
  recorded : st.sources.length = st.writers.enqueued.length
  sourced : ∀ k task, st.writers.enqueued[k]? = some task → Sourced L (st.source k) task.data
  flights : FromSources st

theorem sound_init : Sound (State.init : State L T) where
  genuine := genuine_init
  stored := storedUnder_init
  recorded := rfl
  sourced k task h := by simp [State.init, Writers.State.init] at h
  flights s f hf := by simp [State.init] at hf

theorem sound_extended {st : State L T} {w : Writers.State L T} {e : Run.Event}
    {source : Option Source} {inFlight : SessionPtr → List Flight} (hst : Sound st)
    (h : Writers.environment st.writers e = some w)
    (hadds : Adds (Sourced L source) st.writers.broker w.broker)
    (hflights : ∀ s, ∀ f ∈ inFlight s, f ∈ st.inFlight s) :
    Sound (st.extended w source inFlight) := by
  have hgenuine := genuine_environment hst.genuine h
  obtain ⟨b, tasks, -, hstep, hqueue, rfl⟩ := environment_eq_some h
  obtain ⟨tasks', hqueue', htasks⟩ := hadds
  obtain rfl : tasks = tasks' := List.append_cancel_left (hqueue.symm.trans hqueue')
  have hlength : (st.writers.enqueued ++ tasks).length - st.writers.enqueued.length =
      tasks.length := by
    rw [List.length_append, Nat.add_sub_cancel_left]
  have hold : ∀ k < st.sources.length,
      (st.sources ++ List.replicate tasks.length source)[k]?.join = st.source k := by
    intro k hk
    rw [List.getElem?_append_left hk]
    rfl
  unfold State.extended
  simp only [hlength]
  refine ⟨hgenuine, step_storedUnder hst.stored hstep, ?_, fun k task htask => ?_, ?_⟩
  · simp [hst.recorded]
  · show Sourced L ((st.sources ++ List.replicate tasks.length source)[k]?.join) task.data
    rcases Nat.lt_or_ge k st.sources.length with hk | hk
    · rw [hold k hk]
      rw [List.getElem?_append_left (hst.recorded ▸ hk)] at htask
      exact hst.sourced k task htask
    · rw [List.getElem?_append_right (hst.recorded ▸ hk)] at htask
      have hnew := (List.getElem?_eq_some_iff.mp htask).1
      rw [List.getElem?_append_right hk, List.getElem?_replicate, hst.recorded, if_pos hnew]
      exact htasks task (List.mem_of_getElem? htask)
  · intro s f hf
    obtain ⟨x, hx, hid⟩ := hst.flights s f (hflights s f hf)
    have hk : f.origin < st.sources.length := by
      by_contra hk
      rw [State.source, List.getElem?_eq_none (by omega)] at hx
      cases hx
    exact ⟨x, (hold f.origin hk).trans hx, hid⟩

/-! ## Steps -/

/-- An acknowledgement leaves a part of what was in flight. -/
theorem settle_sublist (inFlight : SessionPtr → List Flight) (e : Run.Event) (s : SessionPtr) :
    (settle I inFlight e s).Sublist (inFlight s) := by
  cases e with
  | packet u recvData =>
    unfold settle
    cases hid : settledIdentifier I recvData with
    | none =>
      simp only [hid]
      exact List.Sublist.refl _
    | some id =>
      simp only [hid]
      by_cases hu : s = u
      · subst hu
        rw [Function.update_self]
        exact List.filter_sublist
      · rw [Function.update_of_ne hu]
  | _ => exact List.Sublist.refl _

variable [DecidableEq T] {cfg : Config}

omit [DecidableEq T] in
theorem environment_eq_some {st st' : State L T} {e : Run.Event}
    (h : environment I st e = some st') :
    ∃ w, (∀ topicName json packet, e ≠ .sample topicName json packet) ∧
      Writers.environment st.writers e = some w ∧
      st' = st.extended w (packetSource L e) (settle I st.inFlight e) := by
  unfold environment at h
  split at h
  · cases h
  · rename_i hsample
    obtain ⟨w, hw, rfl⟩ := Option.map_eq_some_iff.mp h
    exact ⟨w, hsample, hw, rfl⟩

omit [DecidableEq T] in
theorem sample_eq_some {st st' : State L T} {message : Message C.numbers}
    (h : sample C cfg st message = some st') :
    ∃ json packet w, encode C.json message = .ok json ∧
      (C.generateDefaultPublish message.subjectId "GPS" json cfg.globalQos >>=
        fun p => L.convertPublishIntoPacket p []) = .ok packet ∧
      Writers.environment st.writers (.sample cfg.sendTopicName json packet) = some w ∧
      st' = st.extended w (some (.sample message.subjectId)) st.inFlight := by
  unfold sample at h
  split at h
  · cases h
  · rename_i json hjson
    split at h
    · cases h
    · rename_i packet hpacket
      obtain ⟨w, hw, rfl⟩ := Option.map_eq_some_iff.mp h
      exact ⟨json, packet, w, hjson, hpacket, hw, rfl⟩

omit [DecidableEq T] in
/-- The step is what the listener does with the sample. -/
theorem sample_onDataAvailable {st st' : State L T} {message : Message C.numbers}
    (h : sample C cfg st message = some st') (status : String) :
    onDataAvailable C cfg.sendTopicName cfg.globalQos message ⟨st.writers.broker, status⟩ =
      .ok () ⟨st'.writers.broker, status⟩ := by
  obtain ⟨json, packet, w, hjson, hpacket, hw, rfl⟩ := sample_eq_some h
  obtain ⟨b, tasks, -, hstep, -, rfl⟩ := Writers.environment_eq_some hw
  obtain rfl := Option.some.inj hstep
  exact onDataAvailable_forwardSample hjson hpacket _

/-- What a packet or another event enqueues. -/
theorem environment_adds (hlib : Library I C) {b b' : Broker L} (hb : StoredUnder b)
    {e : Run.Event} (hs : Run.step b e = some b') (hdispatch : ∀ i, e ≠ .dispatch i)
    (hsample : ∀ topicName json packet, e ≠ .sample topicName json packet) :
    Adds (Sourced L (packetSource L e)) b b' := by
  cases e with
  | accept s =>
    obtain ⟨-, rfl⟩ := Run.step_accept hs
    exact .same rfl
  | packet s recvData =>
    obtain ⟨-, hproc⟩ := Run.step_packet hs
    obtain ⟨tasks, hqueue, htasks⟩ :=
      MqttSession.messageProcess_adds hlib.encode hlib.connack hb hproc
    exact ⟨tasks, hqueue, fun task htask => sourced_packet hlib (htasks task htask)⟩
  | dispatch i => exact absurd rfl (hdispatch i)
  | addClient topicName client =>
    obtain rfl := Option.some.inj hs
    exact .same rfl
  | sample topicName json packet => exact absurd rfl (hsample topicName json packet)

omit [DecidableEq T] in
theorem sound_environment (hlib : Library I C) {st st' : State L T} {e : Run.Event}
    (hst : Sound st) (h : environment I st e = some st') : Sound st' := by
  obtain ⟨w, hsample, hw, rfl⟩ := environment_eq_some h
  refine sound_extended hst hw ?_ fun s f hf => (settle_sublist _ _ s).subset hf
  obtain ⟨b, tasks, hdispatch, hstep, -, rfl⟩ := Writers.environment_eq_some hw
  exact environment_adds hlib hst.stored hstep hdispatch hsample

omit [DecidableEq T] in
theorem sound_sample (hlib : Library I C) {st st' : State L T} {message : Message C.numbers}
    (hst : Sound st) (h : sample C cfg st message = some st') : Sound st' := by
  obtain ⟨json, packet, w, -, hpacket, hw, rfl⟩ := sample_eq_some h
  refine sound_extended hst hw ?_ fun s f hf => hf
  obtain ⟨b, tasks, -, hstep, -, rfl⟩ := Writers.environment_eq_some hw
  obtain rfl := Option.some.inj hstep
  exact forwardSample_adds (sourced_sample hlib hpacket) _ _ _

theorem sound_dequeue {st st' : State L T} {t : T} {i : Nat} (hst : Sound st)
    (h : dequeue st t i = some st') : Sound st' := by
  obtain ⟨w, hw, rfl⟩ := Option.map_eq_some_iff.mp h
  have hgenuine := genuine_dequeue hst.genuine hw
  obtain ⟨origin, task, -, -, -, rfl⟩ := dequeue_eq_some hw
  exact ⟨hgenuine, hst.stored, hst.recorded, hst.sourced, hst.flights⟩

omit [DecidableEq T] in
/-- A call passes what its source was enqueued with, or nothing. -/
theorem Sound.sending {st : State L T} (hst : Sound st) {t : T} {r : Round}
    {client : SessionPtr} {data : List UInt8} (ht : st.writers.threads t = .sending r client data) :
    Sourced L (st.source r.origin) data := by
  have hcarries := hst.genuine.threads t
  rw [ht] at hcarries
  rcases hcarries.2 with rfl | rfl
  · exact sourced_nil _
  · exact hst.sourced r.origin r.task hcarries.1

/-- What is in flight after a statement. -/
theorem advance_eq_some {st st' : State L T} {t : T} (h : advance st t = some st') :
    ∃ w, Writers.advance st.writers t = some w ∧ w.enqueued = st.writers.enqueued ∧
      SameClients st.writers.broker w.broker ∧
      ((st' = { st with writers := w } ∧ ∀ r client data,
          st.writers.threads t ≠ .sending r client data) ∨
        ∃ r client data, st.writers.threads t = .sending r client data ∧
          st' = { st with
            writers := w
            inFlight := launch L st.inFlight ⟨r.origin, client, data⟩ }) := by
  obtain ⟨w, hw, rfl⟩ := Option.map_eq_some_iff.mp h
  obtain ⟨m, q, hstatement, rfl⟩ := advance_statement hw
  obtain ⟨hen, -, hsame⟩ := hstatement.keeps
  refine ⟨_, hw, hen, hsame, ?_⟩
  rcases sent_statement hstatement with ⟨hm, hnot⟩ | ⟨r, client, data, ht, hm⟩
  · refine .inl ⟨?_, hnot⟩
    have hdrop : (m.goto t q).sent.drop st.writers.sent.length = [] := by
      show m.sent.drop _ = []
      rw [hm, List.drop_length]
    rw [hdrop]
    rfl
  · refine .inr ⟨r, client, data, ht, ?_⟩
    have hdrop : (m.goto t q).sent.drop st.writers.sent.length =
        [⟨r.origin, client, data⟩] := by
      show m.sent.drop _ = _
      rw [hm, List.drop_left]
    rw [hdrop]
    rfl

/-- A call adds at most its own identifier, to its own session. -/
theorem mem_launch {inFlight : SessionPtr → List Flight} {call : Sent} {s : SessionPtr}
    {f : Flight} (h : f ∈ launch L inFlight call s) :
    f ∈ inFlight s ∨ f.origin = call.origin ∧ sentIdentifier L call.data = some f.identifier := by
  unfold launch at h
  cases hid : sentIdentifier L call.data with
  | none =>
    rw [hid] at h
    exact .inl h
  | some id =>
    simp only [hid] at h
    by_cases hs : s = call.session
    · subst hs
      rw [Function.update_self] at h
      rcases List.mem_append.mp h with hold | hnew
      · exact .inl hold
      · obtain rfl := List.mem_singleton.mp hnew
        exact .inr ⟨rfl, rfl⟩
    · rw [Function.update_of_ne hs] at h
      exact .inl h

theorem sound_advance {st st' : State L T} {t : T} (hst : Sound st)
    (h : advance st t = some st') : Sound st' := by
  obtain ⟨w, hw, hen, hsame, hcases⟩ := advance_eq_some h
  have hgenuine := genuine_advance hst.genuine hw
  have hstored := hsame.storedUnder hst.stored
  have hrecorded : st.sources.length = w.enqueued.length := by rw [hen, hst.recorded]
  have hsourced : ∀ k task, w.enqueued[k]? = some task → Sourced L (st.source k) task.data := by
    rw [hen]
    exact hst.sourced
  rcases hcases with ⟨rfl, -⟩ | ⟨r, client, data, ht, rfl⟩
  · exact ⟨hgenuine, hstored, hrecorded, hsourced, hst.flights⟩
  · refine ⟨hgenuine, hstored, hrecorded, hsourced, ?_⟩
    intro s f hf
    rcases mem_launch hf with hold | ⟨horigin, hid⟩
    · exact hst.flights s f hold
    · obtain ⟨x, hx, hidentifier⟩ := hst.sending ht f.identifier hid
      exact ⟨x, horigin ▸ hx, hidentifier⟩

theorem step_sound (hlib : Library I C) {st st' : State L T} {e : Event C T} (hst : Sound st)
    (h : step I C cfg st e = some st') : Sound st' := by
  cases e with
  | environment e => exact sound_environment hlib hst h
  | sample message => exact sound_sample hlib hst h
  | dequeue t i => exact sound_dequeue hst h
  | advance t => exact sound_advance hst h

/-! ## What is in flight -/

theorem Proper.sublist {flights more : List Flight} (h : Proper more)
    (hsub : flights.Sublist more) : Proper flights where
  distinct := h.distinct.sublist (hsub.map _)
  word f hf := h.word f (hsub.subset hf)

/-- One more PUBLISH in flight. -/
theorem proper_concat {flights : List Flight} {f : Flight} :
    Proper (flights ++ [f]) ↔ Proper flights ∧ (0 < f.identifier ∧ f.identifier < 65536) ∧
      ∀ g ∈ flights, g.identifier ≠ f.identifier := by
  constructor
  · intro h
    have hdistinct := h.distinct
    rw [List.map_append, List.map_singleton, List.nodup_append] at hdistinct
    refine ⟨h.sublist (List.sublist_append_left _ _), h.word f (by simp), ?_⟩
    intro g hg
    exact hdistinct.2.2 _ (List.mem_map_of_mem hg) _ (List.mem_singleton_self _)
  · rintro ⟨h, hword, hfresh⟩
    refine ⟨?_, List.forall_mem_append.mpr ⟨h.word, List.forall_mem_singleton.mpr hword⟩⟩
    rw [List.map_append, List.map_singleton, List.nodup_append]
    refine ⟨h.distinct, List.nodup_singleton _, ?_⟩
    intro x hx y hy
    obtain ⟨g, hg, rfl⟩ := List.mem_map.mp hx
    rw [List.mem_singleton.mp hy]
    exact hfresh g hg

def AllProper (st : State L T) : Prop := ∀ s, Proper (st.inFlight s)

/-- A call keeps the identifiers in order exactly if it has a new one, or none. -/
theorem allProper_launch {inFlight : SessionPtr → List Flight} (h : ∀ s, Proper (inFlight s))
    (call : Sent) : (∀ s, Proper (launch L inFlight call s)) ↔
      ∀ id ∈ sentIdentifier L call.data, (0 < id ∧ id < 65536) ∧
        ∀ f ∈ inFlight call.session, f.identifier ≠ id := by
  unfold launch
  cases hid : sentIdentifier L call.data with
  | none => simpa using h
  | some id =>
    simp only [Option.mem_some_iff, forall_eq']
    constructor
    · intro hall
      have hsession := hall call.session
      rw [Function.update_self] at hsession
      exact (proper_concat.mp hsession).2
    · intro hnew s
      by_cases hs : s = call.session
      · subst hs
        rw [Function.update_self]
        exact proper_concat.mpr ⟨h _, hnew⟩
      · rw [Function.update_of_ne hs]
        exact h s

omit [DecidableEq T] in
/-- What a writer is about to send is fresh if its source is. -/
theorem fresh_iff (hlib : Library I C) {st : State L T} (hst : Sound st) {t : T} {r : Round}
    {client : SessionPtr} {data : List UInt8} (ht : st.writers.threads t = .sending r client data) :
    Fresh st (.sending r client data) ↔
      ∀ id ∈ sentIdentifier L data, (0 < id ∧ id < 65536) ∧
        ∀ f ∈ st.inFlight client, f.identifier ≠ id := by
  have hsourced := hst.sending ht
  constructor
  · intro hfresh id hid
    obtain ⟨x, hx, rfl⟩ := hsourced id hid
    obtain ⟨hne, hnew⟩ := hfresh (by rw [hid]; rfl) x hx
    obtain ⟨-, m, -, -, hm⟩ := sentIdentifier_eq_some hid
    obtain ⟨hlow, hhigh⟩ := hlib.encode.publishWord m
    exact ⟨by omega, hnew⟩
  · intro h hsome x hx
    obtain ⟨id, hid⟩ := Option.isSome_iff_exists.mp hsome
    obtain ⟨y, hy, rfl⟩ := hsourced id hid
    obtain rfl : x = y := Option.some.inj (hx.symm.trans hy)
    obtain ⟨⟨hpos, -⟩, hnew⟩ := h x.identifier hid
    exact ⟨by omega, hnew⟩

/-- A step under the condition. -/
theorem step_allProper (hlib : Library I C) {st st' : State L T} {e : Event C T}
    (hst : Sound st) (hproper : AllProper st) (hc : Condition st e)
    (h : step I C cfg st e = some st') : AllProper st' := by
  cases e with
  | environment e =>
    obtain ⟨w, -, -, rfl⟩ := environment_eq_some h
    exact fun s => (hproper s).sublist (settle_sublist _ _ s)
  | sample message =>
    obtain ⟨json, packet, w, -, -, -, rfl⟩ := sample_eq_some h
    exact hproper
  | dequeue t i =>
    obtain ⟨w, -, rfl⟩ := Option.map_eq_some_iff.mp h
    exact hproper
  | advance t =>
    obtain ⟨w, -, -, -, hcases⟩ := advance_eq_some h
    rcases hcases with ⟨rfl, -⟩ | ⟨r, client, data, ht, rfl⟩
    · exact hproper
    · have hfresh : Fresh st (.sending r client data) := ht ▸ hc
      exact (allProper_launch hproper ⟨r.origin, client, data⟩).mpr
        ((fresh_iff hlib hst ht).mp hfresh)

/-- Without the condition the next state is not in order. -/
theorem condition_of_allProper (hlib : Library I C) {st : State L T} {e : Event C T}
    (hst : Sound st) (hproper : AllProper st)
    (h : ∀ st', step I C cfg st e = some st' → AllProper st') : Condition st e := by
  cases e with
  | environment | sample | dequeue => trivial
  | advance t =>
    show Fresh st (st.writers.threads t)
    cases ht : st.writers.threads t with
    | sending r client data =>
      obtain ⟨w, hw⟩ : ∃ w, Writers.advance st.writers t = some w := by
        unfold Writers.advance
        rw [ht]
        dsimp only
        split <;> exact ⟨_, rfl⟩
      obtain ⟨st', hst'⟩ : ∃ st', advance st t = some st' := by
        unfold advance
        rw [hw]
        exact ⟨_, rfl⟩
      have hproper' := h st' hst'
      obtain ⟨w', -, -, -, ⟨-, hnot⟩ | ⟨r', client', data', ht', rfl⟩⟩ := advance_eq_some hst'
      · exact absurd ht (hnot r client data)
      · obtain ⟨rfl, rfl, rfl⟩ := Phase.sending.inj (ht.symm.trans ht')
        exact (fresh_iff hlib hst ht).mpr
          ((allProper_launch hproper ⟨r.origin, client, data⟩).mp hproper')
    | _ => trivial

/-- **Identifiers in flight.** In every run each PUBLISH in flight has the identifier of its
source, and the identifiers in flight to each subscriber are distinct and not zero in all
states of a run exactly if every message that is sent in it comes with a fresh one. -/
theorem identifiers_in_flight (hlib : Library I C) (cfg : Config) (es : List (Event C T)) :
    (∀ st : State L T, Machine.run (step I C cfg) State.init es = some st → FromSources st) ∧
      ((∀ fs (st : State L T), fs <+: es →
          Machine.run (step I C cfg) State.init fs = some st → AllProper st) ↔
        Machine.Along (step I C cfg) Condition (State.init : State L T) es) := by
  constructor
  · intro st hr
    have hst : Sound st := Machine.reachable_invariant
      (fun _ _ _ hs he => step_sound hlib hs he) sound_init ⟨es, hr⟩
    exact hst.flights
  · refine Machine.forall_good_iff_along (I := fun st : State L T => Sound st ∧ AllProper st)
      (fun _ h => h.2) ?_ ?_ ⟨sound_init, fun s => ⟨List.nodup_nil, by simp [State.init]⟩⟩ es
    · rintro st e st' ⟨hst, hproper⟩ hc h
      exact ⟨step_sound hlib hst h, step_allProper hlib hst hproper hc h⟩
    · rintro st e ⟨hst, hproper⟩ h
      exact condition_of_allProper hlib hst hproper h

/-! ## Two publishers -/

/-- A codec for samples that fit into a short packet. -/
def shortCodec : Codec BddsBroker.Wire.libraries where
  numbers := wholeNumbers
  json := JsonText.json
  generateDefaultPublish id topic payload qos :=
    let content := BddsBroker.Wire.wordBytes (Wire.bytesOf topic).length ++ Wire.bytesOf topic ++
      (BddsBroker.Wire.wordBytes (id % 65536) ++ Wire.bytesOf payload)
    if h : content.length < 128 then .ok ⟨UInt8.ofNat (0x30 + 2 * qos.toNat), content, h⟩
    else .error "too long"

theorem publishIdentifier_wire {p : BddsBroker.Wire.Packet}
    (hqos : 0 < BddsBroker.Wire.libraries.publishQos p) :
    BddsBroker.Wire.libraries.publishIdentifier p =
      BddsBroker.Wire.word (BddsBroker.Wire.afterField p.content) := by
  have hpos : 0 < ((BddsBroker.Wire.qos p : Nat) : Int) := hqos
  have hne : BddsBroker.Wire.qos p ≠ 0 := by omega
  exact if_neg hne

theorem afterField_append {field : List UInt8} (h : field.length < 65536) (rest : List UInt8) :
    BddsBroker.Wire.afterField (BddsBroker.Wire.wordBytes field.length ++ field ++ rest) =
      rest := by
  unfold BddsBroker.Wire.afterField
  rw [List.append_assoc, BddsBroker.Wire.word_wordBytes h, ← List.append_assoc]
  refine List.drop_left' ?_
  rw [List.length_append]
  rfl

theorem shortLibrary : Library BddsBroker.Wire.identifiers shortCodec where
  encode := BddsBroker.Wire.encode_identifiers
  connack name reference locator m bytes hm h := by
    obtain rfl := Except.ok.inj hm
    obtain rfl := Except.ok.inj h
    decide
  roundTrips := BddsBroker.Wire.publishRoundTrips
  sample id topic payload qos m h hqos := by
    simp only [shortCodec] at h
    split at h
    · rename_i hshort
      obtain rfl := Except.ok.inj h
      have htopic : (Wire.bytesOf topic).length < 65536 := by
        simp only [List.length_append] at hshort
        omega
      obtain ⟨n, hn⟩ := Int.eq_ofNat_of_zero_le (Int.emod_nonneg id (b := 65536) (by decide))
      have hlt : n < 65536 := by omega
      rw [publishIdentifier_wire hqos]
      dsimp only
      rw [afterField_append htopic, hn, BddsBroker.Wire.word_wordBytes hlt]
    · cases h

/-- PUBLISH of "HI" on "GPS" at QoS 1. -/
def publishAs (id : UInt8) : List UInt8 := [0x32, 9, 0, 3, 71, 80, 83, 0, id, 72, 73]

def puback (id : UInt8) : List UInt8 := [0x40, 2, 0, id]

def serve {C : Codec L} {T : Type} (t : T) (n : Nat) : List (Event C T) :=
  .dequeue t 0 :: List.replicate n (.advance t)

/-- Session 1 subscribes, session 2 connects, and both get their replies. -/
def connected {C : Codec L} {T : Type} (t : T) : List (Event C T) :=
  [.environment (.accept 1), .environment (.packet 1 (Wire.connectAs 97)),
    .environment (.packet 1 Wire.subscribeGps), .environment (.accept 2),
    .environment (.packet 2 (Wire.connectAs 98))] ++ serve t 5 ++ serve t 6 ++ serve t 5

/-- Session `s` publishes, and gets its PUBACK before session 1 gets the message. -/
def publishes {C : Codec L} {T : Type} (t : T) (s : SessionPtr) (id : UInt8) :
    List (Event C T) :=
  .environment (.packet s (publishAs id)) :: serve t 5 ++ serve t 6

/-- The identifier is used again when the first message is acknowledged. -/
def inTurns {C : Codec L} {T : Type} (t : T) : List (Event C T) :=
  connected t ++ publishes t 2 5 ++ publishes t 1 6 ++ [.environment (.packet 1 (puback 5))] ++
    publishes t 2 5

theorem inTurns_in_flight :
    ∃ st : State BddsBroker.Wire.libraries Unit,
      Machine.run (step BddsBroker.Wire.identifiers shortCodec releaseMode) State.init
        (inTurns ()) = some st ∧
      (st.inFlight 1).map Flight.identifier = [6, 5] ∧ FromSources st ∧ AllProper st := by
  have hrun : (Machine.run (step BddsBroker.Wire.identifiers shortCodec releaseMode)
      (State.init : State BddsBroker.Wire.libraries Unit) (inTurns ())).map
        (fun st => (st.inFlight 1).map Flight.identifier) = some [6, 5] := by
    decide +kernel
  have hc : Machine.Along (step BddsBroker.Wire.identifiers shortCodec releaseMode) Condition
      (State.init : State BddsBroker.Wire.libraries Unit) (inTurns ()) := by
    decide +kernel
  obtain ⟨st, hst, hids⟩ := Option.map_eq_some_iff.mp hrun
  obtain ⟨hsources, hproper⟩ :=
    identifiers_in_flight (T := Unit) shortLibrary releaseMode (inTurns ())
  exact ⟨st, hst, hids, hsources st hst, hproper.mpr hc _ st (List.prefix_refl _) hst⟩

/-- Both publish under the same identifier. -/
def colliding {C : Codec L} {T : Type} (t : T) : List (Event C T) :=
  connected t ++ publishes t 2 5 ++ publishes t 1 5

theorem colliding_in_flight :
    ∃ st : State BddsBroker.Wire.libraries Unit,
      Machine.run (step BddsBroker.Wire.identifiers shortCodec releaseMode) State.init
        (colliding ()) = some st ∧
      (st.inFlight 1).map Flight.identifier = [5, 5] ∧ ¬ AllProper st := by
  have hrun : (Machine.run (step BddsBroker.Wire.identifiers shortCodec releaseMode)
      (State.init : State BddsBroker.Wire.libraries Unit) (colliding ())).map
        (fun st => (st.inFlight 1).map Flight.identifier) = some [5, 5] := by
    decide +kernel
  obtain ⟨st, hst, hids⟩ := Option.map_eq_some_iff.mp hrun
  refine ⟨st, hst, hids, ?_⟩
  intro hproper
  have hdistinct := (hproper 1).distinct
  rw [hids] at hdistinct
  exact absurd hdistinct (by decide)

end BddsBroker.Dds.InFlight
