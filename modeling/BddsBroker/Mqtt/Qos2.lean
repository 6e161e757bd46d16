import BddsBroker.Lib.Pending
import BddsBroker.Mqtt.Effects
import BddsBroker.Mqtt.Run
import BddsBroker.Mqtt.Wire

/-! QoS 2 delivery. A session's stored messages are the pending items of its packet
history: a PUBLISH at QoS 2 puts its encoding under its identifier, a PUBREL releases
it, and no other packet counts. In every run in which each PUBREL names a stored
message, a message is forwarded when it is released and at no other time, so the
forwards of an identifier are its PUBRELs (`exactly_once`). -/

namespace BddsBroker.Qos2

open MqttSession Run

variable (L : Libraries)

/-! ## The packet history of a session -/

/-- The packets that the session has processed. -/
def packetsOf (s : SessionPtr) (es : List Event) : List (List UInt8) :=
  es.filterMap fun
    | .packet u recvData => if u = s then some recvData else none
    | _ => none

/-- A PUBLISH at QoS 2 with that identifier. -/
def storesId (p : Int) (recvData : List UInt8) : Bool :=
  packetType recvData == some .publish &&
    match L.interpretPublishPacket recvData with
    | .ok m => L.publishQos m == 2 && L.publishIdentifier m == p
    | .error _ => false

/-- A PUBREL with that identifier. -/
def releasesId (p : Int) (recvData : List UInt8) : Bool :=
  packetType recvData == some .pubrel &&
    match L.interpretPubrelPacket recvData with
    | .ok m => L.pubrelIdentifier m == p
    | .error _ => false

/-- The message of the last QoS 2 PUBLISH with that identifier, not released since. -/
def LatestPublish (p : Int) (history : List (List UInt8)) (m : L.Publish) : Prop :=
  ∃ pre recvData post, history = pre ++ recvData :: post ∧ IsStore L recvData m ∧
    L.publishIdentifier m = p ∧ ∀ r ∈ post, storesId L p r = false ∧ releasesId L p r = false

/-- What a packet does to the stored messages. -/
def qos2Event (recvData : List UInt8) : Pending.Event Int (List UInt8) :=
  match packetType recvData with
  | some .publish =>
      match L.interpretPublishPacket recvData with
      | .ok m =>
          if L.publishQos m = 2 then
            match L.convertPublishIntoPacket m [] with
            | .ok packet => .put (L.publishIdentifier m) packet
            | .error _ => .skip
          else .skip
      | .error _ => .skip
  | some .pubrel =>
      match L.interpretPubrelPacket recvData with
      | .ok m => .release (L.pubrelIdentifier m)
      | .error _ => .skip
  | _ => .skip

variable {L} {s : SessionPtr}

theorem qos2Event_store {recvData : List UInt8} {m : L.Publish} {packet : List UInt8}
    (hm : IsStore L recvData m) (hpacket : L.convertPublishIntoPacket m [] = .ok packet) :
    qos2Event L recvData = .put (L.publishIdentifier m) packet := by
  obtain ⟨htype, hint, hq⟩ := hm
  simp only [qos2Event, htype, hint, hq, if_true, hpacket]

theorem qos2Event_pubrel {recvData : List UInt8} {m : L.Pubrel} (hrel : IsPubrel recvData)
    (hm : L.interpretPubrelPacket recvData = .ok m) :
    qos2Event L recvData = .release (L.pubrelIdentifier m) := by
  unfold IsPubrel at hrel
  simp only [qos2Event, hrel, hm]

theorem qos2Event_other {recvData : List UInt8} (hstore : ∀ m, ¬ IsStore L recvData m)
    (hrel : ¬ IsPubrel recvData) : qos2Event L recvData = .skip := by
  unfold qos2Event
  split
  · rename_i htype
    split
    · rename_i m hm
      by_cases hq : L.publishQos m = 2
      · exact absurd ⟨htype, hm, hq⟩ (hstore m)
      · rw [if_neg hq]
    · rfl
  · rename_i htype
    exact absurd htype hrel
  · rfl

/-- The event concerns the identifiers that the packet names. -/
theorem qos2Event_concerns (hthrow : L.NeverThrows) (p : Int) (recvData : List UInt8) :
    (qos2Event L recvData).Concerns p ↔
      ¬ (storesId L p recvData = false ∧ releasesId L p recvData = false) := by
  unfold qos2Event storesId releasesId
  cases htype : packetType recvData with
  | none => simp [Pending.Event.Concerns]
  | some t =>
    cases t with
    | publish =>
      obtain ⟨m, hm⟩ := hthrow.interpretPublish recvData
      obtain ⟨packet, hpacket⟩ := hthrow.convertPublish m
      by_cases hq : L.publishQos m = 2 <;> simp [hm, hq, hpacket, Pending.Event.Concerns]
    | pubrel =>
      obtain ⟨m, hm⟩ := hthrow.interpretPubrel recvData
      simp [hm, Pending.Event.Concerns]
    | _ => simp [Pending.Event.Concerns]

/-- A put in the history is a QoS 2 PUBLISH. -/
theorem qos2Event_put {recvData packet : List UInt8} {p : Int}
    (h : qos2Event L recvData = .put p packet) :
    ∃ m, IsStore L recvData m ∧ L.publishIdentifier m = p ∧
      L.convertPublishIntoPacket m [] = .ok packet := by
  by_cases hstore : ∃ m, IsStore L recvData m
  · obtain ⟨m, hm⟩ := hstore
    obtain ⟨htype, hint, hq⟩ := hm
    simp only [qos2Event, htype, hint, hq, if_true] at h
    cases hpacket : L.convertPublishIntoPacket m [] with
    | error what =>
      rw [hpacket] at h
      cases h
    | ok stored =>
      rw [hpacket] at h
      obtain ⟨rfl, rfl⟩ := Pending.Event.put.inj h
      exact ⟨m, ⟨htype, hint, hq⟩, rfl, hpacket⟩
  · by_cases hrel : IsPubrel recvData
    · unfold IsPubrel at hrel
      simp only [qos2Event, hrel] at h
      split at h <;> cases h
    · rw [qos2Event_other (fun m hm => hstore ⟨m, hm⟩) hrel] at h
      cases h

/-- The pending items of the history are its latest messages. -/
theorem latest_iff (hthrow : L.NeverThrows) {p : Int} {packet : List UInt8}
    {history : List (List UInt8)} :
    Pending.Latest p packet (history.map (qos2Event L)) ↔
      ∃ m, LatestPublish L p history m ∧ L.convertPublishIntoPacket m [] = .ok packet := by
  constructor
  · rintro ⟨pre, post, heq, hpost⟩
    obtain ⟨pre', rest, rfl, rfl, hrest⟩ := List.map_eq_append_iff.mp heq
    obtain ⟨recvData, post', rfl, hput, rfl⟩ := List.map_eq_cons_iff.mp hrest
    obtain ⟨m, hm, hid, hpacket⟩ := qos2Event_put hput
    refine ⟨m, ⟨pre', recvData, post', rfl, hm, hid, fun r hr => ?_⟩, hpacket⟩
    have hnot := hpost _ (List.mem_map_of_mem hr)
    rw [qos2Event_concerns hthrow, not_not] at hnot
    exact hnot
  · rintro ⟨m, ⟨pre, recvData, post, rfl, hm, rfl, hpost⟩, hpacket⟩
    refine ⟨pre.map (qos2Event L), post.map (qos2Event L), ?_, fun e he => ?_⟩
    · simp [qos2Event_store hm hpacket]
    · obtain ⟨r, hr, rfl⟩ := List.mem_map.mp he
      rw [qos2Event_concerns hthrow, not_not]
      exact hpost r hr

/-! ## Steps -/

/-- Each PUBREL names a stored message of its session. -/
def ReleasesKnown (b : Broker L) : Event → Prop
  | .packet s recvData => IsPubrel recvData → ∀ m, L.interpretPubrelPacket recvData = .ok m →
      L.pubrelIdentifier m ∈ b.publishMap s
  | _ => True

instance ReleasesKnown.decidable (b : Broker L) : ∀ e, Decidable (ReleasesKnown b e)
  | .packet s recvData =>
      match hm : L.interpretPubrelPacket recvData with
      | .ok m =>
          decidable_of_iff (packetType recvData = some .pubrel →
            L.pubrelIdentifier m ∈ b.publishMap s) (by simp [ReleasesKnown, IsPubrel, hm])
      | .error _ => isTrue (by simp [ReleasesKnown, hm])
  | .accept _ | .dispatch _ | .addClient _ _ | .sample _ _ _ => isTrue trivial

/-- The released message, from a history that explains the stored messages. -/
theorem messageProcess_pubrel (hthrow : L.NeverThrows) (hround : L.PublishRoundTrips)
    (hcomp : L.PubcompKeepsIdentifier) {b : Broker L} {recvData packet : List UInt8}
    {r : L.Pubrel} {m : L.Publish} (hrel : IsPubrel recvData)
    (hr : L.interpretPubrelPacket recvData = .ok r)
    (htarget : (b.publishMap s).lookup (L.pubrelIdentifier r) = some packet)
    (hpacket : L.convertPublishIntoPacket m [] = .ok packet) :
    ∃ reply, messageProcess L s recvData b =
      some (released b s (L.pubrelIdentifier r) reply packet m) := by
  obtain ⟨r', reply, hr', hans⟩ := pubrelAnswer_ok hthrow hcomp recvData
  obtain rfl : r = r' := by
    rw [hr] at hr'
    exact Except.ok.inj hr'
  exact ⟨reply, messageProcess_release hrel hans htarget (hround m packet hpacket)⟩

theorem publishMap_released (b : Broker L) (packetId : Int) (reply target : List UInt8)
    (m : L.Publish) :
    (released b s packetId reply target m).publishMap s = (b.publishMap s).erase packetId := by
  simp [released, completed]

theorem publishMap_stored (b : Broker L) (packetId : Int) (packet ack : List UInt8) :
    (stored b s packetId packet ack).publishMap s = (b.publishMap s).insert packetId packet := by
  simp [stored]

/-- A packet of the session acts on its stored messages as its event. -/
theorem lookup_packet (hthrow : L.NeverThrows) (hround : L.PublishRoundTrips)
    (hcomp : L.PubcompKeepsIdentifier) {b b' : Broker L} {recvData : List UInt8}
    (hb : Run.Reachable b) (hc : ReleasesKnown b (.packet s recvData))
    (hs : messageProcess L s recvData b = some b') (p : Int) :
    (b'.publishMap s).lookup p =
      Pending.apply (fun q => (b.publishMap s).lookup q) (qos2Event L recvData) p := by
  by_cases hstore : ∃ m, IsStore L recvData m
  · obtain ⟨m, hm⟩ := hstore
    obtain ⟨pubrec, hrec⟩ := hthrow.generatePubrec m
    obtain ⟨ack, hack⟩ := hthrow.convertPubrec pubrec
    obtain ⟨packet, hpacket⟩ := hthrow.convertPublish m
    rw [messageProcess_store hm hrec hack hpacket] at hs
    obtain rfl := Option.some.inj hs
    rw [publishMap_stored, qos2Event_store hm hpacket]
    by_cases hp : p = L.publishIdentifier m
    · subst hp
      simp [Pending.apply]
    · simp [Pending.apply, hp]
  by_cases hrel : IsPubrel recvData
  · obtain ⟨r, hr⟩ := hthrow.interpretPubrel recvData
    obtain ⟨target, htarget⟩ := Finmap.mem_iff.mp (hc hrel r hr)
    obtain ⟨m, -, hpacket⟩ := reachable_stored hb s _ _ htarget
    obtain ⟨reply, hproc⟩ := messageProcess_pubrel hthrow hround hcomp hrel hr htarget hpacket
    rw [hproc] at hs
    obtain rfl := Option.some.inj hs
    rw [publishMap_released, qos2Event_pubrel hrel hr]
    by_cases hp : p = L.pubrelIdentifier r
    · subst hp
      simp [Pending.apply]
    · simp [Pending.apply, hp]
  · obtain ⟨b₁, hproc, hplain⟩ :=
      messageProcess_plain (s := s) (fun m hm => hstore ⟨m, hm⟩) hrel b
    rw [hproc] at hs
    obtain rfl := Option.some.inj hs
    rw [Plain.publishMap_run hplain, qos2Event_other (fun m hm => hstore ⟨m, hm⟩) hrel]
    rfl

/-- The stored messages are what is pending after the packets of the session. -/
structure Explains (s : SessionPtr) (es : List Event) (b : Broker L) : Prop where
  lookup : ∀ p, (b.publishMap s).lookup p =
    Pending.pending ((packetsOf s es).map (qos2Event L)) p
  accepted : packetsOf s es ≠ [] → s ∈ b.mqttClients

theorem packetsOf_snoc_packet (es : List Event) (recvData : List UInt8) :
    packetsOf s (es ++ [.packet s recvData]) = packetsOf s es ++ [recvData] := by
  simp [packetsOf]

theorem packetsOf_snoc_other {es : List Event} {e : Event}
    (he : ∀ recvData, e ≠ .packet s recvData) : packetsOf s (es ++ [e]) = packetsOf s es := by
  unfold packetsOf
  rw [List.filterMap_append]
  cases e with
  | packet u recvData =>
    have hu : u ≠ s := fun hu => he recvData (by rw [hu])
    simp [hu]
  | _ => simp

theorem explains_step (hthrow : L.NeverThrows) (hround : L.PublishRoundTrips)
    (hcomp : L.PubcompKeepsIdentifier) {es : List Event} {b b' : Broker L} {e : Event}
    (hr : Machine.run step .init es = some b) (hb : Explains s es b) (hc : ReleasesKnown b e)
    (hs : step b e = some b') : Explains s (es ++ [e]) b' := by
  by_cases he : ∃ recvData, e = .packet s recvData
  · obtain ⟨recvData, rfl⟩ := he
    have hmem := mem_clients_step hs (u := s)
    simp only [step, Option.ite_none_right_eq_some] at hs
    refine ⟨fun p => ?_, fun _ => hmem hs.1⟩
    rw [lookup_packet hthrow hround hcomp ⟨es, hr⟩ hc hs.2, packetsOf_snoc_packet, List.map_append,
      List.map_singleton, Pending.pending_snoc]
    exact congrArg (fun m => Pending.apply m (qos2Event L recvData) p) (funext hb.lookup)
  · have hother : packetsOf s (es ++ [e]) = packetsOf s es :=
      packetsOf_snoc_other fun recvData h => he ⟨recvData, h⟩
    refine ⟨fun p => ?_, fun h => mem_clients_step hs (hb.accepted (hother ▸ h))⟩
    rw [hother, ← hb.lookup p]
    congr 1
    cases e with
    | accept u =>
      simp only [step, Option.ite_none_left_eq_some, Option.some.injEq] at hs
      obtain ⟨hnew, rfl⟩ := hs
      by_cases hu : s = u
      · subst hu
        have hempty : packetsOf s es = [] := by
          by_contra hne
          exact hnew (hb.accepted hne)
        rw [publishMap_accept]
        refine (Finmap.ext_lookup fun q => ?_).symm
        rw [hb.lookup q, hempty]
        rfl
      · exact publishMap_accept_of_ne b hu
    | packet u recvData =>
      have hu : s ≠ u := fun hu => he ⟨recvData, by rw [hu]⟩
      simp only [step, Option.ite_none_right_eq_some] at hs
      exact Change.publishMap_run (messageProcess_changes hs.2) hu
    | dispatch i => exact (dispatch_same hs).publishMap s
    | addClient topicName client =>
      obtain rfl := Option.some.inj hs
      rfl
    | sample topicName json packet =>
      obtain rfl := Option.some.inj hs
      exact (SameClients.ofRun (forwardSample_work topicName json packet b)).publishMap s

theorem explains_run (hthrow : L.NeverThrows) (hround : L.PublishRoundTrips)
    (hcomp : L.PubcompKeepsIdentifier) {es : List Event} {b : Broker L}
    (hc : Machine.Along step ReleasesKnown (Broker.init : Broker L) es)
    (hr : Machine.run step .init es = some b) (s : SessionPtr) : Explains s es b := by
  refine Machine.run_history (J := Explains s) ?_ ?_ hc hr
  · exact ⟨fun p => rfl, fun h => absurd rfl h⟩
  · exact fun es b e b' hr hb hc hs => explains_step hthrow hround hcomp hr hb hc hs

/-! ## Forwards -/

/-- A task that carries a message to every subscriber, as forwarding makes it: with the option
0. The PUBREC or PUBCOMP for a client that calls itself "-99" has the option 5 and is counted
as a reply, although the dispatcher sends it to the subscribers too. -/
def isFanOut (task : MqttTask) : Bool := task.taskOption == 0 && task.clientId == broadcastId

def fanOutsEnqueued (b b' : Broker L) : Nat :=
  (b'.mqttTaskQueue.drop b.mqttTaskQueue.length).countP isFanOut

def ddsTasksEnqueued (b b' : Broker L) : Nat :=
  (b'.ddsTaskQueue.drop b.ddsTaskQueue.length).length

/-- What the session's QoS 2 packets with that identifier enqueue. -/
def onBehalfOf (s : SessionPtr) (p : Int) (enqueued : Broker L → Broker L → Nat)
    (b : Broker L) (e : Event) (b' : Broker L) : Nat :=
  match e with
  | .packet u recvData =>
      if u = s ∧ (storesId L p recvData || releasesId L p recvData) then enqueued b b' else 0
  | _ => 0

theorem isStore_of_storesId {p : Int} {recvData : List UInt8} (h : storesId L p recvData = true) :
    ∃ m, IsStore L recvData m := by
  unfold storesId at h
  rw [Bool.and_eq_true, beq_iff_eq] at h
  obtain ⟨htype, hmatch⟩ := h
  cases hm : L.interpretPublishPacket recvData with
  | error what =>
    rw [hm] at hmatch
    cases hmatch
  | ok m =>
    rw [hm] at hmatch
    simp only [Bool.and_eq_true, beq_iff_eq] at hmatch
    exact ⟨m, htype, hm, hmatch.1⟩

theorem isPubrel_of_releasesId {p : Int} {recvData : List UInt8}
    (h : releasesId L p recvData = true) :
    IsPubrel recvData ∧
      ∃ m, L.interpretPubrelPacket recvData = .ok m ∧ L.pubrelIdentifier m = p := by
  unfold releasesId at h
  rw [Bool.and_eq_true, beq_iff_eq] at h
  obtain ⟨htype, hmatch⟩ := h
  cases hm : L.interpretPubrelPacket recvData with
  | error what =>
    rw [hm] at hmatch
    cases hmatch
  | ok m =>
    rw [hm] at hmatch
    exact ⟨htype, m, rfl, by simpa using hmatch⟩

/-- A release enqueues one of each, a stored message none. -/
theorem onBehalfOf_eq (hthrow : L.NeverThrows) (hround : L.PublishRoundTrips)
    (hcomp : L.PubcompKeepsIdentifier) (s : SessionPtr) (p : Int) {b b' : Broker L} {e : Event}
    (hb : Run.Reachable b) (hc : ReleasesKnown b e) (hs : step b e = some b') :
    onBehalfOf s p fanOutsEnqueued b e b' =
        (if ((packetsOf s [e]).map (releasesId L p)).headD false then 1 else 0) ∧
      onBehalfOf s p ddsTasksEnqueued b e b' =
        (if ((packetsOf s [e]).map (releasesId L p)).headD false then 1 else 0) := by
  cases e with
  | packet u recvData =>
    by_cases hu : u = s
    · subst hu
      simp only [step, Option.ite_none_right_eq_some] at hs
      have hpackets : packetsOf u [.packet u recvData] = [recvData] := by simp [packetsOf]
      rw [hpackets]
      by_cases hrel : releasesId L p recvData = true
      · obtain ⟨hpubrel, r, hr, rfl⟩ := isPubrel_of_releasesId hrel
        obtain ⟨target, htarget⟩ := Finmap.mem_iff.mp (hc hpubrel r hr)
        obtain ⟨m, -, hpacket⟩ := reachable_stored hb u _ _ htarget
        obtain ⟨reply, hproc⟩ :=
          messageProcess_pubrel hthrow hround hcomp hpubrel hr htarget hpacket
        rw [hproc] at hs
        obtain rfl := Option.some.inj hs.2
        simp [onBehalfOf, hrel, fanOutsEnqueued, ddsTasksEnqueued, released, completed, isFanOut]
      · by_cases hsto : storesId L p recvData = true
        · obtain ⟨m, hm⟩ := isStore_of_storesId hsto
          obtain ⟨pubrec, hrec⟩ := hthrow.generatePubrec m
          obtain ⟨ack, hack⟩ := hthrow.convertPubrec pubrec
          obtain ⟨packet, hpacket⟩ := hthrow.convertPublish m
          rw [messageProcess_store hm hrec hack hpacket] at hs
          obtain rfl := Option.some.inj hs.2
          simp [onBehalfOf, hrel, hsto, fanOutsEnqueued, ddsTasksEnqueued, stored, isFanOut]
        · simp [onBehalfOf, hrel, hsto]
    · simp [onBehalfOf, packetsOf, hu]
  | _ => simp [onBehalfOf, packetsOf]

/-! ## The result -/

/-- What QoS 2 promises for a session after a run. -/
structure ExactlyOnce (s : SessionPtr) (es : List Event) (b : Broker L) : Prop where
  /-- The keys are the identifiers put and not released, with the latest encodings. -/
  stored : ∀ p packet, (b.publishMap s).lookup p = some packet ↔
    ∃ m, LatestPublish L p (packetsOf s es) m ∧ L.convertPublishIntoPacket m [] = .ok packet
  /-- Other packets leave the stored messages alone. -/
  others : ∀ recvData, (∀ m, ¬ IsStore L recvData m) → ¬ IsPubrel recvData →
    ∃ b', messageProcess L s recvData b = some b' ∧ b'.publishMap s = b.publishMap s
  /-- A QoS 2 PUBLISH, first or repeated, leads to its PUBREC and to nothing else. -/
  publish : ∀ recvData m, IsStore L recvData m → ∃ b' pubrec ack packet,
    messageProcess L s recvData b = some b' ∧
      L.generatePubrec (L.publishIdentifier m) 0 = .ok pubrec ∧
      L.convertPubrecIntoPacket pubrec [] = .ok ack ∧
      L.convertPublishIntoPacket m [] = .ok packet ∧
      b'.publishMap s = (b.publishMap s).insert (L.publishIdentifier m) packet ∧
      b'.mqttTaskQueue = b.mqttTaskQueue ++ [⟨b.taskCount, 5, ack ++ [10], b.clientId s⟩] ∧
      b'.ddsTaskQueue = b.ddsTaskQueue
  /-- A PUBREL of a stored message forwards the latest one once. -/
  release : ∀ recvData r, IsPubrel recvData → L.interpretPubrelPacket recvData = .ok r →
    L.pubrelIdentifier r ∈ b.publishMap s → ∃ b' reply packet m,
      messageProcess L s recvData b = some b' ∧
      LatestPublish L (L.pubrelIdentifier r) (packetsOf s es) m ∧
      L.convertPublishIntoPacket m [] = .ok packet ∧
      L.interpretPublishPacket packet = .ok m ∧
      b'.publishMap s = (b.publishMap s).erase (L.pubrelIdentifier r) ∧
      b'.mqttTaskQueue = b.mqttTaskQueue ++
        [⟨b.taskCount, 5, reply, b.clientId s⟩, ⟨b.taskCount + 1, 0, packet, broadcastId⟩] ∧
      b'.ddsTaskQueue = b.ddsTaskQueue ++
        [.make (b.taskCount + 1) (L.publishTopicName m) (L.publishPayload m)]
  /-- The forwards of an identifier are as many as its PUBRELs, on both queues. -/
  forwards : ∀ p,
    Machine.total step (onBehalfOf s p fanOutsEnqueued) (.init : Broker L) es =
        (packetsOf s es).countP (releasesId L p) ∧
      Machine.total step (onBehalfOf s p ddsTasksEnqueued) (.init : Broker L) es =
        (packetsOf s es).countP (releasesId L p)

theorem Explains.stored (hthrow : L.NeverThrows) {es : List Event} {b : Broker L}
    (hb : Explains s es b) (p : Int) (packet : List UInt8) :
    (b.publishMap s).lookup p = some packet ↔
      ∃ m, LatestPublish L p (packetsOf s es) m ∧
        L.convertPublishIntoPacket m [] = .ok packet := by
  rw [hb.lookup p, Pending.pending_eq_some, latest_iff hthrow]

theorem countP_packetsOf (s : SessionPtr) (c : List UInt8 → Bool) (es : List Event) :
    (packetsOf s es).countP c = es.countP fun e => ((packetsOf s [e]).map c).headD false := by
  induction es with
  | nil => rfl
  | cons e es ih =>
    rw [List.countP_cons, ← ih]
    cases e with
    | packet u recvData => by_cases hu : u = s <;> simp [packetsOf, hu, List.countP_cons]
    | _ => simp [packetsOf]

theorem total_forwards (hthrow : L.NeverThrows) (hround : L.PublishRoundTrips)
    (hcomp : L.PubcompKeepsIdentifier) {es : List Event} {b : Broker L}
    (hc : Machine.Along step ReleasesKnown (Broker.init : Broker L) es)
    (hr : Machine.run step .init es = some b) (s : SessionPtr) (p : Int) :
    Machine.total step (onBehalfOf s p fanOutsEnqueued) (.init : Broker L) es =
        (packetsOf s es).countP (releasesId L p) ∧
      Machine.total step (onBehalfOf s p ddsTasksEnqueued) (.init : Broker L) es =
        (packetsOf s es).countP (releasesId L p) := by
  have hinit : Run.Reachable (.init : Broker L) := ⟨[], rfl⟩
  have hstep : ∀ (b : Broker L) e b', Run.Reachable b → ReleasesKnown b e →
      step b e = some b' → Run.Reachable b' := fun _ _ _ hb _ hs => hb.snoc hs
  have hweight := fun (b : Broker L) e b' hb hc (hs : step b e = some b') =>
    onBehalfOf_eq hthrow hround hcomp s p hb hc hs
  rw [countP_packetsOf]
  constructor
  · exact Machine.total_eq_countP hstep (fun b e b' hb hc hs => (hweight b e b' hb hc hs).1)
      hinit hc hr
  · exact Machine.total_eq_countP hstep (fun b e b' hb hc hs => (hweight b e b' hb hc hs).2)
      hinit hc hr

/-- **QoS 2 is exactly once**, for every session and in every run of the broker in which
each PUBREL names a stored message. -/
theorem exactly_once (hthrow : L.NeverThrows) (hround : L.PublishRoundTrips)
    (hcomp : L.PubcompKeepsIdentifier) {es : List Event} {b : Broker L}
    (hc : Machine.Along step ReleasesKnown (Broker.init : Broker L) es)
    (hr : Machine.run step .init es = some b) (s : SessionPtr) : ExactlyOnce s es b := by
  have hb := explains_run hthrow hround hcomp hc hr s
  refine ⟨hb.stored hthrow, ?_, ?_, ?_, total_forwards hthrow hround hcomp hc hr s⟩
  · intro recvData hstore hrel
    obtain ⟨b', hproc, hplain⟩ := messageProcess_plain (s := s) hstore hrel b
    exact ⟨b', hproc, Plain.publishMap_run hplain s⟩
  · intro recvData m hm
    obtain ⟨pubrec, hrec⟩ := hthrow.generatePubrec m
    obtain ⟨ack, hack⟩ := hthrow.convertPubrec pubrec
    obtain ⟨packet, hpacket⟩ := hthrow.convertPublish m
    refine ⟨_, pubrec, ack, packet, messageProcess_store hm hrec hack hpacket, hrec, hack, hpacket,
      publishMap_stored b _ packet ack, ?_, ?_⟩
    · simp [MqttSession.stored]
    · simp [MqttSession.stored]
  · intro recvData r hrel hint hmem
    obtain ⟨target, htarget⟩ := Finmap.mem_iff.mp hmem
    obtain ⟨m, hm, hpacket⟩ := (hb.stored hthrow _ _).mp htarget
    obtain ⟨reply, hproc⟩ := messageProcess_pubrel hthrow hround hcomp hrel hint htarget hpacket
    refine ⟨_, reply, target, m, hproc, hm, hpacket, hround m target hpacket,
      publishMap_released b _ reply target m, ?_, ?_⟩
    · simp [released, completed]
    · simp [released, completed]

/-- A client publishes "HI" on the topic "A" at QoS 2 under the identifier 1, repeats
it, and releases it. -/
def repeated : List Event :=
  [.accept 1, .packet 1 [0x34, 7, 0, 1, 65, 0, 1, 72, 73],
    .packet 1 [0x3c, 7, 0, 1, 65, 0, 1, 72, 73], .packet 1 [0x62, 2, 0, 1]]

theorem repeated_exactly_once :
    ∃ b : Broker Wire.libraries, Machine.run step .init repeated = some b ∧
      b.ddsTaskQueue = [⟨3, "A", "HI"⟩] ∧ ExactlyOnce 1 repeated b := by
  have hc : Machine.Along step ReleasesKnown (Broker.init : Broker Wire.libraries) repeated := by
    decide
  exact ⟨_, rfl, rfl, exactly_once Wire.neverThrows Wire.publishRoundTrips
    Wire.pubcompKeepsIdentifier hc rfl 1⟩

end BddsBroker.Qos2
