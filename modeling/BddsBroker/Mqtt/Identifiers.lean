import BddsBroker.Mqtt.Effects
import BddsBroker.Mqtt.Run

/-! The identifiers of forwarded messages. The code assigns none: it encodes a PUBLISH with
the identifier it was published under, and a stored one goes out when a PUBREL names this
identifier (`messageProcess_adds`). The replies are no PUBLISH. -/

namespace BddsBroker

open Proc Program

variable {L : Libraries} {s : SessionPtr} {recvData : List UInt8}

/-- The identifier that the packet gives for the message it makes the session forward. -/
def forwardedIdentifier (L : Libraries) (recvData : List UInt8) : Option Int :=
  match packetType recvData with
  | some .publish => (L.interpretPublishPacket recvData).toOption.map L.publishIdentifier
  | some .pubrel => (MqttSession.pubrelAnswer L recvData).toOption.map Prod.fst
  | _ => none

/-- If the data is a PUBLISH, it encodes a message with that identifier. -/
def PublishedUnder (L : Libraries) (identifier : Option Int) (data : List UInt8) : Prop :=
  packetType data = some .publish →
    ∃ m, L.convertPublishIntoPacket m [] = .ok data ∧ identifier = some (L.publishIdentifier m)

/-- The code's own `find` goes by the identifier of the message. -/
def StoredUnder (b : Broker L) : Prop :=
  ∀ s packetId packet, (b.publishMap s).lookup packetId = some packet →
    ∃ m, L.convertPublishIntoPacket m [] = .ok packet ∧ L.publishIdentifier m = packetId

/-- A CONNACK is no PUBLISH. -/
def Libraries.ConnackTyped (L : Libraries) : Prop :=
  ∀ name reference locator m bytes, L.generateDefaultConnack name reference locator = .ok m →
    L.convertConnactIntoPacket m [] = .ok bytes → packetType bytes ≠ some .publish

section Replies

variable {I : Identifiers L} {identifier : Option Int} {data : List UInt8}
  {type : ControlPacketType} {n : Int}

theorem PublishedUnder.of_ne (h : packetType data ≠ some .publish) :
    PublishedUnder L identifier data := fun hpublish => absurd hpublish h

/-- A reply with an identifier is no PUBLISH, with or without a byte behind it. -/
theorem PublishedUnder.of_carries_append (h : I.Carries data type n) (htype : type ≠ .publish)
    (rest : List UInt8) : PublishedUnder L identifier (data ++ rest) := by
  refine .of_ne ?_
  rw [(h rest).1]
  exact fun heq => htype (Option.some.inj heq)

theorem PublishedUnder.of_carries (h : I.Carries data type n) (htype : type ≠ .publish) :
    PublishedUnder L identifier data := by
  have happend : PublishedUnder L identifier (data ++ []) := .of_carries_append h htype []
  rwa [List.append_nil] at happend

end Replies

/-! ## Stored messages -/

theorem storedUnder_init : StoredUnder (Broker.init : Broker L) := by
  intro s packetId packet h
  simp [Broker.init, Broker.publishMap, MqttSession.new] at h

theorem Change.storedUnder {b b' : Broker L} (h : Change L s recvData b b') (hb : StoredUnder b) :
    StoredUnder b' := by
  intro u packetId packet hlookup
  by_cases hu : u = s
  · subst hu
    cases h with
    | plain hp =>
      rw [hp.publishMap u] at hlookup
      exact hb u packetId packet hlookup
    | storePublish m stored hstored =>
      rw [Broker.publishMap_storePublish] at hlookup
      by_cases hid : packetId = L.publishIdentifier m
      · subst hid
        rw [Finmap.lookup_insert] at hlookup
        obtain rfl := Option.some.inj hlookup
        exact ⟨m, hstored, rfl⟩
      · rw [Finmap.lookup_insert_of_ne _ hid] at hlookup
        exact hb u packetId packet hlookup
    | erasePublish erased =>
      rw [Broker.publishMap_erasePublish] at hlookup
      by_cases hid : packetId = erased
      · rw [hid, Finmap.lookup_erase] at hlookup
        cases hlookup
      · rw [Finmap.lookup_erase_ne hid] at hlookup
        exact hb u packetId packet hlookup
  · rw [h.publishMap_of_ne hu] at hlookup
    exact hb u packetId packet hlookup

theorem SameClients.storedUnder {b b' : Broker L} (h : SameClients b b') (hb : StoredUnder b) :
    StoredUnder b' := by
  intro s packetId packet hlookup
  rw [h.publishMap s] at hlookup
  exact hb s packetId packet hlookup

theorem step_storedUnder {b b' : Broker L} {e : Run.Event} (hb : StoredUnder b)
    (hs : Run.step b e = some b') : StoredUnder b' := by
  refine Run.step_of_changes (I := StoredUnder) (fun _ _ _ _ _ hc hb => hc.storedUnder hb) ?_ ?_
    (fun _ _ hsame hb => hsame.storedUnder hb) hb hs
  · intro s b _ hb u packetId packet hlookup
    by_cases hu : u = s
    · rw [hu, Run.publishMap_accept] at hlookup
      simp at hlookup
    · rw [Run.publishMap_accept_of_ne b hu] at hlookup
      exact hb u packetId packet hlookup
  · exact fun _ _ _ hb => hb

/-! ## What a packet enqueues -/

/-- Tasks are added, with such data. -/
def Adds (P : List UInt8 → Prop) (b b' : Broker L) : Prop :=
  ∃ tasks, b'.mqttTaskQueue = b.mqttTaskQueue ++ tasks ∧ ∀ task ∈ tasks, P task.data

section Adds

variable {P : List UInt8 → Prop} {b b' b'' : Broker L} {mayRead : Prop}

theorem Adds.same (h : b'.mqttTaskQueue = b.mqttTaskQueue) : Adds P b b' :=
  ⟨[], by rw [h, List.append_nil], by simp⟩

theorem Adds.single {task : MqttTask} (h : b'.mqttTaskQueue = b.mqttTaskQueue ++ [task])
    (htask : P task.data) : Adds P b b' :=
  ⟨[task], h, List.forall_mem_singleton.mpr htask⟩

theorem Adds.trans (h : Adds P b b') (h' : Adds P b' b'') : Adds P b b'' := by
  obtain ⟨tasks, hqueue, htasks⟩ := h
  obtain ⟨more, hmore, hnew⟩ := h'
  refine ⟨tasks ++ more, ?_, List.forall_mem_append.mpr ⟨htasks, hnew⟩⟩
  rw [hmore, hqueue, List.append_assoc]

theorem adds_run (h : Relation.ReflTransGen (Adds P) b b') : Adds P b b' := by
  induction h with
  | refl => exact .same rfl
  | tail _ hbc ih => exact ih.trans hbc

theorem nextTaskId_adds : Makes (Adds P) mayRead (nextTaskId : Proc L Int) :=
  moves_modifyGet fun _ => .same rfl

theorem reply_adds {taskOption : Int} {packet : List UInt8} (h : P packet) :
    Makes (Adds P) mayRead (reply s taskOption packet : Proc L Unit) :=
  nextTaskId_adds.bind fun _ => makes_change fun _ => .single rfl h

end Adds

namespace MqttSession

/-! ## The branches -/

section Branches

variable {I : Identifiers L} {id : Option Int} {mayRead : Prop}

theorem connect_adds (hconnack : L.ConnackTyped) :
    Makes (Adds (PublishedUnder L id)) mayRead (connect L s recvData) := by
  refine (makes_setStatus _).bind fun _ => (makes_call _).bind fun temp => ?_
  refine Moves.bind (makes_change fun _ => .same rfl) fun _ => ?_
  refine Moves.bind (makes_change fun _ => .same rfl) fun _ => ?_
  refine Moves.bind (makes_change fun _ => .same rfl) fun _ => ?_
  refine (makes_call _).bind fun locator => ?_
  refine makes_self.bind fun m => makes_call_bind fun connack hgenerate => ?_
  refine makes_call_bind fun packet hpacket => ?_
  have htype := hconnack _ _ _ connack packet hgenerate hpacket
  exact (reply_adds (.of_ne htype)).bind fun _ => makes_setStatus _

theorem retain_adds : Makes (Adds (PublishedUnder L id)) mayRead (retain L s) := by
  refine moves_get.bind fun f => ?_
  split
  · exact moves_pure ()
  · exact Moves.bind (makes_change fun _ => .same rfl) fun _ => makes_setStatus _

theorem subscribe_adds (hI : I.Encode) :
    Makes (Adds (PublishedUnder L id)) mayRead (subscribe L s recvData) := by
  refine (makes_setStatus _).bind fun _ => (makes_call _).bind fun temp => ?_
  refine (makes_call _).bind fun data => ?_
  refine Moves.bind (makes_change fun _ => .same rfl) fun _ => ?_
  refine makes_self.bind fun m => makes_call_bind fun suback hsuback => ?_
  refine makes_call_bind fun packet hpacket => ?_
  have hcarries := hI.suback _ _ _ _ hsuback hpacket
  exact (reply_adds (.of_carries hcarries (by decide))).bind fun _ => retain_adds

theorem pubrec_adds (hI : I.Encode) :
    Makes (Adds (PublishedUnder L id)) mayRead (pubrec L s recvData) := by
  refine (makes_setStatus _).bind fun _ => (makes_call _).bind fun pubrec => ?_
  refine makes_call_bind fun pubrel hpubrel => makes_call_bind fun packet hpacket => ?_
  have hcarries := hI.pubrel _ _ _ hpubrel hpacket
  exact (reply_adds (.of_carries hcarries (by decide))).bind fun _ => makes_setStatus _

/-- The data of the acknowledgement is known only behind its calls. -/
theorem acknowledge_adds (hI : I.Encode) (m : L.Publish) :
    Makes (Adds (PublishedUnder L id)) mayRead (acknowledge L s m) := by
  unfold acknowledge ackPacket
  split_ifs
  · exact moves_pure ()
  · refine (makes_setStatus _).bind fun _ => ?_
    simp only [bind_assoc, pure_bind]
    refine makes_call_bind fun ack hack => makes_call_bind fun packet hpacket => ?_
    exact reply_adds (.of_carries_append (hI.puback _ _ _ _ hack hpacket) (by decide) [10])
  · refine (makes_setStatus _).bind fun _ => ?_
    simp only [bind_assoc, pure_bind]
    refine makes_call_bind fun ack hack => makes_call_bind fun packet hpacket => ?_
    refine (makes_call _).bind fun stored => ?_
    refine Moves.bind (makes_change fun _ => .same rfl) fun _ => ?_
    exact reply_adds (.of_carries_append (hI.pubrec _ _ _ _ hack hpacket) (by decide) [10])
  · refine (makes_setStatus _).bind fun _ => ?_
    rw [pure_bind]
    exact reply_adds (.of_ne (by decide))

theorem forward_adds {m : L.Publish} (hid : id = some (L.publishIdentifier m)) :
    Makes (Adds (PublishedUnder L id)) mayRead (forward L m) := by
  unfold forward
  split
  · exact moves_pure ()
  · refine makes_call_bind fun packet hpacket => nextTaskId_adds.bind fun taskId => ?_
    refine Moves.bind (makes_change fun _ => .single rfl fun _ => ⟨m, hpacket, hid⟩) fun _ => ?_
    exact makes_taskCount.bind fun count => makes_change fun _ => .same rfl

theorem publish_adds (hI : I.Encode)
    (hid : ∀ m, L.interpretPublishPacket recvData = .ok m → id = some (L.publishIdentifier m)) :
    Makes (Adds (PublishedUnder L id)) mayRead (publish L s recvData) := by
  refine (makes_setStatus _).bind fun _ => makes_call_bind fun m hm => ?_
  refine (acknowledge_adds hI m).bind fun _ => (forward_adds (hid m hm)).bind fun _ => ?_
  exact makes_setStatus _

/-- The stored message was stored under the identifier of the PUBREL. -/
theorem pubrel_adds (hI : I.Encode) {b : Broker L} (hb : StoredUnder b) (status : String)
    (hid : ∀ packetId reply, pubrelAnswer L recvData = .ok (packetId, reply) → id = some packetId) :
    Ends (pubrel L s recvData) ⟨b, status⟩ (fun _ f => Adds (PublishedUnder L id) b f.broker)
      fun _ f => Adds (PublishedUnder L id) b f.broker := by
  rw [ends_pubrel]
  cases hans : pubrelAnswer L recvData with
  | error what => exact .same rfl
  | ok answer =>
    obtain ⟨packetId, reply⟩ := answer
    obtain ⟨_, c, _, hc, hconvert, _⟩ := pubrelAnswer_eq_ok hans
    have hreply : PublishedUnder L id reply :=
      .of_carries (hI.pubcomp _ _ _ hc hconvert) (by decide)
    have hcompleted : Adds (PublishedUnder L id) b (completed b s reply) := .single rfl hreply
    dsimp only
    cases hlookup : (b.publishMap s).lookup packetId with
    | none => exact hcompleted
    | some target =>
      obtain ⟨m, hm, hpacketId⟩ := hb s packetId target hlookup
      dsimp only
      cases L.interpretPublishPacket target with
      | error what => exact hcompleted
      | ok publish =>
        refine hcompleted.trans (.single rfl fun _ => ⟨m, hm, ?_⟩)
        rw [hid packetId reply hans, hpacketId]

end Branches

theorem body_adds {I : Identifiers L} (hI : I.Encode) (hconnack : L.ConnackTyped)
    (hrel : ¬ IsPubrel recvData) :
    Makes (Adds (PublishedUnder L (forwardedIdentifier L recvData))) True (body L s recvData) := by
  unfold body
  split
  · exact connect_adds hconnack
  · exact subscribe_adds hI
  · exact puback_makes
  · exact pubrec_adds hI
  · rename_i htype
    exact absurd htype hrel
  · exact pubcomp_makes
  · rename_i htype
    refine publish_adds hI fun m hm => ?_
    simp [forwardedIdentifier, htype, hm, Except.toOption]
  · exact moves_pure ()

/-- **Forwarded under its identifier.** Every PUBLISH that a packet makes the session
enqueue carries the identifier that the packet gives. -/
theorem messageProcess_adds {I : Identifiers L} (hI : I.Encode) (hconnack : L.ConnackTyped)
    {b b' : Broker L} (hb : StoredUnder b) (h : messageProcess L s recvData b = some b') :
    Adds (PublishedUnder L (forwardedIdentifier L recvData)) b b' := by
  refine (messageProcess_ends fun r => ∀ b', r = some b' → Adds _ b b').mpr ?_ b' h
  simp only [Option.some.injEq, forall_eq']
  by_cases hrel : IsPubrel recvData
  · rw [body_pubrel hrel]
    refine (pubrel_adds hI hb _ fun packetId reply hans => ?_).imp (fun _ f hf => hf) ?_
    · have htype : packetType recvData = some .pubrel := hrel
      simp [forwardedIdentifier, htype, hans, Except.toOption]
    · intro e f hf
      cases e with
      | thrown what => exact hf
      | readsEnd => rintro r ⟨⟩
  · refine (body_adds hI hconnack hrel ⟨b, _⟩).imp (fun _ f hf => adds_run hf) fun e f hf => ?_
    cases e with
    | thrown what => exact (adds_run hf.2).trans (.same rfl)
    | readsEnd => rintro r ⟨⟩

end MqttSession

end BddsBroker
