import BddsBroker.Lib.Machine
import BddsBroker.Mqtt.ClientSession
import BddsBroker.Mqtt.Wire

/-! What a `BROKERSUB` session writes. CONNECT and PUBREC are answered in a cleared vector.
A SUBACK is appended to the SUBSCRIBE that it answers. A packet of a type without a branch
leaves `send_flag` as an earlier packet, or nothing at all, has set it, and is written back
when it is set: the local `send_flag_` is never read. -/

namespace BddsBroker

/-- `convert_suback_into_packet` appends to the vector that it is given. -/
def Libraries.SubackAppends (L : Libraries) : Prop :=
  ∀ m bytes, L.convertSubackIntoPacket m bytes =
    (L.convertSubackIntoPacket m []).map fun reply => bytes ++ reply

/-- The PUBREL for an identifier. It is decoded again for the log. -/
def Libraries.pubrel (L : Libraries) (packetId : Int) : Except String (List UInt8) := do
  let pubrel ← L.generateDefaultPubrel packetId
  let packet ← L.convertPubrelIntoPacket pubrel []
  let _ ← L.interpretPubrelPacket packet
  return packet

namespace FreshReplies

open Program ClientSession

variable {L : Libraries}

/-- A session and the packet that it is given. -/
structure Inbound where
  client : ClientPtr
  packet : List UInt8
  deriving DecidableEq, Repr

/-- One packet. What `message_process` throws ends the process. -/
def step (m : Memory L) (e : Inbound) : Option (Memory L) :=
  match messageProcess L e.client e.packet m with
  | .ok _ m' => some m'
  | .error _ _ => none

/-- The reply to that packet: the one of its type, generated for it, and nothing for other
types. -/
def freshReply (m : Memory L) (e : Inbound) : Option (Except String (List UInt8)) :=
  match packetType e.packet with
  | some .connect => some do
      let _ ← L.interpretConnectPacket e.packet
      L.connack (m.broker.clientNo + 1)
  | some .subscribe => some do
      let temp ← L.interpretSubscribePacket e.packet
      let _ ← MqttSession.at? (L.subscribeList temp) 0
      L.suback (m.session e.client).clientN
  | some .pubrec => some do
      let pubrec ← L.interpretPubrecPacket e.packet
      L.pubrel (L.pubrecIdentifier pubrec)
  | _ => none

/-- The packet makes its session write the reply to it and no other byte of a vector, and
nothing when there is none. -/
def WritesFresh (m : Memory L) (e : Inbound) : Prop :=
  match freshReply m e with
  | none => Ends (messageProcess L e.client e.packet) m
      (fun _ m' => m'.written = m.written) fun _ m' => m'.written = m.written
  | some reply => Ends (messageProcess L e.client e.packet) m
      (fun _ m' => ∃ bytes, reply = .ok bytes ∧ m'.written = m.written ++ [(e.client, bytes)])
      fun _ _ => False

/-- The packet is no SUBSCRIBE, it is answered when it is a CONNECT or a PUBREC, and it does not
find `send_flag` set when it has no branch. -/
def Condition (m : Memory L) (e : Inbound) : Prop :=
  match packetType e.packet with
  | some .connect | some .pubrec => ∃ bytes, freshReply m e = some (.ok bytes)
  | some .subscribe => False
  | some .puback | some .pubcomp => True
  | _ => (m.session e.client).sendFlag = false

section Branches

variable {m : Memory L} {c : ClientPtr} {packet : List UInt8}

theorem ends_messageProcess {Q : Unit → Memory L → Prop} {E : String → Memory L → Prop} :
    Ends (messageProcess L c packet) m Q E ↔
      Ends (branch L c packet) m (fun bytes m' =>
        Q () (if (m'.session c).sendFlag then m'.write c bytes else m')) E := by
  unfold messageProcess
  rw [ends_bind]
  constructor
  · intro h
    refine h.imp (fun bytes m' h => ?_) fun _ _ h => h
    rw [ends_bind, ends_get] at h
    split <;> rename_i hflag
    · simpa [hflag] using h
    · simpa [hflag] using h
  · intro h
    refine h.imp (fun bytes m' h => ?_) fun _ _ h => h
    rw [ends_bind, ends_get]
    split at h <;> rename_i hflag
    · simpa [hflag] using h
    · simpa [hflag] using h

/-- The SUBACK is written behind the SUBSCRIBE. -/
theorem ends_subscribe (happ : L.SubackAppends) {Q : List UInt8 → Memory L → Prop}
    {E : String → Memory L → Prop} :
    Ends (subscribe L c packet) m Q E ↔
      match L.interpretSubscribePacket packet with
      | .error what => E what m
      | .ok temp =>
        match MqttSession.at? (L.subscribeList temp) 0 with
        | .error what => E what m
        | .ok data =>
          match L.suback (m.session c).clientN with
          | .error what => E what (m.addClient (L.topicFilter data) c)
          | .ok reply => Q (packet ++ reply)
              (((m.addClient (L.topicFilter data) c).write c (packet ++ reply)).setSendFlag c
                false) := by
  unfold subscribe
  cases L.interpretSubscribePacket packet with
  | error what => rfl
  | ok temp =>
    simp only [ends_bind, ends_call_ok]
    cases MqttSession.at? (L.subscribeList temp) 0 with
    | error what => rfl
    | ok data =>
      simp only [ends_call_ok, ends_modify, ends_get, Libraries.suback]
      rw [show ((m.addClient (L.topicFilter data) c).session c).clientN =
        (m.session c).clientN from rfl]
      cases L.generateDefaultSuback (m.session c).clientN 1 with
      | error what => rfl
      | ok suback =>
        rw [ok_bind, ends_call_ok, happ suback packet]
        cases L.convertSubackIntoPacket suback [] with
        | error what => rfl
        | ok reply => rfl

theorem ends_pubrec {Q : List UInt8 → Memory L → Prop} {E : String → Memory L → Prop} :
    Ends (pubrec L c packet) m Q E ↔
      match L.interpretPubrecPacket packet with
      | .error what => E what m
      | .ok temp =>
        match L.pubrel (L.pubrecIdentifier temp) with
        | .error what => E what m
        | .ok reply => Q reply (m.setSendFlag c true) := by
  unfold pubrec
  cases L.interpretPubrecPacket packet with
  | error what => rfl
  | ok temp =>
    simp only [ends_bind, ends_call_ok, Libraries.pubrel]
    cases L.generateDefaultPubrel (L.pubrecIdentifier temp) with
    | error what => rfl
    | ok pubrel =>
      rw [ok_bind, ends_call_ok]
      cases L.convertPubrelIntoPacket pubrel [] with
      | error what => rfl
      | ok reply =>
        rw [ok_bind, ends_call_ok]
        cases L.interpretPubrelPacket reply with
        | error what => rfl
        | ok again => rfl

end Branches

/-! ## One packet -/

section Types

variable {m : Memory L} {e : Inbound}

/-- A branch that sets the flag writes its reply, unless a call throws. -/
theorem writesFresh_answered (reply : Except String (List UInt8)) (after stopped : Memory L)
    (hbranch : ∀ {Q E}, Ends (branch L e.client e.packet) m Q E ↔
      match reply with
      | .error what => E what stopped
      | .ok bytes => Q bytes (after.setSendFlag e.client true))
    (hwritten : after.written = m.written) (hreply : freshReply m e = some reply) :
    WritesFresh m e ↔ ∃ bytes, freshReply m e = some (.ok bytes) := by
  unfold WritesFresh
  simp only [hreply, ends_messageProcess, hbranch]
  cases reply with
  | error what => simp
  | ok bytes =>
    simp only [session_setSendFlag, if_true]
    constructor
    · exact fun _ => ⟨bytes, rfl⟩
    · exact fun _ => ⟨bytes, rfl, congrArg (· ++ [(e.client, bytes)]) hwritten⟩

theorem writesFresh_connect (htype : packetType e.packet = some .connect) :
    WritesFresh m e ↔ ∃ bytes, freshReply m e = some (.ok bytes) := by
  have hbranch : branch L e.client e.packet = connect L e.client e.packet := by
    unfold branch
    rw [htype]
  cases hint : L.interpretConnectPacket e.packet with
  | error what =>
    refine writesFresh_answered (.error what) m m ?_ rfl ?_
    · simp [hbranch, ends_connect, hint]
    · simp [freshReply, htype, hint, error_bind]
  | ok temp =>
    refine writesFresh_answered (L.connack (m.broker.clientNo + 1)) (counted m e.client temp)
      (counted m e.client temp) ?_ rfl ?_
    · intro Q E
      have hends : Ends (connect L e.client e.packet) m Q E ↔ _ := ends_connect
      rw [hint] at hends
      rw [hbranch]
      exact hends
    · simp [freshReply, htype, hint, ok_bind]

theorem writesFresh_pubrec (htype : packetType e.packet = some .pubrec) :
    WritesFresh m e ↔ ∃ bytes, freshReply m e = some (.ok bytes) := by
  have hbranch : branch L e.client e.packet = pubrec L e.client e.packet := by
    unfold branch
    rw [htype]
  cases hint : L.interpretPubrecPacket e.packet with
  | error what =>
    refine writesFresh_answered (.error what) m m ?_ rfl ?_
    · simp [hbranch, ends_pubrec, hint]
    · simp [freshReply, htype, hint, error_bind]
  | ok temp =>
    refine writesFresh_answered (L.pubrel (L.pubrecIdentifier temp)) m m ?_ rfl ?_
    · simp [hbranch, ends_pubrec, hint]
    · simp [freshReply, htype, hint, ok_bind]

/-- PUBACK and PUBCOMP clear the flag, or their call throws. -/
theorem writesFresh_cleared {α : Type} {r : Except String α} (hreply : freshReply m e = none)
    (hbranch : branch L e.client e.packet = (do
      let _ ← call r
      modify fun m => m.setSendFlag e.client false
      return e.packet)) : WritesFresh m e := by
  unfold WritesFresh
  simp only [hreply, ends_messageProcess, hbranch, ends_bind]
  cases r with
  | error what => rfl
  | ok temp =>
    simp only [ends_call_ok, ends_modify, ends_pure, session_setSendFlag, Bool.false_eq_true,
      if_false]
    rfl

/-- A packet without a branch is written back when `send_flag` is set. -/
theorem writesFresh_unhandled (hreply : freshReply m e = none)
    (hbranch : branch L e.client e.packet = pure e.packet) :
    WritesFresh m e ↔ (m.session e.client).sendFlag = false := by
  unfold WritesFresh
  simp only [hreply, ends_messageProcess, hbranch, ends_pure]
  cases (m.session e.client).sendFlag with
  | false => simp
  | true => simp [Memory.write]

/-- The SUBSCRIBE stands in front of its SUBACK. -/
theorem not_writesFresh_subscribe (happ : L.SubackAppends)
    (htype : packetType e.packet = some .subscribe) : ¬ WritesFresh m e := by
  have hbranch : branch L e.client e.packet = subscribe L e.client e.packet := by
    unfold branch
    rw [htype]
  have hpacket : e.packet ≠ [] := by
    intro hnil
    rw [hnil] at htype
    cases htype
  unfold WritesFresh freshReply
  simp only [htype, ends_messageProcess, hbranch, ends_subscribe happ]
  cases L.interpretSubscribePacket e.packet with
  | error what => exact id
  | ok temp =>
    simp only [ok_bind]
    cases MqttSession.at? (L.subscribeList temp) 0 with
    | error what => exact id
    | ok data =>
      simp only [ok_bind]
      cases L.suback (m.session e.client).clientN with
      | error what => exact id
      | ok reply =>
        simp only [session_setSendFlag, Bool.false_eq_true, if_false]
        rintro ⟨bytes, hbytes, hwritten⟩
        obtain rfl := Except.ok.inj hbytes
        have hframe := List.append_cancel_left hwritten
        simp only [List.cons.injEq, Prod.mk.injEq, true_and, and_true] at hframe
        exact hpacket (List.append_left_eq_self.mp hframe)

theorem writesFresh_iff (happ : L.SubackAppends) : WritesFresh m e ↔ Condition m e := by
  unfold Condition
  cases htype : packetType e.packet with
  | none =>
    exact writesFresh_unhandled (by simp [freshReply, htype]) (by simp [branch, htype])
  | some type =>
    cases type with
    | connect => exact writesFresh_connect htype
    | pubrec => exact writesFresh_pubrec htype
    | subscribe => exact iff_false_intro (not_writesFresh_subscribe happ htype)
    | puback =>
      refine iff_true_intro (writesFresh_cleared (r := L.interpretPubackPacket e.packet) ?_ ?_)
      · simp [freshReply, htype]
      · simp [branch, htype, puback]
    | pubcomp =>
      refine iff_true_intro (writesFresh_cleared (r := L.interpretPubcompPacket e.packet) ?_ ?_)
      · simp [freshReply, htype]
      · simp [branch, htype, pubcomp]
    | connack | publish | pubrel | suback =>
      exact writesFresh_unhandled (by simp [freshReply, htype]) (by simp [branch, htype])

end Types

/-! ## Sequences of packets -/

/-- **Replies.** In any sequence of packets the sessions write fresh replies only, just when
every packet meets the condition as it comes. -/
theorem fresh_replies_iff (happ : L.SubackAppends) (m : Memory L) (es : List Inbound) :
    Machine.Along step WritesFresh m es ↔ Machine.Along step Condition m es :=
  Machine.along_iff (I := fun _ => True) (fun _ _ _ => writesFresh_iff happ)
    (fun _ _ _ _ _ _ => trivial) trivial es

theorem subackAppends_wire : Wire.libraries.SubackAppends := fun _ _ => rfl

/-- No session has had a packet, and `send_flag` is what the memory held. -/
def start (sendFlag : Bool) : Memory Wire.libraries := ⟨.init, fun _ => .new sendFlag, []⟩

/-- A CONNECT of that session, with an empty protocol name. -/
def connectOf (c : ClientPtr) : Inbound := ⟨c, [0x10, 2, 0, 0]⟩

def pubrecOf (c : ClientPtr) : Inbound := ⟨c, [0x50, 2, 0, 7]⟩

/-- A PINGREQ, which has no branch. -/
def pingreqOf (c : ClientPtr) : Inbound := ⟨c, [0xC0, 0]⟩

theorem connect_pubrec_fresh :
    Machine.Along step WritesFresh (start true) [connectOf 0, pubrecOf 0] := by
  refine (fresh_replies_iff subackAppends_wire _ _).mpr ?_
  refine ⟨⟨_, rfl⟩, fun m hm => ⟨⟨_, rfl⟩, fun m' hm' => trivial⟩⟩

/-- The PINGREQ after a CONNECT is sent back. -/
theorem pingreq_sent_back :
    (∃ m, Machine.run step (start false) [connectOf 0, pingreqOf 0] = some m ∧
      m.written = [(0, [0x20, 2, 0, 0]), (0, [0xC0, 0])]) ∧
      ¬ Machine.Along step WritesFresh (start false) [connectOf 0, pingreqOf 0] := by
  refine ⟨⟨_, rfl, rfl⟩, ?_⟩
  intro h
  have hping := (writesFresh_iff subackAppends_wire).mp (h.2 _ rfl).1
  cases hping

end FreshReplies

end BddsBroker
