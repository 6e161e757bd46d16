import BddsBroker.Mqtt.ClientCount
import BddsBroker.Mqtt.ClientSession

/-! The client identifiers of CONNACKs. Both kinds of session pass `"Client_" + client_n`,
which moves a pointer along the literal: the number of the client is counted for all of them,
and from the eighth client on the pointer leaves the literal. So the identifiers are well
defined, and then also distinct, in exactly the runs in which a CONNECT that evaluates the
expression finds fewer than seven clients counted (`assigned_iff`). -/

namespace BddsBroker

namespace CharPtr

/-- The pointer points to a character of the literal or to its terminator. -/
def InBounds (p : CharPtr) : Prop := 0 ≤ p.offset ∧ p.offset ≤ p.literal.length

instance (p : CharPtr) : Decidable p.InBounds := inferInstanceAs (Decidable (_ ∧ _))

/-- The string that a pointer within its literal points to. -/
def text (p : CharPtr) : String := String.ofList (p.literal.toList.drop p.offset.toNat)

theorem length_text {p : CharPtr} (h : p.InBounds) :
    (p.text.length : Int) = p.literal.length - p.offset := by
  obtain ⟨hlow, hhigh⟩ := h
  rw [text, String.length_ofList, List.length_drop, String.length_toList]
  omega

/-- Different places in one literal give different strings. -/
theorem text_ne {p q : CharPtr} (hp : p.InBounds) (hq : q.InBounds)
    (hliteral : p.literal = q.literal) (hne : p.offset ≠ q.offset) : p.text ≠ q.text := by
  intro htext
  have hlengthp := length_text hp
  have hlengthq := length_text hq
  rw [htext, hliteral] at hlengthp
  omega

end CharPtr

namespace AssignedIds

open Program

variable {L : Libraries}

/-- The packet makes its session evaluate `"Client_" + client_n`. -/
def evaluates (L : Libraries) (packet : List UInt8) : Bool :=
  match packetType packet, L.interpretConnectPacket packet,
      L.writeJson [("BROKER.Ip", "192.168.0.117"), ("BROKER.Port", "32889")] with
  | some .connect, .ok _, .ok _ => true
  | _, _, _ => false

theorem counted_of_evaluates {packet : List UInt8} (h : evaluates L packet = true) :
    Counted L packet := by
  unfold evaluates at h
  split at h
  · rename_i htype hint hjson
    exact ⟨htype, _, hint⟩
  · cases h

/-! ## The numbers that a packet gives -/

section Mqtt

variable {s : SessionPtr} {recvData : List UInt8}

theorem messageProcess_counts {b b' : Broker L} (h : evaluates L recvData = true)
    (hproc : MqttSession.messageProcess L s recvData b = some b') :
    b'.clientNo = b.clientNo + 1 ∧ (b'.session s).clientN = b.clientNo + 1 := by
  obtain ⟨htype, temp, hint⟩ := counted_of_evaluates h
  have hcounted := MqttSession.clientN_counted b s temp
  rw [MqttSession.messageProcess_of_connect htype, hint] at hproc
  obtain rfl := Option.some.inj hproc
  dsimp only
  split <;> exact ⟨rfl, hcounted⟩

end Mqtt

section Client

variable {c : ClientPtr} {packet : List UInt8}

/-- What a branch does when it counts nobody. -/
abbrev Uncounts {α : Type} (x : ClientSession.Proc L α) : Prop :=
  Moves (fun m : ClientSession.Memory L => m.broker.clientNo) (fun n n' => n' = n)
    (fun _ => True) x

theorem uncounts_call {α : Type} (r : Except String α) :
    Uncounts (ClientSession.call r : ClientSession.Proc L α) :=
  moves_ofExcept (fun _ => trivial) r

theorem uncounts_modify {f : ClientSession.Memory L → ClientSession.Memory L}
    (h : ∀ m, (f m).broker.clientNo = m.broker.clientNo := by exact fun _ => rfl) :
    Uncounts (modify f : ClientSession.Proc L Unit) :=
  moves_modify h

theorem uncounts_branch (htype : packetType packet ≠ some .connect) :
    Uncounts (ClientSession.branch L c packet) := by
  unfold ClientSession.branch
  split
  · rename_i hconnect
    exact absurd hconnect htype
  · refine (uncounts_call _).bind fun temp => (uncounts_call _).bind fun data => ?_
    refine Moves.bind uncounts_modify fun _ => moves_get.bind fun m => ?_
    refine (uncounts_call _).bind fun suback => (uncounts_call _).bind fun reply => ?_
    refine Moves.bind uncounts_modify fun _ => Moves.bind uncounts_modify fun _ => moves_pure _
  · exact (uncounts_call _).bind fun _ => Moves.bind uncounts_modify fun _ => moves_pure _
  · refine (uncounts_call _).bind fun temp => (uncounts_call _).bind fun pubrel => ?_
    refine (uncounts_call _).bind fun reply => (uncounts_call _).bind fun _ => ?_
    exact Moves.bind uncounts_modify fun _ => moves_pure _
  · exact (uncounts_call _).bind fun _ => Moves.bind uncounts_modify fun _ => moves_pure _
  · exact moves_pure _

/-- What a packet of a `BROKERSUB` session does to the counter and to the session's number. -/
structure Numbers (c : ClientPtr) (packet : List UInt8) (m m' : ClientSession.Memory L) :
    Prop where
  grows : m'.broker.clientNo = m.broker.clientNo ∨ m'.broker.clientNo = m.broker.clientNo + 1
  number : evaluates L packet = true →
    m'.broker.clientNo = m.broker.clientNo + 1 ∧
      (m'.session c).clientN = m.broker.clientNo + 1

/-- The end of the branch leaves the numbers alone. -/
theorem numbers_branch (m : ClientSession.Memory L) :
    Ends (ClientSession.branch L c packet) m (fun _ => Numbers c packet m)
      fun _ => Numbers c packet m := by
  by_cases htype : packetType packet = some .connect
  · have hbranch : ClientSession.branch L c packet = ClientSession.connect L c packet := by
      unfold ClientSession.branch
      rw [htype]
    rw [hbranch, ClientSession.ends_connect]
    cases hint : L.interpretConnectPacket packet with
    | error what =>
      refine ⟨.inl rfl, ?_⟩
      intro h
      obtain ⟨-, temp, hok⟩ := counted_of_evaluates h
      rw [hint] at hok
      cases hok
    | ok temp =>
      have hcounted := ClientSession.clientN_counted m c temp
      dsimp only
      split
      · exact ⟨.inr rfl, fun _ => ⟨rfl, hcounted⟩⟩
      · refine ⟨.inr rfl, fun _ => ⟨rfl, ?_⟩⟩
        rw [ClientSession.session_setSendFlag]
        exact hcounted
  · have hnot : ¬ evaluates L packet = true := fun h => htype (counted_of_evaluates h).1
    have hkept : ∀ m' : ClientSession.Memory L, Relation.ReflTransGen (fun n n' => n' = n)
        m.broker.clientNo m'.broker.clientNo → Numbers c packet m m' :=
      fun m' hm => ⟨.inl (kept (f := fun n : Int => n) (fun _ _ h => h) hm), fun h => absurd h hnot⟩
    exact (uncounts_branch (c := c) htype m).imp (fun _ => hkept) fun _ m' hm => hkept m' hm.2

theorem numbers_messageProcess (m : ClientSession.Memory L) :
    Ends (ClientSession.messageProcess L c packet) m (fun _ => Numbers c packet m)
      fun _ => Numbers c packet m := by
  unfold ClientSession.messageProcess
  rw [ends_bind]
  refine (numbers_branch m).imp ?_ fun _ _ h => h
  intro reply m' h
  rw [ends_bind, ends_get]
  split
  · exact ⟨h.grows, h.number⟩
  · exact h

end Client

/-! ## Runs -/

structure State (L : Libraries) where
  memory : ClientSession.Memory L
  /-- What was passed to `generate_default_connack` as the client identifier. -/
  assigned : List CharPtr
  /-- An exception has left a thread of a `BROKERSUB` session, and the process has ended. -/
  ended : Bool

/-- The members `send_flag` begin with anything. -/
def init (sendFlag : ClientPtr → Bool) : State L where
  memory := ⟨.init, fun c => .new (sendFlag c), []⟩
  assigned := []
  ended := false

inductive Event
  | broker (e : Run.Event)
  /-- A packet of a `BROKERSUB` session. -/
  | client (c : ClientPtr) (packet : List UInt8)
  deriving DecidableEq, Repr

/-- `"Client_" + client_n`, where a packet makes its session evaluate this. -/
def passed (L : Libraries) (packet : List UInt8) (clientN : Int) : List CharPtr :=
  if evaluates L packet then [⟨"Client_", clientN⟩] else []

/-- The identifiers that an event of the broker passes, seen from the broker after it. -/
def passedBy (b : Broker L) : Run.Event → List CharPtr
  | .packet s recvData => passed L recvData (b.session s).clientN
  | _ => []

def step (st : State L) (e : Event) : Option (State L) :=
  if st.ended then none
  else
    match e with
    | .broker e => (Run.step st.memory.broker e).map fun b =>
        { st with
          memory := { st.memory with broker := b }
          assigned := st.assigned ++ passedBy b e }
    | .client c packet =>
        match ClientSession.messageProcess L c packet st.memory with
        | .ok _ m => some ⟨m, st.assigned ++ passed L packet (m.session c).clientN, false⟩
        | .error _ m => some ⟨m, st.assigned ++ passed L packet (m.session c).clientN, true⟩

/-- The identifiers are within their literal, and those of different numbers differ. -/
structure WellDefined (st : State L) : Prop where
  inBounds : ∀ p ∈ st.assigned, p.InBounds
  distinct : ∀ p ∈ st.assigned, ∀ q ∈ st.assigned, p.offset ≠ q.offset → p.text ≠ q.text

/-- The event makes a session evaluate `"Client_" + client_n`. -/
def Evaluates (st : State L) : Event → Prop
  | .broker (.packet s recvData) =>
      st.ended = false ∧ s ∈ st.memory.broker.mqttClients ∧ evaluates L recvData = true
  | .client _ packet => st.ended = false ∧ evaluates L packet = true
  | .broker _ => False

/-- Fewer than seven clients are counted when it is evaluated. -/
def Condition (st : State L) (e : Event) : Prop :=
  Evaluates st e → st.memory.broker.clientNo < 7

/-- **What a step does** to the counter and to the identifiers. -/
structure Assigns (st : State L) (e : Event) (st' : State L) : Prop where
  grows : st'.memory.broker.clientNo = st.memory.broker.clientNo ∨
    st'.memory.broker.clientNo = st.memory.broker.clientNo + 1
  evaluated : Evaluates st e →
    st'.assigned = st.assigned ++ [⟨"Client_", st.memory.broker.clientNo + 1⟩]
  other : ¬ Evaluates st e → st'.assigned = st.assigned

theorem clientNo_step {b b' : Broker L} {e : Run.Event} (hs : Run.step b e = some b')
    (he : ∀ s recvData, e ≠ .packet s recvData) : b'.clientNo = b.clientNo := by
  cases e with
  | accept s =>
    obtain ⟨-, rfl⟩ := Run.step_accept hs
    rfl
  | packet s recvData => exact absurd rfl (he s recvData)
  | dispatch i =>
    obtain ⟨task, r, ⟨-, hr⟩, rfl⟩ := Run.dispatch_eq_some.mp hs
    have hrun := Sending.run_work (mqttEndPointWriter_sending hr)
    exact (kept (f := Broker.clientNo) (fun _ _ => Connections.clientNo_work) hrun :)
  | addClient topicName client =>
    obtain rfl := Option.some.inj hs
    rfl
  | sample topicName json packet =>
    obtain rfl := Option.some.inj hs
    exact kept (f := Broker.clientNo) (fun _ _ => Connections.clientNo_work)
      (forwardSample_work topicName json packet b)

theorem assigns_packet {st : State L} (hended : st.ended = false) {s : SessionPtr}
    {recvData : List UInt8} {b : Broker L}
    (hs : Run.step st.memory.broker (.packet s recvData) = some b) :
    Assigns st (.broker (.packet s recvData)) { st with
      memory := { st.memory with broker := b }
      assigned := st.assigned ++ passed L recvData (b.session s).clientN } := by
  obtain ⟨hmem, hproc⟩ := Run.step_packet hs
  by_cases h : evaluates L recvData = true
  · obtain ⟨hcount, hnumber⟩ := messageProcess_counts h hproc
    refine ⟨.inr hcount, ?_, ?_⟩
    · intro _
      rw [passed, if_pos h, hnumber]
    · intro hnot
      exact absurd ⟨hended, hmem, h⟩ hnot
  · refine ⟨?_, fun heval => absurd heval.2.2 h, ?_⟩
    · rcases clientNo_messageProcess hproc with ⟨-, hcount⟩ | ⟨-, hcount⟩
      · exact .inr hcount
      · exact .inl hcount
    · intro _
      rw [passed, if_neg h, List.append_nil]

theorem assigns_client {st : State L} (hended : st.ended = false) {c : ClientPtr}
    {packet : List UInt8} {m : ClientSession.Memory L} (h : Numbers c packet st.memory m)
    (ended : Bool) :
    Assigns st (.client c packet)
      ⟨m, st.assigned ++ passed L packet (m.session c).clientN, ended⟩ := by
  refine ⟨h.grows, ?_, ?_⟩
  · rintro ⟨-, heval⟩
    rw [passed, if_pos heval, (h.number heval).2]
  · intro hnot
    rw [passed, if_neg fun heval => hnot ⟨hended, heval⟩, List.append_nil]

theorem step_assigns {st st' : State L} {e : Event} (hs : step st e = some st') :
    Assigns st e st' := by
  unfold step at hs
  split at hs
  · cases hs
  · rename_i hended
    rw [Bool.not_eq_true] at hended
    cases e with
    | broker e =>
      obtain ⟨b, hb, rfl⟩ := Option.map_eq_some_iff.mp hs
      by_cases he : ∃ s recvData, e = .packet s recvData
      · obtain ⟨s, recvData, rfl⟩ := he
        exact assigns_packet hended hb
      · have hother : ∀ s recvData, e ≠ .packet s recvData := by
          rintro s recvData rfl
          exact he ⟨s, recvData, rfl⟩
        refine ⟨.inl (clientNo_step hb hother), ?_, ?_⟩
        · intro heval
          cases e with
          | packet s recvData => exact absurd rfl (hother s recvData)
          | _ => exact heval.elim
        · intro _
          cases e with
          | packet s recvData => exact absurd rfl (hother s recvData)
          | _ => exact List.append_nil _
    | client c packet =>
      have hnumbers : Ends (ClientSession.messageProcess L c packet) st.memory
          (fun _ => Numbers c packet st.memory) fun _ => Numbers c packet st.memory :=
        numbers_messageProcess st.memory
      unfold Ends at hnumbers
      dsimp only at hs
      split at hs
      · rename_i m hrun
        rw [hrun] at hnumbers
        obtain rfl := Option.some.inj hs
        exact assigns_client hended hnumbers false
      · rename_i m hrun
        rw [hrun] at hnumbers
        obtain rfl := Option.some.inj hs
        exact assigns_client hended hnumbers true

/-- Every CONNECT that evaluates the expression is processed. -/
theorem exists_step {st : State L} {e : Event} (h : Evaluates st e) :
    ∃ st', step st e = some st' := by
  unfold step
  cases e with
  | broker e =>
    cases e with
    | packet s recvData =>
      obtain ⟨hended, hmem, heval⟩ := h
      obtain ⟨b, hb⟩ := Connections.messageProcess_connect (L := L) (s := s)
        (counted_of_evaluates heval).1 st.memory.broker
      simp [hended, Run.step, hmem, hb]
    | _ => exact h.elim
  | client c packet =>
    simp only [h.1, Bool.false_eq_true, if_false]
    split <;> exact ⟨_, rfl⟩

/-- The identifiers point into the one literal. -/
structure Pointing (st : State L) : Prop where
  counted : 0 ≤ st.memory.broker.clientNo
  assigned : ∀ p ∈ st.assigned, p.literal = "Client_" ∧ p.InBounds

theorem Pointing.wellDefined {st : State L} (h : Pointing st) : WellDefined st where
  inBounds p hp := (h.assigned p hp).2
  distinct p hp q hq hne := CharPtr.text_ne (h.assigned p hp).2 (h.assigned q hq).2
    ((h.assigned p hp).1.trans (h.assigned q hq).1.symm) hne

theorem step_pointing {st st' : State L} {e : Event} (hst : Pointing st) (hc : Condition st e)
    (hs : step st e = some st') : Pointing st' := by
  have h := step_assigns hs
  have hcounted := hst.counted
  refine ⟨?_, ?_⟩
  · rcases h.grows with hgrows | hgrows <;> omega
  · by_cases heval : Evaluates st e
    · rw [h.evaluated heval]
      refine List.forall_mem_append.mpr ⟨hst.assigned, ?_⟩
      rw [List.forall_mem_singleton]
      have hseven := hc heval
      have hlength : "Client_".length = 7 := by decide
      refine ⟨rfl, ?_, ?_⟩
      · show 0 ≤ st.memory.broker.clientNo + 1
        omega
      · show st.memory.broker.clientNo + 1 ≤ "Client_".length
        omega
    · rw [h.other heval]
      exact hst.assigned

/-- A CONNECT whose identifier is within the literal has found fewer than seven clients. -/
theorem condition_of_wellDefined {st : State L} {e : Event}
    (h : ∀ st', step st e = some st' → WellDefined st') : Condition st e := by
  intro heval
  obtain ⟨st', hs⟩ := exists_step heval
  have hbounds := (h st' hs).inBounds ⟨"Client_", st.memory.broker.clientNo + 1⟩ (by
    rw [(step_assigns hs).evaluated heval]
    exact List.mem_append_right _ List.mem_cons_self)
  have hhigh : st.memory.broker.clientNo + 1 ≤ "Client_".length := hbounds.2
  have hlength : "Client_".length = 7 := by decide
  omega

/-- **The assigned identifiers** are well defined and distinct, in every state of a run,
exactly if every CONNECT that evaluates the expression finds fewer than seven clients. -/
theorem assigned_iff (sendFlag : ClientPtr → Bool) (es : List Event) :
    (∀ fs st, fs <+: es → Machine.run step (init sendFlag : State L) fs = some st →
        WellDefined st) ↔
      Machine.Along step Condition (init sendFlag : State L) es := by
  have hinit : Pointing (init sendFlag : State L) := ⟨Int.le_refl 0, by simp [init]⟩
  refine Machine.forall_good_iff_along (I := Pointing) ?_ ?_ ?_ hinit es
  · exact fun st hst => hst.wellDefined
  · exact fun st e st' => step_pointing
  · exact fun st e _ => condition_of_wellDefined

/-- So many sessions are accepted and connect, one after the other. -/
def clients (n : Nat) : List Event :=
  (List.range n).flatMap fun s =>
    [.broker (.accept s), .broker (.packet s (Wire.connectAs (UInt8.ofNat (97 + s))))]

/-- The eighth client gets a pointer behind the terminator of the literal. -/
theorem eighth_not_wellDefined :
    ∃ st : State Wire.libraries, Machine.run step (init fun _ => false) (clients 8) = some st ∧
      st.assigned.map CharPtr.offset = [1, 2, 3, 4, 5, 6, 7, 8] ∧
      (CharPtr.mk "Client_" 1).text = "lient_" ∧ ¬ (CharPtr.mk "Client_" 8).InBounds ∧
      ¬ WellDefined st := by
  have hrun : (Machine.run step (init fun _ => false : State Wire.libraries) (clients 8)).map
      State.assigned = some ([1, 2, 3, 4, 5, 6, 7, 8].map fun n => ⟨"Client_", n⟩) := by
    decide +kernel
  obtain ⟨st, hst, hassigned⟩ := Option.map_eq_some_iff.mp hrun
  refine ⟨st, hst, ?_, by decide, by decide, ?_⟩
  · rw [hassigned]
    rfl
  · intro h
    have hbounds := h.inBounds ⟨"Client_", 8⟩ (by rw [hassigned]; decide)
    exact absurd hbounds (by decide)

end AssignedIds

end BddsBroker
