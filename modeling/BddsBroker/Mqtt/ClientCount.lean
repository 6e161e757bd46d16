import Mathlib.Data.Finset.Card
import BddsBroker.Mqtt.Connections

/-! The registries and the connections. `mqtt_clients_` and the topics hold what `start` and
SUBSCRIBE put there, and `client_no` counts the CONNECTs. The handlers that would take a
session out again are empty, and CONNECT counts a session as often as it connects. So the
registries follow the connections exactly in the runs without a failed read or write in
which a CONNECT is counted when, and only when, it is its session's first one
(`registries_follow_iff`). -/

namespace BddsBroker

open Program

/-! ## What a packet counts -/

section Counts

variable {L : Libraries} {s : SessionPtr} {recvData : List UInt8}

/-- Nobody is counted. -/
def Uncounted (b b' : Broker L) : Prop := b'.clientNo = b.clientNo

/-- The packet is a CONNECT that is understood. -/
def Counted (L : Libraries) (recvData : List UInt8) : Prop :=
  packetType recvData = some .connect ∧ ∃ m, L.interpretConnectPacket recvData = .ok m

/-- Only CONNECT counts. -/
theorem uncounted_covers : MqttSession.Covers s (Uncounted (L := L)) where
  task _ _ _ _ := rfl
  enqueueDds _ _ := rfl
  subscribe _ _ := rfl
  setRetainMessages _ := rfl
  storePublish _ _ _ := rfl
  erasePublish _ _ := rfl

/-- **What a packet counts.** -/
theorem clientNo_messageProcess {b b' : Broker L}
    (h : MqttSession.messageProcess L s recvData b = some b') :
    (Counted L recvData ∧ b'.clientNo = b.clientNo + 1) ∨
      (¬ Counted L recvData ∧ b'.clientNo = b.clientNo) := by
  by_cases htype : packetType recvData = some .connect
  · rw [MqttSession.messageProcess_of_connect htype] at h
    obtain rfl := Option.some.inj h
    cases hm : L.interpretConnectPacket recvData with
    | ok m =>
      refine .inl ⟨⟨htype, m, hm⟩, ?_⟩
      dsimp only
      split <;> rfl
    | error what =>
      refine .inr ⟨?_, rfl⟩
      rintro ⟨-, m, hok⟩
      rw [hm] at hok
      cases hok
  · have hcounted : ¬ Counted L recvData := fun h => htype h.1
    have hrun : Relation.ReflTransGen Uncounted b b' :=
      MqttSession.run_of_makes (uncounted_covers.body_makes htype) (fun _ _ => rfl) h
    exact .inr ⟨hcounted, kept (fun _ _ h => h) hrun⟩

end Counts

end BddsBroker

namespace BddsBroker.Connections

open OneWrite Program

variable {L : Libraries} {T W : Type}

/-! ## Registries that follow the connections -/

/-- The sessions that have sent a CONNECT. -/
def State.connected (st : State L T W) : List SessionPtr :=
  (st.processed.filter fun p => packetType p.contents == some .connect).map Packet.session

/-- The sessions on which a read or a write has failed. -/
def State.failed (st : State L T W) : List SessionPtr := st.readFailed ++ st.writeFailed

structure Follows (st : State L T W) : Prop where
  clients : ∀ s ∈ st.broker.mqttClients, s ∉ st.failed
  topics : ∀ topic ∈ st.broker.topicList, ∀ s ∈ topic.mqttClientSessions, s ∉ st.failed
  count : st.broker.clientNo = (st.connected.toFinset.filter (· ∉ st.failed)).card

/-- No handler is called with an error, and a CONNECT is understood exactly if it is its
session's first one. -/
def Condition (st : State L T W) : Event T W → Prop
  | .handle t i => st.threads t = .idle → ∀ s, st.receives[i]? ≠ some ⟨s, .failed⟩
  | .written t i error => error = true → st.threads t = .idle → st.writes[i]? = none
  | .process t => ∀ s, st.threads t = .processing s →
      packetType (st.packet s) = some .connect →
        ((∃ m, L.interpretConnectPacket (st.packet s) = .ok m) ↔ s ∉ st.connected)
  | _ => True

/-- What holds as long as the condition does. -/
structure Counts (st : State L T W) : Prop where
  owned : Owned st
  failed : st.failed = []
  count : st.broker.clientNo = st.connected.toFinset.card

theorem Counts.follows {st : State L T W} (h : Counts st) : Follows st where
  clients s _ := h.failed ▸ List.not_mem_nil
  topics topic _ s _ := h.failed ▸ List.not_mem_nil
  count := by
    rw [h.failed, h.count, Finset.filter_true_of_mem fun s _ => List.not_mem_nil]

theorem counts_init : Counts (State.init : State L T W) := ⟨owned_init, rfl, rfl⟩

theorem clientNo_work {b b' : Broker L} (h : Work b b') : b'.clientNo = b.clientNo := by
  cases h <;> rfl

/-- A processed packet adds its session if it is the first CONNECT. -/
theorem card_connected (st : State L T W) {st' : State L T W} (s : SessionPtr)
    (h : st'.processed = st.processed ++ [⟨s, st.packet s⟩]) :
    st'.connected.toFinset.card = st.connected.toFinset.card +
      if packetType (st.packet s) = some .connect ∧ s ∉ st.connected then 1 else 0 := by
  have hconnected : st'.connected = st.connected ++
      if packetType (st.packet s) = some .connect then [s] else [] := by
    unfold State.connected
    rw [h]
    by_cases htype : packetType (st.packet s) = some .connect <;> simp [htype]
  rw [hconnected]
  by_cases htype : packetType (st.packet s) = some .connect
  · by_cases hmem : s ∈ st.connected
    · simp [htype, hmem]
    · simp [htype, hmem]
  · simp [htype]

/-- A CONNECT is always processed to its end. -/
theorem messageProcess_connect {s : SessionPtr} {recvData : List UInt8}
    (htype : packetType recvData = some .connect) (b : Broker L) :
    ∃ b', MqttSession.messageProcess L s recvData b = some b' :=
  ⟨_, MqttSession.messageProcess_of_connect htype b⟩

section Steps

variable [DecidableEq T] [DecidableEq W]

theorem step_counts {st st' : State L T W} {e : Event T W} (hst : Counts st)
    (hc : Condition st e) (hs : Step st e st') : Counts st' := by
  have howned := step_owned hst.owned hs
  cases hs with
  | handleError ht hi => exact absurd hi (hc ht _)
  | @process t s b ht hb =>
    refine ⟨howned, hst.failed, ?_⟩
    have hiff : Counted L (st.packet s) ↔
        packetType (st.packet s) = some .connect ∧ s ∉ st.connected :=
      and_congr_right (hc s ht)
    have hcount := hst.count
    have hbefore : st.broker.clientNo = (st.writers.broker).clientNo := rfl
    rw [card_connected st s rfl]
    show b.clientNo = _
    rcases clientNo_messageProcess hb with ⟨hcounted, hb⟩ | ⟨hcounted, hb⟩
    · rw [if_pos (hiff.mp hcounted)]
      omega
    · rw [if_neg (hcounted ∘ hiff.mpr)]
      omega
  | @written t i w error ht hw =>
    cases error with
    | false => exact ⟨howned, by simpa [State.failed] using hst.failed, hst.count⟩
    | true =>
      rw [hc rfl ht] at hw
      cases hw
  | other he hw =>
    have hsame := other_same (f := Broker.clientNo) (fun _ _ => clientNo_work)
      (fun _ _ _ => rfl) he hw
    exact ⟨howned, hst.failed, hsame.trans hst.count⟩
  | _ => exact ⟨howned, hst.failed, hst.count⟩

/-- A step that leads to registries that follow the connections has met the condition. -/
theorem condition_of_follows {st : State L T W} {e : Event T W} (hst : Counts st)
    (h : ∀ st', step st e = some st' → Follows st') : Condition st e := by
  cases e with
  | handle t i =>
    intro ht s hi
    have hfollows := h { st with
      receives := st.receives.eraseIdx i
      readFailed := st.readFailed ++ [s] } (by simp only [step, handle, ht, hi])
    refine hfollows.clients s (hst.owned.receives _ (List.mem_of_getElem? hi)) ?_
    simp [State.failed]
  | written t i error =>
    rintro rfl ht
    cases hi : st.writes[i]? with
    | none => rfl
    | some w =>
      have hfollows := h { st with
        writes := st.writes.eraseIdx i
        writeFailed := st.writeFailed ++ [w.session] } (by simp only [step, written, ht, hi]; rfl)
      refine absurd ?_ (hfollows.clients w.session (hst.owned.writes _ (List.mem_of_getElem? hi)))
      simp [State.failed]
  | process t =>
    intro s ht htype
    obtain ⟨b, hb⟩ := messageProcess_connect (s := s) htype st.broker
    let st' := { st.adopt b with
      processed := st.processed ++ [Packet.mk s (st.packet s)] }.goto t (.rearming s)
    have hstep : step st (.process t) = some st' := by
      simp only [step, process, ht, hb, Option.map_some]
      rfl
    have hfollows := h st' hstep
    have hfailed : st'.failed = [] := hst.failed
    have hcount : b.clientNo = st'.connected.toFinset.card := by
      have hfiltered := hfollows.count
      rw [hfailed, Finset.filter_true_of_mem fun s _ => List.not_mem_nil] at hfiltered
      exact hfiltered
    rw [card_connected st s rfl] at hcount
    have hbefore := hst.count
    rcases clientNo_messageProcess hb with ⟨⟨-, hm⟩, hb⟩ | ⟨hcounted, hb⟩
    · refine ⟨fun _ hmem => ?_, fun _ => hm⟩
      rw [if_neg fun h => h.2 hmem] at hcount
      omega
    · have hm : ¬ ∃ m, L.interpretConnectPacket (st.packet s) = .ok m := fun hm =>
        hcounted ⟨htype, hm⟩
      refine ⟨fun h => absurd h hm, ?_⟩
      intro hmem
      rw [if_pos ⟨htype, hmem⟩] at hcount
      omega
  | _ => trivial

/-- **The registries follow the connections**, in every state of a run, exactly if no
handler is called with an error and the CONNECTs that are understood are the first ones of
their sessions. -/
theorem registries_follow_iff (es : List (Event T W)) :
    (∀ fs st, fs <+: es → Machine.run step (State.init : State L T W) fs = some st →
        Follows st) ↔
      Machine.Along step Condition (State.init : State L T W) es := by
  refine Machine.forall_good_iff_along (I := Counts) ?_ ?_ ?_ counts_init es
  · exact fun st hst => hst.follows
  · exact fun st e st' hst hc hs => step_counts hst hc (step_cases hs)
  · exact fun st e hst h => condition_of_follows hst h

end Steps

/-- Session 1 is accepted and connects, and then its peer closes the connection. -/
def connectAndClose {T W : Type} (t : T) : List (Event T W) :=
  [.accept t 1 (List.replicate 1024 0), .read t] ++ serve t (Wire.connectAs 97) ++
    [.read t, .receiveError 0, .handle t 0]

theorem closed_session_registered :
    ∃ st : State Wire.libraries Unit Unit,
      Machine.run step State.init (connectAndClose ()) = some st ∧ st.readFailed = [1] ∧
        st.broker.mqttClients = [1] ∧ st.broker.clientNo = 1 ∧ ¬ Follows st := by
  have hrun : (Machine.run step (State.init : State Wire.libraries Unit Unit)
      (connectAndClose ())).map (fun st =>
        (st.readFailed, st.broker.mqttClients, st.broker.clientNo)) = some ([1], [1], 1) := by
    decide +kernel
  obtain ⟨st, hr, hst⟩ := Option.map_eq_some_iff.mp hrun
  simp only [Prod.mk.injEq] at hst
  obtain ⟨hfailed, hclients, hcount⟩ := hst
  refine ⟨st, hr, hfailed, hclients, hcount, ?_⟩
  intro hfollows
  refine hfollows.clients 1 (hclients ▸ List.mem_singleton_self 1) ?_
  simp [State.failed, hfailed]

end BddsBroker.Connections
