import Mathlib.Logic.ExistsUnique
import BddsBroker.Mqtt.AtMostOnce

/-! What `send_message` does with its task. Either nobody has the id, or the client accepts
the task's data, or the task goes back to the queue and nothing is written; a SUBACK and a
packet that is too long make no exception. But a PUBLISH that finds `sub_requested` unset
goes back and is sent all the same, emptied by the move, and `send` accepts what is left.
So a call conserves its task exactly if it is no such PUBLISH
(`sendMessage_conserves_iff`). -/

namespace BddsBroker.Conservation

variable {L : Libraries}

inductive Outcome
  /-- No session has the id. -/
  | absent
  | accepted
  /-- The task is in the queue again. -/
  | returned
  deriving DecidableEq, Repr

/-- The call with these sends and this broker after it has that outcome. What `send`
refuses it does not write. -/
def Takes (b : Broker L) (clientId : String) (task : MqttTask) (b' : Broker L)
    (sends : List SendCall) : Outcome → Prop
  | .absent => b.getClient clientId = none ∧ sends = [] ∧ b'.mqttTaskQueue = b.mqttTaskQueue
  | .accepted => ∃ client, b.getClient clientId = some client ∧
      sends = [⟨client, task.data, task.taskId, 0⟩] ∧ b'.mqttTaskQueue = b.mqttTaskQueue
  | .returned => (∀ call ∈ sends, call.result < 0) ∧
      b'.mqttTaskQueue = b.mqttTaskQueue ++ [task]

/-- A PUBLISH for a session that has not requested a subscription. -/
def Unready (b : Broker L) (clientId : String) (task : MqttTask) : Prop :=
  ∃ client, b.getClient clientId = some client ∧ (b.session client).subRequested = false ∧
    packetType task.data = some .publish

/-- The call has one outcome, and an unready PUBLISH goes back. -/
structure Conserves (b : Broker L) (clientId : String) (task : MqttTask) (b' : Broker L)
    (sends : List SendCall) : Prop where
  outcome : ∃! o, Takes b clientId task b' sends o
  unready : Unready b clientId task → Takes b clientId task b' sends .returned

variable {b b' : Broker L} {clientId : String} {task : MqttTask} {sends : List SendCall}

/-! ## The outcomes -/

theorem queue_ne_snoc (queue : List MqttTask) (task : MqttTask) : queue ≠ queue ++ [task] := by
  intro h
  have hlength := congrArg List.length h
  simp at hlength

/-- No call has two outcomes. -/
theorem Takes.unique {o p : Outcome} (ho : Takes b clientId task b' sends o)
    (hp : Takes b clientId task b' sends p) : o = p := by
  cases o with
  | absent =>
    obtain ⟨hnone, -, hqueue⟩ := ho
    cases p with
    | absent => rfl
    | accepted =>
      obtain ⟨client, hclient, -⟩ := hp
      exact nomatch hnone.symm.trans hclient
    | returned => exact absurd (hqueue.symm.trans hp.2) (queue_ne_snoc _ task)
  | accepted =>
    obtain ⟨client, hclient, -, hqueue⟩ := ho
    cases p with
    | absent => exact nomatch hp.1.symm.trans hclient
    | accepted => rfl
    | returned => exact absurd (hqueue.symm.trans hp.2) (queue_ne_snoc _ task)
  | returned =>
    obtain ⟨-, hqueue⟩ := ho
    cases p with
    | absent => exact absurd (hp.2.2.symm.trans hqueue) (queue_ne_snoc _ task)
    | accepted =>
      obtain ⟨client, -, -, hsame⟩ := hp
      exact absurd (hsame.symm.trans hqueue) (queue_ne_snoc _ task)
    | returned => rfl

theorem Takes.conserves {o : Outcome} (h : Takes b clientId task b' sends o)
    (hready : ¬ Unready b clientId task) : Conserves b clientId task b' sends where
  outcome := ⟨o, h, fun _ hp => hp.unique h⟩
  unready hunready := absurd hunready hready

/-! ## A connected client -/

/-- A PUBLISH that finds the flag unset goes back, and an emptied frame is accepted. -/
theorem sendTo_unready {client : SessionPtr} (hready : (b.session client).subRequested = false)
    (task : MqttTask) :
    sendTo client task (some .publish) b =
      (b.enqueueMqtt task, [⟨client, [], task.taskId, 0⟩]) := by
  simp [sendTo, hready, MqttSession.send]

/-- Any other task is accepted, or it goes back when it is too long. -/
theorem sendTo_ready {client : SessionPtr} {type : Option ControlPacketType}
    (hready : ¬ ((b.session client).subRequested = false ∧ type = some .publish))
    (task : MqttTask) :
    ∃ b', sendTo client task type b =
        (b', [⟨client, task.data, task.taskId, MqttSession.send task.data⟩]) ∧
      b'.mqttTaskQueue = if MqttSession.send task.data < 0 then b.mqttTaskQueue ++ [task]
        else b.mqttTaskQueue := by
  have hkeep : (!(b.session client).subRequested && type == some .publish) = false := by
    rw [Bool.and_eq_false_iff]
    by_cases hflag : (b.session client).subRequested = false
    · exact .inr (beq_false_of_ne fun htype => hready ⟨hflag, htype⟩)
    · exact .inl (by simpa using hflag)
  let b₁ := if (!(b.session client).subRequested && type == some .suback) = true
    then b.setSubRequested client else b
  have hflagged : b₁.mqttTaskQueue = b.mqttTaskQueue := by
    unfold b₁
    split <;> rfl
  have hsend : sendTo client task type b =
      (if MqttSession.send task.data < 0 then b₁.enqueueMqtt task else b₁,
        [⟨client, task.data, task.taskId, MqttSession.send task.data⟩]) := by
    simp only [sendTo, hkeep, Bool.false_eq_true, if_false, b₁]
  refine ⟨_, hsend, ?_⟩
  split
  · rw [Broker.mqttTaskQueue_enqueueMqtt, hflagged]
  · exact hflagged

theorem send_eq (message : List UInt8) :
    MqttSession.send message < 0 ∨ MqttSession.send message = 0 := by
  unfold MqttSession.send
  split
  · exact .inl (by decide)
  · exact .inr rfl

/-- Its outcome. -/
theorem sendTo_takes {client : SessionPtr} (hclient : b.getClient clientId = some client)
    (hready : ¬ ((b.session client).subRequested = false ∧ packetType task.data = some .publish)) :
    ∃ o, Takes b clientId task (sendTo client task (packetType task.data) b).1
      (sendTo client task (packetType task.data) b).2 o := by
  obtain ⟨b', hsend, hqueue⟩ := sendTo_ready hready task
  rw [hsend]
  rcases send_eq task.data with hfail | haccept
  · rw [if_pos hfail] at hqueue
    exact ⟨.returned, by simpa using hfail, hqueue⟩
  · rw [haccept] at hqueue ⊢
    exact ⟨.accepted, client, hclient, rfl, hqueue⟩

/-! ## Every call -/

/-- An unready PUBLISH has none of the outcomes. -/
theorem not_takes_of_unready (hunready : Unready b clientId task)
    (h : sendMessage clientId task b = some (b', sends)) (o : Outcome) :
    ¬ Takes b clientId task b' sends o := by
  obtain ⟨client, hclient, hready, htype⟩ := hunready
  unfold sendMessage at h
  split at h
  · cases h
  · rename_i firstByte rest hdata
    have hfirst : messageType firstByte = some .publish := by
      rw [← htype, hdata]
      rfl
    simp only [hclient, hfirst, sendTo_unready hready, Option.some.injEq, Prod.mk.injEq] at h
    obtain ⟨rfl, rfl⟩ := h
    intro htakes
    cases o with
    | absent => exact nomatch htakes.1.symm.trans hclient
    | accepted =>
      obtain ⟨client', -, -, hqueue⟩ := htakes
      exact queue_ne_snoc _ task hqueue.symm
    | returned =>
      have hresult : (0 : Int) < 0 := htakes.1 _ (List.mem_singleton_self _)
      exact absurd hresult (by decide)

/-- **A call conserves its task** exactly if it is no PUBLISH for a session that has not
requested a subscription. -/
theorem sendMessage_conserves_iff (hdata : task.data ≠ []) (clientId : String) (b : Broker L) :
    ∃ b' sends, sendMessage clientId task b = some (b', sends) ∧
      (Conserves b clientId task b' sends ↔ ¬ Unready b clientId task) := by
  obtain ⟨⟨b', sends⟩, h⟩ := sendMessage_isSome hdata clientId b
  refine ⟨b', sends, h, fun hconserves hunready => ?_, fun hready => ?_⟩
  · exact not_takes_of_unready hunready h _ (hconserves.unready hunready)
  · unfold sendMessage at h
    split at h
    · cases h
    · rename_i firstByte rest hbytes
      have hfirst : messageType firstByte = packetType task.data := by
        rw [hbytes]
        rfl
      split at h
      · rename_i hclient
        simp only [Option.some.injEq, Prod.mk.injEq] at h
        obtain ⟨rfl, rfl⟩ := h
        exact Takes.conserves (o := .absent) ⟨hclient, rfl, rfl⟩ hready
      · rename_i client hclient
        obtain ⟨o, htakes⟩ : ∃ o, Takes b clientId task _ _ o :=
          sendTo_takes hclient fun hflag => hready ⟨client, hclient, hflag⟩
        rw [hfirst] at h
        rw [Option.some.inj h] at htakes
        exact htakes.conserves hready

/-- Session 1 connects as "a". Its CONNACK stays in the queue. -/
def connecting : List Run.Event := [.accept 1, .packet 1 (Wire.connectAs 97)]

/-- The CONNACK is sent once. -/
theorem connack_conserved :
    ∃ b b' sends, Machine.run Run.step (Broker.init : Broker Wire.libraries) connecting = some b ∧
      sendMessage "a" ⟨0, 1, [0x20, 2, 0, 0], "a"⟩ b = some (b', sends) ∧
      sends = [⟨1, [0x20, 2, 0, 0], 0, 0⟩] ∧
      Conserves b "a" ⟨0, 1, [0x20, 2, 0, 0], "a"⟩ b' sends := by
  obtain ⟨b, hb⟩ : ∃ b, Machine.run Run.step (Broker.init : Broker Wire.libraries) connecting =
    some b := ⟨_, rfl⟩
  have hdata : (⟨0, 1, [0x20, 2, 0, 0], "a"⟩ : MqttTask).data ≠ [] := by decide
  obtain ⟨b', sends, h, hiff⟩ := sendMessage_conserves_iff hdata "a" b
  refine ⟨b, b', sends, hb, h, ?_, hiff.mpr ?_⟩
  · obtain rfl := Option.some.inj hb
    obtain ⟨-, rfl⟩ := Prod.mk.inj (Option.some.inj h)
    rfl
  · rintro ⟨client, -, -, htype⟩
    exact absurd htype (by decide)

/-- A PUBLISH for it goes back to the queue, and an empty message is sent. -/
theorem publish_not_conserved :
    ∃ b b' sends, Machine.run Run.step (Broker.init : Broker Wire.libraries) connecting = some b ∧
      sendMessage "a" ⟨1, 0, AtMostOnce.publishGps, "a"⟩ b = some (b', sends) ∧
      b'.mqttTaskQueue = b.mqttTaskQueue ++ [⟨1, 0, AtMostOnce.publishGps, "a"⟩] ∧
      sends = [⟨1, [], 1, 0⟩] ∧
      ¬ Conserves b "a" ⟨1, 0, AtMostOnce.publishGps, "a"⟩ b' sends := by
  refine ⟨_, _, _, rfl, rfl, rfl, rfl, ?_⟩
  intro hconserves
  obtain ⟨o, htakes, -⟩ := hconserves.outcome
  exact not_takes_of_unready ⟨1, rfl, rfl, rfl⟩ rfl o htakes

end BddsBroker.Conservation
