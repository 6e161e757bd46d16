import BddsBroker.Lib.Lists
import BddsBroker.Mqtt.Writers

/-! What the writers carry. In every run each task of the queue and each task in the hands
of a writer is the one that was enqueued under its number, however often it was put back,
and a call of `client->send` passes its data or nothing at all (`reachable_genuine`). -/

namespace BddsBroker.Writers

variable {L : Libraries} {T : Type}

/-! ## What a writer has in its hands -/

/-- The enqueue whose task the writer has. -/
def Phase.held : Phase → Option Nat
  | .waiting => none
  | .taken origin _ => some origin
  | .looping r | .resolving r _ | .testing r _ | .marking r _ | .returning r _ | .sending r _ _
  | .failed r _ => some r.origin

/-- A writer keeps its task until it is done with it. -/
theorem held_statement {w m : State L T} {p q : Phase} (h : Statement w p m q) :
    q = .waiting ∨ q.held = p.held := by
  cases h with
  | drop | finish => exact .inl rfl
  | _ => exact .inr rfl

/-- A statement puts the task back under its number, or leaves the queue alone. -/
theorem Statement.queue {w m : State L T} {p q : Phase} (h : Statement w p m q) :
    (m.origins = w.origins ∧ m.broker.mqttTaskQueue = w.broker.mqttTaskQueue) ∨
      ∃ origin task, p.held = some origin ∧ m.origins = w.origins ++ [origin] ∧
        m.broker.mqttTaskQueue = w.broker.mqttTaskQueue ++ [task] := by
  cases h with
  | @giveBack r client => exact .inr ⟨r.origin, r.task, rfl, rfl, rfl⟩
  | @retry r data => exact .inr ⟨r.origin, { r.task with data := data }, rfl, rfl, rfl⟩
  | _ => exact .inl ⟨rfl, rfl⟩

/-! ## Tasks under their numbers -/

/-- A writer at that point has the task that was enqueued under its number. -/
def Carries (enqueued : List MqttTask) : Phase → Prop
  | .waiting => True
  | .taken origin task => enqueued[origin]? = some task
  | .looping r | .resolving r _ | .testing r _ | .marking r _ | .returning r _ =>
      enqueued[r.origin]? = some r.task
  | .sending r _ data => enqueued[r.origin]? = some r.task ∧ (data = [] ∨ data = r.task.data)
  | .failed r data => enqueued[r.origin]? = some r.task ∧ data = r.task.data

/-- A call passes the data of its task, or nothing. -/
def Sent.Of (enqueued : List MqttTask) (call : Sent) : Prop :=
  ∃ task, enqueued[call.origin]? = some task ∧ (call.data = [] ∨ call.data = task.data)

structure Genuine (w : State L T) : Prop where
  numbered : w.origins.length = w.broker.mqttTaskQueue.length
  queue : ∀ p ∈ w.origins.zip w.broker.mqttTaskQueue, w.enqueued[p.1]? = some p.2
  threads : ∀ t, Carries w.enqueued (w.threads t)
  sent : ∀ call ∈ w.sent, call.Of w.enqueued

theorem Carries.mono {enqueued more : List MqttTask} {p : Phase} (h : Carries enqueued p)
    (hmore : enqueued <+: more) : Carries more p := by
  cases p with
  | waiting => trivial
  | taken | looping | resolving | testing | marking | returning =>
    exact Lists.getElem?_of_extends hmore h
  | sending | failed => exact ⟨Lists.getElem?_of_extends hmore h.1, h.2⟩

theorem Carries.enqueued {enqueued : List MqttTask} {p : Phase} (h : Carries enqueued p) {o : Nat}
    (ho : p.held = some o) : o < enqueued.length := by
  cases p with
  | waiting => cases ho
  | taken | looping | resolving | testing | marking | returning =>
    obtain rfl := Option.some.inj ho
    exact (List.getElem?_eq_some_iff.mp h).1
  | sending | failed =>
    obtain rfl := Option.some.inj ho
    exact (List.getElem?_eq_some_iff.mp h.1).1

theorem Genuine.origin_lt {w : State L T} (hw : Genuine w) {o : Nat} (ho : o ∈ w.origins) :
    o < w.enqueued.length := by
  obtain ⟨i, hi⟩ := List.mem_iff_getElem?.mp ho
  have hlt : i < w.broker.mqttTaskQueue.length :=
    hw.numbered ▸ (List.getElem?_eq_some_iff.mp hi).1
  have hmem : (o, w.broker.mqttTaskQueue[i]) ∈ w.origins.zip w.broker.mqttTaskQueue :=
    List.mem_of_getElem? (List.getElem?_zip_eq_some.mpr ⟨hi, List.getElem?_eq_getElem hlt⟩)
  exact (List.getElem?_eq_some_iff.mp (hw.queue _ hmem)).1

theorem Sent.Of.mono {enqueued more : List MqttTask} {call : Sent} (h : call.Of enqueued)
    (hmore : enqueued <+: more) : call.Of more := by
  obtain ⟨task, htask, hdata⟩ := h
  exact ⟨task, Lists.getElem?_of_extends hmore htask, hdata⟩

/-- A writer goes on with the task that it has. -/
theorem carries_statement {w m : State L T} {p q : Phase} (h : Statement w p m q)
    (hp : Carries w.enqueued p) : Carries w.enqueued q := by
  cases h with
  | drop | finish => trivial
  | loop | call | visit | absent | found | suback | unready => exact hp
  | ready | mark => exact ⟨hp, .inr rfl⟩
  | giveBack => exact ⟨hp, .inl rfl⟩
  | fail hlong =>
    obtain ⟨htask, rfl | hdata⟩ := hp
    · simp at hlong
    · exact ⟨htask, hdata⟩
  | send | retry => exact hp.1

/-- What goes back to the queue is what came from it. -/
theorem putBack_statement {w m : State L T} {p q : Phase} (h : Statement w p m q)
    (hp : Carries w.enqueued p)
    (hqueue : ∀ e ∈ w.origins.zip w.broker.mqttTaskQueue, w.enqueued[e.1]? = some e.2)
    (hnumbered : w.origins.length = w.broker.mqttTaskQueue.length) :
    ∀ e ∈ m.origins.zip m.broker.mqttTaskQueue, w.enqueued[e.1]? = some e.2 := by
  have hback : ∀ origin task, w.enqueued[origin]? = some task →
      ∀ e ∈ (w.origins ++ [origin]).zip (w.broker.mqttTaskQueue ++ [task]),
        w.enqueued[e.1]? = some e.2 := by
    intro origin task htask
    rw [List.zip_append hnumbered]
    exact List.forall_mem_append.mpr ⟨hqueue, List.forall_mem_singleton.mpr htask⟩
  cases h with
  | giveBack => exact hback _ _ hp
  | retry =>
    obtain ⟨htask, rfl⟩ := hp
    exact hback _ _ htask
  | _ => exact hqueue

theorem genuine_init : Genuine (State.init : State L T) where
  numbered := rfl
  queue p hp := by simp [State.init] at hp
  threads _ := trivial
  sent call hcall := by simp [State.init] at hcall

section Steps

variable [DecidableEq T]

theorem genuine_advance {w w' : State L T} {t : T} (hw : Genuine w)
    (h : advance w t = some w') : Genuine w' := by
  obtain ⟨m, q, hstatement, rfl⟩ := advance_statement h
  obtain ⟨hen, hth, -⟩ := hstatement.keeps
  refine ⟨?_, ?_, fun u => ?_, ?_⟩
  · show m.origins.length = m.broker.mqttTaskQueue.length
    rcases hstatement.queue with ⟨ho, hqueue⟩ | ⟨origin, task, -, ho, hqueue⟩
    · rw [ho, hqueue, hw.numbered]
    · simp [ho, hqueue, hw.numbered]
  · show ∀ p ∈ m.origins.zip m.broker.mqttTaskQueue, m.enqueued[p.1]? = some p.2
    rw [hen]
    exact putBack_statement hstatement (hw.threads t) hw.queue hw.numbered
  · show Carries m.enqueued _
    rw [hen]
    refine forall_goto (P := Carries w.enqueued) (carries_statement hstatement (hw.threads t))
      (fun v _ => ?_) u
    rw [hth]
    exact hw.threads v
  · show ∀ call ∈ m.sent, call.Of m.enqueued
    rw [hen]
    rcases sent_statement hstatement with ⟨hm, -⟩ | ⟨r, client, data, hp, hm⟩
    · rw [hm]
      exact hw.sent
    · have hcarries := hw.threads t
      rw [hp] at hcarries
      rw [hm]
      exact List.forall_mem_append.mpr
        ⟨hw.sent, List.forall_mem_singleton.mpr ⟨r.task, hcarries.1, hcarries.2⟩⟩

theorem genuine_dequeue {w w' : State L T} {t : T} {i : Nat} (hw : Genuine w)
    (h : dequeue w t i = some w') : Genuine w' := by
  obtain ⟨origin, task, -, horigin, htask, rfl⟩ := dequeue_eq_some h
  have hmem : (origin, task) ∈ w.origins.zip w.broker.mqttTaskQueue :=
    List.mem_of_getElem? (List.getElem?_zip_eq_some.mpr ⟨horigin, htask⟩)
  refine ⟨?_, ?_, fun u => ?_, hw.sent⟩
  · simp only [State.goto, List.length_eraseIdx, hw.numbered]
  · show ∀ p ∈ (w.origins.eraseIdx i).zip (w.broker.mqttTaskQueue.eraseIdx i), _
    rw [Lists.zip_eraseIdx]
    exact fun p hp => hw.queue p (List.mem_of_mem_eraseIdx hp)
  · refine forall_goto (P := Carries w.enqueued) ?_ (fun v _ => hw.threads v) u
    exact hw.queue _ hmem

omit [DecidableEq T] in
theorem genuine_environment {w w' : State L T} {e : Run.Event} (hw : Genuine w)
    (h : environment w e = some w') : Genuine w' := by
  obtain ⟨b, tasks, -, -, hqueue, rfl⟩ := environment_eq_some h
  have hprefix : w.enqueued <+: w.enqueued ++ tasks := List.prefix_append _ _
  refine ⟨?_, ?_, fun u => (hw.threads u).mono hprefix, fun call hcall => ?_⟩
  · simp [hqueue, hw.numbered]
  · rw [hqueue, List.zip_append hw.numbered]
    refine List.forall_mem_append.mpr
      ⟨fun p hp => Lists.getElem?_of_extends hprefix (hw.queue p hp), ?_⟩
    rintro ⟨o, task⟩ hp
    obtain ⟨j, hj⟩ := List.mem_iff_getElem?.mp hp
    obtain ⟨ho, htask⟩ := List.getElem?_zip_eq_some.mp hj
    obtain ⟨hlt, rfl⟩ := List.getElem?_eq_some_iff.mp ho
    rw [List.getElem_range', List.getElem?_append_right (by omega)]
    simpa using htask
  · exact (hw.sent call hcall).mono hprefix

theorem step_genuine {w w' : State L T} {e : Event T} (hw : Genuine w)
    (hs : step w e = some w') : Genuine w' := by
  cases e with
  | environment e => exact genuine_environment hw hs
  | dequeue t i => exact genuine_dequeue hw hs
  | advance t => exact genuine_advance hw hs

/-- **Invariant.** Tasks keep what they were enqueued with. -/
theorem reachable_genuine {w : State L T} (hr : Machine.Reachable step State.init w) :
    Genuine w :=
  Machine.reachable_invariant (fun _ _ _ => step_genuine) genuine_init hr

end Steps

end BddsBroker.Writers
