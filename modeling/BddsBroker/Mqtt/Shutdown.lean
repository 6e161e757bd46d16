import BddsBroker.Lib.Tally
import BddsBroker.Mqtt.AtMostOnce
import BddsBroker.Mqtt.Origins

/-! The end of `BrokerMQTTPublisher`. Its destructor sets `is_shutting_down_`, notifies a
condition variable on which no writer waits, and joins the writers one by one. A writer
reads the flag only between two tasks, so one that has read it before and stands at
`wait_dequeue` returns only if it still gets a task. The destructor waits for no such writer
in the runs in which the queue holds a task for each of them when the flag is set
(`shutdown_returns`). With fewer tasks it can come to wait for ever
(`hangs_of_too_few`). -/

namespace BddsBroker.Shutdown

open Writers Tally

variable {L : Libraries} {T : Type}

/-- Where a writer stands in its loop. -/
inductive Head
  /-- At `while(!is_shutting_down_)`. -/
  | whileTest
  /-- At `if (is_shutting_down_) return;`. -/
  | returnTest
  /-- At `wait_dequeue`. -/
  | dequeuing
  | working
  | returned
  deriving DecidableEq, Repr

/-- Where the destructor stands. -/
inductive Destructor (T : Type)
  /-- The flag is not set. -/
  | notStarted
  /-- At `message_cv_.notify_all()`. -/
  | notifying
  /-- At the `join` of the first of these writers. -/
  | joining (threads : List T)
  deriving DecidableEq, Repr

structure State (L : Libraries) (T : Type) where
  writers : Writers.State L T
  head : T → Head
  destructor : Destructor T

namespace State

def queue (st : State L T) : List MqttTask := st.writers.broker.mqttTaskQueue

/-- The destructor's first statement sets the flag. -/
def isShuttingDown (st : State L T) : Prop := st.destructor ≠ .notStarted

instance (st : State L T) : Decidable st.isShuttingDown :=
  match h : st.destructor with
  | .notStarted => isFalse (· h)
  | .notifying | .joining _ => isTrue fun hstart => nomatch h.symm.trans hstart

/-- The constructor starts the writers. -/
def start (w : Writers.State L T) : State L T := ⟨w, fun _ => .whileTest, .notStarted⟩

variable [DecidableEq T]

def moveTo (st : State L T) (t : T) (h : Head) : State L T :=
  { st with head := Function.update st.head t h }

@[simp] theorem head_moveTo (st : State L T) (t : T) (h : Head) : (st.moveTo t h).head t = h := by
  simp [moveTo]

theorem head_moveTo_of_ne (st : State L T) {t u : T} (hu : u ≠ t) (h : Head) :
    (st.moveTo t h).head u = st.head u := by
  simp [moveTo, hu]

end State

inductive Event (T : Type)
  /-- Anything but a writer or the destructor. -/
  | environment (e : Run.Event)
  /-- A test of the flag. -/
  | test (t : T)
  | dequeue (t : T) (i : Nat)
  | advance (t : T)
  /-- `is_shutting_down_ = true`. -/
  | setFlag
  | notifyAll
  /-- The thread that is joined has returned. -/
  | join
  deriving DecidableEq

/-- Once the destructor has started, nothing is enqueued from outside. -/
def environment (st : State L T) (e : Run.Event) : Option (State L T) :=
  (Writers.environment st.writers e).bind fun w =>
    if st.isShuttingDown ∧ w.broker.mqttTaskQueue ≠ st.queue then none
    else some { st with writers := w }

def setFlag (st : State L T) : Option (State L T) :=
  match st.destructor with
  | .notStarted => some { st with destructor := .notifying }
  | _ => none

/-- `broker_endpoint_writer` holds the threads in `pool`. -/
def notifyAll (pool : List T) (st : State L T) : Option (State L T) :=
  match st.destructor with
  | .notifying => some { st with destructor := .joining pool }
  | _ => none

def join (st : State L T) : Option (State L T) :=
  match st.destructor with
  | .joining (t :: rest) =>
      if st.head t = .returned then some { st with destructor := .joining rest } else none
  | _ => none

variable [DecidableEq T]

def test (st : State L T) (t : T) : Option (State L T) :=
  match st.head t with
  | .whileTest => some (st.moveTo t (if st.isShuttingDown then .returned else .returnTest))
  | .returnTest => some (st.moveTo t (if st.isShuttingDown then .returned else .dequeuing))
  | .dequeuing | .working | .returned => none

def dequeue (st : State L T) (t : T) (i : Nat) : Option (State L T) :=
  if st.head t = .dequeuing then
    (Writers.dequeue st.writers t i).map fun w => { st with writers := w }.moveTo t .working
  else none

/-- After the last statement for a task the writer is back at its loop. -/
def advance (st : State L T) (t : T) : Option (State L T) :=
  if st.head t = .working then
    (Writers.advance st.writers t).map fun w =>
      { st with writers := w }.moveTo t
        (if w.threads t = Phase.waiting then .whileTest else .working)
  else none

def step (pool : List T) (st : State L T) : Event T → Option (State L T)
  | .environment e => environment st e
  | .test t => test st t
  | .dequeue t i => dequeue st t i
  | .advance t => advance st t
  | .setFlag => setFlag st
  | .notifyAll => notifyAll pool st
  | .join => join st

/-- The destructor waits for a writer that waits for a task. -/
def Hangs (st : State L T) : Prop :=
  ∃ t rest, st.destructor = .joining (t :: rest) ∧ st.head t = .dequeuing ∧ st.queue = []

/-- The writers at `wait_dequeue`. -/
def committed [Fintype T] (st : State L T) : Nat := tally (ind (· = Head.dequeuing)) st.head

/-- When the flag is set, there is a task for every writer at `wait_dequeue`. -/
def Condition [Fintype T] (st : State L T) : Event T → Prop
  | .setFlag => committed st ≤ st.queue.length
  | _ => True

instance [Fintype T] (st : State L T) : ∀ e, Decidable (Condition st e)
  | .setFlag => inferInstanceAs (Decidable (committed st ≤ st.queue.length))
  | .environment _ | .test _ | .dequeue .. | .advance _ | .notifyAll | .join => isTrue trivial

/-! ## What a step does -/

/-- The step `e` leads from `st` to `st'`. -/
inductive Step (pool : List T) (st : State L T) : Event T → State L T → Prop
  | environment {e : Run.Event} {w : Writers.State L T}
      (hw : Writers.step st.writers (.environment e) = some w)
      (hqueue : st.isShuttingDown → w.broker.mqttTaskQueue = st.queue) :
      Step pool st (.environment e) { st with writers := w }
  | test {t : T} {h : Head} (ht : st.head t = .whileTest ∨ st.head t = .returnTest)
      (hgo : h = .dequeuing → ¬ st.isShuttingDown) : Step pool st (.test t) (st.moveTo t h)
  | dequeue {t : T} {i : Nat} {w : Writers.State L T} (ht : st.head t = .dequeuing)
      (hw : Writers.step st.writers (.dequeue t i) = some w) :
      Step pool st (.dequeue t i) ({ st with writers := w }.moveTo t .working)
  | advance {t : T} {w : Writers.State L T} {h : Head} (ht : st.head t = .working)
      (hw : Writers.step st.writers (.advance t) = some w)
      (hh : h = .working ∨ h = .whileTest ∧ w.threads t = .waiting) :
      Step pool st (.advance t) ({ st with writers := w }.moveTo t h)
  | setFlag (hd : st.destructor = .notStarted) :
      Step pool st .setFlag { st with destructor := .notifying }
  | notifyAll (hd : st.destructor = .notifying) :
      Step pool st .notifyAll { st with destructor := .joining pool }
  | join {t : T} {rest : List T} (hd : st.destructor = .joining (t :: rest))
      (ht : st.head t = .returned) : Step pool st .join { st with destructor := .joining rest }

variable {pool : List T}

theorem step_cases {st st' : State L T} {e : Event T} (h : step pool st e = some st') :
    Step pool st e st' := by
  cases e with
  | environment e =>
    simp only [step, environment, Option.bind_eq_some_iff, Option.ite_none_left_eq_some] at h
    obtain ⟨w, hw, hqueue, hst⟩ := h
    obtain rfl := Option.some.inj hst
    refine .environment hw fun hflag => ?_
    by_contra hne
    exact hqueue ⟨hflag, hne⟩
  | test t =>
    simp only [step, test] at h
    split at h
    · rename_i ht
      obtain rfl := Option.some.inj h
      refine .test (.inl ht) ?_
      split <;> simp
    · rename_i ht
      obtain rfl := Option.some.inj h
      refine .test (.inr ht) ?_
      split
      · simp
      · rename_i hflag
        exact fun _ => hflag
    all_goals cases h
  | dequeue t i =>
    simp only [step, dequeue, Option.ite_none_right_eq_some, Option.map_eq_some_iff] at h
    obtain ⟨ht, w, hw, rfl⟩ := h
    exact .dequeue ht hw
  | advance t =>
    simp only [step, advance, Option.ite_none_right_eq_some, Option.map_eq_some_iff] at h
    obtain ⟨ht, w, hw, rfl⟩ := h
    refine .advance ht hw ?_
    split
    · rename_i hwaiting
      exact .inr ⟨rfl, hwaiting⟩
    · exact .inl rfl
  | setFlag =>
    simp only [step, setFlag] at h
    split at h
    · rename_i hd
      obtain rfl := Option.some.inj h
      exact .setFlag hd
    · cases h
  | notifyAll =>
    simp only [step, notifyAll] at h
    split at h
    · rename_i hd
      obtain rfl := Option.some.inj h
      exact .notifyAll hd
    · cases h
  | join =>
    simp only [step, join] at h
    split at h
    · rename_i t rest hd
      obtain ⟨ht, hst⟩ := Option.ite_none_right_eq_some.mp h
      obtain rfl := Option.some.inj hst
      exact .join hd ht
    · cases h

/-- **Refinement.** The writers of a run do what writers do without a destructor. -/
theorem reachable_writers {st st' : State L T} (h : Machine.Reachable (step pool) st st') :
    Machine.Reachable Writers.step st.writers st'.writers := by
  refine Machine.reachable_invariant
    (I := fun m : State L T => Machine.Reachable Writers.step st.writers m.writers)
    (fun m e m' hm he => ?_) ⟨[], rfl⟩ h
  cases step_cases he with
  | environment hw | dequeue _ hw | advance _ hw => exact hm.snoc hw
  | test | setFlag | notifyAll | join => exact hm

/-! ## A task for everyone who waits -/

section Count

variable [Fintype T]

/-- The writer that moves leaves one position and gets to another. -/
theorem committed_moveTo (st : State L T) (t : T) (h : Head) :
    committed (st.moveTo t h) + ind (· = Head.dequeuing) (st.head t) =
      committed st + ind (· = Head.dequeuing) h :=
  tally_update (ind (· = Head.dequeuing)) st.head t h

/-- Once the flag is set, there is a task for every writer at `wait_dequeue`. -/
def Fed (st : State L T) : Prop := st.isShuttingDown → committed st ≤ st.queue.length

/-- **Invariant.** A writer that leaves `wait_dequeue` takes one task along. -/
theorem step_fed {st st' : State L T} {e : Event T} (hst : Fed st) (hc : Condition st e)
    (hs : step pool st e = some st') : Fed st' := by
  intro hflag
  cases step_cases hs with
  | environment hw hqueue =>
    have hle : committed st ≤ st.queue.length := hst hflag
    rw [← hqueue hflag] at hle
    exact hle
  | @test t h ht hgo =>
    have hmove := committed_moveTo st t h
    have hleft : ind (· = Head.dequeuing) (st.head t) = 0 := by
      rcases ht with ht | ht <;> rw [ht] <;> rfl
    have hnew : ind (· = Head.dequeuing) h = 0 := if_neg (by simpa using fun hh => hgo hh hflag)
    have hbefore : committed st ≤ st.queue.length := hst hflag
    have hqueue : (st.moveTo t h).queue = st.queue := rfl
    rw [hqueue]
    omega
  | @dequeue t i w ht hw =>
    have hmove := committed_moveTo st t .working
    have hleft : ind (· = Head.dequeuing) (st.head t) = 1 := by rw [ht]; rfl
    have hnew : ind (· = Head.dequeuing) Head.working = 0 := rfl
    have hbefore : committed st ≤ st.queue.length := hst hflag
    obtain ⟨origin, task, -, -, htask, rfl⟩ := dequeue_eq_some hw
    have hi : i < st.queue.length := (List.getElem?_eq_some_iff.mp htask).1
    have hqueue : (st.queue.eraseIdx i).length = st.queue.length - 1 :=
      List.length_eraseIdx_of_lt hi
    show committed (st.moveTo t .working) ≤ (st.queue.eraseIdx i).length
    omega
  | @advance t w h ht hw hh =>
    have hmove := committed_moveTo st t h
    have hleft : ind (· = Head.dequeuing) (st.head t) = 0 := by rw [ht]; rfl
    have hnew : ind (· = Head.dequeuing) h = 0 := by
      rcases hh with rfl | ⟨rfl, -⟩ <;> rfl
    have hbefore : committed st ≤ st.queue.length := hst hflag
    obtain ⟨m, q, hstatement, rfl⟩ := advance_statement hw
    have hqueue : st.queue.length ≤ m.broker.mqttTaskQueue.length := by
      rcases hstatement.queue with ⟨-, hq⟩ | ⟨_, _, -, -, hq⟩
      · exact (congrArg List.length hq).ge
      · rw [hq, List.length_append]
        exact Nat.le_add_right _ _
    show committed (st.moveTo t h) ≤ m.broker.mqttTaskQueue.length
    omega
  | setFlag => exact hc
  | notifyAll hd => exact hst (by simp [State.isShuttingDown, hd])
  | join hd => exact hst (by simp [State.isShuttingDown, hd])

omit [DecidableEq T] in
/-- A writer that waits is counted. -/
theorem Fed.not_hangs {st : State L T} (hst : Fed st) : ¬ Hangs st := by
  rintro ⟨t, rest, hd, ht, hqueue⟩
  have hle := hst (by simp [State.isShuttingDown, hd])
  have hpos : 0 < committed st := tally_ind_pos (t := t) (by simpa using ht)
  rw [hqueue, List.length_nil] at hle
  omega

/-- **The destructor does not hang**, however its steps and those of the writers come, if
the queue holds a task for every writer at `wait_dequeue` when the flag is set. -/
theorem shutdown_returns {st st' : State L T} {es : List (Event T)}
    (hst : ¬ st.isShuttingDown) (hc : Machine.Along (step pool) Condition st es)
    (hr : Machine.run (step pool) st es = some st') : ¬ Hangs st' :=
  Fed.not_hangs
    (Machine.run_invariant (fun _ _ _ => step_fed) (fun hflag => absurd hflag hst) hc hr)

end Count

/-- The flag is set while the writer waits, and the queue holds the CONNACK of session 1. -/
def stopsFed (t : T) : List (Event T) :=
  [.environment (.accept 1), .environment (.packet 1 (Wire.connectAs 97)), .test t, .test t,
    .setFlag, .notifyAll, .dequeue t 0] ++ List.replicate 5 (.advance t) ++ [.test t, .join]

theorem stopsFed_returns :
    ∃ st : State Wire.libraries Unit,
      Machine.run (step [()]) (State.start .init) (stopsFed ()) = some st ∧
        st.destructor = .joining [] ∧ ¬ Hangs st := by
  have hrun : (Machine.run (step [()]) (State.start .init : State Wire.libraries Unit)
      (stopsFed ())).map State.destructor = some (.joining []) := by
    decide +kernel
  obtain ⟨st, hr, hd⟩ := Option.map_eq_some_iff.mp hrun
  have hc : Machine.Along (step [()]) Condition
      (State.start .init : State Wire.libraries Unit) (stopsFed ()) := by
    decide +kernel
  exact ⟨st, hr, hd, shutdown_returns (by simp [State.start, State.isShuttingDown]) hc hr⟩

/-- The flag is set while the writer waits for a task and there is none. -/
def stopsIdle (t : T) : List (Event T) := [.test t, .test t, .setFlag, .notifyAll]

theorem stopsIdle_hangs :
    ∃ st : State Wire.libraries Unit,
      Machine.run (step [()]) (State.start .init) (stopsIdle ()) = some st ∧ Hangs st := by
  have hrun : (Machine.run (step [()]) (State.start .init : State Wire.libraries Unit)
      (stopsIdle ())).map (fun st => (st.destructor, st.head (), st.queue)) =
        some (.joining [()], .dequeuing, []) := by
    decide +kernel
  obtain ⟨st, hr, hst⟩ := Option.map_eq_some_iff.mp hrun
  simp only [Prod.mk.injEq] at hst
  obtain ⟨hd, ht, hqueue⟩ := hst
  exact ⟨st, hr, (), [], hd, ht, hqueue⟩

/-! ## Too few tasks -/

/-- A writer that does not work has no task in its hands. -/
structure Ready (st : State L T) : Prop where
  genuine : Genuine st.writers
  idle : ∀ t, st.head t ≠ .working → st.writers.threads t = .waiting

theorem step_ready {st st' : State L T} {e : Event T} (hst : Ready st)
    (hs : step pool st e = some st') : Ready st' := by
  cases step_cases hs with
  | environment hw hqueue =>
    refine ⟨step_genuine hst.genuine hw, ?_⟩
    intro t ht
    obtain ⟨b, tasks, -, -, -, rfl⟩ := environment_eq_some hw
    exact hst.idle t ht
  | @test t h ht hgo =>
    refine ⟨hst.genuine, fun u hu => hst.idle u ?_⟩
    by_cases hut : u = t
    · subst hut
      rcases ht with ht | ht <;> simp [ht]
    · rwa [State.head_moveTo_of_ne st hut] at hu
  | @dequeue t i w ht hw =>
    refine ⟨step_genuine hst.genuine hw, ?_⟩
    intro u hu
    obtain ⟨origin, task, -, -, -, rfl⟩ := dequeue_eq_some hw
    have hut : u ≠ t := by
      rintro rfl
      simp at hu
    rw [State.head_moveTo_of_ne _ hut] at hu
    exact (threads_goto_of_ne _ hut _).trans (hst.idle u hu)
  | @advance t w h ht hw hh =>
    refine ⟨step_genuine hst.genuine hw, ?_⟩
    intro u hu
    by_cases hut : u = t
    · subst hut
      rcases hh with rfl | ⟨-, hwaiting⟩
      · simp at hu
      · exact hwaiting
    · obtain ⟨m, q, hstatement, rfl⟩ := advance_statement hw
      rw [State.head_moveTo_of_ne _ hut] at hu
      refine (threads_goto_of_ne m hut q).trans ?_
      rw [hstatement.keeps.2.1]
      exact hst.idle u hu
  | setFlag | notifyAll | join => exact ⟨hst.genuine, hst.idle⟩

variable (pool) in
/-- A writer at `wait_dequeue` can take the first task. -/
theorem dequeue_first {st : State L T} (hst : Ready st) {t : T} (ht : st.head t = .dequeuing)
    {task : MqttTask} {rest : List MqttTask} (hqueue : st.queue = task :: rest) :
    ∃ st', step pool st (.dequeue t 0) = some st' ∧ st'.queue = rest ∧
      st'.destructor = st.destructor ∧ st'.head = Function.update st.head t .working := by
  have hnumbered := hst.genuine.numbered
  have hidle := hst.idle t (by simp [ht])
  rw [State.queue] at hqueue
  rw [hqueue, List.length_cons] at hnumbered
  obtain ⟨origin, origins, horigins⟩ := List.exists_cons_of_length_eq_add_one hnumbered
  have hdequeue : (Writers.dequeue st.writers t 0).isSome := by
    simp [Writers.dequeue, hidle, horigins, hqueue]
  obtain ⟨w, hw⟩ := Option.isSome_iff_exists.mp hdequeue
  refine ⟨{ st with writers := w }.moveTo t .working, ?_, ?_, rfl, rfl⟩
  · simp only [step, dequeue, if_pos ht, hw, Option.map_some]
  · obtain ⟨origin, task, -, -, -, rfl⟩ := dequeue_eq_some hw
    show st.writers.broker.mqttTaskQueue.eraseIdx 0 = rest
    rw [hqueue]
    rfl

section Count

variable [Fintype T]

variable (pool) in
/-- The other writers at `wait_dequeue` take all tasks. -/
theorem drain {st : State L T} (hst : Ready st) {t : T} (ht : st.head t = .dequeuing)
    {tasks : List MqttTask} (hqueue : st.queue = tasks) (hfew : tasks.length < committed st) :
    ∃ st', Machine.Reachable (step pool) st st' ∧ st'.queue = [] ∧ st'.head t = .dequeuing ∧
      st'.destructor = st.destructor ∧
        ∀ u, st.head u ≠ .dequeuing → st'.head u = st.head u := by
  induction tasks generalizing st with
  | nil => exact ⟨st, ⟨[], rfl⟩, hqueue, ht, rfl, fun _ _ => rfl⟩
  | cons task rest ih =>
    rw [List.length_cons] at hfew
    obtain ⟨u, hut, hu⟩ := exists_ne_of_one_lt_tally_ind (t := t)
      (show 1 < tally (ind (· = Head.dequeuing)) st.head by
        unfold committed at hfew
        omega)
    have hu : st.head u = .dequeuing := by simpa using hu
    obtain ⟨m, hm, hmqueue, hmdestructor, hmhead⟩ := dequeue_first pool hst hu hqueue
    have hmove := committed_moveTo st u .working
    have hleft : ind (· = Head.dequeuing) (st.head u) = 1 := by rw [hu]; rfl
    have hnew : ind (· = Head.dequeuing) Head.working = 0 := rfl
    have hcommitted : committed m = committed (st.moveTo u .working) := by
      rw [committed, hmhead]
      rfl
    obtain ⟨st', hr, hempty, hst', hdestructor, hother⟩ := ih (step_ready hst hm)
      (by rw [hmhead, Function.update_of_ne hut.symm, ht]) hmqueue (by omega)
    refine ⟨st', Machine.Reachable.trans ⟨[.dequeue u 0], ?_⟩ hr, hempty, hst',
      hdestructor.trans hmdestructor, fun v hv => ?_⟩
    · exact Machine.run_cons_eq_some.mpr ⟨m, hm, rfl⟩
    · have hvu : v ≠ u := by
        rintro rfl
        exact hv hu
      have hvm : m.head v = st.head v := by rw [hmhead, Function.update_of_ne hvu]
      rw [hother v (hvm ▸ hv), hvm]

end Count

variable (pool) in
/-- A writer at a test of the flag returns. -/
theorem returns_alone {st : State L T} (hflag : st.isShuttingDown) {t : T}
    (ht : st.head t ≠ .dequeuing) (hidle : st.head t ≠ .working) :
    ∃ st', Machine.Reachable (step pool) st st' ∧ st'.queue = st.queue ∧
      st'.destructor = st.destructor ∧ st'.head t = .returned ∧
        ∀ u, u ≠ t → st'.head u = st.head u := by
  have htest : st.head t = .whileTest ∨ st.head t = .returnTest →
      step pool st (.test t) = some (st.moveTo t .returned) := by
    rintro (h | h) <;> simp only [step, test, h, if_pos hflag]
  have hgoes : st.head t = .whileTest ∨ st.head t = .returnTest →
      ∃ st', Machine.Reachable (step pool) st st' ∧ st'.queue = st.queue ∧
        st'.destructor = st.destructor ∧ st'.head t = .returned ∧
          ∀ u, u ≠ t → st'.head u = st.head u := by
    intro h
    refine ⟨st.moveTo t .returned, ⟨[.test t], ?_⟩, rfl, rfl, st.head_moveTo t _, ?_⟩
    · exact Machine.run_cons_eq_some.mpr ⟨_, htest h, rfl⟩
    · exact fun u hu => st.head_moveTo_of_ne hu _
  cases h : st.head t with
  | whileTest => exact hgoes (.inl h)
  | returnTest => exact hgoes (.inr h)
  | dequeuing => exact absurd h ht
  | working => exact absurd h hidle
  | returned => exact ⟨st, ⟨[], rfl⟩, rfl, rfl, h, fun _ _ => rfl⟩

/-- The destructor comes to the first writer that cannot return. -/
theorem join_before {before after : List T} {st : State L T} {t : T}
    (hd : st.destructor = .joining (before ++ t :: after)) (hqueue : st.queue = [])
    (ht : st.head t = .dequeuing)
    (hbefore : ∀ u ∈ before, st.head u ≠ .dequeuing ∧ st.head u ≠ .working) :
    ∃ st', Machine.Reachable (step pool) st st' ∧ Hangs st' := by
  induction before generalizing st with
  | nil => exact ⟨st, ⟨[], rfl⟩, t, after, hd, ht, hqueue⟩
  | cons u before ih =>
    obtain ⟨hu, hbefore⟩ := List.forall_mem_cons.mp hbefore
    have hflag : st.isShuttingDown := by simp [State.isShuttingDown, hd]
    obtain ⟨m, hm, hmqueue, hmd, hmu, hother⟩ := returns_alone pool hflag hu.1 hu.2
    rw [hd] at hmd
    let m' : State L T := { m with destructor := .joining (before ++ t :: after) }
    have hjoin : step pool m .join = some m' := by
      simp only [step, join, hmd, List.cons_append, if_pos hmu, m']
    have htu : t ≠ u := by
      rintro rfl
      exact hu.1 ht
    have hleft : m'.destructor = .joining (before ++ t :: after) := rfl
    obtain ⟨st', hr, hhangs⟩ := ih hleft (hmqueue.trans hqueue) ((hother t htu).trans ht)
      fun v hv => by
        by_cases hvu : v = u
        · subst hvu
          show m.head v ≠ _ ∧ m.head v ≠ _
          rw [hmu]
          exact ⟨nofun, nofun⟩
        · show m.head v ≠ _ ∧ m.head v ≠ _
          rw [hother v hvu]
          exact hbefore v hv
    exact ⟨st', (hm.snoc hjoin).trans hr, hhangs⟩

/-- **The condition is needed.** When the flag is set while more writers than tasks wait
and none works, the destructor can come to wait for ever. -/
theorem hangs_of_too_few [Fintype T] {st : State L T}
    (hr : Machine.Reachable (step pool) (State.start State.init) st)
    (hpool : ∀ t, t ∈ pool) (hd : st.destructor = .notStarted)
    (hidle : ∀ t, st.head t ≠ .working) (hfew : st.queue.length < committed st) :
    ∃ st', Machine.Reachable (step pool) st st' ∧ Hangs st' := by
  have hready : Ready st := Machine.reachable_invariant (fun _ _ _ => step_ready)
    ⟨genuine_init, fun _ _ => rfl⟩ hr
  obtain ⟨u, -, hu⟩ : ∃ u, u ∈ pool ∧ st.head u = .dequeuing := by
    by_contra hnone
    push Not at hnone
    have hzero : committed st = 0 := tally_eq_zero.mpr fun t => by simp [ind, hnone t (hpool t)]
    omega
  have hfind : (pool.find? (st.head · = .dequeuing)).isSome :=
    List.find?_isSome.mpr ⟨u, hpool u, by simpa using hu⟩
  obtain ⟨t, hfirst⟩ := Option.isSome_iff_exists.mp hfind
  obtain ⟨ht, before, after, hsplit, hbefore⟩ := List.find?_eq_some_iff_append.mp hfirst
  have ht : st.head t = .dequeuing := by simpa using ht
  let st₁ : State L T := { st with destructor := .joining pool }
  have hjoining : Machine.Reachable (step pool) st st₁ := by
    refine ⟨[.setFlag, .notifyAll], ?_⟩
    simp [Machine.run, step, setFlag, notifyAll, hd, st₁]
  have hready₁ : Ready st₁ := ⟨hready.genuine, hready.idle⟩
  obtain ⟨st₂, hst₂, hempty, hstill, hdestructor, hother⟩ := drain pool hready₁ ht rfl hfew
  have hrest : ∀ v ∈ before, st₂.head v ≠ .dequeuing ∧ st₂.head v ≠ .working := by
    intro v hv
    have hnot : st.head v ≠ .dequeuing := by simpa using hbefore v hv
    rw [hother v hnot]
    exact ⟨hnot, hidle v⟩
  have hjoins : st₂.destructor = .joining (before ++ t :: after) :=
    hdestructor.trans (congrArg Destructor.joining hsplit)
  obtain ⟨st', hst', hhangs⟩ := join_before hjoins hempty hstill hrest
  exact ⟨st', (hjoining.trans hst₂).trans hst', hhangs⟩

end BddsBroker.Shutdown
