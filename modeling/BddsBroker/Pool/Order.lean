import BddsBroker.Lib.Machine
import BddsBroker.Lib.Mutex
import BddsBroker.Pool.ThreadPool

/-! The pool runs its tasks in the order in which it accepted them. What a thread knows
at each of its statements is a condition on the members. A step of a thread gives it the
condition of its next statement, and the other threads keep theirs: those without the
mutex only rely on `stop` and on an empty queue of a stopped pool. -/

namespace BddsBroker.DdsThread

variable {τ κ C : Type*} {n : Nat} {code : TaskCode τ κ}

/-! ## Who is inside the mutex -/

def EnqueuePc.holds : EnqueuePc τ → Bool
  | .locks _ | .notifies => false
  | .tests _ | .throws | .emplaces _ | .unlocks => true

/-- The task runs in the scope of the lock, and so does what it calls. -/
def WorkerPc.holds : WorkerPc τ κ → Bool
  | .locks | .waits | .returned => false
  | .tests | .decides | .takes | .runs _ _ | .enqueues _ _ _ | .unlocks | .returns => true

def CallerPc.holds : CallerPc τ → Bool
  | .idle => false
  | .calls _ pc => pc.holds

def DestructorPc.holds : DestructorPc → Bool
  | .sets | .unlocks => true
  | .locks | .notifies | .joins _ | .returned => false

def State.holds (s : State τ κ C n) : Thread C n → Bool
  | .worker i => (s.worker i).holds
  | .caller c => (s.caller c).holds
  | .destructor => s.destructor.holds

/-! ## What a thread knows -/

namespace Pool

/-- No task is between its start and its return. -/
def Settled (p : Pool τ C n) : Prop := p.started = p.completed

/-- `stop && tasks.empty()`: nothing is left to do, now and later. -/
def Drained (p : Pool τ C n) : Prop := p.stop = true ∧ p.tasks = []

/-- The members agree with what has happened. -/
structure Sound (p : Pool τ C n) : Prop where
  accepted : p.accepted = p.started ++ p.tasks
  completed : p.completed <+: p.started
  free : p.poolQueueMutex = none → p.Settled
  late : ∀ call ∈ p.calls, call.late = true → call.thrown = true
  offered : p.accepted ≠ [] → Nonempty C

/-- The fields that the conditions of the threads read. -/
structure Same (p p' : Pool τ C n) : Prop where
  stop : p'.stop = p.stop
  tasks : p'.tasks = p.tasks
  started : p'.started = p.started
  completed : p'.completed = p.completed

/-- What the owner of the mutex leaves to the threads without it. -/
structure Grows (p p' : Pool τ C n) : Prop where
  stop : p.stop = true → p'.stop = true
  drained : p.Drained → p'.Drained

end Pool

def EnqueuePc.Ok (p : Pool τ C n) : EnqueuePc τ → Prop
  | .locks _ | .notifies => True
  | .tests _ | .unlocks => p.Settled
  | .throws => p.Settled ∧ p.stop = true
  | .emplaces _ => p.Settled ∧ p.stop = false

/-- The statements of a call that ends in the exception. -/
def EnqueuePc.refuses : EnqueuePc τ → Bool
  | .locks _ | .tests _ | .throws => true
  | .emplaces _ | .unlocks | .notifies => false

/-- A task that calls `enqueue` gets as far as the lock. -/
def WorkerPc.Ok (code : TaskCode τ κ) (p : Pool τ C n) : WorkerPc τ κ → Prop
  | .locks | .waits => True
  | .tests | .unlocks => p.Settled
  | .decides => p.Settled ∧ p.ready = true
  | .takes => p.Settled ∧ p.tasks ≠ []
  | .runs task c => p.started = p.completed ++ [task] ∧ code.Reaches task c
  | .enqueues task _ pc =>
      p.started = p.completed ++ [task] ∧ code.UsesPool task ∧ ∃ new, pc = .locks new
  | .returns => p.Settled ∧ p.Drained
  | .returned => p.Drained

def CallerPc.Ok (p : Pool τ C n) : CallerPc τ → Prop
  | .idle => True
  | .calls late pc => pc.Ok p ∧ (late = true → p.stop = true ∧ pc.refuses = true)

def DestructorPc.Ok (p : Pool τ C n) : DestructorPc → Prop
  | .locks => True
  | .sets => p.Settled
  | .unlocks => p.Settled ∧ p.stop = true
  | .notifies | .joins _ | .returned => p.stop = true

/-- The condition of the thread `t` of `s`, for the members `p`. -/
def State.Ok (code : TaskCode τ κ) (s : State τ κ C n) (p : Pool τ C n) : Thread C n → Prop
  | .worker i => (s.worker i).Ok code p
  | .caller c => (s.caller c).Ok p
  | .destructor => s.destructor.Ok p

/-- The workers that the destructor has joined have returned. -/
def Joined (worker : Fin n → WorkerPc τ κ) : DestructorPc → Prop
  | .joins k => ∀ j : Fin n, j < k → worker j = .returned
  | .returned => ∀ j, worker j = .returned
  | .locks | .sets | .unlocks | .notifies => True

structure Invariant (code : TaskCode τ κ) (s : State τ κ C n) : Prop where
  sound : s.pool.Sound
  guards : Mutex.Guards s.pool.poolQueueMutex fun t => s.holds t = true
  ok : ∀ t, s.Ok code s.pool t
  joined : Joined s.worker s.destructor

theorem EnqueuePc.settled {p : Pool τ C n} {pc : EnqueuePc τ} (hin : pc.holds = true)
    (hpc : pc.Ok p) : p.Settled := by
  cases pc with
  | locks | notifies => cases hin
  | tests | unlocks => exact hpc
  | throws | emplaces => exact hpc.1

theorem CallerPc.settled {p : Pool τ C n} {pc : CallerPc τ} (hin : pc.holds = true)
    (hpc : pc.Ok p) : p.Settled := by
  cases pc with
  | idle => cases hin
  | calls late pc => exact EnqueuePc.settled hin hpc.1

theorem DestructorPc.settled {p : Pool τ C n} {pc : DestructorPc} (hin : pc.holds = true)
    (hpc : pc.Ok p) : p.Settled := by
  cases pc with
  | sets => exact hpc
  | unlocks => exact hpc.1
  | locks | notifies | joins | returned => cases hin

/-! ## The other threads -/

namespace Pool

variable {p p' : Pool τ C n}

theorem Same.settled (h : p.Same p') (hp : p.Settled) : p'.Settled := by
  unfold Settled at hp ⊢
  rw [h.started, h.completed, hp]

theorem Same.ready_eq (h : p.Same p') : p'.ready = p.ready := by
  unfold ready
  rw [h.stop, h.tasks]

theorem Same.grows (h : p.Same p') : p.Grows p' := by
  constructor
  · rw [h.stop]
    exact id
  · unfold Drained
    rw [h.stop, h.tasks]
    exact id

end Pool

section Frame

variable {p p' : Pool τ C n}

theorem EnqueuePc.ok_of_same (h : p.Same p') {pc : EnqueuePc τ} (hpc : pc.Ok p) : pc.Ok p' := by
  cases pc with
  | locks | notifies => trivial
  | tests | unlocks => exact h.settled hpc
  | throws | emplaces =>
    refine ⟨h.settled hpc.1, ?_⟩
    rw [h.stop]
    exact hpc.2

theorem WorkerPc.ok_of_same (h : p.Same p') {pc : WorkerPc τ κ} (hpc : pc.Ok code p) :
    pc.Ok code p' := by
  cases pc with
  | locks | waits => trivial
  | tests | unlocks => exact h.settled hpc
  | decides => exact ⟨h.settled hpc.1, by rw [h.ready_eq]; exact hpc.2⟩
  | takes => exact ⟨h.settled hpc.1, by rw [h.tasks]; exact hpc.2⟩
  | runs | enqueues => exact ⟨by rw [h.started, h.completed]; exact hpc.1, hpc.2⟩
  | returns => exact ⟨h.settled hpc.1, h.grows.drained hpc.2⟩
  | returned => exact h.grows.drained hpc

theorem CallerPc.ok_of_same (h : p.Same p') {pc : CallerPc τ} (hpc : pc.Ok p) : pc.Ok p' := by
  cases pc with
  | idle => trivial
  | calls late pc =>
    refine ⟨EnqueuePc.ok_of_same h hpc.1, fun hlate => ?_⟩
    rw [h.stop]
    exact hpc.2 hlate

theorem DestructorPc.ok_of_same (h : p.Same p') {pc : DestructorPc} (hpc : pc.Ok p) :
    pc.Ok p' := by
  cases pc with
  | locks => trivial
  | sets => exact h.settled hpc
  | unlocks => exact ⟨h.settled hpc.1, h.grows.stop hpc.2⟩
  | notifies | joins | returned => exact h.grows.stop hpc

/-- Without a change of these fields, every thread keeps its condition. -/
theorem ok_of_same (h : p.Same p') {s : State τ κ C n} {t : Thread C n} (ht : s.Ok code p t) :
    s.Ok code p' t := by
  cases t with
  | worker i => exact WorkerPc.ok_of_same h ht
  | caller c => exact CallerPc.ok_of_same h ht
  | destructor => exact DestructorPc.ok_of_same h ht

theorem WorkerPc.ok_of_grows (h : p.Grows p') {pc : WorkerPc τ κ} (hout : pc.holds = false)
    (hpc : pc.Ok code p) : pc.Ok code p' := by
  cases pc with
  | locks | waits => trivial
  | returned => exact h.drained hpc
  | tests | decides | takes | runs | enqueues | unlocks | returns => cases hout

theorem CallerPc.ok_of_grows (h : p.Grows p') {pc : CallerPc τ} (hout : pc.holds = false)
    (hpc : pc.Ok p) : pc.Ok p' := by
  cases pc with
  | idle => trivial
  | calls late pc =>
    refine ⟨?_, fun hlate => ⟨h.stop (hpc.2 hlate).1, (hpc.2 hlate).2⟩⟩
    cases pc with
    | locks | notifies => trivial
    | tests | throws | emplaces | unlocks => cases hout

theorem DestructorPc.ok_of_grows (h : p.Grows p') {pc : DestructorPc} (hout : pc.holds = false)
    (hpc : pc.Ok p) : pc.Ok p' := by
  cases pc with
  | locks => trivial
  | notifies | joins | returned => exact h.stop hpc
  | sets | unlocks => cases hout

/-- A thread outside the mutex keeps its condition whatever the owner does. -/
theorem ok_of_grows (h : p.Grows p') {s : State τ κ C n} {t : Thread C n}
    (hout : s.holds t = false) (ht : s.Ok code p t) : s.Ok code p' t := by
  cases t with
  | worker i => exact WorkerPc.ok_of_grows h hout ht
  | caller c => exact CallerPc.ok_of_grows h hout ht
  | destructor => exact DestructorPc.ok_of_grows h hout ht

end Frame

/-! ## What a step does to the members -/

/-- What a step of `t` does to the members, where `before` and `after` say whether `t`
owns the mutex. -/
structure Passes (t : Thread C n) (before after : Bool) (p p' : Pool τ C n) : Prop where
  sound : p'.Sound
  mutex : (before = after ∧ p'.poolQueueMutex = p.poolQueueMutex) ∨
    (before = false ∧ after = true ∧ p.poolQueueMutex = none ∧ p'.poolQueueMutex = some t) ∨
    (before = true ∧ after = false ∧ p'.poolQueueMutex = none)
  data : p.Same p' ∨ before = true ∧ p.Grows p'
  refused : p.stop = true → p'.accepted = p.accepted

section Passes

variable {p p' : Pool τ C n} {t : Thread C n} {b : Bool}

theorem lock_eq_some : p.lock t = some p' ↔
    p.poolQueueMutex = none ∧ { p with poolQueueMutex := some t } = p' := by
  simp [Pool.lock]

theorem passes_lock (hs : p.Sound) (h : p.lock t = some p') :
    p'.Settled ∧ Passes t false true p p' := by
  obtain ⟨hfree, rfl⟩ := lock_eq_some.mp h
  refine ⟨hs.free hfree, ⟨hs.accepted, hs.completed, ?_, hs.late, hs.offered⟩, ?_, ?_, ?_⟩
  · intro hnone
    cases hnone
  · exact .inr (.inl ⟨rfl, rfl, hfree, rfl⟩)
  · exact .inl ⟨rfl, rfl, rfl, rfl⟩
  · exact fun _ => rfl

theorem passes_unlock (hs : p.Sound) (hset : p.Settled) : Passes t true false p p.unlock where
  sound := ⟨hs.accepted, hs.completed, fun _ => hset, hs.late, hs.offered⟩
  mutex := .inr (.inr ⟨rfl, rfl, rfl⟩)
  data := .inl ⟨rfl, rfl, rfl, rfl⟩
  refused := fun _ => rfl

theorem passes_block (hs : p.Sound) (hset : p.Settled) (i : Fin n) :
    Passes t true false p (p.block i) where
  sound := ⟨hs.accepted, hs.completed, fun _ => hset, hs.late, hs.offered⟩
  mutex := .inr (.inr ⟨rfl, rfl, rfl⟩)
  data := .inl ⟨rfl, rfl, rfl, rfl⟩
  refused := fun _ => rfl

/-- A step that reads, or that changes the condition variable only. -/
theorem passes_condition (hs : p.Sound) (w : Finset (Fin n)) :
    Passes t b b p { p with condition := w } where
  sound := ⟨hs.accepted, hs.completed, hs.free, hs.late, hs.offered⟩
  mutex := .inl ⟨rfl, rfl⟩
  data := .inl ⟨rfl, rfl, rfl, rfl⟩
  refused := fun _ => rfl

theorem passes_self (hs : p.Sound) : Passes t b b p p := passes_condition hs p.condition

theorem passes_terminate (hs : p.Sound) : Passes t b b p p.terminate where
  sound := ⟨hs.accepted, hs.completed, hs.free, hs.late, hs.offered⟩
  mutex := .inl ⟨rfl, rfl⟩
  data := .inl ⟨rfl, rfl, rfl, rfl⟩
  refused := fun _ => rfl

theorem passes_notifyOne {chosen : Option (Fin n)} (hs : p.Sound)
    (h : p.notifyOne chosen = some p') : Passes t b b p p' := by
  unfold Pool.notifyOne at h
  cases chosen with
  | none =>
    simp only [Option.ite_none_right_eq_some, Option.some.injEq] at h
    obtain ⟨-, rfl⟩ := h
    exact passes_self hs
  | some i =>
    simp only [Option.ite_none_right_eq_some, Option.some.injEq] at h
    obtain ⟨-, rfl⟩ := h
    exact passes_condition hs _

/-- The owner of the mutex adds a task to a pool that has not been stopped. -/
theorem passes_emplace [Nonempty C] (hs : p.Sound) (hown : p.poolQueueMutex = some t)
    (hstop : p.stop = false) (task : τ) : Passes t true true p (p.emplace task) where
  sound := by
    refine ⟨?_, hs.completed, ?_, hs.late, fun _ => inferInstance⟩
    · simp [Pool.emplace, hs.accepted]
    · intro hfree
      cases hown.symm.trans hfree
  mutex := .inl ⟨rfl, rfl⟩
  data := by
    refine .inr ⟨rfl, id, ?_⟩
    rintro ⟨hset, -⟩
    cases hset.symm.trans hstop
  refused := fun hset => nomatch hset.symm.trans hstop

theorem passes_stop (hs : p.Sound) : Passes t true true p { p with stop := true } where
  sound := ⟨hs.accepted, hs.completed, hs.free, hs.late, hs.offered⟩
  mutex := .inl ⟨rfl, rfl⟩
  data := .inr ⟨rfl, fun _ => rfl, fun hd => ⟨rfl, hd.2⟩⟩
  refused := fun _ => rfl

/-- A worker that owns the mutex takes the front task. -/
theorem passes_take {task : τ} {rest : List τ} (hs : p.Sound)
    (hown : p.poolQueueMutex = some t) (htasks : p.tasks = task :: rest) :
    Passes t true true p (p.take task rest) where
  sound := by
    refine ⟨?_, ?_, ?_, hs.late, hs.offered⟩
    · simp [Pool.take, hs.accepted, htasks]
    · exact hs.completed.trans (List.prefix_append _ _)
    · intro hfree
      cases hown.symm.trans hfree
  mutex := .inl ⟨rfl, rfl⟩
  data := by
    refine .inr ⟨rfl, id, ?_⟩
    rintro ⟨-, hempty⟩
    rw [htasks] at hempty
    cases hempty
  refused := fun _ => rfl

theorem passes_complete {task : τ} (hs : p.Sound)
    (hrun : p.started = p.completed ++ [task]) : Passes t true true p (p.complete task) where
  sound := by
    refine ⟨hs.accepted, ?_, fun _ => hrun, hs.late, hs.offered⟩
    show p.completed ++ [task] <+: p.started
    rw [hrun]
  mutex := .inl ⟨rfl, rfl⟩
  data := .inr ⟨rfl, id, id⟩
  refused := fun _ => rfl

/-- A call is over: a late one has thrown. -/
theorem Passes.record {call : Call} (h : Passes t b false p p')
    (hlate : call.late = true → call.thrown = true) : Passes t b false p (p'.record call) where
  sound := by
    refine ⟨h.sound.accepted, h.sound.completed, h.sound.free, ?_, h.sound.offered⟩
    intro x hx
    rcases List.mem_append.mp hx with hx | hx
    · exact h.sound.late x hx
    · rw [List.mem_singleton.mp hx]
      exact hlate
  mutex := h.mutex
  data := by
    rcases h.data with hsame | ⟨hb, hgrows⟩
    · exact .inl ⟨hsame.stop, hsame.tasks, hsame.started, hsame.completed⟩
    · exact .inr ⟨hb, hgrows.stop, hgrows.drained⟩
  refused := h.refused

end Passes

/-! ## One statement of one thread -/

def EnqueueOutcome.holds : EnqueueOutcome τ → Bool
  | .goes pc => pc.holds
  | .returned | .thrown => false

def EnqueueOutcome.Ok (p : Pool τ C n) : EnqueueOutcome τ → Prop
  | .goes pc => pc.Ok p
  | .returned | .thrown => True

def EnqueueOutcome.refuses : EnqueueOutcome τ → Bool
  | .goes pc => pc.refuses
  | .returned => false
  | .thrown => true

section Steps

variable {p p' : Pool τ C n} {t : Thread C n} {chosen : Option (Fin n)}

/-- A statement that always goes on. -/
theorem eq_of_some {α : Type*} {q : Pool τ C n} {next next' : α}
    (h : some (q, next) = some (p', next')) : q = p' ∧ next = next' :=
  Prod.mk.inj (Option.some.inj h)

/-- A statement that waits or goes on. -/
theorem eq_of_map {α : Type*} {q : Option (Pool τ C n)} {next next' : α}
    (h : (q.map fun p => (p, next)) = some (p', next')) : q = some p' ∧ next = next' := by
  obtain ⟨p'', hq, h⟩ := Option.map_eq_some_iff.mp h
  obtain ⟨rfl, rfl⟩ := Prod.mk.inj h
  exact ⟨hq, rfl⟩

theorem enqueueStep_passes [Nonempty C] {pc : EnqueuePc τ} {out : EnqueueOutcome τ}
    (hs : p.Sound) (hown : pc.holds = true → p.poolQueueMutex = some t) (hpc : pc.Ok p)
    (h : enqueueStep t chosen p pc = some (p', out)) :
    out.Ok p' ∧ Passes t pc.holds out.holds p p' := by
  cases pc with
  | locks task =>
    obtain ⟨hq, rfl⟩ := eq_of_map h
    exact passes_lock hs hq
  | tests task =>
    obtain ⟨rfl, rfl⟩ := eq_of_some h
    cases hstop : p.stop with
    | true => exact ⟨⟨hpc, hstop⟩, passes_self hs⟩
    | false => exact ⟨⟨hpc, hstop⟩, passes_self hs⟩
  | throws =>
    obtain ⟨rfl, rfl⟩ := eq_of_some h
    exact ⟨trivial, passes_unlock hs hpc.1⟩
  | emplaces task =>
    obtain ⟨rfl, rfl⟩ := eq_of_some h
    exact ⟨hpc.1, passes_emplace hs (hown rfl) hpc.2 task⟩
  | unlocks =>
    obtain ⟨rfl, rfl⟩ := eq_of_some h
    exact ⟨trivial, passes_unlock hs hpc⟩
  | notifies =>
    obtain ⟨hq, rfl⟩ := eq_of_map h
    exact ⟨trivial, passes_notifyOne hs hq⟩

/-- In a stopped pool a call that has not passed the test ends in the exception. -/
theorem enqueueStep_refuses {pc : EnqueuePc τ} {out : EnqueueOutcome τ} (hstop : p.stop = true)
    (hpc : pc.refuses = true) (h : enqueueStep t chosen p pc = some (p', out)) :
    out.refuses = true := by
  cases pc with
  | locks task =>
    obtain ⟨-, rfl⟩ := eq_of_map h
    rfl
  | tests task =>
    simp only [enqueueStep, hstop, if_true, Option.some.injEq, Prod.mk.injEq] at h
    obtain ⟨-, rfl⟩ := h
    rfl
  | throws =>
    obtain ⟨-, rfl⟩ := eq_of_some h
    rfl
  | emplaces | unlocks | notifies => cases hpc

theorem workerStep_passes {i : Fin n} {pc pc' : WorkerPc τ κ} (hs : p.Sound)
    (hown : pc.holds = true → p.poolQueueMutex = some (.worker i)) (hpc : pc.Ok code p)
    (h : workerStep i chosen p code pc = some (p', pc')) :
    pc'.Ok code p' ∧ Passes (.worker i) pc.holds pc'.holds p p' := by
  cases pc with
  | locks =>
    obtain ⟨hq, rfl⟩ := eq_of_map h
    exact passes_lock hs hq
  | tests =>
    simp only [workerStep, Option.some.injEq] at h
    cases hready : p.ready with
    | true =>
      simp only [hready, if_true, Prod.mk.injEq] at h
      obtain ⟨rfl, rfl⟩ := h
      exact ⟨⟨hpc, hready⟩, passes_self hs⟩
    | false =>
      simp only [hready, Bool.false_eq_true, if_false, Prod.mk.injEq] at h
      obtain ⟨rfl, rfl⟩ := h
      exact ⟨trivial, passes_block hs hpc i⟩
  | waits =>
    simp only [workerStep, Option.ite_none_left_eq_some, Option.map_eq_some_iff,
      Prod.mk.injEq] at h
    obtain ⟨-, q, hq, rfl, rfl⟩ := h
    exact passes_lock hs hq
  | decides =>
    obtain ⟨rfl, rfl⟩ := eq_of_some h
    obtain ⟨hset, hready⟩ := hpc
    by_cases hd : p.stop = true ∧ p.tasks = []
    · simp only [hd.1, hd.2, List.isEmpty_nil, Bool.and_self, if_true]
      exact ⟨⟨hset, hd⟩, passes_self hs⟩
    · -- the predicate of the wait leaves a task when the pool is not done
      have htasks : p.tasks ≠ [] := by
        intro hnil
        have hstop : p.stop = true := by simpa [Pool.ready, hnil] using hready
        exact hd ⟨hstop, hnil⟩
      simp only [List.isEmpty_eq_false_iff.mpr htasks, Bool.and_false, Bool.false_eq_true,
        if_false]
      exact ⟨⟨hset, htasks⟩, passes_self hs⟩
  | takes =>
    simp only [workerStep] at h
    cases htasks : p.tasks with
    | nil => exact absurd htasks hpc.2
    | cons task rest =>
      simp only [htasks, Option.some.injEq, Prod.mk.injEq] at h
      obtain ⟨rfl, rfl⟩ := h
      refine ⟨⟨?_, .refl⟩, passes_take hs (hown rfl) htasks⟩
      show p.started ++ [task] = p.completed ++ [task]
      rw [hpc.1]
  | runs => cases h
  | enqueues task rest pc =>
    -- the worker owns the mutex that the call would lock
    obtain ⟨-, -, new, rfl⟩ := hpc
    simp [workerStep, enqueueStep, Pool.lock, hown rfl] at h
  | unlocks =>
    obtain ⟨rfl, rfl⟩ := eq_of_some h
    exact ⟨trivial, passes_unlock hs hpc⟩
  | returns =>
    obtain ⟨rfl, rfl⟩ := eq_of_some h
    exact ⟨hpc.2, passes_unlock hs hpc.1⟩
  | returned => cases h

theorem taskStep_passes {i : Fin n} {act : TaskAct τ κ} {pc pc' : WorkerPc τ κ} (hs : p.Sound)
    (hpc : pc.Ok code p) (h : taskStep act p code pc = some (p', pc')) :
    pc'.Ok code p' ∧ Passes (.worker i) pc.holds pc'.holds p p' := by
  cases pc with
  | runs task c =>
    simp only [taskStep, Option.ite_none_right_eq_some] at h
    obtain ⟨hmay, h⟩ := h
    obtain ⟨hrun, hreach⟩ := hpc
    cases act with
    | works rest =>
      obtain ⟨rfl, rfl⟩ := eq_of_some h
      exact ⟨⟨hrun, hreach.tail hmay⟩, passes_self hs⟩
    | enqueues new rest =>
      obtain ⟨rfl, rfl⟩ := eq_of_some h
      exact ⟨⟨hrun, ⟨c, new, rest, hreach, hmay⟩, new, rfl⟩, passes_self hs⟩
    | returns =>
      obtain ⟨rfl, rfl⟩ := eq_of_some h
      exact ⟨hrun, passes_complete hs hrun⟩
    | throws =>
      obtain ⟨rfl, rfl⟩ := eq_of_some h
      exact ⟨⟨hrun, hreach⟩, passes_terminate hs⟩
  | locks | tests | waits | decides | takes | enqueues | unlocks | returns | returned => cases h

theorem callerStep_passes {c : C} {pc pc' : CallerPc τ} (hs : p.Sound)
    (hown : pc.holds = true → p.poolQueueMutex = some (.caller c)) (hpc : pc.Ok p)
    (h : callerStep c chosen p pc = some (p', pc')) :
    pc'.Ok p' ∧ Passes (.caller c) pc.holds pc'.holds p p' := by
  cases pc with
  | idle => cases h
  | calls late pc =>
    have : Nonempty C := ⟨c⟩
    simp only [callerStep, Option.map_eq_some_iff] at h
    obtain ⟨⟨q, out⟩, hq, h⟩ := h
    obtain ⟨hok, hpass⟩ := enqueueStep_passes hs hown hpc.1 hq
    have hrefuses : late = true → out.refuses = true := fun hlate =>
      enqueueStep_refuses (hpc.2 hlate).1 (hpc.2 hlate).2 hq
    cases out with
    | goes pc' =>
      simp only [Prod.mk.injEq] at h
      obtain ⟨rfl, rfl⟩ := h
      refine ⟨⟨hok, fun hlate => ⟨?_, hrefuses hlate⟩⟩, hpass⟩
      rcases hpass.data with hsame | ⟨-, hgrows⟩
      · rw [hsame.stop]
        exact (hpc.2 hlate).1
      · exact hgrows.stop (hpc.2 hlate).1
    | returned =>
      simp only [Prod.mk.injEq] at h
      obtain ⟨rfl, rfl⟩ := h
      refine ⟨trivial, hpass.record fun hlate => ?_⟩
      cases hrefuses hlate
    | thrown =>
      simp only [Prod.mk.injEq] at h
      obtain ⟨rfl, rfl⟩ := h
      exact ⟨trivial, hpass.record fun _ => rfl⟩

theorem destructorStep_passes {worker : Fin n → WorkerPc τ κ} {pc pc' : DestructorPc}
    (hs : p.Sound) (hpc : pc.Ok p) (h : destructorStep worker p pc = some (p', pc')) :
    pc'.Ok p' ∧ Passes .destructor pc.holds pc'.holds p p' := by
  cases pc with
  | locks =>
    obtain ⟨hq, rfl⟩ := eq_of_map h
    exact passes_lock hs hq
  | sets =>
    obtain ⟨rfl, rfl⟩ := eq_of_some h
    exact ⟨⟨hpc, rfl⟩, passes_stop hs⟩
  | unlocks =>
    obtain ⟨rfl, rfl⟩ := eq_of_some h
    exact ⟨hpc.2, passes_unlock hs hpc.1⟩
  | notifies =>
    obtain ⟨rfl, rfl⟩ := eq_of_some h
    exact ⟨hpc, passes_condition hs ∅⟩
  | joins k =>
    simp only [destructorStep] at h
    split at h
    · split at h
      · obtain ⟨rfl, rfl⟩ := eq_of_some h
        exact ⟨hpc, passes_self hs⟩
      · cases h
    · obtain ⟨rfl, rfl⟩ := eq_of_some h
      exact ⟨hpc, passes_self hs⟩
  | returned => cases h

end Steps

/-! ## Every run -/

/-- The thread `t` is where it was. -/
def Unmoved (s s' : State τ κ C n) : Thread C n → Prop
  | .worker i => s'.worker i = s.worker i
  | .caller c => s'.caller c = s.caller c
  | .destructor => s'.destructor = s.destructor

section Unmoved

variable {s s' : State τ κ C n} {t : Thread C n}

theorem Unmoved.holds_eq (h : Unmoved s s' t) : s'.holds t = s.holds t := by
  cases t with
  | worker i => exact congrArg WorkerPc.holds h
  | caller c => exact congrArg CallerPc.holds h
  | destructor => exact congrArg DestructorPc.holds h

theorem Unmoved.ok_iff (h : Unmoved s s' t) (p : Pool τ C n) :
    s'.Ok code p t ↔ s.Ok code p t := by
  cases t with
  | worker i => exact iff_of_eq (congrArg (WorkerPc.Ok code p) h)
  | caller c => exact iff_of_eq (congrArg (CallerPc.Ok p) h)
  | destructor => exact iff_of_eq (congrArg (DestructorPc.Ok p) h)

end Unmoved

theorem invariant_init : Invariant code (init : State τ κ C n) where
  sound := by
    refine ⟨rfl, List.prefix_refl _, fun _ => rfl, ?_, fun h => absurd rfl h⟩
    intro call hcall
    cases hcall
  guards := by
    intro t
    cases t <;> simp [State.holds, init, WorkerPc.holds, CallerPc.holds, DestructorPc.holds,
      Pool.init]
  ok := by
    intro t
    cases t <;> trivial
  joined := trivial

/-- A step of `t` that gives `t` the condition of its next statement. -/
theorem Invariant.advance {s s' : State τ κ C n} {t : Thread C n} (hi : Invariant code s)
    (hpass : Passes t (s.holds t) (s'.holds t) s.pool s'.pool) (hok : s'.Ok code s'.pool t)
    (hother : ∀ u, u ≠ t → Unmoved s s' u) (hj : Joined s'.worker s'.destructor) :
    Invariant code s' where
  sound := hpass.sound
  guards := by
    have hrest : ∀ u, u ≠ t → (s'.holds u = true ↔ s.holds u = true) := fun u hu => by
      rw [(hother u hu).holds_eq]
    rcases hpass.mutex with ⟨hsame, hm⟩ | ⟨-, hafter, hnone, hm⟩ | ⟨hbefore, hafter, hm⟩
    · rw [hm]
      refine hi.guards.stay fun u => ?_
      by_cases hu : u = t
      · rw [hu, hsame]
      · exact hrest u hu
    · rw [hm]
      have hfree := hi.guards
      rw [hnone] at hfree
      exact hfree.acquire hafter hrest
    · rw [hm]
      exact hi.guards.release hbefore (by simp [hafter]) hrest
  ok := by
    intro u
    by_cases hu : u = t
    · rw [hu]
      exact hok
    · rw [(hother u hu).ok_iff]
      rcases hpass.data with hsame | ⟨hbefore, hgrows⟩
      · exact ok_of_same hsame (hi.ok u)
      · -- `t` owns the mutex, so `u` does not
        refine ok_of_grows hgrows ?_ (hi.ok u)
        rw [Bool.eq_false_iff]
        exact fun hin => hu (hi.guards.unique hin hbefore)
  joined := hj

theorem unmoved_workerTo (s : State τ κ C n) (i : Fin n) (next : Pool τ C n × WorkerPc τ κ)
    (u : Thread C n) (hu : u ≠ .worker i) : Unmoved s (s.workerTo i next) u := by
  cases u with
  | worker j =>
    have hj : j ≠ i := fun h => hu (h ▸ rfl)
    exact Function.update_of_ne hj _ _
  | caller | destructor => rfl

theorem unmoved_destructorTo (s : State τ κ C n) (next : Pool τ C n × DestructorPc)
    (u : Thread C n) (hu : u ≠ .destructor) : Unmoved s (s.destructorTo next) u := by
  cases u with
  | destructor => exact absurd rfl hu
  | worker | caller => rfl

/-- A worker that can move is not one that the destructor has joined. -/
theorem joined_workerTo {s : State τ κ C n} {i : Fin n} (pc : WorkerPc τ κ)
    (hne : s.worker i ≠ .returned) (hj : Joined s.worker s.destructor) :
    Joined (Function.update s.worker i pc) s.destructor := by
  cases hd : s.destructor with
  | joins k =>
    rw [hd] at hj
    intro j hjk
    rw [Function.update_of_ne]
    · exact hj j hjk
    · rintro rfl
      exact hne (hj j hjk)
  | returned =>
    rw [hd] at hj
    exact absurd (hj i) hne
  | locks | sets | unlocks | notifies => trivial

theorem joined_destructorStep {worker : Fin n → WorkerPc τ κ} {p p' : Pool τ C n}
    {pc pc' : DestructorPc} (hj : Joined worker pc)
    (h : destructorStep worker p pc = some (p', pc')) : Joined worker pc' := by
  cases pc with
  | locks =>
    obtain ⟨-, rfl⟩ := eq_of_map h
    trivial
  | sets | unlocks =>
    obtain ⟨-, rfl⟩ := eq_of_some h
    trivial
  | notifies =>
    obtain ⟨-, rfl⟩ := eq_of_some h
    intro j hj0
    omega
  | joins k =>
    simp only [destructorStep] at h
    split at h
    · rename_i hk
      split at h
      · rename_i hret
        obtain ⟨-, rfl⟩ := eq_of_some h
        intro j hjk
        by_cases hlast : (j : Nat) = k
        · have heq : j = ⟨k, hk⟩ := Fin.ext hlast
          rw [heq, hret]
        · exact hj j (by omega)
      · cases h
    · rename_i hk
      obtain ⟨-, rfl⟩ := eq_of_some h
      intro j
      exact hj j (by omega)
  | returned => cases h

theorem Invariant.workerTo {s : State τ κ C n} {i : Fin n} {p' : Pool τ C n}
    {pc' : WorkerPc τ κ} (hi : Invariant code s) (hne : s.worker i ≠ .returned)
    (hok : pc'.Ok code p')
    (hpass : Passes (.worker i) (s.worker i).holds pc'.holds s.pool p') :
    Invariant code (s.workerTo i (p', pc')) := by
  have hself : (s.workerTo i (p', pc')).worker i = pc' := Function.update_self _ _ _
  refine hi.advance (t := .worker i) ?_ ?_ (unmoved_workerTo s i _)
    (joined_workerTo pc' hne hi.joined)
  · show Passes _ _ ((s.workerTo i (p', pc')).worker i).holds s.pool p'
    rw [hself]
    exact hpass
  · show ((s.workerTo i (p', pc')).worker i).Ok code p'
    rw [hself]
    exact hok

section Run

variable [DecidableEq C]

theorem unmoved_callerTo (s : State τ κ C n) (c : C) (next : Pool τ C n × CallerPc τ)
    (u : Thread C n) (hu : u ≠ .caller c) : Unmoved s (s.callerTo c next) u := by
  cases u with
  | caller d =>
    have hd : d ≠ c := fun h => hu (h ▸ rfl)
    exact Function.update_of_ne hd _ _
  | worker | destructor => rfl

theorem Invariant.callerTo {s : State τ κ C n} {c : C} {p' : Pool τ C n} {pc' : CallerPc τ}
    (hi : Invariant code s) (hok : pc'.Ok p')
    (hpass : Passes (.caller c) (s.caller c).holds pc'.holds s.pool p') :
    Invariant code (s.callerTo c (p', pc')) := by
  have hself : (s.callerTo c (p', pc')).caller c = pc' := Function.update_self _ _ _
  refine hi.advance (t := .caller c) ?_ ?_ (unmoved_callerTo s c _) hi.joined
  · show Passes _ _ ((s.callerTo c (p', pc')).caller c).holds s.pool p'
    rw [hself]
    exact hpass
  · show ((s.callerTo c (p', pc')).caller c).Ok p'
    rw [hself]
    exact hok

/-- **Step lemma.** A step also accepts nothing once `stop` is set. -/
theorem invariant_step {s s' : State τ κ C n} {a : Action τ κ C n} (hi : Invariant code s)
    (h : step code s a = some s') :
    Invariant code s' ∧ (s.pool.stop = true → s'.pool.accepted = s.pool.accepted) := by
  simp only [step, Option.ite_none_left_eq_some] at h
  obtain ⟨-, h⟩ := h
  have hown : ∀ t, s.holds t = true → s.pool.poolQueueMutex = some t :=
    fun t ht => hi.guards.owner_eq ht
  cases a with
  | worker i chosen =>
    simp only [live, Option.map_eq_some_iff] at h
    obtain ⟨⟨p', pc'⟩, h, rfl⟩ := h
    obtain ⟨hok, hpass⟩ := workerStep_passes hi.sound (hown (.worker i)) (hi.ok (.worker i)) h
    refine ⟨hi.workerTo ?_ hok hpass, hpass.refused⟩
    intro hret
    rw [hret] at h
    cases h
  | task i act =>
    simp only [live, Option.map_eq_some_iff] at h
    obtain ⟨⟨p', pc'⟩, h, rfl⟩ := h
    obtain ⟨hok, hpass⟩ := taskStep_passes (i := i) hi.sound (hi.ok (.worker i)) h
    refine ⟨hi.workerTo ?_ hok hpass, hpass.refused⟩
    intro hret
    rw [hret] at h
    cases h
  | wake i =>
    simp only [live, Option.some.injEq] at h
    subst h
    refine ⟨?_, fun _ => rfl⟩
    exact hi.advance (t := .worker i) (passes_condition hi.sound _)
      (ok_of_same ⟨rfl, rfl, rfl, rfl⟩ (hi.ok (.worker i)))
      (fun u _ => by cases u <;> rfl) hi.joined
  | call c task =>
    simp only [live] at h
    cases hc : s.caller c with
    | calls => simp [hc] at h
    | idle =>
      simp only [hc, Option.some.injEq] at h
      subst h
      refine ⟨hi.callerTo ⟨trivial, fun hlate => ⟨hlate, rfl⟩⟩ ?_, fun _ => rfl⟩
      rw [hc]
      exact passes_self hi.sound
  | caller c chosen =>
    simp only [live, Option.map_eq_some_iff] at h
    obtain ⟨⟨p', pc'⟩, h, rfl⟩ := h
    obtain ⟨hok, hpass⟩ := callerStep_passes hi.sound (hown (.caller c)) (hi.ok (.caller c)) h
    exact ⟨hi.callerTo hok hpass, hpass.refused⟩
  | destructor =>
    simp only [live, Option.map_eq_some_iff] at h
    obtain ⟨⟨p', pc'⟩, h, rfl⟩ := h
    obtain ⟨hok, hpass⟩ := destructorStep_passes hi.sound (hi.ok .destructor) h
    refine ⟨?_, hpass.refused⟩
    exact hi.advance (t := .destructor) hpass hok (unmoved_destructorTo s _)
      (joined_destructorStep hi.joined h)

/-- **Run lemma.** -/
theorem invariant_of_reachable {s : State τ κ C n}
    (hr : Machine.Reachable (step code) init s) : Invariant code s :=
  Machine.reachable_invariant (fun _ _ _ hi h => (invariant_step hi h).1) invariant_init hr

end Run

/-! ## The order of the tasks -/

/-- A task that only returns. -/
def returning : TaskCode τ Unit where
  start _ := ()
  may
    | (), .returns => true
    | (), _ => false

end BddsBroker.DdsThread
