import Mathlib.Data.Finset.Basic
import Mathlib.Logic.Relation

/-! `DDSThreadPool`: the worker loop, `enqueue` and the destructor, one statement at a
time. The constructor and `generate_threads` start workers with the same loop. A worker
calls its task inside the scope of the `unique_lock`, so it owns `pool_queue_mutex` while
the task runs. -/

namespace BddsBroker.DdsThread

/-! ## Tasks

A task is any code. It may compute, call `enqueue` on the pool that runs it, return or
throw. -/

/-- What a running task does next. -/
inductive TaskAct (τ κ : Type*)
  | works (rest : κ)
  | enqueues (task : τ) (rest : κ)
  | returns
  | throws

/-- The code behind a task type: where a task begins and what it may do from there. -/
structure TaskCode (τ κ : Type*) where
  start : τ → κ
  may : κ → TaskAct τ κ → Bool

section Code

variable {τ κ : Type*}

/-- The task comes to the point `c` of its code without a call of `enqueue`. -/
def TaskCode.Reaches (code : TaskCode τ κ) (task : τ) (c : κ) : Prop :=
  Relation.ReflTransGen (fun c c' => code.may c (.works c') = true) (code.start task) c

/-- The task may come to call `enqueue` on its pool. -/
def TaskCode.UsesPool (code : TaskCode τ κ) (task : τ) : Prop :=
  ∃ c new rest, code.Reaches task c ∧ code.may c (.enqueues new rest) = true

end Code

/-! ## The pool and its threads -/

inductive Thread (C : Type*) (n : Nat)
  | worker (i : Fin n)
  | caller (c : C)
  | destructor

/-- A call of `enqueue` that is over: whether `stop` was set when it began, and how it
ended. -/
structure Call where
  late : Bool
  thrown : Bool
  deriving DecidableEq, Repr

/-- The members of the pool, and what has happened so far. -/
structure Pool (τ C : Type*) (n : Nat) where
  poolQueueMutex : Option (Thread C n)
  /-- The workers that `condition` blocks. -/
  condition : Finset (Fin n)
  stop : Bool
  tasks : List τ
  /-- The tasks that `enqueue` added, that workers called and that returned. -/
  accepted : List τ
  started : List τ
  completed : List τ
  calls : List Call
  /-- An exception left a thread's function, so the process ended. -/
  terminated : Bool

/-- The statement of `enqueue` about to run. -/
inductive EnqueuePc (τ : Type*)
  | locks (task : τ)
  | tests (task : τ)
  | throws
  | emplaces (task : τ)
  | unlocks
  | notifies

inductive EnqueueOutcome (τ : Type*)
  | goes (pc : EnqueuePc τ)
  | returned
  | thrown

/-- The statement of the worker loop about to run. `waits` is inside `condition.wait`,
`enqueues` inside a call of `enqueue` that the task makes. -/
inductive WorkerPc (τ κ : Type*)
  | locks
  | tests
  | waits
  | decides
  | takes
  | runs (task : τ) (code : κ)
  | enqueues (task : τ) (rest : κ) (pc : EnqueuePc τ)
  | unlocks
  | returns
  | returned

/-- A thread outside the pool calls `enqueue` any number of times. -/
inductive CallerPc (τ : Type*)
  | idle
  | calls (late : Bool) (pc : EnqueuePc τ)

/-- The statement of `~DDSThreadPool` about to run. -/
inductive DestructorPc
  | locks
  | sets
  | unlocks
  | notifies
  | joins (k : Nat)
  | returned
  deriving DecidableEq, Repr

structure State (τ κ C : Type*) (n : Nat) where
  pool : Pool τ C n
  worker : Fin n → WorkerPc τ κ
  caller : C → CallerPc τ
  destructor : DestructorPc

/-- One statement of one thread. `chosen` is the worker that a `notify_one` wakes. -/
inductive Action (τ κ C : Type*) (n : Nat)
  | worker (i : Fin n) (chosen : Option (Fin n))
  | task (i : Fin n) (act : TaskAct τ κ)
  | wake (i : Fin n)
  | call (c : C) (task : τ)
  | caller (c : C) (chosen : Option (Fin n))
  | destructor

variable {τ κ C : Type*} {n : Nat}

/-! ## The operations on the members -/

namespace Pool

/-- A thread that finds the mutex taken waits, also when it is the owner itself. -/
def lock (p : Pool τ C n) (self : Thread C n) : Option (Pool τ C n) :=
  if p.poolQueueMutex.isNone then some { p with poolQueueMutex := some self } else none

def unlock (p : Pool τ C n) : Pool τ C n := { p with poolQueueMutex := none }

/-- The predicate of `condition.wait`. -/
def ready (p : Pool τ C n) : Bool := p.stop || !p.tasks.isEmpty

/-- `condition.wait` releases the mutex as it blocks. -/
def block (p : Pool τ C n) (i : Fin n) : Pool τ C n :=
  { p.unlock with condition := insert i p.condition }

def wake (p : Pool τ C n) (i : Fin n) : Pool τ C n := { p with condition := p.condition.erase i }

/-- `condition.notify_one()` wakes one of the blocked workers if there is any. -/
def notifyOne (p : Pool τ C n) : Option (Fin n) → Option (Pool τ C n)
  | some i => if i ∈ p.condition then some (p.wake i) else none
  | none => if p.condition = ∅ then some p else none

def notifyAll (p : Pool τ C n) : Pool τ C n := { p with condition := ∅ }

def emplace (p : Pool τ C n) (task : τ) : Pool τ C n :=
  { p with tasks := p.tasks ++ [task], accepted := p.accepted ++ [task] }

/-- `task = std::move(tasks.front()); tasks.pop();` where `rest` follows the front. -/
def take (p : Pool τ C n) (task : τ) (rest : List τ) : Pool τ C n :=
  { p with tasks := rest, started := p.started ++ [task] }

def complete (p : Pool τ C n) (task : τ) : Pool τ C n :=
  { p with completed := p.completed ++ [task] }

def record (p : Pool τ C n) (call : Call) : Pool τ C n := { p with calls := p.calls ++ [call] }

def terminate (p : Pool τ C n) : Pool τ C n := { p with terminated := true }

end Pool

/-! ## The functions -/

/-- `DDSThreadPool::enqueue`, called by `self`. -/
def enqueueStep (self : Thread C n) (chosen : Option (Fin n)) (p : Pool τ C n) :
    EnqueuePc τ → Option (Pool τ C n × EnqueueOutcome τ)
  | .locks task => (p.lock self).map fun p => (p, .goes (.tests task))
  | .tests task => some (p, .goes (if p.stop then .throws else .emplaces task))
  | .throws => some (p.unlock, .thrown)
  | .emplaces task => some (p.emplace task, .goes .unlocks)
  | .unlocks => some (p.unlock, .goes .notifies)
  | .notifies => (p.notifyOne chosen).map fun p => (p, .returned)

/-- The worker loop, and what `enqueue` does for a task that called it. -/
def workerStep (i : Fin n) (chosen : Option (Fin n)) (p : Pool τ C n) (code : TaskCode τ κ) :
    WorkerPc τ κ → Option (Pool τ C n × WorkerPc τ κ)
  | .locks => (p.lock (.worker i)).map fun p => (p, .tests)
  | .tests => some (if p.ready then (p, .decides) else (p.block i, .waits))
  | .waits =>
      if i ∈ p.condition then none else (p.lock (.worker i)).map fun p => (p, .tests)
  | .decides => some (p, if p.stop && p.tasks.isEmpty then .returns else .takes)
  | .takes =>
      match p.tasks with
      | [] => none
      | task :: rest => some (p.take task rest, .runs task (code.start task))
  | .runs _ _ => none
  | .enqueues task rest pc =>
      (enqueueStep (.worker i) chosen p pc).map fun
        | (p, .goes pc) => (p, .enqueues task rest pc)
        | (p, .returned) => (p, .runs task rest)
        | (p, .thrown) => (p.terminate, .enqueues task rest pc)
  | .unlocks => some (p.unlock, .locks)
  | .returns => some (p.unlock, .returned)
  | .returned => none

/-- The code of the task that a worker has called. -/
def taskStep (act : TaskAct τ κ) (p : Pool τ C n) (code : TaskCode τ κ) :
    WorkerPc τ κ → Option (Pool τ C n × WorkerPc τ κ)
  | .runs task c =>
      if code.may c act then
        match act with
        | .works rest => some (p, .runs task rest)
        | .enqueues new rest => some (p, .enqueues task rest (.locks new))
        | .returns => some (p.complete task, .unlocks)
        | .throws => some (p.terminate, .runs task c)
      else none
  | _ => none

def callerStep (c : C) (chosen : Option (Fin n)) (p : Pool τ C n) :
    CallerPc τ → Option (Pool τ C n × CallerPc τ)
  | .idle => none
  | .calls late pc =>
      (enqueueStep (.caller c) chosen p pc).map fun
        | (p, .goes pc) => (p, .calls late pc)
        | (p, .returned) => (p.record ⟨late, false⟩, .idle)
        | (p, .thrown) => (p.record ⟨late, true⟩, .idle)

/-- `~DDSThreadPool`. The workers are joined one after another. -/
def destructorStep (worker : Fin n → WorkerPc τ κ) (p : Pool τ C n) :
    DestructorPc → Option (Pool τ C n × DestructorPc)
  | .locks => (p.lock .destructor).map fun p => (p, .sets)
  | .sets => some ({ p with stop := true }, .unlocks)
  | .unlocks => some (p.unlock, .notifies)
  | .notifies => some (p.notifyAll, .joins 0)
  | .joins k =>
      if h : k < n then
        match worker ⟨k, h⟩ with
        | .returned => some (p, .joins (k + 1))
        | _ => none
      else some (p, .returned)
  | .returned => none

def Pool.init : Pool τ C n := ⟨none, ∅, false, [], [], [], [], [], false⟩

def init : State τ κ C n := ⟨.init, fun _ => .locks, fun _ => .idle, .locks⟩

variable [DecidableEq C]

def State.workerTo (s : State τ κ C n) (i : Fin n) (next : Pool τ C n × WorkerPc τ κ) :
    State τ κ C n :=
  { s with pool := next.1, worker := Function.update s.worker i next.2 }

def State.callerTo (s : State τ κ C n) (c : C) (next : Pool τ C n × CallerPc τ) :
    State τ κ C n :=
  { s with pool := next.1, caller := Function.update s.caller c next.2 }

def State.destructorTo (s : State τ κ C n) (next : Pool τ C n × DestructorPc) :
    State τ κ C n :=
  { s with pool := next.1, destructor := next.2 }

/-- The statements of a process that has not ended. -/
def live (code : TaskCode τ κ) (s : State τ κ C n) : Action τ κ C n → Option (State τ κ C n)
  | .worker i chosen => (workerStep i chosen s.pool code (s.worker i)).map (s.workerTo i)
  | .task i act => (taskStep act s.pool code (s.worker i)).map (s.workerTo i)
  | .wake i => some { s with pool := s.pool.wake i }
  | .call c task =>
      match s.caller c with
      | .idle => some (s.callerTo c (s.pool, .calls s.pool.stop (.locks task)))
      | .calls _ _ => none
  | .caller c chosen => (callerStep c chosen s.pool (s.caller c)).map (s.callerTo c)
  | .destructor => (destructorStep s.worker s.pool s.destructor).map s.destructorTo

def step (code : TaskCode τ κ) (s : State τ κ C n) (a : Action τ κ C n) :
    Option (State τ κ C n) :=
  if s.pool.terminated then none else live code s a

end BddsBroker.DdsThread
