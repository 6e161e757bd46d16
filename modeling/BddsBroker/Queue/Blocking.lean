import BddsBroker.Queue.Semaphore
import BddsBroker.Queue.Taking

/-! `BlockingConcurrentQueue`: one sub-queue for each producer and a semaphore that counts the
items. `enqueue` adds to the producer's own sub-queue and signals; `wait_dequeue` waits for the
semaphore and then looks for an item until it finds one. A thread that does both counts as a
producer and as a consumer, and each atomic access is a step. -/

namespace BddsBroker.Moodycamel.BlockingQueue

/-- What `try_dequeue` knows of the sub-queues that it has looked at. -/
structure Scores (P : Type*) where
  nonEmptyCount : Nat
  best : Option P
  bestSize : Index
  found : best.isSome ↔ 0 < nonEmptyCount
  fresh : nonEmptyCount = 0 → bestSize = 0

/-- Where a consumer is when it is not inside the semaphore or a sub-queue. -/
inductive Phase (P : Type*)
  | outside
  /-- In `sema->wait`. -/
  | waits
  /-- At the first load of `producerListTail`. -/
  | lists
  /-- At `size_approx` of the producer `p`, with those that follow it in the list. -/
  | sizes (p : P) (rest : List P) (scores : Scores P)
  /-- In `best->dequeue`. -/
  | triesBest (best : P)
  /-- At the second load of `producerListTail`. -/
  | relists (best : P)
  /-- In `dequeue` of the producer `p`. -/
  | tries (best p : P) (rest : List P)

structure State (α P T : Type*) where
  /-- The list of the producers, the last one first. -/
  producerListTail : List P
  sub : P → SubQueue.State α T
  sema : LightweightSemaphore.State (P ⊕ T)
  phase : T → Phase P
  /-- What `wait_dequeue` has given to each consumer, with the producer. -/
  received : T → List (P × α)

inductive Event (α P T : Type*)
  /-- The producer's thread enqueues for the first time. -/
  | register (p : P)
  | enqueue (p : P) (item : α)
  | produce (p : P) (seen : Index) (allocated : Bool)
  /-- The producer's next statement in `sema->signal`. -/
  | signal (p : P) (seen : Int) (ok : Bool)
  /-- A consumer calls `wait_dequeue`. -/
  | waitDequeue (t : T)
  /-- The consumer's next statement in `sema->wait`. -/
  | wait (t : T) (seen : Int) (ok : Bool)
  /-- `sema->wait` returns. -/
  | waited (t : T)
  /-- A load of `producerListTail` that misses the last `missed` producers. -/
  | list (t : T) (missed : Nat)
  | size (t : T) (tail head : Index)
  /-- The consumer's next statement in `dequeue` of a sub-queue. -/
  | consume (t : T) (seen : Index)

variable {α P T : Type*}

def Scores.none : Scores P where
  nonEmptyCount := 0
  best := .none
  bestSize := 0
  found := by simp
  fresh := fun _ => rfl

/-- `size_approx`. -/
def sizeApprox (tail head : Index) : Index := if circularLessThan head tail then tail - head else 0

def Scores.add (s : Scores P) (p : P) (size : Index) : Scores P :=
  if hpos : 0 < size then
    if hbest : s.bestSize < size then
      { nonEmptyCount := s.nonEmptyCount + 1
        best := some p
        bestSize := size
        found := by simp
        fresh := by simp }
    else
      { s with
        nonEmptyCount := s.nonEmptyCount + 1
        found := by
          have hsome : 0 < s.nonEmptyCount := by
            rw [Nat.pos_iff_ne_zero]
            intro hzero
            rw [s.fresh hzero] at hbest
            exact hbest hpos
          simp [s.found, hsome]
        fresh := by simp }
  else s

def init : State α P T where
  producerListTail := []
  sub := fun _ => SubQueue.init
  sema := LightweightSemaphore.init 0
  phase := fun _ => .outside
  received := fun _ => []

section Steps

variable [DecidableEq P] [DecidableEq T]

def State.goto (s : State α P T) (t : T) (phase : Phase P) : State α P T :=
  { s with phase := Function.update s.phase t phase }

def State.setSub (s : State α P T) (p : P) (q : SubQueue.State α T) : State α P T :=
  { s with sub := Function.update s.sub p q }

def State.setSema (s : State α P T) (sema : LightweightSemaphore.State (P ⊕ T)) : State α P T :=
  { s with sema := sema }

omit [DecidableEq P] in
@[simp] theorem goto_phase (s : State α P T) (t : T) (phase : Phase P) :
    (s.goto t phase).phase t = phase := by
  simp [State.goto]

omit [DecidableEq P] in
theorem goto_phase_of_ne (s : State α P T) {t u : T} (h : u ≠ t) (phase : Phase P) :
    (s.goto t phase).phase u = s.phase u := by
  simp [State.goto, h]

omit [DecidableEq T] in
@[simp] theorem setSub_sub (s : State α P T) (p : P) (q : SubQueue.State α T) :
    (s.setSub p q).sub p = q := by
  simp [State.setSub]

omit [DecidableEq T] in
theorem setSub_sub_of_ne (s : State α P T) {p r : P} (h : r ≠ p) (q : SubQueue.State α T) :
    (s.setSub p q).sub r = s.sub r := by
  simp [State.setSub, h]

omit [DecidableEq T] in
@[simp] theorem setSub_received (s : State α P T) (p : P) (q : SubQueue.State α T) :
    (s.setSub p q).received = s.received := rfl

/-- The consumer calls `dequeue` of the producer `p`. -/
def callDequeue (s : State α P T) (t : T) (p : P) (phase : Phase P) : Option (State α P T) :=
  (SubQueue.dequeue (s.sub p) t).map fun q => (s.setSub p q).goto t phase

/-- The head of the first loop of `try_dequeue`, and what follows the loop. When nothing was
found, `wait_dequeue` starts again. -/
def score (s : State α P T) (t : T) (rest : List P) (scores : Scores P) :
    Option (State α P T) :=
  match rest with
  | p :: rest =>
      if scores.nonEmptyCount < 3 then some (s.goto t (.sizes p rest scores))
      else leave scores
  | [] => leave scores
where
  leave (scores : Scores P) : Option (State α P T) :=
    match scores.best with
    | some best => callDequeue s t best (.triesBest best)
    | none => some (s.goto t .lists)

/-- The head of the second loop of `try_dequeue`. -/
def walk (s : State α P T) (t : T) (best : P) : List P → Option (State α P T)
  | [] => some (s.goto t .lists)
  | p :: rest => if p ≠ best then callDequeue s t p (.tries best p rest) else walk s t best rest

/-- What follows a statement of the consumer in the sub-queue of `p`. When `dequeue` gives
nothing, `failed` is next. -/
def settle (s : State α P T) (t : T) (p : P) (failed : State α P T → Option (State α P T)) :
    Option (State α P T) :=
  match (s.sub p).consumer t with
  | .done (some item) =>
      some ({ s with
        received := Function.update s.received t (s.received t ++ [(p, item)]) }.goto t .outside)
  | .done none => failed s
  | _ => some s

section Settle

variable {s : State α P T} {t : T} {p : P} (failed : State α P T → Option (State α P T))

omit [DecidableEq P] in
theorem settle_item {item : α} (h : (s.sub p).consumer t = .done (some item)) :
    settle s t p failed = some ({ s with
      received := Function.update s.received t (s.received t ++ [(p, item)]) }.goto t
        .outside) := by
  rw [settle, h]

omit [DecidableEq P] in
theorem settle_inside (h : ∀ i, (s.sub p).consumer t ≠ .done i) :
    settle s t p failed = some s := by
  unfold settle
  split
  · rename_i hi
    exact absurd hi (h _)
  · rename_i hi
    exact absurd hi (h _)
  · rfl

end Settle

def register (s : State α P T) (p : P) : Option (State α P T) :=
  if p ∈ s.producerListTail then none
  else some { s with producerListTail := p :: s.producerListTail }

def enqueue (s : State α P T) (p : P) (item : α) : Option (State α P T) :=
  if p ∈ s.producerListTail ∧ (s.sema.pc (.inl p)).outside then
    (SubQueue.enqueue (s.sub p) item).map (s.setSub p)
  else none

/-- When the item is published, the producer calls `sema->signal`. -/
def produce (s : State α P T) (p : P) (seen : Index) (allocated : Bool) :
    Option (State α P T) :=
  (SubQueue.produce (s.sub p) seen allocated).bind fun q =>
    match (s.sub p).producer with
    | .publishes _ =>
        (LightweightSemaphore.signal s.sema (.inl p) 1).map (s.setSub p q).setSema
    | _ => some (s.setSub p q)

def waitDequeue (s : State α P T) (t : T) : Option (State α P T) :=
  match s.phase t with
  | .outside =>
      (LightweightSemaphore.wait s.sema (.inr t) (-1)).map (s.goto t .waits).setSema
  | _ => none

/-- `while (!sema->wait()) continue;` -/
def waited (s : State α P T) (t : T) : Option (State α P T) :=
  match s.phase t, s.sema.pc (.inr t) with
  | .waits, .returned true => some (s.goto t .lists)
  | .waits, .returned false =>
      (LightweightSemaphore.wait s.sema (.inr t) (-1)).map s.setSema
  | _, _ => none

def list (s : State α P T) (t : T) (missed : Nat) : Option (State α P T) :=
  match s.phase t with
  | .lists => score s t (s.producerListTail.drop missed) .none
  | .relists best => walk s t best (s.producerListTail.drop missed)
  | _ => none

def size (s : State α P T) (t : T) (tail head : Index) : Option (State α P T) :=
  match s.phase t with
  | .sizes p rest scores =>
      if tail ≤ (s.sub p).tailIndex ∧ head ≤ (s.sub p).headIndex then
        score s t rest (scores.add p (sizeApprox tail head))
      else none
  | _ => none

def consume (s : State α P T) (t : T) (seen : Index) : Option (State α P T) :=
  match s.phase t with
  | .triesBest best =>
      (SubQueue.consume (s.sub best) t seen).bind fun q =>
        settle (s.setSub best q) t best fun s => some (s.goto t (.relists best))
  | .tries best p rest =>
      (SubQueue.consume (s.sub p) t seen).bind fun q =>
        settle (s.setSub p q) t p fun s => walk s t best rest
  | _ => none

def step (maxSpins : Nat) (s : State α P T) : Event α P T → Option (State α P T)
  | .register p => register s p
  | .enqueue p item => enqueue s p item
  | .produce p seen allocated => produce s p seen allocated
  | .signal p seen ok =>
      (LightweightSemaphore.next maxSpins s.sema (.inl p) seen ok).map s.setSema
  | .waitDequeue t => waitDequeue s t
  | .wait t seen ok =>
      (LightweightSemaphore.next maxSpins s.sema (.inr t) seen ok).map s.setSema
  | .waited t => waited s t
  | .list t missed => list s t missed
  | .size t tail head => size s t tail head
  | .consume t seen => consume s t seen

end Steps

end BddsBroker.Moodycamel.BlockingQueue
