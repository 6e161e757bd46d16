import BddsBroker.Lib.Machine
import BddsBroker.Lib.Tally
import BddsBroker.Lib.Tickets

/-! `ImplicitProducer`, the part of the vendored queue that belongs to one thread: its owner
adds items at the tail, and any thread may take them at the head. Each atomic access is a
step of its own. A relaxed or acquiring load may return an old value, so a load returns any
value that the counter has had; the counters only grow. -/

namespace BddsBroker.Moodycamel

open Tally Tickets

/-- `index_t`. -/
abbrev Index := BitVec 64

def blockSize : Index := 32

/-- `details::circular_less_than`. -/
def circularLessThan (a b : Index) : Bool := 1#64 <<< 63 < a - b

/-- Counters that are less than half the range apart compare as if they did not wrap. -/
theorem circularLessThan_ofNat {x y : Nat} (hx : x ≤ y + 2 ^ 63) (hy : y < x + 2 ^ 63) :
    circularLessThan (BitVec.ofNat 64 x) (BitVec.ofNat 64 y) = decide (x < y) := by
  have hhalf : (1#64 <<< 63).toNat = 2 ^ 63 := rfl
  rw [circularLessThan, decide_eq_decide, BitVec.lt_def, hhalf, BitVec.toNat_sub,
    BitVec.toNat_ofNat, BitVec.toNat_ofNat]
  omega

theorem circularLessThan_iff {a b : Index} (ha : a.toNat < 2 ^ 63) (hb : b.toNat < 2 ^ 63) :
    circularLessThan a b = true ↔ a.toNat < b.toNat := by
  have h := circularLessThan_ofNat (x := a.toNat) (y := b.toNat) (by omega) (by omega)
  rw [BitVec.ofNat_toNat, BitVec.ofNat_toNat, BitVec.setWidth_eq, BitVec.setWidth_eq] at h
  rw [h, decide_eq_true_iff]

namespace SubQueue

/-- The statement of `enqueue` that the owner is about to run. -/
inductive ProducerPc (α : Type*)
  | idle
  /-- At `headIndex.load`: the last block is full. -/
  | checks (item : α)
  /-- At `insert_block_index_entry` and `requisition_block`. -/
  | requisitions (item : α)
  /-- At the `new` in the block. -/
  | constructs (item : α)
  /-- At `tailIndex.store`. -/
  | publishes (item : α)
  deriving DecidableEq, Repr

/-- The statement of `dequeue` that a thread is about to run. -/
inductive ConsumerPc (α : Type*)
  /-- Not in `dequeue`; what the last call gave. -/
  | done (item : Option α)
  | loadsTail
  | loadsOvercommit (tail : Index)
  /-- At `dequeueOptimisticCount.load`. -/
  | tests (tail overcommit : Index)
  /-- At `dequeueOptimisticCount.fetch_add`. -/
  | counts (overcommit : Index)
  /-- At the second `tailIndex.load`. -/
  | reloads (overcommit myDequeueCount : Index)
  /-- At `headIndex.fetch_add`. -/
  | claims
  /-- At the move out of the element. -/
  | takes (index : Index)
  /-- At `dequeueOvercommit.fetch_add`. -/
  | overcommits (myDequeueCount : Index)
  deriving DecidableEq, Repr

structure State (α T : Type*) where
  tailIndex : Index
  headIndex : Index
  dequeueOptimisticCount : Index
  dequeueOvercommit : Index
  /-- The elements of the blocks, by their index. -/
  elements : Index → Option α
  producer : ProducerPc α
  consumer : T → ConsumerPc α
  /-- Every item that was published, in order. -/
  enqueued : List α
  /-- What the threads moved out, with the index. -/
  dequeued : List (Index × Option α)
  /-- The values of `myDequeueCount` that passed the second test, and those that were counted
  as overcommitted. -/
  succeeded : Finset Nat
  failed : Finset Nat

variable {α T : Type*}

def init : State α T where
  tailIndex := 0
  headIndex := 0
  dequeueOptimisticCount := 0
  dequeueOvercommit := 0
  elements := fun _ => none
  producer := .idle
  consumer := fun _ => .done none
  enqueued := []
  dequeued := []
  succeeded := ∅
  failed := ∅

inductive Event (α T : Type*)
  /-- The owner calls `enqueue`. -/
  | enqueue (item : α)
  /-- The owner's next statement, with what a load returns and whether there is memory. -/
  | produce (seen : Index) (allocated : Bool)
  /-- A thread calls `dequeue`. -/
  | dequeue (t : T)
  /-- The thread's next statement, with what a load returns. -/
  | consume (t : T) (seen : Index)
  deriving DecidableEq

def enqueue (s : State α T) (item : α) : Option (State α T) :=
  match s.producer with
  | .idle =>
      if s.tailIndex &&& (blockSize - 1) = 0 then some { s with producer := .checks item }
      else some { s with producer := .constructs item }
  | _ => none

def produce [DecidableEq T] (s : State α T) (seen : Index) (allocated : Bool) :
    Option (State α T) :=
  match s.producer with
  | .idle => none
  | .checks item =>
      if seen ≤ s.headIndex then
        if circularLessThan seen (s.tailIndex + blockSize) then
          some { s with producer := .requisitions item }
        else some { s with producer := .idle }
      else none
  | .requisitions item =>
      if allocated then some { s with producer := .constructs item }
      else some { s with producer := .idle }
  | .constructs item =>
      some { s with
        elements := Function.update s.elements s.tailIndex (some item)
        producer := .publishes item }
  | .publishes item =>
      some { s with
        tailIndex := s.tailIndex + 1
        enqueued := s.enqueued ++ [item]
        producer := .idle }

section Consumers

variable [DecidableEq T]

def State.goto (s : State α T) (t : T) (pc : ConsumerPc α) : State α T :=
  { s with consumer := Function.update s.consumer t pc }

def dequeue (s : State α T) (t : T) : Option (State α T) :=
  match s.consumer t with
  | .done _ => some (s.goto t .loadsTail)
  | _ => none

def consume (s : State α T) (t : T) (seen : Index) : Option (State α T) :=
  match s.consumer t with
  | .done _ => none
  | .loadsTail =>
      if seen ≤ s.tailIndex then some (s.goto t (.loadsOvercommit seen)) else none
  | .loadsOvercommit tail =>
      if seen ≤ s.dequeueOvercommit then some (s.goto t (.tests tail seen)) else none
  | .tests tail overcommit =>
      if seen ≤ s.dequeueOptimisticCount then
        if circularLessThan (seen - overcommit) tail then some (s.goto t (.counts overcommit))
        else some (s.goto t (.done none))
      else none
  | .counts overcommit =>
      some ({ s with dequeueOptimisticCount := s.dequeueOptimisticCount + 1 }.goto t
        (.reloads overcommit s.dequeueOptimisticCount))
  | .reloads overcommit myDequeueCount =>
      if seen ≤ s.tailIndex then
        if circularLessThan (myDequeueCount - overcommit) seen then
          some ({ s with succeeded := insert myDequeueCount.toNat s.succeeded }.goto t .claims)
        else some (s.goto t (.overcommits myDequeueCount))
      else none
  | .claims =>
      some ({ s with headIndex := s.headIndex + 1 }.goto t (.takes s.headIndex))
  | .takes index =>
      some ({ s with
        elements := Function.update s.elements index none
        dequeued := s.dequeued ++ [(index, s.elements index)] }.goto t
          (.done (s.elements index)))
  | .overcommits myDequeueCount =>
      some ({ s with
        dequeueOvercommit := s.dequeueOvercommit + 1
        failed := insert myDequeueCount.toNat s.failed }.goto t (.done none))

def step (s : State α T) : Event α T → Option (State α T)
  | .enqueue item => enqueue s item
  | .produce seen allocated => produce s seen allocated
  | .dequeue t => dequeue s t
  | .consume t seen => consume s t seen

end Consumers

end SubQueue

end BddsBroker.Moodycamel
