import BddsBroker.Queue.SubQueue
import Mathlib.Data.List.Perm.Subperm
import Mathlib.Data.Nat.Bitwise

/-! The blocks that a sub-queue keeps its elements in. The owner gets a block from the pool for
each thirty-two indices; the thread that counts the last of them as moved out gives the block
back, and the next user writes over it. The sub-queue with its blocks behaves like the one of
`SubQueue`, which has a place of its own for each index. -/

namespace BddsBroker.Moodycamel.Storage

/-- The index of the block's first element, which is the key of its entry. -/
def blockStart (index : Index) : Index := index &&& ~~~(blockSize - 1)

/-- The place in the block. -/
def offset (index : Index) : Index := index &&& (blockSize - 1)

/-- What a thread still does with a block when it has moved out its element. -/
inductive Emptying (B : Type*)
  | none
  /-- At `set_empty`. -/
  | counts (index : Index) (block : B)
  /-- At `entry->value.store(nullptr)`. -/
  | clears (start : Index) (block : B)
  /-- At `add_block_to_free_list`. -/
  | frees (block : B)
  deriving DecidableEq

structure State (α T B : Type*) where
  /-- The counters and the threads; its elements are not used. -/
  queue : SubQueue.State α T
  /-- The values of the block index, by their keys. -/
  entries : Index → Option B
  tailBlock : Option B
  slots : B → Index → Option α
  elementsCompletelyDequeued : B → Nat
  emptying : T → Emptying B
  /-- The blocks that the pool has given away. -/
  inUse : B → Bool
  /-- Those of them that it gave to this sub-queue, with their first index. -/
  start : B → Option Index
  /-- The indices that `set_empty` has counted. -/
  counted : List Index

inductive Event (α T B : Type*)
  | enqueue (item : α)
  /-- The owner's next statement, with what it loads and the block that it gets. -/
  | produce (seen : Index) (block : Option B)
  | dequeue (t : T)
  | consume (t : T) (seen : Index)
  /-- What a thread does after it has moved out its element. -/
  | empty (t : T)
  /-- The other sub-queues get, write and give back blocks. -/
  | takeOther (block : B)
  | writeOther (block : B) (offset : Index) (content : Option α) (count : Nat)
  | giveOther (block : B)
  deriving DecidableEq

variable {α T B : Type*}

def init : State α T B where
  queue := SubQueue.init
  entries := fun _ => none
  tailBlock := none
  slots := fun _ _ => none
  elementsCompletelyDequeued := fun _ => 0
  emptying := fun _ => .none
  inUse := fun _ => false
  start := fun _ => none
  counted := []

section Steps

variable [DecidableEq B]

def State.write (s : State α T B) (block : B) (place : Index) (content : Option α) :
    State α T B :=
  { s with
    slots := Function.update s.slots block (Function.update (s.slots block) place content) }

def enqueue (s : State α T B) (item : α) : Option (State α T B) :=
  (SubQueue.enqueue s.queue item).map fun queue => { s with queue := queue }

/-- The pool gives a block that nobody uses. -/
def requisition (s : State α T B) (item : α) (block : B) : Option (State α T B) :=
  if s.inUse block then none
  else
    let first := blockStart s.queue.tailIndex
    some { s with
      queue := { s.queue with producer := .constructs item }
      entries := Function.update s.entries first (some block)
      tailBlock := some block
      elementsCompletelyDequeued := Function.update s.elementsCompletelyDequeued block 0
      inUse := Function.update s.inUse block true
      start := Function.update s.start block (some first) }

def takeOther (s : State α T B) (block : B) : Option (State α T B) :=
  if s.inUse block then none
  else some { s with inUse := Function.update s.inUse block true }

def writeOther (s : State α T B) (block : B) (place : Index) (content : Option α) (count : Nat) :
    Option (State α T B) :=
  if s.inUse block ∧ s.start block = none then
    some { s.write block place content with
      elementsCompletelyDequeued := Function.update s.elementsCompletelyDequeued block count }
  else none

def giveOther (s : State α T B) (block : B) : Option (State α T B) :=
  if s.inUse block ∧ s.start block = none then
    some { s with inUse := Function.update s.inUse block false }
  else none

variable [DecidableEq T]

def produce (s : State α T B) (seen : Index) (block : Option B) : Option (State α T B) :=
  match s.queue.producer with
  | .requisitions item =>
      match block with
      | some block => requisition s item block
      | none => some { s with queue := { s.queue with producer := .idle } }
  | .constructs item => s.tailBlock.map fun block =>
      { s.write block (offset s.queue.tailIndex) (some item) with
        queue := { s.queue with producer := .publishes item } }
  | _ => (SubQueue.produce s.queue seen true).map fun queue => { s with queue := queue }

def dequeue (s : State α T B) (t : T) : Option (State α T B) :=
  match s.emptying t with
  | .none => (SubQueue.dequeue s.queue t).map fun queue => { s with queue := queue }
  | _ => none

def consume (s : State α T B) (t : T) (seen : Index) : Option (State α T B) :=
  match s.queue.consumer t with
  | .takes index => (s.entries (blockStart index)).map fun block =>
      let item := s.slots block (offset index)
      { s.write block (offset index) none with
        queue := { s.queue with dequeued := s.queue.dequeued ++ [(index, item)] }.goto t
          (.done item)
        emptying := Function.update s.emptying t (.counts index block) }
  | _ => (SubQueue.consume s.queue t seen).map fun queue => { s with queue := queue }

def empty (s : State α T B) (t : T) : Option (State α T B) :=
  match s.emptying t with
  | .none => none
  | .counts index block =>
      let prevVal := s.elementsCompletelyDequeued block
      some { s with
        elementsCompletelyDequeued :=
          Function.update s.elementsCompletelyDequeued block (prevVal + 1)
        counted := s.counted ++ [index]
        emptying := Function.update s.emptying t
          (if prevVal = blockSize.toNat - 1 then .clears (blockStart index) block else .none) }
  | .clears first block =>
      some { s with
        entries := Function.update s.entries first none
        emptying := Function.update s.emptying t (.frees block) }
  | .frees block =>
      some { s with
        inUse := Function.update s.inUse block false
        start := Function.update s.start block none
        emptying := Function.update s.emptying t .none }

def step (s : State α T B) : Event α T B → Option (State α T B)
  | .enqueue item => enqueue s item
  | .produce seen block => produce s seen block
  | .dequeue t => dequeue s t
  | .consume t seen => consume s t seen
  | .empty t => empty s t
  | .takeOther block => takeOther s block
  | .writeOther block place content count => writeOther s block place content count
  | .giveOther block => giveOther s block

end Steps

/-! ## Blocks and places -/

theorem blockStart_toNat (i : Index) : (blockStart i).toNat = 32 * (i.toNat / 32) := by
  have hbits : ∀ j : Fin 64, (~~~(blockSize - 1)).getLsbD j = decide (5 ≤ j.val) := by decide
  have hshift : blockStart i = i >>> 5 <<< 5 := by
    ext j hj
    have hbit := hbits ⟨j, hj⟩
    rw [← BitVec.getLsbD_eq_getElem, ← BitVec.getLsbD_eq_getElem, blockStart,
      BitVec.getLsbD_and, hbit, BitVec.getLsbD_shiftLeft, BitVec.getLsbD_ushiftRight]
    by_cases hlt : j < 5
    · simp [hlt]
    · have hsum : 5 + (j - 5) = j := by omega
      simp [hlt, hj, hsum]
      omega
  have hlt := i.isLt
  rw [hshift, BitVec.toNat_shiftLeft, BitVec.toNat_ushiftRight, Nat.shiftLeft_eq,
    Nat.shiftRight_eq_div_pow]
  omega

theorem blockStart_le (i : Index) : (blockStart i).toNat ≤ i.toNat := by
  rw [blockStart_toNat]
  omega

theorem offset_toNat (i : Index) : (offset i).toNat = i.toNat % 32 := by
  have hmask : (blockSize - 1).toNat = 2 ^ 5 - 1 := rfl
  rw [offset, BitVec.toNat_and, hmask, Nat.and_two_pow_sub_one_eq_mod]

theorem blockStart_start (i : Index) : blockStart (blockStart i) = blockStart i := by
  apply BitVec.eq_of_toNat_eq
  rw [blockStart_toNat, blockStart_toNat]
  omega

theorem eq_of_place {i j : Index} (hstart : blockStart i = blockStart j)
    (hoffset : offset i = offset j) : i = j := by
  apply BitVec.eq_of_toNat_eq
  have hs := congrArg BitVec.toNat hstart
  have ho := congrArg BitVec.toNat hoffset
  rw [blockStart_toNat, blockStart_toNat] at hs
  rw [offset_toNat, offset_toNat] at ho
  omega

/-- The indices of a block. -/
def places (first : Index) : List Index :=
  (List.range 32).map fun j => BitVec.ofNat 64 (first.toNat + j)

theorem mem_places {first i : Index} (hfirst : blockStart first = first) :
    i ∈ places first ↔ blockStart i = first := by
  have hmultiple := blockStart_toNat first
  rw [hfirst] at hmultiple
  have hlt := first.isLt
  have hi := i.isLt
  simp only [places, List.mem_map, List.mem_range]
  constructor
  · rintro ⟨j, hj, rfl⟩
    apply BitVec.eq_of_toNat_eq
    rw [blockStart_toNat, BitVec.toNat_ofNat, Nat.mod_eq_of_lt (by omega)]
    omega
  · intro h
    have hstart := congrArg BitVec.toNat h
    rw [blockStart_toNat] at hstart
    refine ⟨i.toNat % 32, by omega, BitVec.eq_of_toNat_eq ?_⟩
    rw [BitVec.toNat_ofNat, Nat.mod_eq_of_lt (by omega)]
    omega

theorem nodup_places {first : Index} (hfirst : blockStart first = first) :
    (places first).Nodup := by
  have hmultiple := blockStart_toNat first
  rw [hfirst] at hmultiple
  have hlt := first.isLt
  refine List.Nodup.map_on (fun j hj k hk h => ?_) List.nodup_range
  rw [List.mem_range] at hj hk
  have htoNat := congrArg BitVec.toNat h
  rw [BitVec.toNat_ofNat, BitVec.toNat_ofNat, Nat.mod_eq_of_lt (by omega),
    Nat.mod_eq_of_lt (by omega)] at htoNat
  omega

/-- A block is full when thirty-two of its indices were counted. -/
theorem countP_eq_iff {l : List Index} (hl : l.Nodup) {first : Index}
    (hfirst : blockStart first = first) :
    (l.countP fun i => blockStart i = first) = 32 ↔ ∀ i, blockStart i = first → i ∈ l := by
  have hlength : (places first).length = 32 := by simp [places]
  have hsub : (l.filter fun i => blockStart i = first).Subperm (places first) := by
    refine List.subperm_of_subset (hl.filter _) fun i hi => ?_
    exact (mem_places hfirst).mpr (of_decide_eq_true (List.mem_filter.mp hi).2)
  rw [List.countP_eq_length_filter]
  constructor
  · intro hcount i hi
    have hperm := hsub.perm_of_length_le (by omega)
    exact (List.mem_filter.mp (hperm.mem_iff.mpr ((mem_places hfirst).mpr hi))).1
  · intro hall
    have hle := hsub.length_le
    have hge := (List.subperm_of_subset (nodup_places hfirst) fun i hi => List.mem_filter.mpr
      ⟨hall i ((mem_places hfirst).mp hi), decide_eq_true ((mem_places hfirst).mp hi)⟩).length_le
    omega

end BddsBroker.Moodycamel.Storage
