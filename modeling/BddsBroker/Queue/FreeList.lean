import Mathlib.Data.Nat.Bitwise

/-! `FreeList`: the blocks that wait to be used again, as a linked list that the threads change
without a lock. A thread that wants the head first raises the reference count of that node, so
that its link cannot change under the exchange; a node whose count is not zero when it is given
back is put on the list by the thread that lowers the count last. Each atomic access is a step
of its own. -/

namespace BddsBroker.Moodycamel.FreeList

/-- `freeListRefs`: a count of 31 bits, and a mark. -/
abbrev Refs := BitVec 32

def refsMask : Refs := 0x7FFFFFFF#32

def shouldBeOnFreelist : Refs := 0x80000000#32

/-- The statement that a thread is about to run. In `add_knowing_refcount_is_zero` the thread
knows whether it goes back to the loop of `try_get`, and with which head. -/
inductive Pc (N : Type*)
  | idle
  /-- Not in a call; what the last `try_get` gave. -/
  | returned (node : Option N)
  /-- In `add`, at `fetch_add`. -/
  | adds (node : N)
  /-- In `add_knowing_refcount_is_zero`, at the load. -/
  | loadsHead (back : Option (Option N)) (node : N)
  | storesNext (back : Option (Option N)) (node : N) (head : Option N)
  | storesRefs (back : Option (Option N)) (node : N) (head : Option N)
  /-- At the exchange that puts the node on the list. -/
  | pushes (back : Option (Option N)) (node : N) (head : Option N)
  /-- After an exchange that failed, at `fetch_add`. -/
  | postpones (back : Option (Option N)) (node : N) (head : Option N)
  /-- In `try_get`, at the load of the head. -/
  | getsHead
  | loadsRefs (head : N)
  /-- At the exchange that raises the count. -/
  | raises (head : N) (refs : Refs) (hrefs : refs &&& refsMask ≠ 0)
  | loadsNext (head : N)
  /-- At the exchange that takes the node off the list. -/
  | pops (head : N) (next : Option N)
  /-- With the node off the list, at `fetch_sub(2)`. -/
  | lowersTwice (head : N)
  /-- After an exchange that failed, at `fetch_sub(1)`. -/
  | lowers (prevHead : N) (head : Option N)
  deriving DecidableEq

structure State (N T : Type*) where
  freeListHead : Option N
  freeListRefs : N → Refs
  freeListNext : N → Option N
  /-- The nodes that belong to the users of the list. -/
  out : N → Bool
  pc : T → Pc N

inductive Event (N T : Type*)
  | add (t : T) (node : N)
  | tryGet (t : T)
  /-- The thread's next statement, with what it reads of the head or of the references. -/
  | next (t : T) (seen : Option N) (seenRefs : Refs)
  deriving DecidableEq

variable {N T : Type*}

/-- An empty list, and nodes as their constructor makes them. -/
def init : State N T where
  freeListHead := none
  freeListRefs := fun _ => 0
  freeListNext := fun _ => none
  out := fun _ => true
  pc := fun _ => .idle

def Pc.outside : Pc N → Bool
  | .idle | .returned _ => true
  | _ => false

/-- `while (head != nullptr)`. -/
def loop : Option N → Pc N
  | none => .returned none
  | some head => .loadsRefs head

/-- The return from `add_knowing_refcount_is_zero`. -/
def goBack : Option (Option N) → Pc N
  | none => .idle
  | some head => loop head

section Threads

variable [DecidableEq N] [DecidableEq T]

def State.goto (s : State N T) (t : T) (pc : Pc N) : State N T :=
  { s with pc := Function.update s.pc t pc }

def State.setRefs (s : State N T) (node : N) (refs : Refs) : State N T :=
  { s with freeListRefs := Function.update s.freeListRefs node refs }

def add (s : State N T) (t : T) (node : N) : Option (State N T) :=
  if (s.pc t).outside ∧ s.out node then
    some ({ s with out := Function.update s.out node false }.goto t (.adds node))
  else none

def tryGet (s : State N T) (t : T) : Option (State N T) :=
  if (s.pc t).outside then some (s.goto t .getsHead) else none

/-- A load may return an old value, and an exchange may fail with one. An exchange succeeds on
the latest value only. The link that `try_get` loads is the latest one: the count, raised with
`memory_order_acquire`, was stored after it with `memory_order_release`. -/
def next (s : State N T) (t : T) (seen : Option N) (seenRefs : Refs) : Option (State N T) :=
  match s.pc t with
  | .idle => none
  | .returned _ => none
  | .adds node =>
      let refs := s.freeListRefs node
      some ((s.setRefs node (refs + shouldBeOnFreelist)).goto t
        (if refs = 0 then .loadsHead none node else .idle))
  | .loadsHead back node => some (s.goto t (.storesNext back node seen))
  | .storesNext back node head =>
      some ({ s with freeListNext := Function.update s.freeListNext node head }.goto t
        (.storesRefs back node head))
  | .storesRefs back node head => some ((s.setRefs node 1).goto t (.pushes back node head))
  | .pushes back node head =>
      if seen = head then
        if s.freeListHead = head then
          some ({ s with freeListHead := some node }.goto t (goBack back))
        else none
      else some (s.goto t (.postpones back node seen))
  | .postpones back node head =>
      let refs := s.freeListRefs node
      some ((s.setRefs node (refs + (shouldBeOnFreelist - 1))).goto t
        (if refs = 1 then .storesNext back node head else goBack back))
  | .getsHead => some (s.goto t (loop seen))
  | .loadsRefs head =>
      if h : seenRefs &&& refsMask = 0 then some (s.goto t .getsHead)
      else some (s.goto t (.raises head seenRefs h))
  | .raises head refs _ =>
      if seenRefs = refs then
        if s.freeListRefs head = refs then
          some ((s.setRefs head (refs + 1)).goto t (.loadsNext head))
        else none
      else some (s.goto t .getsHead)
  | .loadsNext head => some (s.goto t (.pops head (s.freeListNext head)))
  | .pops head next =>
      if seen = some head then
        if s.freeListHead = some head then
          some ({ s with freeListHead := next }.goto t (.lowersTwice head))
        else none
      else some (s.goto t (.lowers head seen))
  | .lowersTwice head =>
      some ({ s.setRefs head (s.freeListRefs head - 2) with
        out := Function.update s.out head true }.goto t (.returned (some head)))
  | .lowers prevHead head =>
      let refs := s.freeListRefs prevHead
      some ((s.setRefs prevHead (refs - 1)).goto t
        (if refs = shouldBeOnFreelist + 1 then .loadsHead (some head) prevHead else loop head))

def step (s : State N T) : Event N T → Option (State N T)
  | .add t node => add s t node
  | .tryGet t => tryGet s t
  | .next t seen seenRefs => next s t seen seenRefs

end Threads

/-! ## The count and the mark -/

def count (r : Refs) : Nat := r.toNat % 2 ^ 31

def mark (r : Refs) : Nat := r.toNat / 2 ^ 31

theorem toNat_eq (r : Refs) : r.toNat = 2 ^ 31 * mark r + count r :=
  (Nat.div_add_mod _ _).symm

theorem count_lt (r : Refs) : count r < 2 ^ 31 := Nat.mod_lt _ (by decide)

theorem mark_le (r : Refs) : mark r ≤ 1 := by
  have hlt := r.isLt
  have hr := toNat_eq r
  omega

theorem of_toNat {r : Refs} {m c : Nat} (h : r.toNat = 2 ^ 31 * m + c) (hc : c < 2 ^ 31) :
    mark r = m ∧ count r = c := by
  have hr := toNat_eq r
  have hlt := count_lt r
  omega

theorem refs_eq_iff {r : Refs} {q : Refs} : r = q ↔ mark r = mark q ∧ count r = count q := by
  rw [← BitVec.toNat_inj, toNat_eq r, toNat_eq q]
  have hr := count_lt r
  have hq := count_lt q
  omega

theorem mask_eq_zero_iff (r : Refs) : r &&& refsMask = 0 ↔ count r = 0 := by
  have hmask : refsMask.toNat = 2 ^ 31 - 1 := rfl
  rw [← BitVec.toNat_inj, BitVec.toNat_and, hmask, Nat.and_two_pow_sub_one_eq_mod]
  exact Iff.rfl

theorem shouldBe_eq_zero_iff (r : Refs) : r &&& shouldBeOnFreelist = 0 ↔ mark r = 0 := by
  have hbit : shouldBeOnFreelist.toNat = 2 ^ 31 := rfl
  have hmark := mark_le r
  have htest : r.toNat.testBit 31 = decide (mark r = 1) := by
    rw [Nat.testBit_eq_decide_div_mod_eq]
    congr 1
    rw [eq_iff_iff]
    exact ⟨fun h => by unfold mark at *; omega, fun h => by unfold mark at *; omega⟩
  rw [← BitVec.toNat_inj, BitVec.toNat_and, hbit, Nat.and_two_pow, htest]
  by_cases h : mark r = 1
  · simp [h]
  · have hzero : mark r = 0 := by omega
    simp [hzero]

theorem mark_add {r : Refs} (h : mark r = 0) :
    mark (r + shouldBeOnFreelist) = 1 ∧ count (r + shouldBeOnFreelist) = count r := by
  have hr := toNat_eq r
  have hlt := count_lt r
  have hbit : shouldBeOnFreelist.toNat = 2 ^ 31 := rfl
  refine of_toNat ?_ hlt
  rw [BitVec.toNat_add, hbit]
  omega

theorem count_add_one {r : Refs} (h : count r + 1 < 2 ^ 31) :
    mark (r + 1) = mark r ∧ count (r + 1) = count r + 1 := by
  have hr := toNat_eq r
  have hmark := mark_le r
  have hone : (1 : Refs).toNat = 1 := rfl
  refine of_toNat ?_ h
  rw [BitVec.toNat_add, hone]
  omega

theorem count_sub {r d : Refs} (h : d.toNat ≤ count r) :
    mark (r - d) = mark r ∧ count (r - d) = count r - d.toNat := by
  have hr := toNat_eq r
  have hlt := count_lt r
  have hmark := mark_le r
  refine of_toNat ?_ (by omega)
  rw [BitVec.toNat_sub]
  omega

theorem mark_postponed {r : Refs} (hmark : mark r = 0) (hpos : 0 < count r) :
    mark (r + (shouldBeOnFreelist - 1)) = 1 ∧
      count (r + (shouldBeOnFreelist - 1)) = count r - 1 := by
  have hr := toNat_eq r
  have hlt := count_lt r
  have hbit : (shouldBeOnFreelist - 1).toNat = 2 ^ 31 - 1 := rfl
  refine of_toNat ?_ (by omega)
  rw [BitVec.toNat_add, hbit]
  omega

end BddsBroker.Moodycamel.FreeList
