import BddsBroker.Queue.Custody

/-! Where the sub-queues get their blocks from: the pool that the queue was constructed with,
each block of it once; then the free list; then `create`. A block of the pool that is empty goes
to the free list, a created one is destroyed. -/

namespace BddsBroker.Moodycamel.FreeList

variable {N T : Type*}

/-- The thread is in `add`, and not in a call of `add_knowing_refcount_is_zero` by `try_get`. -/
def Pc.inAdd : Pc N → Bool
  | .adds _ => true
  | .loadsHead none _ | .storesNext none .. | .storesRefs none .. => true
  | .pushes none .. | .postpones none .. => true
  | _ => false

/-- A node comes to the users by the last statement of `try_get`. -/
inductive Out (s : State N T) (t : T) (s' : State N T) : Prop
  | same (hframe : ∀ u, u ≠ t → s'.pc u = s.pc u) (hout : s'.out = s.out)
      (hpc : ∀ n, s'.pc t ≠ .returned (some n))
      (hadd : (s.pc t).inAdd = true → (s'.pc t).inAdd = true ∨ s'.pc t = .idle)
  | taken {n : N} (hframe : ∀ u, u ≠ t → s'.pc u = s.pc u)
      (hpc : s.pc t = .lowersTwice n) (hout : s'.out n = true)
      (hothers : ∀ m, m ≠ n → s'.out m = s.out m) (hpc' : s'.pc t = .returned (some n))

theorem loop_ne (head : Option N) (n : N) : loop head ≠ .returned (some n) := by
  cases head <;> simp [loop]

theorem goBack_ne (back : Option (Option N)) (n : N) : goBack back ≠ .returned (some n) := by
  cases back with
  | none => simp [goBack]
  | some head => exact loop_ne head n

variable [DecidableEq N] [DecidableEq T]

omit [DecidableEq N] in
theorem Out.goto {s m : State N T} {t : T} {q : Pc N} (hm : m.out = s.out ∧ m.pc = s.pc)
    (hq : ∀ n, q ≠ .returned (some n))
    (hadd : (s.pc t).inAdd = true → q.inAdd = true ∨ q = .idle) : Out s t (m.goto t q) := by
  have hpc : (m.goto t q).pc t = q := Function.update_self ..
  refine .same (fun u hu => ?_) hm.1 ?_ ?_
  · rw [← hm.2]
    exact Function.update_of_ne hu ..
  · rw [hpc]
    exact hq
  · rw [hpc]
    exact hadd

omit [DecidableEq N] in
/-- A statement of `try_get`. -/
theorem Out.get {s m : State N T} {t : T} {p q : Pc N} (hpc : s.pc t = p) (hp : p.inAdd = false)
    (hm : m.out = s.out ∧ m.pc = s.pc) (hq : ∀ n, q ≠ .returned (some n)) :
    Out s t (m.goto t q) := by
  refine .goto hm hq fun hadd => ?_
  rw [hpc, hp] at hadd
  cases hadd

omit [DecidableEq N] in
/-- A statement of `add_knowing_refcount_is_zero` that does not end it. -/
theorem Out.go {s m : State N T} {t : T} {p q : Pc N} (hpc : s.pc t = p)
    (hp : q.inAdd = p.inAdd) (hm : m.out = s.out ∧ m.pc = s.pc)
    (hq : ∀ n, q ≠ .returned (some n)) : Out s t (m.goto t q) := by
  refine .goto hm hq fun hadd => .inl ?_
  rw [hp, ← hpc, hadd]

omit [DecidableEq N] in
/-- The last statement of `add_knowing_refcount_is_zero`. -/
theorem Out.back {s m : State N T} {t : T} {back : Option (Option N)}
    (hback : (s.pc t).inAdd = true → back = none) (hm : m.out = s.out ∧ m.pc = s.pc) :
    Out s t (m.goto t (goBack back)) := by
  refine .goto hm (goBack_ne back) fun hadd => .inr ?_
  rw [hback hadd]
  rfl

theorem next_out {s s' : State N T} {t : T} {seen : Option N} {seenRefs : Refs}
    (h : next s t seen seenRefs = some s') : Out s t s' := by
  unfold next at h
  cases hpc : s.pc t with
  | idle => simp [hpc] at h
  | returned node => simp [hpc] at h
  | adds node =>
    simp only [hpc, Option.some.injEq] at h
    subst h
    split_ifs
    · exact .go hpc rfl ⟨rfl, rfl⟩ (by simp)
    · exact .goto ⟨rfl, rfl⟩ (by simp) fun _ => .inr rfl
  | loadsHead back node =>
    simp only [hpc, Option.some.injEq] at h
    exact h ▸ .go hpc (by cases back <;> rfl) ⟨rfl, rfl⟩ (by simp)
  | storesNext back node head =>
    simp only [hpc, Option.some.injEq] at h
    exact h ▸ .go hpc (by cases back <;> rfl) ⟨rfl, rfl⟩ (by simp)
  | storesRefs back node head =>
    simp only [hpc, Option.some.injEq] at h
    exact h ▸ .go hpc (by cases back <;> rfl) ⟨rfl, rfl⟩ (by simp)
  | pushes back node head =>
    simp only [hpc] at h
    split_ifs at h
    · exact Option.some.inj h ▸ .back (by rw [hpc]; cases back <;> simp [Pc.inAdd]) ⟨rfl, rfl⟩
    · exact Option.some.inj h ▸ .go hpc (by cases back <;> rfl) ⟨rfl, rfl⟩ (by simp)
  | postpones back node head =>
    simp only [hpc, Option.some.injEq] at h
    subst h
    split_ifs
    · exact .go hpc (by cases back <;> rfl) ⟨rfl, rfl⟩ (by simp)
    · exact .back (by rw [hpc]; cases back <;> simp [Pc.inAdd]) ⟨rfl, rfl⟩
  | getsHead =>
    simp only [hpc, Option.some.injEq] at h
    exact h ▸ .get hpc rfl ⟨rfl, rfl⟩ (loop_ne seen)
  | loadsRefs head =>
    simp only [hpc] at h
    split_ifs at h
    · exact Option.some.inj h ▸ .get hpc rfl ⟨rfl, rfl⟩ (by simp)
    · exact Option.some.inj h ▸ .get hpc rfl ⟨rfl, rfl⟩ (by simp)
  | raises head refs hrefs =>
    simp only [hpc] at h
    split_ifs at h
    · exact Option.some.inj h ▸ .get hpc rfl ⟨rfl, rfl⟩ (by simp)
    · exact Option.some.inj h ▸ .get hpc rfl ⟨rfl, rfl⟩ (by simp)
  | loadsNext head =>
    simp only [hpc, Option.some.injEq] at h
    exact h ▸ .get hpc rfl ⟨rfl, rfl⟩ (by simp)
  | pops head next =>
    simp only [hpc] at h
    split_ifs at h
    · exact Option.some.inj h ▸ .get hpc rfl ⟨rfl, rfl⟩ (by simp)
    · exact Option.some.inj h ▸ .get hpc rfl ⟨rfl, rfl⟩ (by simp)
  | lowersTwice head =>
    simp only [hpc, Option.some.injEq] at h
    subst h
    exact .taken (fun u hu => Function.update_of_ne hu ..) hpc (Function.update_self ..)
      (fun m hm => Function.update_of_ne hm ..) (Function.update_self ..)
  | lowers prevHead head =>
    simp only [hpc, Option.some.injEq] at h
    subst h
    split_ifs
    · exact .get hpc rfl ⟨rfl, rfl⟩ (by simp)
    · exact .get hpc rfl ⟨rfl, rfl⟩ (loop_ne head)

omit [DecidableEq N] [DecidableEq T] in
theorem Out.others {s s' : State N T} {t u : T} (h : Out s t s') (hu : u ≠ t) :
    s'.pc u = s.pc u := by
  cases h with
  | same hframe _ _ _ => exact hframe u hu
  | taken hframe _ _ _ _ => exact hframe u hu

end BddsBroker.Moodycamel.FreeList

namespace BddsBroker.Moodycamel.BlockPool

open FreeList (Refs Holds Pc)
open Links

inductive Block
  /-- `initialBlockPool + index`. -/
  | pooled (index : Nat)
  /-- With `dynamicallyAllocated`. -/
  | created (number : Nat)
  deriving DecidableEq, Repr

/-- Where a thread is in `requisition_block`, or in `add_block_to_free_list`. -/
inductive Phase
  | outside
  | loadsIndex (canAlloc : Bool)
  | drawsIndex (canAlloc : Bool)
  /-- In `freeList.try_get`. -/
  | gets (canAlloc : Bool)
  | creates
  /-- In `freeList.add`. -/
  | adds
  deriving DecidableEq, Repr

structure State (T : Type*) where
  initialBlockPoolIndex : BitVec 64
  freeList : FreeList.State Block T
  phase : T → Phase
  /-- How many blocks were created. -/
  created : Nat
  /-- How many users a block has. -/
  inUse : Block → Nat

inductive Event (T : Type*)
  | requisition (t : T) (canAlloc : Bool)
  | recycle (t : T) (block : Block)
  /-- The load of `initialBlockPoolIndex`, which may give an old value. -/
  | load (t : T) (seen : BitVec 64)
  | draw (t : T)
  | list (t : T) (seen : Option Block) (seenRefs : Refs)
  | create (t : T) (allocated : Bool)
  deriving DecidableEq

variable {T : Type*}

def init : State T where
  initialBlockPoolIndex := 0
  freeList := FreeList.init
  phase := fun _ => .outside
  created := 0
  inUse := fun _ => 0

section Threads

variable [DecidableEq T] (initialBlockPoolSize : Nat) (s : State T) (t : T)

def State.goto (phase : Phase) : State T := { s with phase := Function.update s.phase t phase }

/-- `requisition_block` returns the block. -/
def State.give (block : Block) : State T :=
  { s with inUse := Function.update s.inUse block (s.inUse block + 1) }.goto t .outside

def State.tryGet (canAlloc : Bool) : Option (State T) :=
  (FreeList.tryGet s.freeList t).map fun freeList =>
    { s with freeList := freeList }.goto t (.gets canAlloc)

def requisition (canAlloc : Bool) : Option (State T) :=
  if s.phase t = .outside then some (s.goto t (.loadsIndex canAlloc)) else none

/-- `add_block_to_free_list`, with `RECYCLE_ALLOCATED_BLOCKS` as it is by default. -/
def recycle (block : Block) : Option (State T) :=
  if s.phase t = .outside ∧ 0 < s.inUse block then
    let returned := { s with inUse := Function.update s.inUse block (s.inUse block - 1) }
    match block with
    | .created _ => some returned
    | .pooled _ => (FreeList.add s.freeList t block).map fun freeList =>
        { returned with freeList := freeList }.goto t .adds
  else none

def load (seen : BitVec 64) : Option (State T) :=
  match s.phase t with
  | .loadsIndex canAlloc =>
      if initialBlockPoolSize ≤ seen.toNat then s.tryGet t canAlloc
      else some (s.goto t (.drawsIndex canAlloc))
  | _ => none

def draw : Option (State T) :=
  match s.phase t with
  | .drawsIndex canAlloc =>
      let index := s.initialBlockPoolIndex
      let drawn := { s with initialBlockPoolIndex := index + 1 }
      if index.toNat < initialBlockPoolSize then some (drawn.give t (.pooled index.toNat))
      else drawn.tryGet t canAlloc
  | _ => none

/-- A statement of the free list, and what follows when the call returns. -/
def list (seen : Option Block) (seenRefs : Refs) : Option (State T) :=
  match s.phase t with
  | .gets canAlloc => (FreeList.next s.freeList t seen seenRefs).map fun freeList =>
      let s' := { s with freeList := freeList }
      match freeList.pc t with
      | .returned (some block) => s'.give t block
      | .returned none => s'.goto t (if canAlloc then .creates else .outside)
      | _ => s'
  | .adds => (FreeList.next s.freeList t seen seenRefs).map fun freeList =>
      let s' := { s with freeList := freeList }
      if (freeList.pc t).outside then s'.goto t .outside else s'
  | _ => none

def create (allocated : Bool) : Option (State T) :=
  match s.phase t with
  | .creates =>
      if allocated then some ({ s with created := s.created + 1 }.give t (.created s.created))
      else some (s.goto t .outside)
  | _ => none

def step : Event T → Option (State T)
  | .requisition t canAlloc => requisition s t canAlloc
  | .recycle t block => recycle s t block
  | .load t seen => load initialBlockPoolSize s t seen
  | .draw t => draw initialBlockPoolSize s t
  | .list t seen seenRefs => list s t seen seenRefs
  | .create t allocated => create s t allocated

end Threads

/-! ## Who has the blocks -/

/-- The block came out of the pool, or was created. -/
def Drawn (initialBlockPoolSize : Nat) (s : State T) : Block → Prop
  | .pooled index => index < initialBlockPoolSize ∧ index < s.initialBlockPoolIndex.toNat
  | .created number => number < s.created

section Threads

variable [DecidableEq T] [Fintype T]

/-- After `n` steps: a block of the pool that came out of it is in use or in the hands of the
free list, and no other block is known to the free list. -/
structure Sound (initialBlockPoolSize n : Nat) (s : State T) : Prop where
  lists : ∃ l, Holds s.freeList l
  index_le : s.initialBlockPoolIndex.toNat ≤ n
  fresh : ∀ b, ¬ Drawn initialBlockPoolSize s b → s.inUse b = 0 ∧ s.freeList.out b = true
  pooled : ∀ i, Drawn initialBlockPoolSize s (.pooled i) →
    s.inUse (.pooled i) = (s.freeList.out (.pooled i)).toNat
  created : ∀ k, s.inUse (.created k) ≤ 1 ∧ s.freeList.out (.created k) = true
  adds : ∀ t, s.phase t = .adds → (s.freeList.pc t).inAdd = true

namespace Sound

variable {size n : Nat} {s s' : State T} {t : T}

omit [DecidableEq T] in
theorem mono (h : Sound size n s) : Sound size (n + 1) s :=
  { h with index_le := Nat.le_succ_of_le h.index_le }

/-- A step of a thread outside of the free list. -/
theorem goto (h : Sound size n s) {phase : Phase} (hphase : phase ≠ .adds) :
    Sound size n (s.goto t phase) := by
  refine { h with adds := fun u hu => ?_ }
  simp only [State.goto] at hu
  by_cases hut : u = t
  · subst hut
    rw [Function.update_self] at hu
    exact absurd hu hphase
  · rw [Function.update_of_ne hut] at hu
    exact h.adds u hu

/-- A statement of the free list that leaves the blocks where they are. -/
theorem advance (h : Sound size n s) {freeList : FreeList.State Block T} {phase : Phase}
    (hlists : ∃ l, Holds freeList l) (hout : freeList.out = s.freeList.out)
    (hothers : ∀ u, u ≠ t → freeList.pc u = s.freeList.pc u)
    (hadds : phase = .adds → (freeList.pc t).inAdd = true) :
    Sound size n ({ s with freeList := freeList }.goto t phase) := by
  refine ⟨hlists, h.index_le, ?_, ?_, ?_, fun u hu => ?_⟩
  · show ∀ b, _ → s.inUse b = 0 ∧ freeList.out b = true
    rw [hout]
    exact h.fresh
  · show ∀ i, _ → s.inUse (.pooled i) = (freeList.out (.pooled i)).toNat
    rw [hout]
    exact h.pooled
  · show ∀ k, s.inUse (.created k) ≤ 1 ∧ freeList.out (.created k) = true
    rw [hout]
    exact h.created
  · simp only [State.goto] at hu
    show (freeList.pc u).inAdd = true
    by_cases hut : u = t
    · subst hut
      rw [Function.update_self] at hu
      exact hadds hu
    · rw [Function.update_of_ne hut] at hu
      rw [hothers u hut]
      exact h.adds u hu

theorem tryGet (h : Sound size n s) (hthreads : Fintype.card T + 2 < 2 ^ 31) {canAlloc : Bool}
    (hs : s.tryGet t canAlloc = some s') : Sound size n s' := by
  obtain ⟨freeList, hget, rfl⟩ := Option.map_eq_some_iff.mp hs
  obtain ⟨l, hl⟩ := h.lists
  have hlists := hl.step hthreads (e := .tryGet t) hget
  simp only [FreeList.tryGet, Option.ite_none_right_eq_some, Option.some.injEq] at hget
  obtain ⟨-, rfl⟩ := hget
  exact h.advance hlists rfl (fun u hu => Function.update_of_ne hu ..) (by simp)

/-- A block that nobody uses gets a user. -/
theorem give (h : Sound size n s) {m : State T} {k : Nat} {b : Block}
    (hlists : ∃ l, Holds m.freeList l) (hindex : m.initialBlockPoolIndex.toNat ≤ k)
    (huse : m.inUse = s.inUse) (hphase : m.phase = s.phase) (hb : s.inUse b = 0)
    (hdrawn : Drawn size m b) (hsame : ∀ c, c ≠ b → (Drawn size m c ↔ Drawn size s c))
    (hout : m.freeList.out b = true)
    (hothers : ∀ c, c ≠ b → m.freeList.out c = s.freeList.out c)
    (hpc : ∀ u, u ≠ t → m.freeList.pc u = s.freeList.pc u) : Sound size k (m.give t b) := by
  have hself : (m.give t b).inUse b = 1 := by
    simp only [State.give, State.goto, Function.update_self, huse, hb]
  have hne : ∀ c, c ≠ b → (m.give t b).inUse c = s.inUse c := by
    intro c hc
    simp only [State.give, State.goto, Function.update_of_ne hc, huse]
  refine ⟨hlists, hindex, fun c hc => ?_, fun i hi => ?_, fun j => ?_, fun u hu => ?_⟩
  · have hcb : c ≠ b := by
      rintro rfl
      exact hc hdrawn
    obtain ⟨hzero, htrue⟩ := h.fresh c (mt (hsame c hcb).mpr hc)
    exact ⟨(hne c hcb).trans hzero, (hothers c hcb).trans htrue⟩
  · by_cases hib : Block.pooled i = b
    · rw [hib, hself]
      show 1 = (m.freeList.out b).toNat
      rw [hout, Bool.toNat_true]
    · rw [hne _ hib, h.pooled i ((hsame _ hib).mp hi), ← hothers _ hib]
      rfl
  · by_cases hjb : Block.created j = b
    · rw [hjb, hself]
      exact ⟨Nat.le_refl 1, hout⟩
    · rw [hne _ hjb]
      exact ⟨(h.created j).1, (hothers _ hjb).trans (h.created j).2⟩
  · simp only [State.give, State.goto, hphase] at hu
    show (m.freeList.pc u).inAdd = true
    by_cases hut : u = t
    · subst hut
      rw [Function.update_self] at hu
      cases hu
    · rw [Function.update_of_ne hut] at hu
      rw [hpc u hut]
      exact h.adds u hu

theorem draw (h : Sound size n s) (hthreads : Fintype.card T + 2 < 2 ^ 31) (hn : n + 1 < 2 ^ 64)
    (hs : draw size s t = some s') : Sound size (n + 1) s' := by
  have hindex := h.index_le
  have hone : (1 : BitVec 64).toNat = 1 := rfl
  have hsucc : (s.initialBlockPoolIndex + 1).toNat = s.initialBlockPoolIndex.toNat + 1 := by
    rw [BitVec.toNat_add, hone]
    omega
  let drawn : State T := { s with initialBlockPoolIndex := s.initialBlockPoolIndex + 1 }
  have hpooled : ∀ i, Drawn size drawn (.pooled i) ↔
      i < size ∧ i < s.initialBlockPoolIndex.toNat + 1 := by
    intro i
    rw [← hsucc]
    exact Iff.rfl
  unfold BlockPool.draw at hs
  cases hphase : s.phase t with
  | drawsIndex canAlloc =>
    simp only [hphase] at hs
    split_ifs at hs with hlt
    · obtain rfl := Option.some.inj hs
      obtain ⟨hzero, hout⟩ := h.fresh (.pooled s.initialBlockPoolIndex.toNat)
        fun hdrawn => Nat.lt_irrefl _ hdrawn.2
      refine h.give (m := drawn) h.lists (hsucc ▸ Nat.succ_le_succ hindex) rfl rfl hzero
        ((hpooled _).mpr ⟨hlt, Nat.lt_succ_self _⟩) (fun c hc => ?_) hout (fun _ _ => rfl)
        fun _ _ => rfl
      cases c with
      | pooled i =>
        have hi : i ≠ s.initialBlockPoolIndex.toNat := fun hi => hc (by rw [hi])
        rw [hpooled]
        show _ ↔ i < size ∧ i < s.initialBlockPoolIndex.toNat
        omega
      | created k => exact Iff.rfl
    · have hsame : ∀ c, Drawn size drawn c ↔ Drawn size s c := by
        intro c
        cases c with
        | pooled i =>
          rw [hpooled]
          show _ ↔ i < size ∧ i < s.initialBlockPoolIndex.toNat
          omega
        | created k => exact Iff.rfl
      have hdrawn : Sound size (n + 1) drawn :=
        ⟨h.lists, hsucc ▸ Nat.succ_le_succ hindex, fun c hc => h.fresh c (mt (hsame c).mpr hc),
          fun i hi => h.pooled i ((hsame _).mp hi), h.created, h.adds⟩
      exact hdrawn.tryGet hthreads hs
  | _ => simp [hphase] at hs

theorem create (h : Sound size n s) {allocated : Bool}
    (hs : create s t allocated = some s') : Sound size n s' := by
  unfold BlockPool.create at hs
  cases hphase : s.phase t with
  | creates =>
    simp only [hphase] at hs
    split_ifs at hs
    · obtain rfl := Option.some.inj hs
      obtain ⟨hzero, hout⟩ := h.fresh (.created s.created) (Nat.lt_irrefl s.created)
      refine h.give h.lists h.index_le rfl rfl hzero (Nat.lt_succ_self s.created)
        (fun c hc => ?_) hout (fun _ _ => rfl) fun _ _ => rfl
      cases c with
      | pooled i => exact Iff.rfl
      | created k =>
        have hk : k ≠ s.created := fun hk => hc (by rw [hk])
        show k < s.created + 1 ↔ k < s.created
        omega
    · exact Option.some.inj hs ▸ h.goto (by simp)
  | _ => simp [hphase] at hs

theorem recycle (h : Sound size n s) {b : Block} (hs : recycle s t b = some s') :
    Sound size n s' := by
  simp only [BlockPool.recycle, Option.ite_none_right_eq_some] at hs
  obtain ⟨⟨hphase, huse⟩, hs⟩ := hs
  have hdrawn : Drawn size s b := by
    by_contra hnot
    have hzero := (h.fresh b hnot).1
    omega
  obtain ⟨l, hl⟩ := h.lists
  cases b with
  | created k =>
    obtain rfl := Option.some.inj hs
    have hle := (h.created k).1
    have hne : ∀ c, c ≠ Block.created k → Function.update s.inUse (.created k)
        (s.inUse (.created k) - 1) c = s.inUse c := fun c hc => Function.update_of_ne hc ..
    refine { h with fresh := fun c hc => ?_, pooled := fun i hi => ?_, created := fun j => ?_ }
    · have hck : c ≠ .created k := by
        rintro rfl
        exact hc hdrawn
      exact ⟨(hne c hck).trans (h.fresh c hc).1, (h.fresh c hc).2⟩
    · exact (hne _ (by simp)).trans (h.pooled i hi)
    · refine ⟨?_, (h.created j).2⟩
      show Function.update s.inUse (.created k) (s.inUse (.created k) - 1) (.created j) ≤ 1
      by_cases hj : j = k
      · subst hj
        rw [Function.update_self]
        omega
      · rw [hne _ (by simp [hj])]
        exact (h.created j).1
  | pooled i =>
    obtain ⟨freeList, hadd, rfl⟩ := Option.map_eq_some_iff.mp hs
    have hlists := hl.add hadd
    simp only [FreeList.add, Option.ite_none_right_eq_some, Option.some.injEq] at hadd
    obtain ⟨⟨hpc, hout⟩, rfl⟩ := hadd
    have hone := h.pooled i hdrawn
    rw [hout, Bool.toNat_true] at hone
    have hne : ∀ c, c ≠ Block.pooled i → Function.update s.inUse (.pooled i)
        (s.inUse (.pooled i) - 1) c = s.inUse c := fun c hc => Function.update_of_ne hc ..
    have houtne : ∀ c, c ≠ Block.pooled i →
        Function.update s.freeList.out (.pooled i) false c = s.freeList.out c :=
      fun c hc => Function.update_of_ne hc ..
    refine ⟨⟨l, hlists⟩, h.index_le, fun c hc => ?_, fun j hj => ?_, fun k => ?_, fun u hu => ?_⟩
    · have hci : c ≠ .pooled i := by
        rintro rfl
        exact hc hdrawn
      exact ⟨(hne c hci).trans (h.fresh c hc).1, (houtne c hci).trans (h.fresh c hc).2⟩
    · show Function.update s.inUse (.pooled i) (s.inUse (.pooled i) - 1) (.pooled j) =
        (Function.update s.freeList.out (.pooled i) false (.pooled j)).toNat
      by_cases hji : j = i
      · subst hji
        rw [Function.update_self, Function.update_self, hone]
        rfl
      · rw [hne _ (by simp [hji]), houtne _ (by simp [hji])]
        exact h.pooled j hj
    · refine ⟨(hne _ (by simp)).le.trans (h.created k).1, ?_⟩
      exact (houtne _ (by simp)).trans (h.created k).2
    · simp only [State.goto] at hu
      show (Function.update s.freeList.pc t (.adds (.pooled i)) u).inAdd = true
      by_cases hut : u = t
      · subst hut
        rw [Function.update_self]
        rfl
      · rw [Function.update_of_ne hut] at hu ⊢
        exact h.adds u hu

theorem list (h : Sound size n s) (hthreads : Fintype.card T + 2 < 2 ^ 31) {seen : Option Block}
    {seenRefs : Refs} (hs : list s t seen seenRefs = some s') : Sound size n s' := by
  obtain ⟨l, hl⟩ := h.lists
  unfold BlockPool.list at hs
  cases hphase : s.phase t with
  | gets canAlloc =>
    simp only [hphase] at hs
    obtain ⟨freeList, hnext, rfl⟩ := Option.map_eq_some_iff.mp hs
    have hlists := hl.next hthreads hnext
    have hstay : ∀ phase, phase ≠ .adds → freeList.out = s.freeList.out →
        Sound size n ({ s with freeList := freeList }.goto t phase) := fun phase hne hout =>
      h.advance hlists hout (fun u hu => (FreeList.next_out hnext).others hu) fun hadds =>
        absurd hadds hne
    have hsame : ({ s with freeList := freeList } : State T) =
        { s with freeList := freeList }.goto t (.gets canAlloc) := by
      simp only [State.goto, ← hphase, Function.update_eq_self]
    cases FreeList.next_out hnext with
    | same hframe hout hpc hadd =>
      cases hp : freeList.pc t with
      | returned node =>
        cases node with
        | none =>
          simp only
          split_ifs
          · exact hstay _ (by simp) hout
          · exact hstay _ (by simp) hout
        | some b => exact absurd hp (hpc b)
      | _ =>
        simp only
        rw [hsame]
        exact hstay _ (by simp) hout
    | taken hframe hlowers hout hothers hpc =>
      rename_i b
      -- the block came off the list, where only blocks of the pool are that nobody uses
      have htaken : (s.freeList.pc t).Has b 2 1 0 := by
        rw [hlowers]
        exact FreeList.has_node rfl
      obtain ⟨hfalse, -, -, -⟩ := hl.owned htaken
      have hdrawn : Drawn size s b := by
        by_contra hnot
        rw [(h.fresh b hnot).2] at hfalse
        cases hfalse
      have hzero : s.inUse b = 0 := by
        cases b with
        | pooled i => rw [h.pooled i hdrawn, hfalse, Bool.toNat_false]
        | created k =>
          rw [(h.created k).2] at hfalse
          cases hfalse
      simp only [hpc]
      exact h.give hlists h.index_le rfl rfl hzero hdrawn (fun _ _ => Iff.rfl) hout hothers hframe
  | adds =>
    simp only [hphase] at hs
    obtain ⟨freeList, hnext, rfl⟩ := Option.map_eq_some_iff.mp hs
    have hlists := hl.next hthreads hnext
    have hin := h.adds t hphase
    have hsame : ({ s with freeList := freeList } : State T) =
        { s with freeList := freeList }.goto t .adds := by
      simp only [State.goto, ← hphase, Function.update_eq_self]
    cases FreeList.next_out hnext with
    | same hframe hout hpc hadd =>
      split_ifs with houtside
      · exact h.advance hlists hout hframe (by simp)
      · rw [hsame]
        refine h.advance hlists hout hframe fun _ => ?_
        rcases hadd hin with hadd | hidle
        · exact hadd
        · rw [hidle] at houtside
          exact absurd rfl houtside
    | taken hframe hlowers hout hothers hpc =>
      rw [hlowers] at hin
      cases hin
  | _ => simp [hphase] at hs

/-- **Step lemma.** -/
theorem step (h : Sound size n s) (hthreads : Fintype.card T + 2 < 2 ^ 31) (hn : n + 1 < 2 ^ 64)
    {e : Event T} (hs : step size s e = some s') : Sound size (n + 1) s' := by
  cases e with
  | requisition t canAlloc =>
    simp only [BlockPool.step, requisition, Option.ite_none_right_eq_some,
      Option.some.injEq] at hs
    obtain ⟨-, rfl⟩ := hs
    exact h.mono.goto (by simp)
  | recycle t b => exact h.mono.recycle hs
  | load t seen =>
    simp only [BlockPool.step, load] at hs
    split at hs
    · split_ifs at hs
      · exact h.mono.tryGet hthreads hs
      · exact Option.some.inj hs ▸ h.mono.goto (by simp)
    · cases hs
  | draw t => exact h.draw hthreads hn hs
  | list t seen seenRefs => exact h.mono.list hthreads hs
  | create t allocated => exact h.mono.create hs

end Sound

variable {size : Nat} {es : List (Event T)} {s : State T}

omit [DecidableEq T] in
theorem sound_init : Sound size 0 (init : State T) := by
  refine ⟨⟨[], FreeList.holds_init⟩, Nat.le_refl 0, fun b _ => ⟨rfl, rfl⟩, fun i hi => ?_,
    fun k => ⟨Nat.zero_le 1, rfl⟩, fun t ht => ?_⟩
  · exact absurd hi.2 (Nat.not_lt_zero i)
  · cases ht

theorem sound_run (hthreads : Fintype.card T + 2 < 2 ^ 31) (hlen : es.length < 2 ^ 64)
    (hr : Machine.run (step size) init es = some s) : Sound size es.length s := by
  have hsound : es.length < 2 ^ 64 → Sound size es.length s := by
    refine Machine.run_history (J := fun es s => es.length < 2 ^ 64 → Sound size es.length s)
      (fun _ => sound_init) (fun es s e s' _ hs _ he hlen => ?_) (Machine.along_true _ es) hr
    rw [List.length_append, List.length_singleton] at hlen ⊢
    exact (hs (by omega)).step hthreads hlen he
  exact hsound hlen

/-- **A block has one user.** `requisition_block` never gives a block that is in use, nor one
from behind the pool. What is on the free list is out of use and comes from the pool; and when
no thread is in a call, a block of the pool that was drawn is in use or on the list. -/
theorem blocks_exclusive (hthreads : Fintype.card T + 2 < 2 ^ 31) (hlen : es.length < 2 ^ 64)
    (hr : Machine.run (step size) init es = some s) :
    (∀ b, s.inUse b ≤ 1 ∧ (0 < s.inUse b → Drawn size s b)) ∧
      ∃ l, Linked s.freeList.freeListNext s.freeList.freeListHead l ∧ l.Nodup ∧
        (∀ b ∈ l, s.inUse b = 0 ∧ ∃ i, b = .pooled i ∧ Drawn size s b) ∧
        (FreeList.AtRest s.freeList →
          ∀ i, Drawn size s (.pooled i) → (.pooled i ∈ l ↔ s.inUse (.pooled i) = 0)) := by
  have h := sound_run hthreads hlen hr
  obtain ⟨l, hl⟩ := h.lists
  have hdrawn : ∀ b, 0 < s.inUse b → Drawn size s b := by
    intro b huse
    by_contra hnot
    have hzero := (h.fresh b hnot).1
    omega
  refine ⟨fun b => ⟨?_, hdrawn b⟩, l, hl.linked, hl.linked.nodup, fun b hb => ?_,
    fun hrest i hi => ?_⟩
  · cases b with
    | pooled i =>
      by_cases hi : Drawn size s (.pooled i)
      · rw [h.pooled i hi]
        exact Bool.toNat_le _
      · rw [(h.fresh _ hi).1]
        exact Nat.zero_le 1
    | created k => exact (h.created k).1
  · have hout := hl.out_of_mem hb
    cases b with
    | pooled i =>
      have hi : Drawn size s (.pooled i) := by
        by_contra hnot
        rw [(h.fresh _ hnot).2] at hout
        cases hout
      refine ⟨?_, i, rfl, hi⟩
      rw [h.pooled i hi, hout, Bool.toNat_false]
    | created k =>
      rw [(h.created k).2] at hout
      cases hout
  · rw [hl.mem_iff hrest, h.pooled i hi, Bool.toNat_eq_zero]

end Threads

/-- One block is used, comes back and is used again; the other thread has to have one made. -/
def reused : List (Event Bool) :=
  [.requisition true true, .load true 0, .draw true, .recycle true (.pooled 0),
    .list true none 0, .list true none 0, .list true none 0, .list true none 0,
    .list true none 0, .requisition true true, .load true 1, .list true (some (.pooled 0)) 0,
    .list true none 1, .list true none 1, .list true none 0, .list true (some (.pooled 0)) 0,
    .list true none 0, .requisition false true, .load false 0, .draw false, .list false none 0,
    .create false true]

theorem blocks_exclusive_reused : ∃ s, Machine.run (step 1) init reused = some s ∧
    s.inUse (.pooled 0) = 1 ∧ s.inUse (.created 0) = 1 ∧
      ∃ l, Linked s.freeList.freeListNext s.freeList.freeListHead l ∧ .pooled 0 ∉ l := by
  obtain ⟨s, hs, hpooled, hcreated⟩ : ∃ s, Machine.run (step 1) init reused = some s ∧
      s.inUse (.pooled 0) = 1 ∧ s.inUse (.created 0) = 1 := ⟨_, rfl, rfl, rfl⟩
  obtain ⟨-, l, hlinked, -, hfree, -⟩ :=
    blocks_exclusive (by decide) (show reused.length < 2 ^ 64 by decide) hs
  refine ⟨s, hs, hpooled, hcreated, l, hlinked, fun hmem => ?_⟩
  have hzero := (hfree _ hmem).1
  omega

end BddsBroker.Moodycamel.BlockPool
