import BddsBroker.Queue.Storage
import BddsBroker.Queue.Taking

/-! The blocks hold what they should. Each index is counted once, after its element was moved
out, so the thirty-second count of a block comes when nobody has anything to do with its
elements any more, and one thread makes it. -/

namespace BddsBroker.Moodycamel.Storage

open SubQueue (AtRest ConsumerPc ProducerPc Sound)

variable {α T B : Type*}

/-! ## The sub-queue without its blocks -/

/-- What the model with blocks keeps of a sub-queue. -/
def bare (a : SubQueue.State α T) : SubQueue.State α T := { a with elements := fun _ => none }

theorem enqueue_bare (a : SubQueue.State α T) (item : α) :
    SubQueue.enqueue (bare a) item = (SubQueue.enqueue a item).map bare := by
  simp only [SubQueue.enqueue, bare]
  cases a.producer with
  | idle =>
    simp only [apply_ite (Option.map bare)]
    rfl
  | _ => rfl

section Threads

variable [DecidableEq T]

theorem produce_bare {a : SubQueue.State α T} (hnot : ∀ item, a.producer ≠ .constructs item)
    (seen : Index) (allocated : Bool) :
    SubQueue.produce (bare a) seen allocated = (SubQueue.produce a seen allocated).map bare := by
  simp only [SubQueue.produce, bare]
  cases hp : a.producer with
  | idle => rfl
  | checks item =>
    simp only [apply_ite (Option.map bare)]
    rfl
  | requisitions item =>
    simp only [apply_ite (Option.map bare)]
    rfl
  | constructs item => exact absurd hp (hnot item)
  | publishes item => rfl

theorem dequeue_bare (a : SubQueue.State α T) (t : T) :
    SubQueue.dequeue (bare a) t = (SubQueue.dequeue a t).map bare := by
  simp only [SubQueue.dequeue, bare]
  cases a.consumer t <;> rfl

theorem consume_bare {a : SubQueue.State α T} {t : T}
    (hnot : ∀ index, a.consumer t ≠ .takes index) (seen : Index) :
    SubQueue.consume (bare a) t seen = (SubQueue.consume a t seen).map bare := by
  simp only [SubQueue.consume, bare]
  cases hp : a.consumer t with
  | takes index => exact absurd hp (hnot index)
  | loadsTail =>
    simp only [apply_ite (Option.map bare)]
    rfl
  | loadsOvercommit tail =>
    simp only [apply_ite (Option.map bare)]
    rfl
  | tests tail overcommit =>
    simp only [apply_ite (Option.map bare)]
    rfl
  | reloads overcommit my =>
    simp only [apply_ite (Option.map bare)]
    rfl
  | _ => rfl

/-- What the blocks depend on. -/
structure SameElements (a a' : SubQueue.State α T) : Prop where
  tail : a'.tailIndex = a.tailIndex
  producer : a'.producer = a.producer
  elements : a'.elements = a.elements
  dequeued : a'.dequeued = a.dequeued

theorem consume_same {a a' : SubQueue.State α T} {t : T} {seen : Index}
    (hnot : ∀ index, a.consumer t ≠ .takes index) (h : SubQueue.consume a t seen = some a') :
    SameElements a a' := by
  obtain ⟨m, q, hstatement, rfl⟩ := SubQueue.consume_statement h
  generalize hp : a.consumer t = p at hstatement
  cases hstatement with
  | take => exact absurd hp (hnot _)
  | _ => exact ⟨rfl, rfl, rfl, rfl⟩

end Threads

/-! ## What the blocks hold -/

/-- The owner has a block for the tail. -/
def hasBlock : ProducerPc α → Bool
  | .constructs _ | .publishes _ => true
  | .idle | .checks _ | .requisitions _ => false

/-- The owner has written the element at the tail. -/
def hasWritten : ProducerPc α → Bool
  | .publishes _ => true
  | .idle | .checks _ | .requisitions _ | .constructs _ => false

/-- The blocks that begin below this index were requisitioned. -/
def reach (a : SubQueue.State α T) : Nat := a.tailIndex.toNat + (hasBlock a.producer).toNat

/-- The elements below this index were written. -/
def written (a : SubQueue.State α T) : Nat := a.tailIndex.toNat + (hasWritten a.producer).toNat

/-- All elements of the block were counted as moved out. -/
def Full (s : State α T B) (first : Index) : Prop :=
  ∀ i, blockStart i = first → i ∈ s.counted

/-- The block that the thread is about to give back. -/
def Emptying.finishes : Emptying B → Option B
  | .clears _ block | .frees block => some block
  | .none | .counts .. => Option.none

/-- The blocks of `s` hold the elements of `a`. A block that is not full of counted indices has
its entry; a full one has one thread that gives it back. -/
structure Stores [DecidableEq T] (s : State α T B) (a : SubQueue.State α T) : Prop where
  queue : s.queue = bare a
  content : ∀ i b, i.toNat < written a → i ∉ a.taken → s.start b = some (blockStart i) →
    s.slots b (offset i) = a.elements i
  entry : ∀ k, blockStart k = k → k.toNat < reach a → ¬ Full s k →
    ∃ b, s.entries k = some b ∧ s.start b = some k
  tail : ∀ b, (blockStart a.tailIndex).toNat < reach a →
    s.start b = some (blockStart a.tailIndex) → s.tailBlock = some b
  opened : ∀ b k, s.start b = some k → blockStart k = k ∧ k.toNat < reach a ∧ s.inUse b = true
  unique : ∀ b b' k, s.start b = some k → s.start b' = some k → b = b'
  aligned : ∀ item, a.producer = .checks item ∨ a.producer = .requisitions item →
    blockStart a.tailIndex = a.tailIndex
  count : ∀ b k, s.start b = some k →
    s.elementsCompletelyDequeued b = s.counted.countP fun i => blockStart i = k
  nodup : s.counted.Nodup
  taken : ∀ i ∈ s.counted, i ∈ a.taken
  counts : ∀ t i b, s.emptying t = .counts i b →
    s.start b = some (blockStart i) ∧ i ∈ a.taken ∧ i ∉ s.counted
  alone : ∀ t u i b b', s.emptying t = .counts i b → s.emptying u = .counts i b' → t = u
  pending : ∀ i ∈ a.taken, i ∈ s.counted ∨ ∃ t b, s.emptying t = .counts i b
  clears : ∀ t k b, s.emptying t = .clears k b → s.start b = some k
  finish : ∀ t b, (s.emptying t).finishes = some b → ∃ k, s.start b = some k ∧ Full s k
  last : ∀ t u b, (s.emptying t).finishes = some b → (s.emptying u).finishes = some b → t = u
  full : ∀ b k, s.start b = some k → Full s k → ∃ t, (s.emptying t).finishes = some b
  resting : ∀ t, s.emptying t ≠ .none → ∃ item, a.consumer t = .done item

section Steps

variable [DecidableEq T] {s s' : State α T B} {a a' : SubQueue.State α T} {t : T}

omit [DecidableEq T] in
/-- Writing to a place of one block leaves the elements at the other indices alone. -/
theorem write_of_ne [DecidableEq B] {i j : Index} {b b' : B} {content : Option α}
    (hb : s.start b = some (blockStart j)) (hb' : s.start b' = some (blockStart i)) (hne : i ≠ j) :
    (s.write b (offset j) content).slots b' (offset i) = s.slots b' (offset i) := by
  simp only [State.write]
  by_cases hbb : b' = b
  · subst hbb
    have hstart := Option.some.inj (hb'.symm.trans hb)
    have hoffset : offset i ≠ offset j := fun hoffset => hne (eq_of_place hstart hoffset)
    rw [Function.update_self, Function.update_of_ne hoffset]
  · rw [Function.update_of_ne hbb]

omit [DecidableEq T] in
theorem write_self [DecidableEq B] {b : B} {place : Index} {content : Option α} :
    (s.write b place content).slots b place = content := by
  simp only [State.write, Function.update_self]

namespace Stores

/-- A step of the sub-queue that writes and moves out no element. -/
theorem stay (h : Stores s a) (hdequeued : a'.dequeued = a.dequeued)
    (helements : a'.elements = a.elements) (hwritten : written a' = written a)
    (hreach : ∀ k, blockStart k = k → (k.toNat < reach a' ↔ k.toNat < reach a))
    (htail : (blockStart a'.tailIndex).toNat < reach a' →
      blockStart a'.tailIndex = blockStart a.tailIndex)
    (haligned : ∀ item, a'.producer = .checks item ∨ a'.producer = .requisitions item →
      blockStart a'.tailIndex = a'.tailIndex)
    (hresting : ∀ u, s.emptying u ≠ .none → a'.consumer u = a.consumer u) :
    Stores { s with queue := bare a' } a' := by
  have htaken : a'.taken = a.taken := by rw [SubQueue.State.taken, hdequeued]; rfl
  refine { h with queue := rfl, content := ?_, entry := ?_, tail := ?_, opened := ?_,
                  aligned := haligned, taken := ?_, counts := ?_, pending := ?_, resting := ?_ }
  · rw [hwritten, htaken, helements]
    exact h.content
  · exact fun k hk hlt => h.entry k hk ((hreach k hk).mp hlt)
  · intro b hlt hb
    rw [htail hlt] at hb hlt
    exact h.tail b ((hreach _ (blockStart_start _)).mp hlt) hb
  · intro b k hb
    obtain ⟨hk, hlt, huse⟩ := h.opened b k hb
    exact ⟨hk, (hreach k hk).mpr hlt, huse⟩
  · rw [htaken]
    exact h.taken
  · rw [htaken]
    exact h.counts
  · rw [htaken]
    exact h.pending
  · intro u hu
    rw [hresting u hu]
    exact h.resting u hu

theorem locate (h : Stores s a) {i : Index} (hi : i.toNat < reach a) (hnot : i ∉ a.taken) :
    ∃ b, s.entries (blockStart i) = some b ∧ s.start b = some (blockStart i) :=
  h.entry _ (blockStart_start i) (Nat.lt_of_le_of_lt (blockStart_le i) hi) fun hfull =>
    hnot (h.taken i (hfull i rfl))

variable [Fintype T] {n : Nat}

omit [DecidableEq T] in
theorem taken_lt (hs : Sound n a) {i : Index} (hi : i ∈ a.taken) :
    i.toNat < a.tailIndex.toNat := by
  obtain ⟨p, hp, rfl⟩ := List.mem_map.mp hi
  have hlt := (hs.holding.items p hp).1
  have hle := hs.head_le
  omega

theorem constructs [DecidableEq B] (h : Stores s a) (hs : Sound n a) {item : α}
    (hp : a.producer = .constructs item) :
    ∃ b, s.tailBlock = some b ∧
      Stores { s.write b (offset a.tailIndex) (some item) with
          queue := { s.queue with producer := .publishes item } }
        { a with
          elements := Function.update a.elements a.tailIndex (some item)
          producer := .publishes item } := by
  have hreach : reach a = a.tailIndex.toNat + 1 := by rw [reach, hp]; rfl
  have hwritten : written a = a.tailIndex.toNat := by rw [written, hp]; rfl
  have hfresh : a.tailIndex ∉ a.taken := fun hmem => Nat.lt_irrefl _ (taken_lt hs hmem)
  obtain ⟨b, -, hb⟩ := h.locate (by omega) hfresh
  have hle := blockStart_le a.tailIndex
  refine ⟨b, h.tail b (by omega) hb, { h with queue := ?_, content := ?_, entry := ?_, tail := ?_,
                                              opened := ?_, aligned := ?_ }⟩
  · rw [h.queue]
    rfl
  · intro i b' hi hnot hb'
    show (s.write b (offset a.tailIndex) (some item)).slots b' (offset i) =
      Function.update a.elements a.tailIndex (some item) i
    by_cases hit : i = a.tailIndex
    · subst hit
      obtain rfl := h.unique _ _ _ hb hb'
      rw [write_self, Function.update_self]
    · rw [write_of_ne hb hb' hit, Function.update_of_ne hit]
      have hne : i.toNat ≠ a.tailIndex.toNat := mt BitVec.eq_of_toNat_eq hit
      have hlt : i.toNat < a.tailIndex.toNat + 1 := hi
      exact h.content i b' (by omega) hnot hb'
  · exact fun k hk hlt => h.entry k hk (hreach.symm ▸ hlt)
  · exact fun b' hlt => h.tail b' (hreach.symm ▸ hlt)
  · intro b' k hb'
    obtain ⟨hk, hlt, huse⟩ := h.opened b' k hb'
    rw [hreach] at hlt
    exact ⟨hk, hlt, huse⟩
  · rintro item' (hchecks | hrequisitions)
    · cases hchecks
    · cases hrequisitions

theorem requisition [DecidableEq B] (h : Stores s a) (hs : Sound n a) {item : α}
    (hp : a.producer = .requisitions item) {b : B} (hb : s.inUse b = false) :
    Stores { s with
        queue := { s.queue with producer := .constructs item }
        entries := Function.update s.entries (blockStart a.tailIndex) (some b)
        tailBlock := some b
        elementsCompletelyDequeued := Function.update s.elementsCompletelyDequeued b 0
        inUse := Function.update s.inUse b true
        start := Function.update s.start b (some (blockStart a.tailIndex)) }
      { a with producer := .constructs item } := by
  have hreach : reach a = a.tailIndex.toNat := by rw [reach, hp]; rfl
  have hwritten : written a = a.tailIndex.toNat := by rw [written, hp]; rfl
  have hfirst : blockStart a.tailIndex = a.tailIndex := h.aligned item (.inr hp)
  rw [hfirst]
  have hnone : s.start b = none := by
    cases hstart : s.start b with
    | none => rfl
    | some k =>
      have huse := (h.opened b k hstart).2.2
      rw [hb] at huse
      cases huse
  have hother : ∀ {b' k}, s.start b' = some k → b' ≠ b := by
    rintro b' k hb' rfl
    rw [hnone] at hb'
    cases hb'
  have hold : ∀ {b'}, s.start b' ≠ some a.tailIndex := by
    intro b' hb'
    have hlt := (h.opened b' _ hb').2.1
    omega
  have hself : Function.update s.start b (some a.tailIndex) b = some a.tailIndex :=
    Function.update_self ..
  have hne : ∀ {b'}, b' ≠ b → Function.update s.start b (some a.tailIndex) b' = s.start b' :=
    fun hb' => Function.update_of_ne hb' ..
  have hstarts : ∀ {b' k}, Function.update s.start b (some a.tailIndex) b' = some k →
      b' = b ∧ k = a.tailIndex ∨ b' ≠ b ∧ s.start b' = some k := by
    intro b' k hb'
    by_cases hbb : b' = b
    · subst hbb
      exact .inl ⟨rfl, (Option.some.inj (hself.symm.trans hb')).symm⟩
    · exact .inr ⟨hbb, (hne hbb).symm.trans hb'⟩
  have hnot : ∀ i ∈ s.counted, blockStart i ≠ a.tailIndex := by
    intro i hi hstart
    have hlt := taken_lt hs (h.taken i hi)
    have hle := blockStart_le i
    rw [hstart] at hle
    omega
  refine { h with queue := ?_, content := ?_, entry := ?_, tail := ?_, opened := ?_,
                  unique := ?_, aligned := ?_, count := ?_, counts := ?_, clears := ?_,
                  finish := ?_, full := ?_ }
  · rw [h.queue]
    rfl
  · intro i b' hi hmem hb'
    have hlt : i.toNat < a.tailIndex.toNat := hi
    have hle := blockStart_le i
    rcases hstarts hb' with ⟨-, hk⟩ | ⟨-, hb'⟩
    · rw [hk] at hle
      omega
    · exact h.content i b' (by omega) hmem hb'
  · intro k hk hlt hfull
    have hlt' : k.toNat < a.tailIndex.toNat + 1 := hlt
    by_cases hkt : k = a.tailIndex
    · subst hkt
      exact ⟨b, Function.update_self .., hself⟩
    · have hne' : k.toNat ≠ a.tailIndex.toNat := mt BitVec.eq_of_toNat_eq hkt
      obtain ⟨b', hentry, hb'⟩ := h.entry k hk (by omega) hfull
      exact ⟨b', (Function.update_of_ne hkt ..).trans hentry, (hne (hother hb')).trans hb'⟩
  · intro b' _ hb'
    show some b = some b'
    rw [show blockStart _ = a.tailIndex from hfirst] at hb'
    rcases hstarts hb' with ⟨rfl, -⟩ | ⟨-, hb'⟩
    · rfl
    · exact absurd hb' hold
  · intro b' k hb'
    rcases hstarts hb' with ⟨rfl, rfl⟩ | ⟨hbb, hb'⟩
    · exact ⟨hfirst, Nat.lt_succ_self _, Function.update_self ..⟩
    · obtain ⟨hk, hlt, huse⟩ := h.opened b' k hb'
      rw [hreach] at hlt
      exact ⟨hk, Nat.lt_succ_of_lt hlt, (Function.update_of_ne hbb ..).trans huse⟩
  · intro b' b'' k hb' hb''
    rcases hstarts hb' with ⟨rfl, rfl⟩ | ⟨-, hb'⟩
    · rcases hstarts hb'' with ⟨rfl, -⟩ | ⟨-, hb''⟩
      · rfl
      · exact absurd hb'' hold
    · rcases hstarts hb'' with ⟨-, rfl⟩ | ⟨-, hb''⟩
      · exact absurd hb' hold
      · exact h.unique b' b'' k hb' hb''
  · rintro item' (hchecks | hrequisitions)
    · cases hchecks
    · cases hrequisitions
  · intro b' k hb'
    rcases hstarts hb' with ⟨rfl, rfl⟩ | ⟨hbb, hb'⟩
    · show Function.update s.elementsCompletelyDequeued b' 0 b' = _
      rw [Function.update_self, eq_comm, List.countP_eq_zero]
      exact fun i hi => by simpa using hnot i hi
    · exact (Function.update_of_ne hbb ..).trans (h.count b' k hb')
  · intro u i b' hu
    obtain ⟨hb', hmem⟩ := h.counts u i b' hu
    exact ⟨(hne (hother hb')).trans hb', hmem⟩
  · intro u k b' hu
    have hb' := h.clears u k b' hu
    exact (hne (hother hb')).trans hb'
  · intro u b' hu
    obtain ⟨k, hb', hfull⟩ := h.finish u b' hu
    exact ⟨k, (hne (hother hb')).trans hb', hfull⟩
  · intro b' k hb' hfull
    rcases hstarts hb' with ⟨rfl, rfl⟩ | ⟨-, hb'⟩
    · exact absurd hfirst (hnot _ (hfull _ hfirst))
    · exact h.full b' k hb' hfull

omit [Fintype T] in
/-- What a thread does next with a block says nothing of the other threads. -/
theorem emptying_of_ne {e : Emptying B} {u : T} (hu : u ≠ t) :
    Function.update s.emptying t e u = s.emptying u := Function.update_of_ne hu ..

theorem takes [DecidableEq B] (h : Stores s a) (hs : Sound n a) {index : Index}
    (hp : a.consumer t = .takes index) :
    ∃ b, s.entries (blockStart index) = some b ∧ s.start b = some (blockStart index) ∧
      s.slots b (offset index) = a.elements index ∧
      Stores { s.write b (offset index) none with
          queue := { s.queue with
            dequeued := s.queue.dequeued ++ [(index, a.elements index)] }.goto t
              (.done (a.elements index))
          emptying := Function.update s.emptying t (.counts index b) }
        ({ a with
          elements := Function.update a.elements index none
          dequeued := a.dequeued ++ [(index, a.elements index)] }.goto t
            (.done (a.elements index))) := by
  have hhand : a.hand t = some index := by rw [SubQueue.State.hand, hp]; rfl
  obtain ⟨hlt, hfresh⟩ := hs.holding.hand t index hhand
  have hle := hs.head_le
  have hwritten : a.tailIndex.toNat ≤ written a := Nat.le_add_right _ _
  have hreach : a.tailIndex.toNat ≤ reach a := Nat.le_add_right _ _
  obtain ⟨b, hentry, hb⟩ := h.locate (i := index) (by omega) hfresh
  have hnone : s.emptying t = .none := by
    by_contra hne
    obtain ⟨item, hdone⟩ := h.resting t hne
    rw [hp] at hdone
    cases hdone
  have hself : Function.update s.emptying t (.counts index b) t = .counts index b :=
    Function.update_self ..
  have htaken : ∀ i, i ∈ (a.dequeued ++ [(index, a.elements index)]).map Prod.fst ↔
      i ∈ a.taken ∨ i = index := by
    intro i
    rw [List.map_append, List.mem_append, List.map_singleton, List.mem_singleton]
    exact Iff.rfl
  have hfinishes : ∀ {u b'}, (Function.update s.emptying t (.counts index b) u).finishes = some b' →
      (s.emptying u).finishes = some b' := by
    intro u b' hu
    by_cases hut : u = t
    · subst hut
      rw [hself] at hu
      cases hu
    · rwa [emptying_of_ne hut] at hu
  refine ⟨b, hentry, hb, h.content index b (by omega) hfresh hb,
    { h with queue := ?_, content := ?_, taken := ?_, counts := ?_, alone := ?_, pending := ?_,
             clears := ?_, finish := ?_, last := ?_, full := ?_, resting := ?_ }⟩
  · rw [h.queue]
    rfl
  · intro i b' hi hnot hb'
    have hnot' := mt (htaken i).mpr hnot
    push Not at hnot'
    show (s.write b (offset index) none).slots b' (offset i) =
      Function.update a.elements index none i
    rw [write_of_ne hb hb' hnot'.2, Function.update_of_ne hnot'.2]
    exact h.content i b' hi hnot'.1 hb'
  · exact fun i hi => (htaken i).mpr (.inl (h.taken i hi))
  · intro u i b' hu
    by_cases hut : u = t
    · subst hut
      obtain ⟨rfl, rfl⟩ := Emptying.counts.inj (hself.symm.trans hu)
      exact ⟨hb, (htaken _).mpr (.inr rfl), fun hmem => hfresh (h.taken _ hmem)⟩
    · obtain ⟨hb', hmem, hnot⟩ := h.counts u i b' ((emptying_of_ne hut).symm.trans hu)
      exact ⟨hb', (htaken i).mpr (.inl hmem), hnot⟩
  · intro u v i b' b'' hu hv
    by_cases hut : u = t
    · by_cases hvt : v = t
      · exact hut.trans hvt.symm
      · subst hut
        obtain ⟨rfl, rfl⟩ := Emptying.counts.inj (hself.symm.trans hu)
        exact absurd (h.counts v _ b'' ((emptying_of_ne hvt).symm.trans hv)).2.1 hfresh
    · by_cases hvt : v = t
      · subst hvt
        obtain ⟨rfl, rfl⟩ := Emptying.counts.inj (hself.symm.trans hv)
        exact absurd (h.counts u _ b' ((emptying_of_ne hut).symm.trans hu)).2.1 hfresh
      · exact h.alone u v i b' b'' ((emptying_of_ne hut).symm.trans hu)
          ((emptying_of_ne hvt).symm.trans hv)
  · intro i hi
    rcases (htaken i).mp hi with hmem | rfl
    · rcases h.pending i hmem with hcounted | ⟨u, b', hu⟩
      · exact .inl hcounted
      · have hut : u ≠ t := by
          rintro rfl
          rw [hnone] at hu
          cases hu
        exact .inr ⟨u, b', (emptying_of_ne hut).trans hu⟩
    · exact .inr ⟨t, b, hself⟩
  · intro u k b' hu
    have hut : u ≠ t := by
      rintro rfl
      cases hself.symm.trans hu
    exact h.clears u k b' ((emptying_of_ne hut).symm.trans hu)
  · exact fun u b' hu => h.finish u b' (hfinishes hu)
  · exact fun u v b' hu hv => h.last u v b' (hfinishes hu) (hfinishes hv)
  · intro b' k hb' hfull
    obtain ⟨u, hu⟩ := h.full b' k hb' hfull
    have hut : u ≠ t := by
      rintro rfl
      rw [hnone] at hu
      cases hu
    exact ⟨u, (congrArg Emptying.finishes (emptying_of_ne hut)).trans hu⟩
  · intro u hu
    by_cases hut : u = t
    · subst hut
      exact ⟨_, Function.update_self ..⟩
    · obtain ⟨item, hdone⟩ := h.resting u fun hsame => hu ((emptying_of_ne hut).trans hsame)
      exact ⟨item, (Function.update_of_ne hut ..).trans hdone⟩

omit [Fintype T] in
theorem counted [DecidableEq B] (h : Stores s a) {i : Index} {b : B}
    (he : s.emptying t = .counts i b) :
    Stores { s with
        elementsCompletelyDequeued := Function.update s.elementsCompletelyDequeued b
          (s.elementsCompletelyDequeued b + 1)
        counted := s.counted ++ [i]
        emptying := Function.update s.emptying t
          (if s.elementsCompletelyDequeued b = blockSize.toNat - 1 then .clears (blockStart i) b
            else .none) } a := by
  obtain ⟨hb, htaken, hnew⟩ := h.counts t i b he
  have hprev := h.count b _ hb
  have hmem : ∀ j, j ∈ s.counted ++ [i] ↔ j ∈ s.counted ∨ j = i := by
    intro j
    rw [List.mem_append, List.mem_singleton]
  have hnodup : (s.counted ++ [i]).Nodup :=
    List.nodup_append.mpr ⟨h.nodup, List.nodup_singleton i, fun j hj k hk => by
      rintro rfl
      exact hnew (List.mem_singleton.mp hk ▸ hj)⟩
  have hmine : ((s.counted ++ [i]).countP fun j => blockStart j = blockStart i) =
      s.elementsCompletelyDequeued b + 1 := by
    rw [List.countP_append, hprev, List.countP_singleton, if_pos (decide_eq_true rfl)]
  have hothers : ∀ k, k ≠ blockStart i → ((s.counted ++ [i]).countP fun j => blockStart j = k) =
      s.counted.countP fun j => blockStart j = k := by
    intro k hk
    rw [List.countP_append, List.countP_singleton, if_neg (by simpa using Ne.symm hk), Nat.add_zero]
  have hlast : s.elementsCompletelyDequeued b = blockSize.toNat - 1 ↔
      ∀ j, blockStart j = blockStart i → j ∈ s.counted ++ [i] := by
    have hsize : blockSize.toNat = 32 := rfl
    rw [← countP_eq_iff hnodup (blockStart_start i), hmine, hsize]
    omega
  have hfullmono : ∀ {k}, Full s k → ∀ j, blockStart j = k → j ∈ s.counted ++ [i] :=
    fun hfull j hj => (hmem j).mpr (.inl (hfull j hj))
  have hfullof : ∀ {k}, k ≠ blockStart i → (∀ j, blockStart j = k → j ∈ s.counted ++ [i]) →
      Full s k := by
    intro k hk hfull j hj
    rcases (hmem j).mp (hfull j hj) with hcounted | rfl
    · exact hcounted
    · exact absurd hj.symm hk
  set next : Emptying B := if s.elementsCompletelyDequeued b = blockSize.toNat - 1 then
    .clears (blockStart i) b else .none with hnext
  have hself : Function.update s.emptying t next t = next := Function.update_self ..
  have hfinishes : ∀ {u b'}, (Function.update s.emptying t next u).finishes = some b' →
      u = t ∧ b' = b ∧ s.elementsCompletelyDequeued b = blockSize.toNat - 1 ∨
        u ≠ t ∧ (s.emptying u).finishes = some b' := by
    intro u b' hu
    by_cases hut : u = t
    · subst hut
      rw [hself, hnext] at hu
      split_ifs at hu with hprev
      · exact .inl ⟨rfl, (Option.some.inj hu).symm, hprev⟩
      · cases hu
    · exact .inr ⟨hut, (congrArg Emptying.finishes (emptying_of_ne hut)).symm.trans hu⟩
  have hnever : ∀ {u}, (s.emptying u).finishes ≠ some b := by
    intro u hu
    obtain ⟨k, hk, hfull⟩ := h.finish u b hu
    obtain rfl := Option.some.inj (hb.symm.trans hk)
    exact hnew (hfull i rfl)
  have hcounts : ∀ {u j b'}, Function.update s.emptying t next u = .counts j b' →
      u ≠ t ∧ s.emptying u = .counts j b' := by
    intro u j b' hu
    have hut : u ≠ t := by
      rintro rfl
      rw [hself, hnext] at hu
      split_ifs at hu
    exact ⟨hut, (emptying_of_ne hut).symm.trans hu⟩
  refine { h with entry := ?_, count := ?_, nodup := hnodup, taken := ?_, counts := ?_,
                  alone := ?_, pending := ?_, clears := ?_, finish := ?_, last := ?_, full := ?_,
                  resting := ?_ }
  · exact fun k hk hlt hfull => h.entry k hk hlt fun hold => hfull (hfullmono hold)
  · intro b' k hb'
    show Function.update s.elementsCompletelyDequeued b _ b' = (s.counted ++ [i]).countP _
    by_cases hbb : b' = b
    · subst hbb
      obtain rfl := Option.some.inj (hb.symm.trans hb')
      rw [Function.update_self, hmine]
    · have hk : k ≠ blockStart i := by
        rintro rfl
        exact hbb (h.unique b' b _ hb' hb)
      rw [Function.update_of_ne hbb, hothers k hk]
      exact h.count b' k hb'
  · intro j hj
    rcases (hmem j).mp hj with hcounted | rfl
    · exact h.taken j hcounted
    · exact htaken
  · intro u j b' hu
    obtain ⟨hut, hu'⟩ := hcounts hu
    obtain ⟨hb', hj, hnot⟩ := h.counts u j b' hu'
    refine ⟨hb', hj, fun hcounted => ?_⟩
    rcases (hmem j).mp hcounted with hold | rfl
    · exact hnot hold
    · exact hut (h.alone u t j b' b hu' he)
  · exact fun u v j b' b'' hu hv => h.alone u v j b' b'' (hcounts hu).2 (hcounts hv).2
  · intro j hj
    by_cases hji : j = i
    · exact .inl ((hmem j).mpr (.inr hji))
    · rcases h.pending j hj with hcounted | ⟨u, b', hu⟩
      · exact .inl ((hmem j).mpr (.inl hcounted))
      · have hut : u ≠ t := by
          rintro rfl
          exact hji (Emptying.counts.inj (hu.symm.trans he)).1
        exact .inr ⟨u, b', (emptying_of_ne hut).trans hu⟩
  · intro u k b' hu
    by_cases hut : u = t
    · subst hut
      have hu' := hself.symm.trans hu
      rw [hnext] at hu'
      split_ifs at hu'
      obtain ⟨rfl, rfl⟩ := Emptying.clears.inj hu'
      exact hb
    · exact h.clears u k b' ((emptying_of_ne hut).symm.trans hu)
  · intro u b' hu
    rcases hfinishes hu with ⟨-, rfl, hprev⟩ | ⟨-, hu⟩
    · exact ⟨_, hb, hlast.mp hprev⟩
    · obtain ⟨k, hk, hfull⟩ := h.finish u b' hu
      exact ⟨k, hk, hfullmono hfull⟩
  · intro u v b' hu hv
    rcases hfinishes hu with ⟨rfl, rfl, -⟩ | ⟨-, hu'⟩
    · rcases hfinishes hv with ⟨rfl, -, -⟩ | ⟨-, hv'⟩
      · rfl
      · exact absurd hv' hnever
    · rcases hfinishes hv with ⟨-, rfl, -⟩ | ⟨-, hv'⟩
      · exact absurd hu' hnever
      · exact h.last u v b' hu' hv'
  · intro b' k hb' hfull
    by_cases hk : k = blockStart i
    · subst hk
      obtain rfl := h.unique b' b _ hb' hb
      refine ⟨t, (congrArg Emptying.finishes hself).trans ?_⟩
      rw [hnext, if_pos (hlast.mpr hfull)]
      rfl
    · obtain ⟨u, hu⟩ := h.full b' k hb' (hfullof hk hfull)
      have hut : u ≠ t := by
        rintro rfl
        rw [he] at hu
        cases hu
      exact ⟨u, (congrArg Emptying.finishes (emptying_of_ne hut)).trans hu⟩
  · intro u hu
    by_cases hut : u = t
    · subst hut
      exact h.resting u (by rw [he]; simp)
    · exact h.resting u fun hsame => hu ((emptying_of_ne hut).trans hsame)

omit [Fintype T] in
theorem cleared [DecidableEq B] (h : Stores s a) {k : Index} {b : B}
    (he : s.emptying t = .clears k b) :
    Stores { s with
        entries := Function.update s.entries k none
        emptying := Function.update s.emptying t (.frees b) } a := by
  have hfinish : (s.emptying t).finishes = some b := by rw [he]; rfl
  obtain ⟨k', hk', hfull⟩ := h.finish t b hfinish
  obtain rfl := Option.some.inj ((h.clears t k b he).symm.trans hk')
  have hself : Function.update s.emptying t (.frees b) t = .frees b := Function.update_self ..
  have hfinishes : ∀ u, (Function.update s.emptying t (.frees b) u).finishes =
      (s.emptying u).finishes := by
    intro u
    by_cases hut : u = t
    · subst hut
      rw [hself, hfinish]
      rfl
    · rw [emptying_of_ne hut]
  have hcounts : ∀ {u j b'}, Function.update s.emptying t (.frees b) u = .counts j b' →
      s.emptying u = .counts j b' := by
    intro u j b' hu
    have hut : u ≠ t := by
      rintro rfl
      cases hself.symm.trans hu
    exact (emptying_of_ne hut).symm.trans hu
  refine { h with entry := ?_, counts := ?_, alone := ?_, pending := ?_, clears := ?_,
                  finish := ?_, last := ?_, full := ?_, resting := ?_ }
  · intro k' hk hlt hnot
    obtain ⟨b', hentry, hb'⟩ := h.entry k' hk hlt hnot
    have hne : k' ≠ k := by
      rintro rfl
      exact hnot hfull
    exact ⟨b', (Function.update_of_ne hne ..).trans hentry, hb'⟩
  · exact fun u j b' hu => h.counts u j b' (hcounts hu)
  · exact fun u v j b' b'' hu hv => h.alone u v j b' b'' (hcounts hu) (hcounts hv)
  · intro j hj
    rcases h.pending j hj with hcounted | ⟨u, b', hu⟩
    · exact .inl hcounted
    · have hut : u ≠ t := by
        rintro rfl
        rw [he] at hu
        cases hu
      exact .inr ⟨u, b', (emptying_of_ne hut).trans hu⟩
  · intro u k' b' hu
    have hut : u ≠ t := by
      rintro rfl
      cases hself.symm.trans hu
    exact h.clears u k' b' ((emptying_of_ne hut).symm.trans hu)
  · exact fun u b' hu => h.finish u b' ((hfinishes u).symm.trans hu)
  · exact fun u v b' hu hv =>
      h.last u v b' ((hfinishes u).symm.trans hu) ((hfinishes v).symm.trans hv)
  · intro b' k' hb' hfull'
    obtain ⟨u, hu⟩ := h.full b' k' hb' hfull'
    exact ⟨u, (hfinishes u).trans hu⟩
  · intro u hu
    by_cases hut : u = t
    · subst hut
      exact h.resting u (by rw [he]; simp)
    · exact h.resting u fun hsame => hu ((emptying_of_ne hut).trans hsame)

omit [Fintype T] in
theorem freed [DecidableEq B] (h : Stores s a) {b : B} (he : s.emptying t = .frees b) :
    Stores { s with
        inUse := Function.update s.inUse b false
        start := Function.update s.start b none
        emptying := Function.update s.emptying t .none } a := by
  have hfinish : (s.emptying t).finishes = some b := by rw [he]; rfl
  obtain ⟨k, hk, hfull⟩ := h.finish t b hfinish
  have hself : Function.update s.emptying t .none t = .none := Function.update_self ..
  have hstart : ∀ {b' k'}, Function.update s.start b none b' = some k' →
      b' ≠ b ∧ s.start b' = some k' := by
    intro b' k' hb'
    have hbb : b' ≠ b := by
      rintro rfl
      rw [Function.update_self] at hb'
      cases hb'
    exact ⟨hbb, (Function.update_of_ne hbb ..).symm.trans hb'⟩
  have hkeep : ∀ {b' k'}, s.start b' = some k' → b' ≠ b →
      Function.update s.start b none b' = some k' :=
    fun hb' hbb => (Function.update_of_ne hbb ..).trans hb'
  have hbusy : ∀ {u e}, e ≠ .none → Function.update s.emptying t .none u = e →
      u ≠ t ∧ s.emptying u = e := by
    intro u e hne hu
    have hut : u ≠ t := by
      rintro rfl
      exact hne (hu.symm.trans hself)
    exact ⟨hut, (emptying_of_ne hut).symm.trans hu⟩
  have hfinishes : ∀ {u b'}, (Function.update s.emptying t .none u).finishes = some b' →
      u ≠ t ∧ (s.emptying u).finishes = some b' := by
    intro u b' hu
    have hut : u ≠ t := by
      rintro rfl
      rw [hself] at hu
      cases hu
    exact ⟨hut, (congrArg Emptying.finishes (emptying_of_ne hut)).symm.trans hu⟩
  refine { h with content := ?_, entry := ?_, tail := ?_, opened := ?_, unique := ?_, count := ?_,
                  counts := ?_, alone := ?_, pending := ?_, clears := ?_, finish := ?_, last := ?_,
                  full := ?_, resting := ?_ }
  · exact fun i b' hi hnot hb' => h.content i b' hi hnot (hstart hb').2
  · intro k' hk' hlt hnot
    obtain ⟨b', hentry, hb'⟩ := h.entry k' hk' hlt hnot
    refine ⟨b', hentry, hkeep hb' ?_⟩
    rintro rfl
    obtain rfl := Option.some.inj (hk.symm.trans hb')
    exact hnot hfull
  · exact fun b' hlt hb' => h.tail b' hlt (hstart hb').2
  · intro b' k' hb'
    obtain ⟨hbb, hb'⟩ := hstart hb'
    obtain ⟨hk', hlt, huse⟩ := h.opened b' k' hb'
    exact ⟨hk', hlt, (Function.update_of_ne hbb ..).trans huse⟩
  · exact fun b' b'' k' hb' hb'' => h.unique b' b'' k' (hstart hb').2 (hstart hb'').2
  · exact fun b' k' hb' => h.count b' k' (hstart hb').2
  · intro u j b' hu
    obtain ⟨-, hu'⟩ := hbusy (by simp) hu
    obtain ⟨hb', hj, hnot⟩ := h.counts u j b' hu'
    refine ⟨hkeep hb' ?_, hj, hnot⟩
    rintro rfl
    obtain rfl := Option.some.inj (hk.symm.trans hb')
    exact hnot (hfull j rfl)
  · exact fun u v j b' b'' hu hv =>
      h.alone u v j b' b'' (hbusy (by simp) hu).2 (hbusy (by simp) hv).2
  · intro j hj
    rcases h.pending j hj with hcounted | ⟨u, b', hu⟩
    · exact .inl hcounted
    · have hut : u ≠ t := by
        rintro rfl
        rw [he] at hu
        cases hu
      exact .inr ⟨u, b', (emptying_of_ne hut).trans hu⟩
  · intro u k' b' hu
    obtain ⟨hut, hu'⟩ := hbusy (by simp) hu
    refine hkeep (h.clears u k' b' hu') ?_
    rintro rfl
    exact hut (h.last u t b' (by rw [hu']; rfl) hfinish)
  · intro u b' hu
    obtain ⟨hut, hu'⟩ := hfinishes hu
    obtain ⟨k', hb', hfull'⟩ := h.finish u b' hu'
    refine ⟨k', hkeep hb' ?_, hfull'⟩
    rintro rfl
    exact hut (h.last u t b' hu' hfinish)
  · exact fun u v b' hu hv => h.last u v b' (hfinishes hu).2 (hfinishes hv).2
  · intro b' k' hb' hfull'
    obtain ⟨hbb, hb''⟩ := hstart hb'
    obtain ⟨u, hu⟩ := h.full b' k' hb'' hfull'
    have hut : u ≠ t := by
      rintro rfl
      exact hbb (Option.some.inj (hu.symm.trans hfinish))
    exact ⟨u, (congrArg Emptying.finishes (emptying_of_ne hut)).trans hu⟩
  · intro u hu
    by_cases hut : u = t
    · subst hut
      exact absurd hself hu
    · exact h.resting u fun hsame => hu ((emptying_of_ne hut).trans hsame)

omit [Fintype T] in
/-- What the other sub-queues do with their blocks. -/
theorem other [DecidableEq B] (h : Stores s a) {b : B}
    (hslots : ∀ b', b' ≠ b → s'.slots b' = s.slots b')
    (hcount : ∀ b', b' ≠ b →
      s'.elementsCompletelyDequeued b' = s.elementsCompletelyDequeued b')
    (huse : ∀ b', b' ≠ b → s'.inUse b' = s.inUse b') (hb : s.start b = none)
    (hqueue : s'.queue = s.queue) (hentries : s'.entries = s.entries)
    (htail : s'.tailBlock = s.tailBlock) (hemptying : s'.emptying = s.emptying)
    (hstart : s'.start = s.start) (hcounted : s'.counted = s.counted) : Stores s' a := by
  have hne : ∀ {b' k}, s.start b' = some k → b' ≠ b := by
    rintro b' k hb' rfl
    rw [hb] at hb'
    cases hb'
  have hfull : ∀ k, Full s' k ↔ Full s k := by
    intro k
    unfold Full
    rw [hcounted]
  constructor
  · rw [hqueue, h.queue]
  · rw [hstart]
    intro i b' hi hnot hb'
    rw [hslots b' (hne hb')]
    exact h.content i b' hi hnot hb'
  · intro k hk hlt hnot
    rw [hentries, hstart]
    exact h.entry k hk hlt (mt (hfull k).mpr hnot)
  · rw [hstart, htail]
    exact h.tail
  · rw [hstart]
    intro b' k hb'
    rw [huse b' (hne hb')]
    exact h.opened b' k hb'
  · rw [hstart]
    exact h.unique
  · exact h.aligned
  · rw [hstart, hcounted]
    intro b' k hb'
    rw [hcount b' (hne hb')]
    exact h.count b' k hb'
  · rw [hcounted]
    exact h.nodup
  · rw [hcounted]
    exact h.taken
  · rw [hemptying, hstart, hcounted]
    exact h.counts
  · rw [hemptying]
    exact h.alone
  · rw [hcounted, hemptying]
    exact h.pending
  · rw [hemptying, hstart]
    exact h.clears
  · rw [hemptying, hstart]
    exact fun t b' hb' => (h.finish t b' hb').imp fun k hk => ⟨hk.1, (hfull k).mpr hk.2⟩
  · rw [hemptying]
    exact h.last
  · rw [hemptying, hstart]
    exact fun b' k hb' hk => h.full b' k hb' ((hfull k).mp hk)
  · rw [hemptying]
    exact h.resting

omit [Fintype T] in
theorem enqueue [DecidableEq B] (h : Stores s a) {item : α} (hs : enqueue s item = some s') :
    ∃ a', SubQueue.enqueue a item = some a' ∧ Stores s' a' := by
  simp only [Storage.enqueue, h.queue, enqueue_bare, Option.map_map] at hs
  obtain ⟨a', ha, rfl⟩ := Option.map_eq_some_iff.mp hs
  refine ⟨a', ha, ?_⟩
  unfold SubQueue.enqueue at ha
  cases hp : a.producer with
  | idle =>
    have hreach : reach a = a.tailIndex.toNat := by rw [reach, hp]; rfl
    have hwritten : written a = a.tailIndex.toNat := by rw [written, hp]; rfl
    have hoffset := offset_toNat a.tailIndex
    have hfirst := blockStart_toNat a.tailIndex
    simp only [hp] at ha
    split_ifs at ha with hzero
    · obtain rfl := Option.some.inj ha
      have haligned : blockStart a.tailIndex = a.tailIndex := by
        rw [offset, hzero] at hoffset
        have htoNat : (0 : Index).toNat = 0 := rfl
        exact BitVec.eq_of_toNat_eq (by omega)
      exact h.stay rfl rfl hwritten.symm (fun k _ => by rw [hreach]; exact Iff.rfl) (fun _ => rfl)
        (fun _ _ => haligned) fun _ _ => rfl
    · obtain rfl := Option.some.inj ha
      refine h.stay rfl rfl hwritten.symm (fun k hk => ?_) (fun _ => rfl) ?_ fun _ _ => rfl
      · -- the tail is inside a block, so no block begins there
        have hne : k.toNat ≠ a.tailIndex.toNat := by
          intro hkt
          obtain rfl := BitVec.eq_of_toNat_eq hkt
          rw [hk] at hfirst
          exact hzero (BitVec.eq_of_toNat_eq (show (offset a.tailIndex).toNat = 0 by omega))
        rw [hreach]
        show k.toNat < a.tailIndex.toNat + 1 ↔ _
        omega
      · rintro item' (hchecks | hrequisitions)
        · cases hchecks
        · cases hrequisitions
  | _ => simp [hp] at ha

theorem produce [DecidableEq B] (h : Stores s a) (hs : Sound n a) (hn : n < 2 ^ 63)
    {seen : Index} {block : Option B} (hstep : produce s seen block = some s') :
    ∃ a', SubQueue.produce a seen block.isSome = some a' ∧ Stores s' a' := by
  obtain ⟨queue, entries, tailBlock, slots, counts, emptying, inUse, start, counted⟩ := s
  obtain rfl : queue = bare a := h.queue
  have hproducer : (bare a).producer = a.producer := rfl
  simp only [Storage.produce, hproducer] at hstep
  cases hp : a.producer with
  | idle => simp [hp, SubQueue.produce, hproducer] at hstep
  | checks item =>
    have hnot : ∀ item, a.producer ≠ .constructs item := by simp [hp]
    have hreach : reach a = a.tailIndex.toNat := by rw [reach, hp]; rfl
    have hwritten : written a = a.tailIndex.toNat := by rw [written, hp]; rfl
    have haligned := h.aligned item (.inl hp)
    simp only [hp, produce_bare hnot, Option.map_map] at hstep
    obtain ⟨a', ha, rfl⟩ := Option.map_eq_some_iff.mp hstep
    have hsame : SubQueue.produce a seen block.isSome = SubQueue.produce a seen true := by
      simp only [SubQueue.produce, hp]
    refine ⟨a', hsame.trans ha, ?_⟩
    simp only [SubQueue.produce, hp] at ha
    split_ifs at ha
    · obtain rfl := Option.some.inj ha
      exact h.stay rfl rfl hwritten.symm (fun k _ => by rw [hreach]; exact Iff.rfl) (fun _ => rfl)
        (fun _ _ => haligned) fun _ _ => rfl
    · obtain rfl := Option.some.inj ha
      exact h.stay rfl rfl hwritten.symm (fun k _ => by rw [hreach]; exact Iff.rfl) (fun _ => rfl)
        (fun _ _ => haligned) fun _ _ => rfl
  | requisitions item =>
    have hreach : reach a = a.tailIndex.toNat := by rw [reach, hp]; rfl
    have hwritten : written a = a.tailIndex.toNat := by rw [written, hp]; rfl
    have haligned := h.aligned item (.inr hp)
    simp only [hp] at hstep
    cases block with
    | none =>
      simp only [Option.some.injEq] at hstep
      subst hstep
      let idle : SubQueue.State α T := { a with producer := .idle }
      have hidle : Stores
          ⟨bare idle, entries, tailBlock, slots, counts, emptying, inUse, start, counted⟩ idle :=
        h.stay rfl rfl hwritten.symm (fun k _ => by rw [hreach]; exact Iff.rfl) (fun _ => rfl)
          (fun _ _ => haligned) fun _ _ => rfl
      exact ⟨idle, by simp [SubQueue.produce, hp, idle], hidle⟩
    | some b =>
      simp only [Storage.requisition] at hstep
      split_ifs at hstep with huse
      obtain rfl := Option.some.inj hstep
      refine ⟨{ a with producer := .constructs item }, by simp [SubQueue.produce, hp], ?_⟩
      exact h.requisition hs hp (Bool.eq_false_iff.mpr huse)
  | constructs item =>
    obtain ⟨b, hblock, hstores⟩ := h.constructs hs hp
    obtain rfl : tailBlock = some b := hblock
    simp only [hp, Option.map_some, Option.some.injEq] at hstep
    subst hstep
    refine ⟨{ a with
      elements := Function.update a.elements a.tailIndex (some item)
      producer := .publishes item }, by simp only [SubQueue.produce, hp], hstores⟩
  | publishes item =>
    have hnot : ∀ item, a.producer ≠ .constructs item := by simp [hp]
    simp only [hp, produce_bare hnot, Option.map_map] at hstep
    obtain ⟨a', ha, rfl⟩ := Option.map_eq_some_iff.mp hstep
    have hsame : SubQueue.produce a seen block.isSome = SubQueue.produce a seen true := by
      simp only [SubQueue.produce, hp]
    refine ⟨a', hsame.trans ha, ?_⟩
    simp only [SubQueue.produce, hp, Option.some.injEq] at ha
    subst ha
    have hle := hs.drawing.tail_le
    have hsucc : (a.tailIndex + 1).toNat = a.tailIndex.toNat + 1 := SubQueue.toNat_succ (by omega)
    have hreach : reach a = a.tailIndex.toNat + 1 := by rw [reach, hp]; rfl
    have hwritten : written a = a.tailIndex.toNat + 1 := by rw [written, hp]; rfl
    refine h.stay rfl rfl (hsucc.trans hwritten.symm) (fun k _ => ?_) (fun hlt => ?_) ?_
      fun _ _ => rfl
    · rw [hreach, ← hsucc]
      exact Iff.rfl
    · have hlt' : (blockStart (a.tailIndex + 1)).toNat < (a.tailIndex + 1).toNat := hlt
      show blockStart (a.tailIndex + 1) = blockStart a.tailIndex
      rw [blockStart_toNat] at hlt'
      apply BitVec.eq_of_toNat_eq
      rw [blockStart_toNat, blockStart_toNat]
      omega
    · rintro item' (hchecks | hrequisitions)
      · cases hchecks
      · cases hrequisitions

omit [Fintype T] in
theorem dequeue (h : Stores s a) (hstep : dequeue s t = some s') :
    ∃ a', SubQueue.dequeue a t = some a' ∧ Stores s' a' := by
  unfold Storage.dequeue at hstep
  cases he : s.emptying t with
  | none =>
    simp only [he, h.queue, dequeue_bare, Option.map_map] at hstep
    obtain ⟨a', ha, rfl⟩ := Option.map_eq_some_iff.mp hstep
    refine ⟨a', ha, ?_⟩
    unfold SubQueue.dequeue at ha
    split at ha
    · obtain rfl := Option.some.inj ha
      refine h.stay rfl rfl rfl (fun _ _ => Iff.rfl) (fun _ => rfl) h.aligned fun u hu => ?_
      have hut : u ≠ t := by
        rintro rfl
        exact hu he
      exact Function.update_of_ne hut ..
    · cases ha
  | _ => simp [he] at hstep

theorem consume [DecidableEq B] (h : Stores s a) (hs : Sound n a) {seen : Index}
    (hstep : consume s t seen = some s') :
    ∃ a', SubQueue.consume a t seen = some a' ∧ Stores s' a' := by
  by_cases htakes : ∃ index, a.consumer t = .takes index
  · obtain ⟨index, hp⟩ := htakes
    obtain ⟨b, hentry, -, hcontent, hstores⟩ := h.takes hs hp
    obtain ⟨queue, entries, tailBlock, slots, counts, emptying, inUse, start, counted⟩ := s
    obtain rfl : queue = bare a := h.queue
    have hconsumer : (bare a).consumer t = .takes index := hp
    have hentry' : entries (blockStart index) = some b := hentry
    have hcontent' : slots b (offset index) = a.elements index := hcontent
    simp only [Storage.consume, hconsumer, hentry', hcontent', Option.map_some,
      Option.some.injEq] at hstep
    subst hstep
    exact ⟨_, by simp only [SubQueue.consume, hp], hstores⟩
  · have hnot : ∀ index, a.consumer t ≠ .takes index := fun index hp => htakes ⟨index, hp⟩
    have hconsume : Storage.consume s t seen =
        (SubQueue.consume s.queue t seen).map fun queue => { s with queue := queue } := by
      unfold Storage.consume
      have hconsumer : s.queue.consumer t = a.consumer t := by rw [h.queue]; rfl
      split
      · rename_i index hp
        exact absurd (hconsumer.symm.trans hp) (hnot index)
      · rfl
    rw [hconsume, h.queue, consume_bare hnot, Option.map_map] at hstep
    obtain ⟨a', ha, rfl⟩ := Option.map_eq_some_iff.mp hstep
    have hsame := consume_same hnot ha
    refine ⟨a', ha, h.stay hsame.dequeued hsame.elements ?_ (fun k _ => ?_) (fun _ => ?_) ?_
      fun u hu => ?_⟩
    · rw [written, written, hsame.tail, hsame.producer]
    · rw [reach, reach, hsame.tail, hsame.producer]
    · rw [hsame.tail]
    · rw [hsame.tail, hsame.producer]
      exact h.aligned
    · -- a thread that has a block to look after has left `dequeue`
      have hut : u ≠ t := by
        rintro rfl
        obtain ⟨item, hdone⟩ := h.resting u hu
        simp [SubQueue.consume, hdone] at ha
      obtain ⟨m, q, hstatement, rfl⟩ := SubQueue.consume_statement ha
      rw [SubQueue.State.goto, hstatement.consumer_eq]
      exact Function.update_of_ne hut ..

omit [Fintype T] in
theorem empty [DecidableEq B] (h : Stores s a) (hstep : empty s t = some s') : Stores s' a := by
  unfold Storage.empty at hstep
  cases he : s.emptying t with
  | none => simp [he] at hstep
  | counts i b =>
    simp only [he, Option.some.injEq] at hstep
    exact hstep ▸ h.counted he
  | clears k b =>
    simp only [he, Option.some.injEq] at hstep
    exact hstep ▸ h.cleared he
  | frees b =>
    simp only [he, Option.some.injEq] at hstep
    exact hstep ▸ h.freed he

end Stores

/-- What a step does to the sub-queue without its blocks. -/
def Event.toQueue : Event α T B → List (SubQueue.Event α T)
  | .enqueue item => [.enqueue item]
  | .produce seen block => [.produce seen block.isSome]
  | .dequeue t => [.dequeue t]
  | .consume t seen => [.consume t seen]
  | .empty _ | .takeOther _ | .writeOther .. | .giveOther _ => []

variable [DecidableEq B] [Fintype T] {n : Nat}

/-- **Step lemma.** -/
theorem Stores.step (h : Stores s a) (hs : Sound n a) (hn : n < 2 ^ 63) {e : Event α T B}
    (hstep : step s e = some s') :
    ∃ a', Machine.run SubQueue.step a e.toQueue = some a' ∧ Stores s' a' := by
  have hone : ∀ {e' a'}, SubQueue.step a e' = some a' →
      Machine.run SubQueue.step a [e'] = some a' := fun ha => by simp [Machine.run, ha]
  cases e with
  | enqueue item => exact (h.enqueue hstep).imp fun a' ha => ⟨hone ha.1, ha.2⟩
  | produce seen block => exact (h.produce hs hn hstep).imp fun a' ha => ⟨hone ha.1, ha.2⟩
  | dequeue t => exact (h.dequeue hstep).imp fun a' ha => ⟨hone ha.1, ha.2⟩
  | consume t seen => exact (h.consume hs hstep).imp fun a' ha => ⟨hone ha.1, ha.2⟩
  | empty t => exact ⟨a, rfl, h.empty hstep⟩
  | takeOther b =>
    simp only [Storage.step, takeOther, Option.ite_none_left_eq_some, Option.some.injEq] at hstep
    obtain ⟨huse, rfl⟩ := hstep
    have hb : s.start b = none := by
      by_contra hne
      obtain ⟨k, hk⟩ := Option.ne_none_iff_exists'.mp hne
      exact huse (h.opened b k hk).2.2
    exact ⟨a, rfl, h.other (fun _ _ => rfl) (fun _ _ => rfl)
      (fun b' hb' => Function.update_of_ne hb' ..) hb rfl rfl rfl rfl rfl rfl⟩
  | writeOther b place content count =>
    simp only [Storage.step, writeOther, Option.ite_none_right_eq_some,
      Option.some.injEq] at hstep
    obtain ⟨⟨-, hb⟩, rfl⟩ := hstep
    exact ⟨a, rfl, h.other (fun b' hb' => Function.update_of_ne hb' ..)
      (fun b' hb' => Function.update_of_ne hb' ..) (fun _ _ => rfl) hb rfl rfl rfl rfl rfl rfl⟩
  | giveOther b =>
    simp only [Storage.step, giveOther, Option.ite_none_right_eq_some, Option.some.injEq] at hstep
    obtain ⟨⟨-, hb⟩, rfl⟩ := hstep
    exact ⟨a, rfl, h.other (fun _ _ => rfl) (fun _ _ => rfl)
      (fun b' hb' => Function.update_of_ne hb' ..) hb rfl rfl rfl rfl rfl rfl⟩

omit [DecidableEq B] [Fintype T] in
theorem stores_init : Stores (init : State α T B) SubQueue.init where
  queue := rfl
  content _ _ _ _ hb := by cases hb
  entry k _ hlt := absurd hlt (Nat.not_lt_zero _)
  tail _ hlt := absurd hlt (Nat.not_lt_zero _)
  opened _ _ hb := by cases hb
  unique _ _ _ hb := by cases hb
  aligned item hp := by rcases hp with hp | hp <;> cases hp
  count _ _ hb := by cases hb
  nodup := List.nodup_nil
  taken i hi := by cases hi
  counts _ _ _ hu := by cases hu
  alone _ _ _ _ _ hu := by cases hu
  pending i hi := by cases hi
  clears _ _ _ hu := by cases hu
  finish _ _ hu := by cases hu
  last _ _ _ hu := by cases hu
  full _ _ hb := by cases hb
  resting t ht := absurd rfl ht

omit [DecidableEq T] [DecidableEq B] [Fintype T] in
theorem length_toQueue (es : List (Event α T B)) :
    (es.flatMap Event.toQueue).length ≤ es.length := by
  induction es with
  | nil => exact Nat.le_refl 0
  | cons e es ih =>
    have hone : e.toQueue.length ≤ 1 := by cases e <;> simp [Event.toQueue]
    rw [List.flatMap_cons, List.length_append, List.length_cons]
    omega

/-- **Run lemma.** -/
theorem stores_run {es : List (Event α T B)} (hlen : es.length < 2 ^ 63)
    (hr : Machine.run step init es = some s) :
    ∃ a, Machine.run SubQueue.step SubQueue.init (es.flatMap Event.toQueue) = some a ∧
      Stores s a := by
  have hrun := Machine.run_history (C := fun _ _ => True)
    (J := fun es (s : State α T B) => es.length < 2 ^ 63 →
      ∃ a, Machine.run SubQueue.step SubQueue.init (es.flatMap Event.toQueue) = some a ∧
        Stores s a)
    (fun _ => ⟨_, rfl, stores_init⟩) ?_ (Machine.along_true init es) hr
  · exact hrun hlen
  · intro es s e s' _ hJ _ he hlt
    rw [List.length_append, List.length_singleton] at hlt
    obtain ⟨a, ha, hstores⟩ := hJ (by omega)
    have hle := length_toQueue es
    have hs := SubQueue.sound_run (by omega) ha
    obtain ⟨a', ha', hstores'⟩ := hstores.step hs (by omega) he
    refine ⟨a', ?_, hstores'⟩
    rw [List.flatMap_append, List.flatMap_singleton, Machine.run_append, ha]
    exact ha'

/-- **The blocks are reused safely.** With its elements in blocks that the sub-queues pass on
to each other, the sub-queue does what it would do with a place for each index: an element that
a thread is about to move out stands in the block of its entry, which still belongs to the
sub-queue. When the threads are done, each block whose elements were all taken was given
back. -/
theorem storage_sound {es : List (Event α T B)} (hlen : es.length < 2 ^ 63)
    (hr : Machine.run step init es = some s) :
    ∃ a, Machine.run SubQueue.step SubQueue.init (es.flatMap Event.toQueue) = some a ∧
      s.queue = bare a ∧
      (∀ t index, a.consumer t = .takes index → ∃ b, s.entries (blockStart index) = some b ∧
        s.inUse b = true ∧ s.slots b (offset index) = a.enqueued[index.toNat]?) ∧
      (∀ t b, s.emptying t = .frees b → s.inUse b = true ∧ ∀ u, s.emptying u = .frees b → u = t) ∧
      (AtRest a → (∀ t, s.emptying t = .none) → ∀ b k, s.start b = some k →
        a.headIndex.toNat < k.toNat + 32) := by
  obtain ⟨a, ha, h⟩ := stores_run hlen hr
  have hle := length_toQueue es
  have hs := SubQueue.sound_run (by omega) ha
  have hhead := hs.head_le
  refine ⟨a, ha, h.queue, fun t index hp => ?_, fun t b he => ?_, fun hrest hnone b k hb => ?_⟩
  · obtain ⟨b, hentry, hb, hcontent, -⟩ := h.takes hs hp
    have hhand : a.hand t = some index := by rw [SubQueue.State.hand, hp]; rfl
    obtain ⟨hlt, hfresh⟩ := hs.holding.hand t index hhand
    exact ⟨b, hentry, (h.opened b _ hb).2.2,
      hcontent.trans (hs.holding.elements index (by omega) hfresh)⟩
  · have hfinish : (s.emptying t).finishes = some b := by rw [he]; rfl
    obtain ⟨k, hk, -⟩ := h.finish t b hfinish
    refine ⟨(h.opened b k hk).2.2, fun u hu => h.last u t b ?_ hfinish⟩
    rw [hu]
    rfl
  · by_contra hge
    obtain ⟨hstart, -, -⟩ := h.opened b k hb
    -- all its elements were taken and counted, so a thread would be giving it back
    have hfull : Full s k := by
      intro i hi
      have hplace := blockStart_toNat i
      rw [hi] at hplace
      have hmem : i.toNat ∈ a.taken.map BitVec.toNat :=
        (hs.taken_perm hrest).mem_iff.mpr (List.mem_range.mpr (by omega))
      obtain ⟨j, hj, hij⟩ := List.mem_map.mp hmem
      obtain rfl := BitVec.eq_of_toNat_eq hij
      rcases h.pending j hj with hcounted | ⟨u, b', hu⟩
      · exact hcounted
      · rw [hnone u] at hu
        cases hu
    obtain ⟨t, ht⟩ := h.full b k hb hfull
    rw [hnone t] at ht
    cases ht

end Steps

/-- The block comes from another sub-queue, with an element of it. -/
def secondHand : List (Event Nat Unit Unit) :=
  [.takeOther (), .writeOther () 0 (some 9) 5, .giveOther (), .enqueue 7, .produce 0 none,
    .produce 0 (some ()), .produce 0 none, .produce 0 none, .dequeue (), .consume () 1,
    .consume () 0, .consume () 0, .consume () 0, .consume () 1, .consume () 0]

theorem storage_sound_secondHand : ∃ s : State Nat Unit Unit,
    Machine.run step init secondHand = some s ∧ s.queue.consumer () = .takes 0 ∧
      s.slots () (offset 0) = some 7 := by
  obtain ⟨s, hs, hp, henqueued⟩ : ∃ s : State Nat Unit Unit,
      Machine.run step init secondHand = some s ∧ s.queue.consumer () = .takes 0 ∧
        s.queue.enqueued = [7] := ⟨_, rfl, rfl, rfl⟩
  obtain ⟨a, -, hqueue, htakes, -, -⟩ :=
    storage_sound (show secondHand.length < 2 ^ 63 by decide) hs
  rw [hqueue] at hp henqueued
  have hp' : a.consumer () = .takes 0 := hp
  have henqueued' : a.enqueued = [7] := henqueued
  obtain ⟨b, -, -, hslot⟩ := htakes () 0 hp'
  rw [henqueued'] at hslot
  exact ⟨s, hs, by rw [hqueue]; exact hp', hslot⟩

end BddsBroker.Moodycamel.Storage
