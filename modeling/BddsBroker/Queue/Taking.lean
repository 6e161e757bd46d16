import BddsBroker.Queue.Claims
import Mathlib.Data.List.Perm.Subperm

/-! What a caller of `dequeue` sees. However old the values are that the threads load, each
element that was published is moved out at most once, and an empty answer is right when no
other thread is in the way. -/

namespace BddsBroker.Moodycamel.SubQueue

open Tally Tickets

variable {α T : Type*} [DecidableEq T] [Fintype T]

/-- No thread is in `dequeue`. -/
def AtRest (s : State α T) : Prop := ∀ t, ∃ item, s.consumer t = .done item

namespace Sound

variable {n : Nat} {s : State α T}

omit [DecidableEq T] in
/-- At rest the indices that were taken are those below the head. -/
theorem taken_perm (hs : Sound n s) (hrest : AtRest s) :
    (s.taken.map BitVec.toNat).Perm (List.range s.headIndex.toNat) := by
  have hnone : tally (ind Option.isSome) s.hand = 0 := by
    refine tally_eq_zero.mpr fun t => ?_
    obtain ⟨item, ht⟩ := hrest t
    simp [State.hand, ht, ConsumerPc.hand, ind]
  have hlength : (s.taken.map BitVec.toNat).length = s.headIndex.toNat := by
    have hhead := hs.holding.head_eq
    simp only [State.taken, List.length_map]
    omega
  have hnodup : (s.taken.map BitVec.toNat).Nodup :=
    hs.holding.nodup.map fun _ _ h => BitVec.eq_of_toNat_eq h
  have hsub : s.taken.map BitVec.toNat ⊆ List.range s.headIndex.toNat := by
    intro i hi
    obtain ⟨index, hindex, rfl⟩ := List.mem_map.mp hi
    obtain ⟨p, hp, rfl⟩ := List.mem_map.mp hindex
    exact List.mem_range.mpr (hs.holding.items p hp).1
  exact (List.subperm_of_subset hnodup hsub).perm_of_length_le (by rw [hlength, List.length_range])

omit [DecidableEq T] in
/-- At rest the test at the start of `dequeue` tells whether there is an element. -/
theorem rest_test (hs : Sound n s) (hn : n < 2 ^ 63) (hrest : AtRest s) :
    circularLessThan (s.dequeueOptimisticCount - s.dequeueOvercommit) s.tailIndex = true ↔
      s.headIndex.toNat < s.tailIndex.toNat := by
  have hbound := hs.drawing.tail_le
  have hcount_le := hs.drawing.count_le
  have hle := hs.head_le
  have hnoTicket : tally (ind fun x : Share => x.ticket.isSome) s.share = 0 := by
    refine tally_eq_zero.mpr fun u => ?_
    obtain ⟨item, hu⟩ := hrest u
    simp [State.share, hu, ConsumerPc.share, Share.ticket, ind]
  have hnoClaim : tally (ind ConsumerPc.isClaiming) s.consumer = 0 := by
    refine tally_eq_zero.mpr fun u => ?_
    obtain ⟨item, hu⟩ := hrest u
    simp [hu, ConsumerPc.isClaiming, ind]
  have hcount := hs.drawing.count_eq
  have hwon := hs.won_eq
  have hover := hs.drawing.overcommit_eq
  have hsub : (s.dequeueOptimisticCount - s.dequeueOvercommit).toNat = s.headIndex.toNat := by
    rw [toNat_sub_of_le (by omega)]
    omega
  rw [circularLessThan_iff (by omega) (by omega), hsub]

end Sound

/-- **Each element once.** Whatever the threads do and however old the values are that they
load, a thread moves out only elements that were published, and none twice; and when no
thread is in `dequeue`, the elements below the head have all been moved out. -/
theorem elements_taken_once {es : List (Event α T)} {s : State α T} (hlen : es.length < 2 ^ 63)
    (hr : Machine.run step init es = some s) :
    s.headIndex.toNat ≤ s.enqueued.length ∧
      (∀ t index, s.consumer t = .takes index →
        ∃ item, s.elements index = some item ∧ s.enqueued[index.toNat]? = some item) ∧
      (∀ p ∈ s.dequeued, ∃ item, p.2 = some item ∧ s.enqueued[p.1.toNat]? = some item) ∧
      s.taken.Nodup ∧
      (AtRest s → (s.dequeued.map Prod.snd).Perm
        ((s.enqueued.take s.headIndex.toNat).map some)) := by
  have hs := sound_run hlen hr
  have hle := hs.head_le
  have htail := hs.holding.tail_eq
  have hpublished : ∀ i : Index, i.toNat < s.headIndex.toNat →
      ∃ item, s.enqueued[i.toNat]? = some item :=
    fun i hi => ⟨_, List.getElem?_eq_getElem (by omega)⟩
  refine ⟨by omega, ?_, ?_, hs.holding.nodup, ?_⟩
  · intro t index ht
    obtain ⟨hlt, hfresh⟩ := hs.holding.hand t index (by rw [State.hand, ht, ConsumerPc.hand])
    obtain ⟨item, hitem⟩ := hpublished index hlt
    exact ⟨item, (hs.holding.elements index (by omega) hfresh).trans hitem, hitem⟩
  · intro p hp
    obtain ⟨hlt, heq⟩ := hs.holding.items p hp
    obtain ⟨item, hitem⟩ := hpublished p.1 hlt
    exact ⟨item, heq.trans hitem, hitem⟩
  · intro hrest
    have hitems : s.dequeued.map Prod.snd =
        (s.taken.map BitVec.toNat).map fun i => s.enqueued[i]? := by
      rw [State.taken, List.map_map, List.map_map]
      exact List.map_congr_left fun p hp => (hs.holding.items p hp).2
    have hrange : (List.range s.headIndex.toNat).map (fun i => s.enqueued[i]?) =
        (s.enqueued.take s.headIndex.toNat).map some := by
      apply List.ext_getElem
      · simp only [List.length_map, List.length_range, List.length_take]
        omega
      · intro i hi _
        have hi' : i < s.enqueued.length := by
          simp only [List.length_map, List.length_range] at hi
          omega
        simp [List.getElem?_eq_getElem hi']
    rw [hitems, ← hrange]
    exact (hs.taken_perm hrest).map _

/-- Two threads take one element, and one of them overcommits; then a second element is added. -/
def contended : List (Event Nat Bool) :=
  [.enqueue 7, .produce 0 true, .produce 0 true, .produce 0 true, .produce 0 true,
    .dequeue false, .dequeue true, .consume false 1, .consume true 1, .consume false 0,
    .consume true 0, .consume false 0, .consume true 0, .consume false 0, .consume true 0,
    .consume true 1, .consume false 1, .consume false 0, .consume false 0, .consume true 0,
    .enqueue 8, .produce 0 true, .produce 0 true]

theorem elements_taken_once_contended : ∃ s, Machine.run step init contended = some s ∧
    s.headIndex = 1 ∧ s.failed = {1} ∧ s.dequeued.map Prod.snd = [some 7] ∧ s.taken.Nodup :=
  ⟨_, rfl, rfl, rfl, rfl,
    (elements_taken_once (show contended.length < 2 ^ 63 by decide) rfl).2.2.2.1⟩

/-! ## A thread alone -/

omit [Fintype T] in
@[simp] theorem goto_consumer (s : State α T) (t : T) (pc : ConsumerPc α) :
    (s.goto t pc).consumer t = pc := by
  simp [State.goto]

omit [Fintype T] in
theorem goto_goto (s : State α T) (t : T) (p q : ConsumerPc α) :
    (s.goto t p).goto t q = s.goto t q := by
  simp only [State.goto, Function.update_idem]

/-- What the load that the thread stands at returns when it is not old. -/
def latest (s : State α T) (t : T) : Index :=
  match s.consumer t with
  | .loadsTail | .reloads .. => s.tailIndex
  | .loadsOvercommit _ => s.dequeueOvercommit
  | .tests .. => s.dequeueOptimisticCount
  | .done _ | .counts _ | .claims | .takes _ | .overcommits _ => 0

/-- The thread's next statement, with the latest values. -/
def Alone (t : T) (s s' : State α T) : Prop := consume s t (latest s t) = some s'

section Call

variable (s : State α T) (t : T)

omit [Fintype T]

/-- A call up to its first test. -/
theorem alone_loads : Relation.ReflTransGen (Alone t) (s.goto t .loadsTail)
    (s.goto t (.tests s.tailIndex s.dequeueOvercommit)) := by
  have hfirst : Alone t (s.goto t .loadsTail) (s.goto t (.loadsOvercommit s.tailIndex)) := by
    simp only [Alone, consume, latest, goto_consumer, goto_goto]
    simp [State.goto]
  have hsecond : Alone t (s.goto t (.loadsOvercommit s.tailIndex))
      (s.goto t (.tests s.tailIndex s.dequeueOvercommit)) := by
    simp only [Alone, consume, latest, goto_consumer, goto_goto]
    simp [State.goto]
  exact (Relation.ReflTransGen.single hfirst).tail hsecond

/-- A call whose first test fails. -/
theorem alone_leave {tail overcommit : Index}
    (hless : circularLessThan (s.dequeueOptimisticCount - overcommit) tail = false) :
    Alone t (s.goto t (.tests tail overcommit)) (s.goto t (.done none)) := by
  simp only [Alone, consume, latest, goto_consumer, goto_goto]
  simp [State.goto, hless]

/-- A call whose tests hold, up to the move. -/
theorem alone_take {tail overcommit : Index}
    (hfirst : circularLessThan (s.dequeueOptimisticCount - overcommit) tail = true)
    (hsecond : circularLessThan (s.dequeueOptimisticCount - overcommit) s.tailIndex = true) :
    ∃ s', Relation.ReflTransGen (Alone t) (s.goto t (.tests tail overcommit)) s' ∧
      s'.consumer t = .done (s.elements s.headIndex) ∧ s'.enqueued = s.enqueued ∧
      s'.headIndex = s.headIndex + 1 := by
  let counted : State α T := { s with dequeueOptimisticCount := s.dequeueOptimisticCount + 1 }
  let won : State α T :=
    { counted with succeeded := insert s.dequeueOptimisticCount.toNat s.succeeded }
  let claimed : State α T := { won with headIndex := s.headIndex + 1 }
  let moved : State α T :=
    { claimed with
      elements := Function.update s.elements s.headIndex none
      dequeued := s.dequeued ++ [(s.headIndex, s.elements s.headIndex)] }
  have htests : Alone t (s.goto t (.tests tail overcommit)) (s.goto t (.counts overcommit)) := by
    simp only [Alone, consume, latest, goto_consumer, goto_goto]
    simp [State.goto, hfirst]
  have hcounts : Alone t (s.goto t (.counts overcommit))
      (counted.goto t (.reloads overcommit s.dequeueOptimisticCount)) := by
    simp only [Alone, consume, goto_consumer]
    simp [State.goto, counted]
  have hreloads : Alone t (counted.goto t (.reloads overcommit s.dequeueOptimisticCount))
      (won.goto t .claims) := by
    simp only [Alone, consume, latest, goto_consumer]
    simp [State.goto, counted, won, hsecond]
  have hclaims : Alone t (won.goto t .claims) (claimed.goto t (.takes s.headIndex)) := by
    simp only [Alone, consume, goto_consumer]
    simp [State.goto, counted, won, claimed]
  have htakes : Alone t (claimed.goto t (.takes s.headIndex))
      (moved.goto t (.done (s.elements s.headIndex))) := by
    simp only [Alone, consume, goto_consumer]
    simp [State.goto, counted, won, claimed, moved]
  have hrun := Relation.ReflTransGen.single htests |>.tail hcounts |>.tail hreloads
    |>.tail hclaims |>.tail htakes
  exact ⟨_, hrun, goto_consumer _ _ _, rfl, rfl⟩

end Call

omit [Fintype T] in
theorem alone_rightUnique (t : T) : Relator.RightUnique (Alone (α := α) t) :=
  fun _ _ _ h h' => Option.some.inj (Eq.trans (Eq.symm h) h')

/-- A call from a state in which nobody is in `dequeue`. -/
theorem call_alone {n : Nat} {s : State α T} (hs : Sound n s) (hn : n < 2 ^ 63)
    (hrest : AtRest s) (t : T) :
    ∃ m s', dequeue s t = some m ∧ Relation.ReflTransGen (Alone t) m s' ∧
      s'.consumer t = .done (s.enqueued[s.headIndex.toNat]?) ∧ s'.enqueued = s.enqueued ∧
      s'.headIndex.toNat = min (s.headIndex.toNat + 1) s.enqueued.length := by
  obtain ⟨item, ht⟩ := hrest t
  have hcall : dequeue s t = some (s.goto t .loadsTail) := by rw [dequeue, ht]
  have hle := hs.head_le
  have hbound := hs.drawing.tail_le
  have hcount_le := hs.drawing.count_le
  have hlength := hs.holding.tail_eq
  have hloads := alone_loads s t
  have htest := hs.rest_test hn hrest
  by_cases hempty : s.headIndex.toNat < s.tailIndex.toNat
  · have hless := htest.mpr hempty
    obtain ⟨s', hrun, hdone, henqueued, hhead⟩ := alone_take s t hless hless
    have hfresh : s.headIndex ∉ s.taken := by
      intro hmem
      obtain ⟨p, hp, heq⟩ := List.mem_map.mp hmem
      have hlt := (hs.holding.items p hp).1
      rw [heq] at hlt
      omega
    have helement := hs.holding.elements s.headIndex hempty hfresh
    refine ⟨_, s', hcall, hloads.trans hrun, ?_, henqueued, ?_⟩
    · rw [hdone, helement]
    · rw [hhead, toNat_succ (by omega)]
      omega
  · have hless : circularLessThan (s.dequeueOptimisticCount - s.dequeueOvercommit) s.tailIndex =
        false := by
      rw [Bool.eq_false_iff]
      exact fun h => hempty (htest.mp h)
    refine ⟨_, _, hcall, hloads.tail (alone_leave s t hless), ?_, rfl, ?_⟩
    · rw [goto_consumer, List.getElem?_eq_none (by omega)]
    · simp only [State.goto]
      omega

/-- **An empty answer is right.** When no other thread is in `dequeue` and the loads give the
latest values, a call always gives the oldest element that was not taken, and nothing only if
there is none: the overcommits of the past do not hide elements. -/
theorem dequeue_alone {es : List (Event α T)} {s : State α T} (hlen : es.length < 2 ^ 63)
    (hr : Machine.run step init es = some s) (hrest : AtRest s) (t : T) :
    ∃ m s', dequeue s t = some m ∧ Machine.EndsIn (Alone t) m s' ∧
      s'.consumer t = .done (s.enqueued[s.headIndex.toNat]?) ∧ s'.enqueued = s.enqueued ∧
      s'.headIndex.toNat = min (s.headIndex.toNat + 1) s.enqueued.length := by
  obtain ⟨m, s', hcall, hrun, hdone, henqueued, hhead⟩ :=
    call_alone (sound_run hlen hr) hlen hrest t
  refine ⟨m, s', hcall, .of_run (alone_rightUnique t) hrun fun m' hm' => ?_, hdone, henqueued,
    hhead⟩
  simp [Alone, consume, hdone] at hm'

theorem dequeue_alone_contended : ∃ s m s', Machine.run step init contended = some s ∧
    dequeue s true = some m ∧ Machine.EndsIn (Alone true) m s' ∧
      s'.consumer true = .done (some 8) := by
  have hrest : ∀ s, Machine.run step init contended = some s → AtRest s := by
    rintro s ⟨⟩ (_ | _)
    · exact ⟨_, rfl⟩
    · exact ⟨_, rfl⟩
  obtain ⟨s, hs, hnext⟩ : ∃ s, Machine.run step init contended = some s ∧
      s.enqueued[s.headIndex.toNat]? = some 8 := ⟨_, rfl, rfl⟩
  obtain ⟨m, s', hcall, hrun, hdone, -⟩ :=
    dequeue_alone (show contended.length < 2 ^ 63 by decide) hs (hrest s hs) true
  exact ⟨s, m, s', hs, hcall, hrun, hdone.trans (by rw [hnext])⟩

end BddsBroker.Moodycamel.SubQueue
