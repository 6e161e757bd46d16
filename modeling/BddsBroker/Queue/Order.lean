import BddsBroker.Lib.Fifos
import BddsBroker.Queue.Handoff

/-! The order of the items. The queue behaves like one list for each producer from which any
consumer may pop: an item is pushed when its producer stores the tail, and popped when a
consumer moves the head, which may be long before it has the item. -/

namespace BddsBroker.Moodycamel.BlockingQueue

open SubQueue (ConsumerPc Sound)

variable {α P T : Type*} [DecidableEq P] [DecidableEq T]

/-! ## What the queue stands for -/

/-- The item that the consumer has claimed and not yet moved out of the sub-queue. -/
def State.hand (s : State α P T) (t : T) (p : P) : List α :=
  match (s.sub p).consumer t with
  | .takes index => (s.sub p).enqueued[index.toNat]?.toList
  | _ => []

/-- What the consumer has received from the producer. -/
def State.receivedFrom (s : State α P T) (t : T) (p : P) : List α :=
  ((s.received t).filter fun x => x.1 = p).map Prod.snd

/-- The state `s` stands for the lists in `a`. -/
structure Refines (s : State α P T) (a : Fifos.State P T α) : Prop where
  pushed : ∀ p, a.pushed p = (s.sub p).enqueued
  popped : ∀ p, (a.popped p).length = (s.sub p).headIndex.toNat
  got : ∀ t p, a.got t p = s.receivedFrom t p ++ s.hand t p

/-- A step that neither publishes nor claims nor moves out an item. -/
structure Same (s s' : State α P T) : Prop where
  enqueued : ∀ p, (s'.sub p).enqueued = (s.sub p).enqueued
  headIndex : ∀ p, (s'.sub p).headIndex = (s.sub p).headIndex
  received : s'.received = s.received
  hand : ∀ t p, s'.hand t p = s.hand t p

theorem Refines.stay {s s' : State α P T} {a : Fifos.State P T α} (h : Refines s a)
    (hsame : Same s s') : Refines s' a where
  pushed := fun p => (h.pushed p).trans (hsame.enqueued p).symm
  popped := fun p => by rw [h.popped p, hsame.headIndex p]
  got := fun t p => by
    rw [h.got t p, hsame.hand t p, State.receivedFrom, State.receivedFrom, hsame.received]

omit [DecidableEq P] [DecidableEq T] in
theorem Same.trans {s m s' : State α P T} (h : Same s m) (h' : Same m s') : Same s s' where
  enqueued := fun p => (h'.enqueued p).trans (h.enqueued p)
  headIndex := fun p => (h'.headIndex p).trans (h.headIndex p)
  received := h'.received.trans h.received
  hand := fun t p => (h'.hand t p).trans (h.hand t p)

omit [DecidableEq P] [DecidableEq T] in
theorem same_of_sub {s s' : State α P T} (hsub : s'.sub = s.sub)
    (hreceived : s'.received = s.received) : Same s s' where
  enqueued := fun _ => by rw [hsub]
  headIndex := fun _ => by rw [hsub]
  received := hreceived
  hand := fun _ _ => by simp only [State.hand, hsub]

omit [DecidableEq T] in
/-- A change of one sub-queue. -/
theorem same_setSub {s : State α P T} {p : P} {q : SubQueue.State α T}
    (henqueued : q.enqueued = (s.sub p).enqueued) (hhead : q.headIndex = (s.sub p).headIndex)
    (hhand : ∀ t, (s.setSub p q).hand t p = s.hand t p) : Same s (s.setSub p q) where
  enqueued := fun r => by
    rcases eq_or_ne r p with rfl | hr
    · rw [setSub_sub, henqueued]
    · rw [setSub_sub_of_ne s hr]
  headIndex := fun r => by
    rcases eq_or_ne r p with rfl | hr
    · rw [setSub_sub, hhead]
    · rw [setSub_sub_of_ne s hr]
  received := rfl
  hand := fun t r => by
    rcases eq_or_ne r p with rfl | hr
    · exact hhand t
    · simp only [State.hand, setSub_sub_of_ne s hr]

theorem Searches.same {s s' : State α P T} {t : T} (h : Searches s t s') : Same s s' := by
  cases h with
  | goto _ => exact same_of_sub rfl rfl
  | @call p q phase hq _ =>
    have hnext := SubQueue.dequeue_spec hq
    refine (same_setSub (s := s) (p := p) (q := q) (by rw [hnext]; rfl) (by rw [hnext]; rfl)
      fun u => ?_).trans (same_of_sub rfl rfl)
    simp only [State.hand, setSub_sub, hnext]
    rcases eq_or_ne u t with rfl | hu
    · rw [SubQueue.goto_consumer]
      unfold SubQueue.dequeue at hq
      split at hq
      · rename_i item hdone
        rw [hdone]
      · cases hq
    · simp only [SubQueue.State.goto, Function.update_of_ne hu]

/-! ## The steps that count -/

section Steps

variable [Fintype T] {n : Nat} {s s' : State α P T} {a : Fifos.State P T α} {t : T} {p : P}
  {q : SubQueue.State α T}

omit [DecidableEq P] [DecidableEq T] in
/-- What a consumer holds was published. -/
theorem hand_eq (hs : Sound n (s.sub p)) {index : Index}
    (ht : (s.sub p).consumer t = .takes index) :
    ∃ item, (s.sub p).elements index = some item ∧ s.hand t p = [item] ∧
      index.toNat < (s.sub p).enqueued.length := by
  obtain ⟨hlt, hfresh⟩ := hs.holding.hand t index (by
    rw [SubQueue.State.hand, ht, SubQueue.ConsumerPc.hand])
  have hle := hs.head_le
  have htail := hs.holding.tail_eq
  have hlen : index.toNat < (s.sub p).enqueued.length := by omega
  have helement := hs.holding.elements index (by omega) hfresh
  rw [List.getElem?_eq_getElem hlen] at helement
  refine ⟨_, helement, ?_, hlen⟩
  simp [State.hand, ht, List.getElem?_eq_getElem hlen]

/-- The owner publishes: a push. -/
theorem Refines.publish (h : Refines s a) (hs : Sound n (s.sub p)) {item : α}
    (henqueued : q.enqueued = (s.sub p).enqueued ++ [item])
    (hhead : q.headIndex = (s.sub p).headIndex) (hconsumer : q.consumer = (s.sub p).consumer) :
    ∃ a', Fifos.Step a a' ∧ Refines (s.setSub p q) a' := by
  refine ⟨_, .push p item, fun r => ?_, fun r => ?_, fun u r => ?_⟩
  · rcases eq_or_ne r p with rfl | hr
    · simp only [Function.update_self, setSub_sub, henqueued, h.pushed r]
    · simp only [Function.update_of_ne hr, setSub_sub_of_ne s hr, h.pushed r]
  · rcases eq_or_ne r p with rfl | hr
    · rw [setSub_sub, hhead, ← h.popped r]
    · rw [setSub_sub_of_ne s hr, ← h.popped r]
  · have hhand : (s.setSub p q).hand u r = s.hand u r := by
      rcases eq_or_ne r p with rfl | hr
      · unfold State.hand
        rw [setSub_sub, hconsumer, henqueued]
        split
        · rename_i index hu
          rw [List.getElem?_append_left (hand_eq hs hu).choose_spec.2.2]
        · rfl
      · simp only [State.hand, setSub_sub_of_ne s hr]
    rw [hhand]
    exact h.got u r

/-- A consumer moves the head: a pop. -/
theorem Refines.claim (h : Refines s a) (hs : Sound n (s.sub p)) (hn : n < 2 ^ 63)
    (ht : (s.sub p).consumer t = .claims)
    (hq : q = ({ s.sub p with headIndex := (s.sub p).headIndex + 1 } :
      SubQueue.State α T).goto t (.takes (s.sub p).headIndex)) :
    ∃ a', Fifos.Step a a' ∧ Refines (s.setSub p q) a' := by
  have hlt := hs.head_lt ht
  have htail := hs.holding.tail_eq
  have hbound := hs.drawing.tail_le
  have hlen : (s.sub p).headIndex.toNat < (s.sub p).enqueued.length := by omega
  have hitem := List.getElem?_eq_getElem hlen
  generalize (s.sub p).enqueued[(s.sub p).headIndex.toNat] = item at hitem
  refine ⟨_, .pop p t (a := item) (by rw [h.pushed p, h.popped p, hitem]), fun r => ?_, fun r => ?_,
    fun u r => ?_⟩
  · rcases eq_or_ne r p with rfl | hr
    · rw [setSub_sub, hq]
      exact h.pushed r
    · rw [setSub_sub_of_ne s hr]
      exact h.pushed r
  · rcases eq_or_ne r p with rfl | hr
    · have hsucc : ((s.sub r).headIndex + 1).toNat = (s.sub r).headIndex.toNat + 1 :=
        SubQueue.toNat_succ (by omega)
      simp only [Function.update_self, setSub_sub, hq, List.length_append, List.length_singleton,
        SubQueue.State.goto, hsucc, h.popped r]
    · simp only [Function.update_of_ne hr, setSub_sub_of_ne s hr, h.popped r]
  · have hold := h.got u r
    unfold Fifos.State.got at hold ⊢
    rcases eq_or_ne r p with rfl | hr
    · rcases eq_or_ne u t with rfl | hu
      · have hbefore : s.hand u r = [] := by simp [State.hand, ht]
        have hafter : (s.setSub r q).hand u r = [item] := by
          simp [State.hand, hq, SubQueue.State.goto, hitem]
        simp only [Function.update_self, List.filter_append, List.map_append, hold, hbefore, hafter]
        simp [State.receivedFrom, State.setSub]
      · have hafter : (s.setSub r q).hand u r = s.hand u r := by
          simp [State.hand, hq, SubQueue.State.goto, Function.update_of_ne hu]
        simp only [Function.update_self, List.filter_append, List.map_append, hold, hafter]
        simp [State.receivedFrom, State.setSub, Ne.symm hu]
    · have hafter : (s.setSub p q).hand u r = s.hand u r := by
        simp only [State.hand, setSub_sub_of_ne s hr]
      simp only [Function.update_of_ne hr, hafter]
      exact hold

/-- A consumer moves an item out: it has it now. -/
theorem Refines.take (h : Refines s a) (hs : Sound n (s.sub p)) {index : Index}
    (ht : (s.sub p).consumer t = .takes index)
    (hq : q = ({ s.sub p with
      elements := Function.update (s.sub p).elements index none
      dequeued := (s.sub p).dequeued ++ [(index, (s.sub p).elements index)] } :
        SubQueue.State α T).goto t (.done ((s.sub p).elements index)))
    {failed : State α P T → Option (State α P T)}
    (hsettle : settle (s.setSub p q) t p failed = some s') : Refines s' a := by
  obtain ⟨item, helement, hhand, -⟩ := hand_eq hs ht
  rw [helement] at hq
  have hdone : ((s.setSub p q).sub p).consumer t = .done (some item) := by
    rw [setSub_sub, hq, SubQueue.goto_consumer]
  rw [settle_item failed hdone] at hsettle
  obtain rfl := Option.some.inj hsettle
  have hconsumer : q.consumer t = .done (some item) := by rw [hq, SubQueue.goto_consumer]
  have hothers : ∀ u, u ≠ t → q.consumer u = (s.sub p).consumer u := by
    intro u hu
    rw [hq, SubQueue.State.goto]
    exact Function.update_of_ne hu _ _
  have henqueued : q.enqueued = (s.sub p).enqueued := by rw [hq]; rfl
  have hhead : q.headIndex = (s.sub p).headIndex := by rw [hq]; rfl
  refine ⟨fun r => ?_, fun r => ?_, fun u r => ?_⟩
  · rw [h.pushed r]
    rcases eq_or_ne r p with rfl | hr
    · simp [State.goto, henqueued]
    · simp [State.goto, setSub_sub_of_ne s hr]
  · rw [h.popped r]
    rcases eq_or_ne r p with rfl | hr
    · simp [State.goto, hhead]
    · simp [State.goto, setSub_sub_of_ne s hr]
  · rw [h.got u r]
    rcases eq_or_ne u t with rfl | hu
    · rcases eq_or_ne r p with rfl | hr
      · rw [hhand]
        simp [State.receivedFrom, State.hand, State.goto, hconsumer]
      · simp [State.receivedFrom, State.hand, State.goto, setSub_sub_of_ne s hr, Ne.symm hr]
    · rcases eq_or_ne r p with rfl | hr
      · simp [State.receivedFrom, State.hand, State.goto, hu, hothers u hu, henqueued]
      · simp [State.receivedFrom, State.hand, State.goto, setSub_sub_of_ne s hr, hu]

omit [Fintype T] in
theorem settle_same {failed : State α P T → Option (State α P T)}
    (hnot : ∀ item, (s.sub p).consumer t ≠ .done (some item))
    (hfailed : ∀ s', failed s = some s' → Searches s t s')
    (h : settle s t p failed = some s') : Same s s' := by
  unfold settle at h
  split at h
  · rename_i hi
    exact absurd hi (hnot _)
  · exact (hfailed s' h).same
  · obtain rfl := Option.some.inj h
    exact same_of_sub rfl rfl

omit [Fintype T] in
/-- A statement that neither moves the head nor moves an item out. -/
theorem consume_same {seen : Index} (hq : SubQueue.consume (s.sub p) t seen = some q)
    (hclaims : (s.sub p).consumer t ≠ .claims) (htakes : ∀ i, (s.sub p).consumer t ≠ .takes i) :
    Same s (s.setSub p q) ∧ ∀ item, q.consumer t ≠ .done (some item) := by
  have howner := SubQueue.consume_owner hq
  have hothers := fun {u} => SubQueue.consume_others hq (u := u)
  have hmine : q.headIndex = (s.sub p).headIndex ∧ (∀ i, q.consumer t ≠ .takes i) ∧
      ∀ item, q.consumer t ≠ .done (some item) := by
    obtain ⟨m, pc, hstatement, rfl⟩ := SubQueue.consume_statement hq
    rw [SubQueue.goto_consumer]
    generalize (s.sub p).consumer t = before at hstatement hclaims htakes
    cases hstatement with
    | claim => exact absurd rfl hclaims
    | take => exact absurd rfl (htakes _)
    | _ => exact ⟨rfl, nofun, nofun⟩
  refine ⟨same_setSub howner.enqueued hmine.1 fun u => ?_, hmine.2.2⟩
  rcases eq_or_ne u t with rfl | hu
  · have hbefore : s.hand u p = [] := by
      unfold State.hand
      split
      · rename_i i hi
        exact absurd hi (htakes i)
      · rfl
    unfold State.hand at hbefore ⊢
    rw [hbefore, setSub_sub]
    split
    · rename_i i hi
      exact absurd hi (hmine.2.1 i)
    · rfl
  · simp only [State.hand, setSub_sub, hothers hu, howner.enqueued]

/-- A consumer's statement in a sub-queue, with what follows it. -/
theorem Refines.statement (h : Refines s a) (hs : Sound n (s.sub p)) (hn : n < 2 ^ 63)
    {seen : Index} (hq : SubQueue.consume (s.sub p) t seen = some q)
    {failed : State α P T → Option (State α P T)}
    (hfailed : ∀ m s', failed m = some s' → Searches m t s')
    (hsettle : settle (s.setSub p q) t p failed = some s') :
    ∃ a', Relation.ReflTransGen Fifos.Step a a' ∧ Refines s' a' := by
  by_cases hclaims : (s.sub p).consumer t = .claims
  · simp only [SubQueue.consume, hclaims, Option.some.injEq] at hq
    obtain ⟨a', hstep, hrefines⟩ := h.claim hs hn hclaims hq.symm
    have hinside : ∀ item, ((s.setSub p q).sub p).consumer t ≠ .done (some item) := by
      rw [setSub_sub, ← hq, SubQueue.goto_consumer]
      intro item h
      cases h
    exact ⟨a', .single hstep, hrefines.stay (settle_same hinside (hfailed _) hsettle)⟩
  · by_cases htakes : ∃ i, (s.sub p).consumer t = .takes i
    · obtain ⟨i, hi⟩ := htakes
      simp only [SubQueue.consume, hi, Option.some.injEq] at hq
      exact ⟨a, .refl, h.take hs hi hq.symm hsettle⟩
    · obtain ⟨hsame, hnot⟩ := consume_same hq hclaims fun i hi => htakes ⟨i, hi⟩
      rw [← setSub_sub s p q] at hnot
      exact ⟨a, .refl, h.stay (hsame.trans (settle_same hnot (hfailed _) hsettle))⟩

variable [Fintype P]

/-- **Step lemma.** -/
theorem Refines.step (h : Refines s a) (hs : Promised n s) (hn : n < 2 ^ 63) {maxSpins : Nat}
    {e : Event α P T} (he : step maxSpins s e = some s') :
    ∃ a', Relation.ReflTransGen Fifos.Step a a' ∧ Refines s' a' := by
  cases e with
  | register p =>
    simp only [BlockingQueue.step, register, Option.ite_none_left_eq_some, Option.some.injEq] at he
    obtain ⟨-, rfl⟩ := he
    exact ⟨a, .refl, h.stay (same_of_sub rfl rfl)⟩
  | enqueue p item =>
    simp only [BlockingQueue.step, enqueue, Option.ite_none_right_eq_some] at he
    obtain ⟨-, he⟩ := he
    obtain ⟨q, hq, rfl⟩ := Option.map_eq_some_iff.mp he
    obtain ⟨pc, rfl⟩ := SubQueue.enqueue_spec hq
    exact ⟨a, .refl, h.stay (same_setSub rfl rfl fun t => by simp [State.hand])⟩
  | produce p seen allocated =>
    obtain ⟨q, hq, he⟩ := Option.bind_eq_some_iff.mp he
    split at he
    · rename_i item hitem
      obtain ⟨sema, -, rfl⟩ := Option.map_eq_some_iff.mp he
      have hnext := SubQueue.produce_publishes hitem hq
      obtain ⟨a', hstep, hrefines⟩ := h.publish (q := q) (hs.sound p) (by rw [hnext])
        (by rw [hnext]) (by rw [hnext])
      exact ⟨a', .single hstep, hrefines.stay (same_of_sub rfl rfl)⟩
    · rename_i hnot
      obtain rfl := Option.some.inj he
      obtain ⟨pc, elements, rfl⟩ := SubQueue.produce_spec hnot hq
      exact ⟨a, .refl, h.stay (same_setSub rfl rfl fun t => by simp [State.hand])⟩
  | signal p seen ok =>
    obtain ⟨sema, -, rfl⟩ := Option.map_eq_some_iff.mp he
    exact ⟨a, .refl, h.stay (same_of_sub rfl rfl)⟩
  | waitDequeue t =>
    simp only [BlockingQueue.step, waitDequeue] at he
    split at he
    · obtain ⟨sema, -, rfl⟩ := Option.map_eq_some_iff.mp he
      exact ⟨a, .refl, h.stay (same_of_sub rfl rfl)⟩
    · cases he
  | wait t seen ok =>
    obtain ⟨sema, -, rfl⟩ := Option.map_eq_some_iff.mp he
    exact ⟨a, .refl, h.stay (same_of_sub rfl rfl)⟩
  | waited t =>
    simp only [BlockingQueue.step, waited] at he
    split at he
    · obtain rfl := Option.some.inj he
      exact ⟨a, .refl, h.stay (same_of_sub rfl rfl)⟩
    · obtain ⟨sema, -, rfl⟩ := Option.map_eq_some_iff.mp he
      exact ⟨a, .refl, h.stay (same_of_sub rfl rfl)⟩
    · cases he
  | list t missed =>
    simp only [BlockingQueue.step, list] at he
    split at he
    · exact ⟨a, .refl, h.stay (score_searches he).same⟩
    · exact ⟨a, .refl, h.stay (walk_searches he).same⟩
    · cases he
  | size t tail head =>
    simp only [BlockingQueue.step, size] at he
    split at he
    · split at he
      · exact ⟨a, .refl, h.stay (score_searches he).same⟩
      · cases he
    · cases he
  | consume t seen =>
    simp only [BlockingQueue.step, consume] at he
    split at he
    · rename_i best hphase
      obtain ⟨q, hq, he⟩ := Option.bind_eq_some_iff.mp he
      refine h.statement (hs.sound best) hn hq (fun m s' hm => ?_) he
      obtain rfl := Option.some.inj hm
      exact .goto rfl
    · rename_i best p rest hphase
      obtain ⟨q, hq, he⟩ := Option.bind_eq_some_iff.mp he
      exact h.statement (hs.sound p) hn hq (fun m s' hm => walk_searches hm) he
    · cases he

end Steps

/-! ## Runs -/

section Runs

variable [Fintype P] [Fintype T] {maxSpins : Nat} {es : List (Event α P T)} {s : State α P T}

omit [Fintype P] [Fintype T] in
theorem refines_init : Refines (init : State α P T) Fifos.start :=
  ⟨fun _ => rfl, fun _ => rfl, fun _ _ => rfl⟩

/-- **Run lemma.** -/
theorem refines_run (hlen : es.length < 2 ^ 63)
    (hr : Machine.run (step maxSpins) init es = some s) :
    ∃ a, Relation.ReflTransGen Fifos.Step Fifos.start a ∧ Refines s a := by
  have hrun := Machine.run_history (C := fun _ _ => True)
    (J := fun es (s : State α P T) => es.length < 2 ^ 63 →
      ∃ a, Relation.ReflTransGen Fifos.Step Fifos.start a ∧ Refines s a)
    (fun _ => ⟨_, .refl, refines_init⟩) ?_ (Machine.along_true init es) hr
  · exact hrun hlen
  · intro es s e s' hes hJ _ he hlt
    rw [List.length_append, List.length_singleton] at hlt
    obtain ⟨a, ha, hrefines⟩ := hJ (by omega)
    obtain ⟨a', ha', hrefines'⟩ :=
      hrefines.step (promised_run (by omega) hes) (by omega) he
    exact ⟨a', ha.trans ha', hrefines'⟩

/-- **Each producer's items arrive in order.** The queue stands for one list for each producer,
and what a consumer has received of a producer's items are some of them, in order; if it is the
only consumer, they are the first ones. -/
theorem received_in_order (hlen : es.length < 2 ^ 63)
    (hr : Machine.run (step maxSpins) init es = some s) :
    (∃ a, Relation.ReflTransGen Fifos.Step Fifos.start a ∧ Refines s a) ∧
      ∀ t p, (s.receivedFrom t p).Sublist (s.sub p).enqueued ∧
        (Subsingleton T → s.receivedFrom t p <+: (s.sub p).enqueued) := by
  obtain ⟨a, ha, hrefines⟩ := refines_run hlen hr
  refine ⟨⟨a, ha, hrefines⟩, fun t p => ⟨?_, fun _ => ?_⟩⟩
  · have hsublist := Fifos.got_sublist ha t p
    rw [hrefines.got t p, hrefines.pushed p] at hsublist
    exact (List.sublist_append_left _ _).trans hsublist
  · have hprefix := Fifos.got_initial ha t p
    rw [hrefines.got t p, hrefines.pushed p] at hprefix
    exact (List.prefix_append _ _).trans hprefix

end Runs

/-- The consumer takes the first of two items. -/
def firstTaken : List (Event Nat Unit Unit) :=
  awakened ++ [.waited (), .list () 0, .size () 1 0, .consume () 1, .enqueue () 8,
    .produce () 0 true, .produce () 0 true, .consume () 0, .consume () 0, .consume () 0,
    .consume () 2, .consume () 0, .consume () 0]

theorem received_in_order_firstTaken : ∃ s, Machine.run (step 0) init firstTaken = some s ∧
    s.receivedFrom () () = [7] ∧ (s.sub ()).enqueued = [7, 8] ∧
      s.receivedFrom () () <+: (s.sub ()).enqueued := by
  obtain ⟨s, hs, hreceived, henqueued⟩ : ∃ s, Machine.run (step 0) init firstTaken = some s ∧
      s.receivedFrom () () = [7] ∧ (s.sub ()).enqueued = [7, 8] := ⟨_, rfl, rfl, rfl⟩
  exact ⟨s, hs, hreceived, henqueued,
    ((received_in_order (show firstTaken.length < 2 ^ 63 by decide) hs).2 () ()).2 inferInstance⟩

end BddsBroker.Moodycamel.BlockingQueue
