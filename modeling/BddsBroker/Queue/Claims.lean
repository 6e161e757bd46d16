import BddsBroker.Queue.SubQueue

/-! What the threads take from a sub-queue. `dequeue` draws a ticket from the optimistic
counter and compares it with the tail, less the overcommits it knows of. A thread that passes
has an element to take, whatever the others did in between: the elements below the head are
taken once each, in the order in which the owner published them. -/

namespace BddsBroker.Moodycamel.SubQueue

open Tally Tickets

variable {α T : Type*}

theorem toNat_succ {x : Index} (h : x.toNat < 2 ^ 63) : (x + 1).toNat = x.toNat + 1 := by
  rw [BitVec.toNat_add]
  have hone : (1 : Index).toNat = 1 := rfl
  omega

theorem toNat_sub_of_le {x y : Index} (h : y.toNat ≤ x.toNat) :
    (x - y).toNat = x.toNat - y.toNat := by
  rw [BitVec.toNat_sub]
  omega

/-! ## One statement of a thread -/

/-- The statement at `p` turns the state `s` into `m` and leads to `q`. -/
inductive Statement (s : State α T) : ConsumerPc α → State α T → ConsumerPc α → Prop
  | loadTail {tail : Index} : Statement s .loadsTail s (.loadsOvercommit tail)
  | loadOvercommit {tail overcommit : Index} (hseen : overcommit ≤ s.dequeueOvercommit) :
      Statement s (.loadsOvercommit tail) s (.tests tail overcommit)
  | enter {tail overcommit : Index} : Statement s (.tests tail overcommit) s (.counts overcommit)
  | leave {tail overcommit : Index} : Statement s (.tests tail overcommit) s (.done none)
  | count {overcommit : Index} :
      Statement s (.counts overcommit)
        { s with dequeueOptimisticCount := s.dequeueOptimisticCount + 1 }
        (.reloads overcommit s.dequeueOptimisticCount)
  | win {overcommit my seen : Index} (hseen : seen ≤ s.tailIndex)
      (hless : circularLessThan (my - overcommit) seen = true) :
      Statement s (.reloads overcommit my) { s with succeeded := insert my.toNat s.succeeded }
        .claims
  | lose {overcommit my : Index} : Statement s (.reloads overcommit my) s (.overcommits my)
  | claim : Statement s .claims { s with headIndex := s.headIndex + 1 } (.takes s.headIndex)
  | take {index : Index} :
      Statement s (.takes index)
        { s with
          elements := Function.update s.elements index none
          dequeued := s.dequeued ++ [(index, s.elements index)] }
        (.done (s.elements index))
  | overcommit {my : Index} :
      Statement s (.overcommits my)
        { s with
          dequeueOvercommit := s.dequeueOvercommit + 1
          failed := insert my.toNat s.failed }
        (.done none)

theorem Statement.consumer_eq {s m : State α T} {p q : ConsumerPc α} (h : Statement s p m q) :
    m.consumer = s.consumer := by
  cases h <;> rfl

section Consumers

variable [DecidableEq T]

theorem consume_statement {s s' : State α T} {t : T} {seen : Index}
    (h : consume s t seen = some s') :
    ∃ m q, Statement s (s.consumer t) m q ∧ s' = m.goto t q := by
  unfold consume at h
  cases hp : s.consumer t with
  | done item =>
    rw [hp] at h
    cases h
  | loadsTail =>
    simp only [hp] at h
    split at h
    · exact ⟨s, _, .loadTail, (Option.some.inj h).symm⟩
    · cases h
  | loadsOvercommit tail =>
    simp only [hp] at h
    split at h
    · rename_i hseen
      exact ⟨s, _, .loadOvercommit hseen, (Option.some.inj h).symm⟩
    · cases h
  | tests tail overcommit =>
    simp only [hp] at h
    split at h
    · split at h
      · exact ⟨s, _, .enter, (Option.some.inj h).symm⟩
      · exact ⟨s, _, .leave, (Option.some.inj h).symm⟩
    · cases h
  | counts overcommit =>
    simp only [hp] at h
    exact ⟨_, _, .count, (Option.some.inj h).symm⟩
  | reloads overcommit my =>
    simp only [hp] at h
    split at h
    · rename_i hseen
      split at h
      · rename_i hless
        exact ⟨_, _, .win hseen hless, (Option.some.inj h).symm⟩
      · exact ⟨s, _, .lose, (Option.some.inj h).symm⟩
    · cases h
  | claims =>
    simp only [hp] at h
    exact ⟨_, _, .claim, (Option.some.inj h).symm⟩
  | takes index =>
    simp only [hp] at h
    exact ⟨_, _, .take, (Option.some.inj h).symm⟩
  | overcommits my =>
    simp only [hp] at h
    exact ⟨_, _, .overcommit, (Option.some.inj h).symm⟩

/-! ## The tickets -/

/-- What a thread has of the tickets: a number of overcommits, and a ticket of its own. -/
inductive Share
  | none
  | knows (overcommit : Index)
  | holds (overcommit myDequeueCount : Index)
  | loses (myDequeueCount : Index)

def Share.ticket : Share → Option Index
  | .holds _ my | .loses my => some my
  | .none | .knows _ => Option.none

def ConsumerPc.share : ConsumerPc α → Share
  | .tests _ overcommit | .counts overcommit => .knows overcommit
  | .reloads overcommit my => .holds overcommit my
  | .overcommits my => .loses my
  | .done _ | .loadsTail | .loadsOvercommit _ | .claims | .takes _ => .none

def State.share (s : State α T) (t : T) : Share := (s.consumer t).share

def State.draws (s : State α T) : Draws :=
  ⟨s.dequeueOptimisticCount.toNat, s.succeeded, s.failed, s.tailIndex.toNat⟩

/-- The overcommits that the thread knows of have lost, below its ticket if it has one. -/
def ShareOk (d : Draws) : Share → Prop
  | .none => True
  | .knows overcommit => overcommit.toNat ≤ d.lost.card
  | .holds overcommit my => d.Open my.toNat ∧ overcommit.toNat ≤ d.lostBelow my.toNat
  | .loses my => d.Open my.toNat

omit [DecidableEq T] in
/-- What the thread knows stays true while its ticket is not decided. -/
theorem ShareOk.mono {d d' : Draws} {x : Share} (h : ShareOk d x) (hlost : d.lost ⊆ d'.lost)
    (hopen : ∀ my ∈ x.ticket, d.Open my.toNat → d'.Open my.toNat) : ShareOk d' x := by
  have hbelow : ∀ m, d.lostBelow m ≤ d'.lostBelow m :=
    fun m => Finset.card_le_card (Finset.filter_subset_filter _ hlost)
  cases x with
  | none => trivial
  | knows overcommit => exact le_trans h (Finset.card_le_card hlost)
  | holds overcommit my => exact ⟨hopen my rfl h.1, le_trans h.2 (hbelow _)⟩
  | loses my => exact hopen my rfl h

variable [Fintype T]

/-- The counters after at most `n` steps, and who holds which ticket. -/
structure Drawing (n : Nat) (s : State α T) : Prop where
  tail_le : s.tailIndex.toNat ≤ n
  count_le : s.dequeueOptimisticCount.toNat ≤ n
  fair : Fair s.draws
  overcommit_eq : s.dequeueOvercommit.toNat = s.failed.card
  count_eq : s.dequeueOptimisticCount.toNat =
    s.succeeded.card + s.failed.card + tally (ind fun x => x.ticket.isSome) s.share
  share : ∀ t, ShareOk s.draws (s.share t)
  unique : ∀ t u my, (s.share t).ticket = some my → (s.share u).ticket = some my → t = u

omit [Fintype T] in
theorem share_goto (s : State α T) (t : T) (q : ConsumerPc α) :
    (s.goto t q).share = Function.update s.share t q.share := by
  funext u
  by_cases hu : u = t
  · subst hu
    simp [State.share, State.goto]
  · simp [State.share, State.goto, hu]

/-- One thread gets the share `x`, and the tickets of the others stay as they are. -/
theorem Drawing.move {n k : Nat} {s m : State α T} {t : T} {x : Share} {q : ConsumerPc α}
    (hs : Drawing n s) (hm : m.consumer = s.consumer) (hq : q.share = x)
    (htail : m.tailIndex = s.tailIndex) (hnk : n ≤ k)
    (hcount : m.dequeueOptimisticCount.toNat ≤ k) (hfair : Fair m.draws)
    (hover : m.dequeueOvercommit.toNat = m.failed.card)
    (heq : m.dequeueOptimisticCount.toNat + s.succeeded.card + s.failed.card +
        ind (fun x => x.ticket.isSome) (s.share t) =
      s.dequeueOptimisticCount.toNat + m.succeeded.card + m.failed.card +
        ind (fun x => x.ticket.isSome) x)
    (hok : ShareOk m.draws x) (hother : ∀ u ≠ t, ShareOk m.draws (s.share u))
    (hnew : ∀ my, x.ticket = some my → ∀ u ≠ t, (s.share u).ticket ≠ some my) :
    Drawing k (m.goto t q) := by
  have hshare : (m.goto t q).share = Function.update s.share t x := by
    rw [share_goto, hq]
    congr 1
    funext u
    rw [State.share, hm, State.share]
  have htally := tally_update (ind fun x : Share => x.ticket.isSome) s.share t x
  have hold := hs.count_eq
  constructor
  · have hle := hs.tail_le
    rw [← htail] at hle
    exact le_trans hle hnk
  · exact hcount
  · exact hfair
  · exact hover
  · rw [hshare]
    show m.dequeueOptimisticCount.toNat = m.succeeded.card + m.failed.card + _
    omega
  · intro u
    rw [hshare]
    by_cases hu : u = t
    · subst hu
      rw [Function.update_self]
      exact hok
    · rw [Function.update_of_ne hu]
      exact hother u hu
  · intro u v my
    rw [hshare]
    by_cases hu : u = t <;> by_cases hv : v = t
    · exact fun _ _ => hu.trans hv.symm
    · subst hu
      rw [Function.update_self, Function.update_of_ne hv]
      exact fun hmy hv' => absurd hv' (hnew my hmy v hv)
    · subst hv
      rw [Function.update_self, Function.update_of_ne hu]
      exact fun hu' hmy => absurd hu' (hnew my hmy u hu)
    · rw [Function.update_of_ne hu, Function.update_of_ne hv]
      exact hs.unique u v my

/-- **Step lemma.** What a statement does to the tickets. -/
theorem Drawing.statement {n : Nat} {s m : State α T} {t : T} {q : ConsumerPc α}
    (hs : Drawing n s) (hn : n < 2 ^ 63) (h : Statement s (s.consumer t) m q) :
    Drawing (n + 1) (m.goto t q) := by
  have hcount := hs.count_le
  have hlost : s.failed.card ≤ s.dequeueOptimisticCount.toNat := by
    have := hs.count_eq
    omega
  have hover := hs.overcommit_eq
  have htail := hs.tail_le
  have hmine := hs.share t
  have hunique : ∀ my, (s.share t).ticket = some my → ∀ u ≠ t, (s.share u).ticket ≠ some my :=
    fun my hmy u hu hmy' => hu (hs.unique u t my hmy' hmy)
  generalize hp : s.consumer t = p at h
  have hshare : s.share t = p.share := by rw [State.share, hp]
  rw [hshare] at hmine hunique
  have hm := h.consumer_eq
  cases h with
  | loadTail =>
    refine hs.move (x := .none) hm rfl rfl (Nat.le_succ n) (by omega) hs.fair hover ?_ trivial
      (fun u _ => hs.share u) (by simp [Share.ticket])
    simp [hshare, ConsumerPc.share, Share.ticket, ind]
  | loadOvercommit hseen =>
    rename_i tail overcommit
    refine hs.move (x := .knows overcommit) hm rfl rfl (Nat.le_succ n) (by omega) hs.fair hover ?_
      ?_ (fun u _ => hs.share u) (by simp [Share.ticket])
    · simp [hshare, ConsumerPc.share, Share.ticket, ind]
    · exact le_of_le_of_eq hseen hover
  | enter =>
    rename_i tail overcommit
    refine hs.move (x := .knows overcommit) hm rfl rfl (Nat.le_succ n) (by omega) hs.fair hover ?_
      hmine (fun u _ => hs.share u) (by simp [Share.ticket])
    simp [hshare, ConsumerPc.share, Share.ticket, ind]
  | leave =>
    refine hs.move (x := .none) hm rfl rfl (Nat.le_succ n) (by omega) hs.fair hover ?_ trivial
      (fun u _ => hs.share u) (by simp [Share.ticket])
    simp [hshare, ConsumerPc.share, Share.ticket, ind]
  | count =>
    rename_i overcommit
    have hsucc : (s.dequeueOptimisticCount + 1).toNat = s.dequeueOptimisticCount.toNat + 1 :=
      toNat_succ (by omega)
    let m : State α T := { s with dequeueOptimisticCount := s.dequeueOptimisticCount + 1 }
    have hdraws : m.draws = s.draws.draw := by
      simp only [m, State.draws, Draws.draw, hsucc]
    obtain ⟨hopen, hbelow⟩ := hs.fair.open_next
    refine hs.move (m := m) (x := .holds overcommit s.dequeueOptimisticCount) hm rfl rfl
      (Nat.le_succ n) ?_ (hdraws ▸ hs.fair.draw) hover ?_ ?_ ?_ ?_
    · show (s.dequeueOptimisticCount + 1).toNat ≤ n + 1
      omega
    · simp only [m, hshare, ConsumerPc.share, Share.ticket, ind, hsucc, Option.isSome_none,
        Option.isSome_some, if_true, if_false, Bool.false_eq_true]
      omega
    · rw [hdraws]
      exact ⟨hopen, hbelow.symm ▸ hmine⟩
    · rw [hdraws]
      exact fun u _ => (hs.share u).mono (Finset.Subset.refl _)
        fun my _ hmy => ⟨Nat.lt_succ_of_lt hmy.1, hmy.2⟩
    · rintro my hmy u - hu
      obtain rfl := Option.some.inj hmy
      have hlt : s.dequeueOptimisticCount.toNat < s.dequeueOptimisticCount.toNat := by
        have hok := hs.share u
        cases hx : s.share u with
        | none | knows =>
          rw [hx] at hu
          cases hu
        | holds overcommit' my' =>
          rw [hx] at hu hok
          obtain rfl := Option.some.inj hu
          exact hok.1.1
        | loses my' =>
          rw [hx] at hu hok
          obtain rfl := Option.some.inj hu
          exact hok.1
      exact Nat.lt_irrefl _ hlt
  | win hseen hless =>
    rename_i overcommit my seen
    obtain ⟨hopen, hknown⟩ := hmine
    have hsub : (my - overcommit).toNat = my.toNat - overcommit.toNat :=
      toNat_sub_of_le (le_trans hknown (s.draws.lostBelow_le _))
    have hmy : my.toNat < s.dequeueOptimisticCount.toNat := hopen.1
    have hbound : seen.toNat ≤ s.tailIndex.toNat := hseen
    rw [circularLessThan_iff (by omega) (by omega), hsub] at hless
    let m : State α T := { s with succeeded := insert my.toNat s.succeeded }
    have hdraws : m.draws = s.draws.win my.toNat := rfl
    refine hs.move (m := m) (x := .none) hm rfl rfl (Nat.le_succ n) ?_ ?_ hover ?_ trivial ?_
      (by simp [Share.ticket])
    · exact le_trans hcount (Nat.le_succ n)
    · exact hs.fair.win hopen hknown hbound hless
    · have hnew : (insert my.toNat s.succeeded).card = s.succeeded.card + 1 :=
        Finset.card_insert_of_notMem hopen.2.1
      simp only [m, hshare, ConsumerPc.share, Share.ticket, ind, hnew, Option.isSome_none,
        Option.isSome_some, if_true, if_false, Bool.false_eq_true]
      omega
    · rw [hdraws]
      intro u hu
      refine (hs.share u).mono (Finset.Subset.refl _) fun my' hmy' hopen' =>
        ⟨hopen'.1, ?_, hopen'.2.2⟩
      intro hmem
      rcases Finset.mem_insert.mp hmem with heq | hmem
      · rw [BitVec.eq_of_toNat_eq heq] at hmy'
        exact hunique my rfl u hu hmy'
      · exact hopen'.2.1 hmem
  | lose =>
    rename_i overcommit my
    refine hs.move (x := .loses my) hm rfl rfl (Nat.le_succ n) (by omega) hs.fair hover ?_ hmine.1
      (fun u _ => hs.share u) ?_
    · simp [hshare, ConsumerPc.share, Share.ticket, ind]
    · rintro my' hmy' u hu
      obtain rfl := Option.some.inj hmy'
      exact hunique my rfl u hu
  | claim =>
    refine hs.move (m := { s with headIndex := s.headIndex + 1 }) (x := .none) hm rfl rfl
      (Nat.le_succ n) ?_ hs.fair hover ?_ trivial (fun u _ => hs.share u) (by simp [Share.ticket])
    · exact le_trans hcount (Nat.le_succ n)
    · simp [hshare, ConsumerPc.share, Share.ticket, ind]
  | take =>
    rename_i index
    refine hs.move (m := { s with
        elements := Function.update s.elements index none
        dequeued := s.dequeued ++ [(index, s.elements index)] })
      (x := .none) hm rfl rfl
      (Nat.le_succ n) ?_ hs.fair hover ?_ trivial (fun u _ => hs.share u) (by simp [Share.ticket])
    · exact le_trans hcount (Nat.le_succ n)
    · simp [hshare, ConsumerPc.share, Share.ticket, ind]
  | overcommit =>
    rename_i my
    have hopen : s.draws.Open my.toNat := hmine
    let m : State α T := { s with
      dequeueOvercommit := s.dequeueOvercommit + 1
      failed := insert my.toNat s.failed }
    have hdraws : m.draws = s.draws.lose my.toNat := rfl
    have hnew : (insert my.toNat s.failed).card = s.failed.card + 1 :=
      Finset.card_insert_of_notMem hopen.2.2
    refine hs.move (m := m) (x := .none) hm rfl rfl (Nat.le_succ n) ?_ ?_ ?_ ?_ trivial ?_
      (by simp [Share.ticket])
    · exact le_trans hcount (Nat.le_succ n)
    · exact hs.fair.lose hopen
    · show (s.dequeueOvercommit + 1).toNat = (insert my.toNat s.failed).card
      rw [hnew, toNat_succ (by omega), hover]
    · simp only [m, hshare, ConsumerPc.share, Share.ticket, ind, hnew, Option.isSome_none,
        Option.isSome_some, if_true, if_false, Bool.false_eq_true]
      omega
    · rw [hdraws]
      intro u hu
      refine (hs.share u).mono (Finset.subset_insert _ _) fun my' hmy' hopen' =>
        ⟨hopen'.1, hopen'.2.1, ?_⟩
      intro hmem
      rcases Finset.mem_insert.mp hmem with heq | hmem
      · rw [BitVec.eq_of_toNat_eq heq] at hmy'
        exact hunique my rfl u hu hmy'
      · exact hopen'.2.2 hmem

/-! ## The elements -/

/-- The element that a thread is about to move out. -/
def ConsumerPc.hand : ConsumerPc α → Option Index
  | .takes index => some index
  | .done _ | .loadsTail | .loadsOvercommit _ | .tests .. | .counts _ | .reloads .. | .claims
  | .overcommits _ => none

def State.hand (s : State α T) (t : T) : Option Index := (s.consumer t).hand

omit [Fintype T] in
theorem hand_goto (s : State α T) (t : T) (q : ConsumerPc α) :
    (s.goto t q).hand = Function.update s.hand t q.hand := by
  funext u
  by_cases hu : u = t
  · subst hu
    simp [State.hand, State.goto]
  · simp [State.hand, State.goto, hu]

def State.taken (s : State α T) : List Index := s.dequeued.map Prod.fst

/-- The elements below the head were moved out or are about to be, each once; the other ones
stand in the blocks as they were published. -/
structure Holding (s : State α T) : Prop where
  tail_eq : s.tailIndex.toNat = s.enqueued.length
  head_eq : s.headIndex.toNat = s.dequeued.length + tally (ind Option.isSome) s.hand
  hand : ∀ t i, s.hand t = some i → i.toNat < s.headIndex.toNat ∧ i ∉ s.taken
  unique : ∀ t u i, s.hand t = some i → s.hand u = some i → t = u
  nodup : s.taken.Nodup
  items : ∀ p ∈ s.dequeued, p.1.toNat < s.headIndex.toNat ∧ p.2 = s.enqueued[p.1.toNat]?
  elements : ∀ i : Index, i.toNat < s.tailIndex.toNat → i ∉ s.taken →
    s.elements i = s.enqueued[i.toNat]?
  ready : ∀ item, s.producer = .publishes item → s.elements s.tailIndex = some item

/-- A statement that neither claims nor takes. -/
theorem Holding.stay {s m : State α T} {t : T} {q : ConsumerPc α} (hs : Holding s)
    (hm : m.consumer = s.consumer) (hq : q.hand = s.hand t)
    (htail : m.tailIndex = s.tailIndex) (hhead : m.headIndex = s.headIndex)
    (helements : m.elements = s.elements) (hproducer : m.producer = s.producer)
    (henqueued : m.enqueued = s.enqueued) (hdequeued : m.dequeued = s.dequeued) :
    Holding (m.goto t q) := by
  have hhand : (m.goto t q).hand = s.hand := by
    have hsame : m.hand = s.hand := funext fun u => by rw [State.hand, hm, State.hand]
    rw [hand_goto, hsame, hq, Function.update_eq_self]
  have htaken : (m.goto t q).taken = s.taken := by
    show m.dequeued.map Prod.fst = _
    rw [hdequeued, State.taken]
  constructor
  · exact (congrArg _ htail).trans (hs.tail_eq.trans (congrArg _ henqueued.symm))
  · rw [hhand]
    show m.headIndex.toNat = m.dequeued.length + _
    rw [hhead, hdequeued]
    exact hs.head_eq
  · rw [hhand, htaken]
    show ∀ t (i : Index), _ → i.toNat < m.headIndex.toNat ∧ _
    rw [hhead]
    exact hs.hand
  · rw [hhand]
    exact hs.unique
  · rw [htaken]
    exact hs.nodup
  · show ∀ p ∈ m.dequeued, p.1.toNat < m.headIndex.toNat ∧ p.2 = m.enqueued[p.1.toNat]?
    rw [hdequeued, hhead, henqueued]
    exact hs.items
  · rw [htaken]
    show ∀ i : Index, i.toNat < m.tailIndex.toNat → _ → m.elements i = m.enqueued[i.toNat]?
    rw [htail, helements, henqueued]
    exact hs.elements
  · show ∀ item, m.producer = _ → m.elements m.tailIndex = _
    rw [hproducer, helements, htail]
    exact hs.ready

/-- The thread gets the element at the head. -/
theorem Holding.claim {s : State α T} {t : T} (hs : Holding s)
    (hhead : s.headIndex.toNat < 2 ^ 63) (ht : s.consumer t = .claims) :
    Holding ({ s with headIndex := s.headIndex + 1 }.goto t (.takes s.headIndex)) := by
  have hsucc : (s.headIndex + 1).toNat = s.headIndex.toNat + 1 := toNat_succ hhead
  have hnone : s.hand t = none := by rw [State.hand, ht, ConsumerPc.hand]
  have hfresh : s.headIndex ∉ s.taken := by
    intro hmem
    obtain ⟨p, hp, heq⟩ := List.mem_map.mp hmem
    have hlt := (hs.items p hp).1
    rw [heq] at hlt
    exact Nat.lt_irrefl _ hlt
  have htally := tally_update (ind Option.isSome) s.hand t (some s.headIndex)
  have hold := hs.head_eq
  let m : State α T := { s with headIndex := s.headIndex + 1 }
  have hhand : (m.goto t (.takes s.headIndex)).hand = Function.update s.hand t (some s.headIndex) :=
    hand_goto m t _
  constructor
  · exact hs.tail_eq
  · rw [hhand]
    show (s.headIndex + 1).toNat = s.dequeued.length + _
    simp only [hnone, ind, Option.isSome_none, Option.isSome_some, if_true, Bool.false_eq_true,
      if_false] at htally
    omega
  · intro u i
    rw [hhand]
    show _ → i.toNat < (s.headIndex + 1).toNat ∧ i ∉ s.taken
    rw [hsucc]
    by_cases hu : u = t
    · subst hu
      rw [Function.update_self]
      rintro h
      obtain rfl := Option.some.inj h
      exact ⟨Nat.lt_succ_self _, hfresh⟩
    · rw [Function.update_of_ne hu]
      exact fun h => ⟨Nat.lt_succ_of_lt (hs.hand u i h).1, (hs.hand u i h).2⟩
  · have hnew : ∀ u, s.hand u ≠ some s.headIndex :=
      fun u hu => Nat.lt_irrefl _ (hs.hand u _ hu).1
    intro u v i
    rw [hhand]
    by_cases hu : u = t <;> by_cases hv : v = t
    · exact fun _ _ => hu.trans hv.symm
    · subst hu
      rw [Function.update_self, Function.update_of_ne hv]
      exact fun hi hv' => absurd (hv'.trans hi.symm) (hnew v)
    · subst hv
      rw [Function.update_self, Function.update_of_ne hu]
      exact fun hu' hi => absurd (hu'.trans hi.symm) (hnew u)
    · rw [Function.update_of_ne hu, Function.update_of_ne hv]
      exact hs.unique u v i
  · exact hs.nodup
  · intro p hp
    show p.1.toNat < (s.headIndex + 1).toNat ∧ _
    rw [hsucc]
    exact ⟨Nat.lt_succ_of_lt (hs.items p hp).1, (hs.items p hp).2⟩
  · exact hs.elements
  · exact hs.ready

/-- The thread moves out its element, which is there. -/
theorem Holding.take {s : State α T} {t : T} {index : Index} (hs : Holding s)
    (hle : s.headIndex.toNat ≤ s.tailIndex.toNat) (ht : s.consumer t = .takes index) :
    Holding ({ s with
        elements := Function.update s.elements index none
        dequeued := s.dequeued ++ [(index, s.elements index)] }.goto t (.done (s.elements index))) ∧
      s.elements index = s.enqueued[index.toNat]? := by
  have hmine : s.hand t = some index := by rw [State.hand, ht, ConsumerPc.hand]
  obtain ⟨hlt, hfresh⟩ := hs.hand t index hmine
  have helement := hs.elements index (by omega) hfresh
  refine ⟨?_, helement⟩
  have htally := tally_update (ind Option.isSome) s.hand t none
  have hold := hs.head_eq
  let m : State α T := { s with
    elements := Function.update s.elements index none
    dequeued := s.dequeued ++ [(index, s.elements index)] }
  have hhand : (m.goto t (.done (s.elements index))).hand = Function.update s.hand t none :=
    hand_goto m t _
  have htaken : (m.goto t (.done (s.elements index))).taken = s.taken ++ [index] :=
    List.map_append
  constructor
  · exact hs.tail_eq
  · rw [hhand]
    show s.headIndex.toNat = (s.dequeued ++ [_]).length + _
    simp only [hmine, ind, Option.isSome_none, Option.isSome_some, if_true, Bool.false_eq_true,
      if_false] at htally
    rw [List.length_append, List.length_singleton]
    omega
  · intro u i
    rw [hhand, htaken]
    by_cases hu : u = t
    · subst hu
      rw [Function.update_self]
      intro h
      cases h
    · rw [Function.update_of_ne hu]
      intro hi
      refine ⟨(hs.hand u i hi).1, fun hmem => ?_⟩
      rcases List.mem_append.mp hmem with hmem | hmem
      · exact (hs.hand u i hi).2 hmem
      · obtain rfl := List.mem_singleton.mp hmem
        exact hu (hs.unique u t i hi hmine)
  · intro u v i
    rw [hhand]
    by_cases hu : u = t
    · subst hu
      rw [Function.update_self]
      intro h
      cases h
    · by_cases hv : v = t
      · subst hv
        rw [Function.update_self]
        intro _ h
        cases h
      · rw [Function.update_of_ne hu, Function.update_of_ne hv]
        exact hs.unique u v i
  · rw [htaken]
    exact List.nodup_append.mpr ⟨hs.nodup, List.nodup_singleton index, by
      rintro i hi j hj rfl
      exact hfresh (List.mem_singleton.mp hj ▸ hi)⟩
  · intro p hp
    rcases List.mem_append.mp hp with hp | hp
    · exact hs.items p hp
    · obtain rfl := List.mem_singleton.mp hp
      exact ⟨hlt, helement⟩
  · intro i hi
    rw [htaken]
    intro hnot
    have hne : i ≠ index := fun h => hnot (by simp [h])
    show Function.update s.elements index none i = _
    rw [Function.update_of_ne hne]
    exact hs.elements i hi fun h => hnot (List.mem_append_left _ h)
  · intro item hitem
    have hne : s.tailIndex ≠ index := by
      rintro rfl
      omega
    show Function.update s.elements index none s.tailIndex = _
    rw [Function.update_of_ne hne]
    exact hs.ready item hitem

theorem Holding.statement {s m : State α T} {t : T} {q : ConsumerPc α} (hs : Holding s)
    (hhead : s.headIndex.toNat < 2 ^ 63) (hle : s.headIndex.toNat ≤ s.tailIndex.toNat)
    (h : Statement s (s.consumer t) m q) : Holding (m.goto t q) := by
  generalize hp : s.consumer t = p at h
  have hhand : s.hand t = p.hand := by rw [State.hand, hp]
  have hm := h.consumer_eq
  cases h with
  | claim => exact hs.claim hhead hp
  | take => exact (hs.take hle hp).1
  | _ => exact hs.stay hm hhand.symm rfl rfl rfl rfl rfl rfl

/-! ## Runs -/

def ConsumerPc.isClaiming : ConsumerPc α → Bool
  | .claims => true
  | .done _ | .loadsTail | .loadsOvercommit _ | .tests .. | .counts _ | .reloads .. | .takes _
  | .overcommits _ => false

/-- What holds after at most `n` steps. -/
structure Sound (n : Nat) (s : State α T) : Prop where
  drawing : Drawing n s
  holding : Holding s
  /-- A ticket that has won moves the head, now or soon. -/
  won_eq : s.succeeded.card = s.headIndex.toNat + tally (ind ConsumerPc.isClaiming) s.consumer

omit [DecidableEq T] in
theorem sound_init : Sound 0 (init : State α T) where
  drawing :=
    { tail_le := Nat.le_refl 0
      count_le := Nat.le_refl 0
      fair := Fair.init
      overcommit_eq := rfl
      count_eq := by
        have hnone : tally (ind fun x : Share => x.ticket.isSome) (init : State α T).share = 0 :=
          tally_eq_zero.mpr fun _ => rfl
        rw [hnone]
        rfl
      share := fun _ => trivial
      unique := fun _ _ _ h => nomatch h }
  holding :=
    { tail_eq := rfl
      head_eq := by
        have hnone : tally (ind Option.isSome) (init : State α T).hand = 0 :=
          tally_eq_zero.mpr fun _ => rfl
        rw [hnone]
        rfl
      hand := fun _ _ h => nomatch h
      unique := fun _ _ _ h => nomatch h
      nodup := List.nodup_nil
      items := fun _ h => nomatch h
      elements := fun i h => nomatch h
      ready := fun _ h => nomatch h }
  won_eq := by
    have hnone : tally (ind ConsumerPc.isClaiming) (init : State α T).consumer = 0 :=
      tally_eq_zero.mpr fun _ => rfl
    rw [hnone]
    rfl

namespace Sound

variable {n : Nat} {s : State α T}

omit [DecidableEq T] in
theorem won_le (hs : Sound n s) : s.succeeded.card ≤ s.tailIndex.toNat :=
  hs.drawing.fair.card_won_le

omit [DecidableEq T] in
theorem head_le (hs : Sound n s) : s.headIndex.toNat ≤ s.tailIndex.toNat := by
  have hwon := hs.won_eq
  have hle := hs.won_le
  omega

omit [DecidableEq T] in
theorem head_lt (hs : Sound n s) {t : T} (ht : s.consumer t = .claims) :
    s.headIndex.toNat < s.tailIndex.toNat := by
  have hpos : 0 < tally (ind ConsumerPc.isClaiming) s.consumer :=
    tally_ind_pos (t := t) (by rw [ht]; rfl)
  have hwon := hs.won_eq
  have hle := hs.won_le
  omega

omit [DecidableEq T] in
theorem mono (hs : Sound n s) : Sound (n + 1) s :=
  ⟨{ hs.drawing with
      tail_le := Nat.le_succ_of_le hs.drawing.tail_le
      count_le := Nat.le_succ_of_le hs.drawing.count_le }, hs.holding, hs.won_eq⟩

/-- The claims follow the winners. -/
theorem won_statement (hs : Sound n s) (hn : n < 2 ^ 63) {m : State α T} {t : T}
    {q : ConsumerPc α} (h : Statement s (s.consumer t) m q) :
    m.succeeded.card = m.headIndex.toNat +
      tally (ind ConsumerPc.isClaiming) (m.goto t q).consumer := by
  have htail := hs.drawing.tail_le
  have hhead := hs.head_le
  have hold := hs.won_eq
  have htally := tally_update (ind ConsumerPc.isClaiming) s.consumer t q
  have hmine := hs.drawing.share t
  generalize hp : s.consumer t = p at h
  rw [hp] at htally
  rw [State.share, hp] at hmine
  have hm := h.consumer_eq
  show _ = _ + tally _ (Function.update m.consumer t q)
  rw [hm]
  cases h with
  | win hseen hless =>
    have hnew := Finset.card_insert_of_notMem hmine.1.2.1
    simp only [State.draws] at hnew
    simp only [ind, ConsumerPc.isClaiming, if_true, Bool.false_eq_true, if_false] at htally
    dsimp only
    omega
  | claim =>
    have hsucc : (s.headIndex + 1).toNat = s.headIndex.toNat + 1 := toNat_succ (by omega)
    simp only [ind, ConsumerPc.isClaiming, if_true, Bool.false_eq_true, if_false] at htally
    dsimp only
    omega
  | _ =>
    simp only [ind, ConsumerPc.isClaiming, Bool.false_eq_true, if_false] at htally
    show s.succeeded.card = s.headIndex.toNat + _
    omega

theorem consume (hs : Sound n s) (hn : n < 2 ^ 63) {s' : State α T} {t : T} {seen : Index}
    (h : consume s t seen = some s') : Sound (n + 1) s' := by
  obtain ⟨m, q, hstatement, rfl⟩ := consume_statement h
  have htail := hs.drawing.tail_le
  have hhead := hs.head_le
  exact ⟨hs.drawing.statement hn hstatement, hs.holding.statement (by omega) hhead hstatement,
    hs.won_statement hn hstatement⟩

theorem dequeue (hs : Sound n s) {s' : State α T} {t : T} (h : dequeue s t = some s') :
    Sound (n + 1) s' := by
  unfold SubQueue.dequeue at h
  split at h
  · rename_i item ht
    obtain rfl := Option.some.inj h
    have hnone : s.share t = .none := by rw [State.share, ht, ConsumerPc.share]
    have hhand : s.hand t = none := by rw [State.hand, ht, ConsumerPc.hand]
    have htally := tally_update (ind ConsumerPc.isClaiming) s.consumer t .loadsTail
    rw [ht] at htally
    refine ⟨?_, hs.holding.stay rfl hhand.symm rfl rfl rfl rfl rfl rfl, ?_⟩
    · refine hs.drawing.move (x := .none) rfl rfl rfl (Nat.le_succ n)
        (Nat.le_succ_of_le hs.drawing.count_le) hs.drawing.fair hs.drawing.overcommit_eq ?_ trivial
        (fun u _ => hs.drawing.share u) (fun my h => nomatch h)
      rw [hnone]
    · show s.succeeded.card = s.headIndex.toNat + tally _ (Function.update s.consumer t _)
      have hold := hs.won_eq
      simp only [ind, ConsumerPc.isClaiming, Bool.false_eq_true, if_false] at htally
      omega
  · cases h

omit [DecidableEq T] in
/-- The owner moves on without publishing. -/
theorem produceTo (hs : Sound n s) {pc : ProducerPc α} {elements : Index → Option α}
    (helements : ∀ i : Index, i.toNat < s.tailIndex.toNat → elements i = s.elements i)
    (hready : ∀ item, pc = .publishes item → elements s.tailIndex = some item) :
    Sound (n + 1) { s with elements := elements, producer := pc } := by
  refine ⟨{ hs.mono.drawing with }, { hs.holding with elements := ?_, ready := hready }, hs.won_eq⟩
  intro i hi hnot
  exact (helements i hi).trans (hs.holding.elements i hi hnot)

omit [DecidableEq T] in
theorem publish (hs : Sound n s) (hn : n < 2 ^ 63) {item : α}
    (hp : s.producer = .publishes item) :
    Sound (n + 1)
      { s with
        tailIndex := s.tailIndex + 1, enqueued := s.enqueued ++ [item], producer := .idle } := by
  have htail := hs.drawing.tail_le
  have hhead := hs.head_le
  have heq := hs.holding.tail_eq
  have hsucc : (s.tailIndex + 1).toNat = s.tailIndex.toNat + 1 := toNat_succ (by omega)
  have hold : ∀ i : Index, i.toNat < s.tailIndex.toNat →
      (s.enqueued ++ [item])[i.toNat]? = s.enqueued[i.toNat]? :=
    fun i hi => List.getElem?_append_left (by omega)
  refine ⟨{ hs.mono.drawing with tail_le := ?_, fair := ?_, share := ?_ },
    { hs.holding with tail_eq := ?_, items := ?_, elements := ?_, ready := ?_ }, hs.won_eq⟩
  · show (s.tailIndex + 1).toNat ≤ n + 1
    omega
  · have hraise := hs.drawing.fair.raise
    rw [Draws.raise, State.draws, ← hsucc] at hraise
    exact hraise
  · exact fun t => (hs.drawing.share t).mono (Finset.Subset.refl _) fun _ _ hmy => hmy
  · show (s.tailIndex + 1).toNat = (s.enqueued ++ [item]).length
    rw [hsucc, heq, List.length_append, List.length_singleton]
  · intro p hmem
    obtain ⟨hlt, hitem⟩ := hs.holding.items p hmem
    exact ⟨hlt, hitem.trans (hold p.1 (by omega)).symm⟩
  · show ∀ i : Index, i.toNat < (s.tailIndex + 1).toNat → i ∉ s.taken →
      s.elements i = (s.enqueued ++ [item])[i.toNat]?
    intro i hi hnot
    by_cases hlt : i.toNat < s.tailIndex.toNat
    · rw [hold i hlt]
      exact hs.holding.elements i hlt hnot
    · obtain rfl : i = s.tailIndex := BitVec.eq_of_toNat_eq (by omega)
      rw [hs.holding.ready item hp, heq, List.getElem?_concat_length]
  · intro item h
    cases h

theorem produce (hs : Sound n s) (hn : n < 2 ^ 63) {s' : State α T} {seen : Index}
    {allocated : Bool} (h : produce s seen allocated = some s') : Sound (n + 1) s' := by
  unfold SubQueue.produce at h
  split at h
  · cases h
  · split at h
    · split at h
      · obtain rfl := Option.some.inj h
        exact hs.produceTo (fun _ _ => rfl) fun item h => nomatch h
      · obtain rfl := Option.some.inj h
        exact hs.produceTo (fun _ _ => rfl) fun item h => nomatch h
    · cases h
  · split at h
    · obtain rfl := Option.some.inj h
      exact hs.produceTo (fun _ _ => rfl) fun item h => nomatch h
    · obtain rfl := Option.some.inj h
      exact hs.produceTo (fun _ _ => rfl) fun item h => nomatch h
  · rename_i item hp
    obtain rfl := Option.some.inj h
    refine hs.produceTo (fun i hi => ?_) fun item' h => ?_
    · rw [Function.update_of_ne]
      rintro rfl
      exact Nat.lt_irrefl _ hi
    · obtain rfl := ProducerPc.publishes.inj h
      rw [Function.update_self]
  · rename_i item hp
    obtain rfl := Option.some.inj h
    exact hs.publish hn hp

/-- **Step lemma.** -/
theorem step (hs : Sound n s) (hn : n < 2 ^ 63) {s' : State α T} {e : Event α T}
    (h : step s e = some s') : Sound (n + 1) s' := by
  cases e with
  | enqueue item =>
    simp only [SubQueue.step, SubQueue.enqueue] at h
    split at h
    · split at h
      · obtain rfl := Option.some.inj h
        exact hs.produceTo (fun _ _ => rfl) fun item h => nomatch h
      · obtain rfl := Option.some.inj h
        exact hs.produceTo (fun _ _ => rfl) fun item h => nomatch h
    · cases h
  | produce seen allocated => exact hs.produce hn h
  | dequeue t => exact hs.dequeue h
  | consume t seen => exact hs.consume hn h

end Sound

/-- **Run lemma.** -/
theorem sound_run {es : List (Event α T)} {s : State α T} (hlen : es.length < 2 ^ 63)
    (hr : Machine.run step init es = some s) : Sound es.length s := by
  have hrun := Machine.run_history (C := fun _ _ => True)
    (J := fun es (s : State α T) => es.length < 2 ^ 63 → Sound es.length s)
    (fun _ => sound_init) ?_ (Machine.along_true init es) hr
  · exact hrun hlen
  · intro es s e s' _ hJ _ he hlt
    rw [List.length_append, List.length_singleton] at hlt ⊢
    exact (hJ (by omega)).step (by omega) he

end Consumers

end BddsBroker.Moodycamel.SubQueue
