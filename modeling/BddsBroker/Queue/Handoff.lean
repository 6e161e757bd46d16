import BddsBroker.Queue.Blocking

/-! What the semaphore promises. The producers signal after they publish, and a consumer looks
for an item only after it was admitted: so there is always an unclaimed item for each consumer
that was admitted and has none yet, and no consumer is left asleep beside an item that nobody
is going to take. -/

namespace BddsBroker.Moodycamel

open Tally

namespace SubQueue

variable {α T : Type*}

/-- The thread has, or is sure to get, an element. -/
def ConsumerPc.served : ConsumerPc α → Bool
  | .claims | .takes _ => true
  | .done item => item.isSome
  | _ => false

/-- A call of `dequeue` leaves the owner's side of the sub-queue alone. -/
structure SameOwner (s s' : State α T) : Prop where
  tailIndex : s'.tailIndex = s.tailIndex
  enqueued : s'.enqueued = s.enqueued
  producer : s'.producer = s.producer

theorem SameOwner.refl (s : State α T) : SameOwner s s := ⟨rfl, rfl, rfl⟩

section Owner

variable {s s' : State α T}

theorem enqueue_spec {item : α} (h : enqueue s item = some s') :
    ∃ pc, s' = { s with producer := pc } := by
  unfold enqueue at h
  split at h
  · split at h
    · exact ⟨_, (Option.some.inj h).symm⟩
    · exact ⟨_, (Option.some.inj h).symm⟩
  · cases h

variable [DecidableEq T] {seen : Index} {allocated : Bool}

theorem produce_busy (h : produce s seen allocated = some s') : s.producer ≠ .idle := by
  intro hidle
  simp [produce, hidle] at h

/-- The owner moves on without publishing. -/
theorem produce_spec (hp : ∀ item, s.producer ≠ .publishes item)
    (h : produce s seen allocated = some s') :
    ∃ pc elements, s' = { s with elements := elements, producer := pc } := by
  unfold produce at h
  split at h
  · cases h
  · split at h
    · split at h
      · exact ⟨_, _, (Option.some.inj h).symm⟩
      · exact ⟨_, _, (Option.some.inj h).symm⟩
    · cases h
  · split at h
    · exact ⟨_, _, (Option.some.inj h).symm⟩
    · exact ⟨_, _, (Option.some.inj h).symm⟩
  · exact ⟨_, _, (Option.some.inj h).symm⟩
  · rename_i item hitem
    exact absurd hitem (hp item)

theorem produce_publishes {item : α} (hp : s.producer = .publishes item)
    (h : produce s seen allocated = some s') :
    s' = { s with
      tailIndex := s.tailIndex + 1
      enqueued := s.enqueued ++ [item]
      producer := .idle } := by
  simp only [produce, hp, Option.some.injEq] at h
  exact h.symm

end Owner

section Consumers

variable [DecidableEq T] {s s' : State α T} {t : T} {seen : Index}

theorem dequeue_spec (h : dequeue s t = some s') : s' = s.goto t .loadsTail := by
  unfold dequeue at h
  split at h
  · exact (Option.some.inj h).symm
  · cases h

theorem dequeue_owner (h : dequeue s t = some s') : SameOwner s s' := by
  rw [dequeue_spec h]
  exact ⟨rfl, rfl, rfl⟩

theorem Statement.owner {m : State α T} {p q : ConsumerPc α} (h : Statement s p m q) :
    SameOwner s (m.goto t q) := by
  cases h <;> exact ⟨rfl, rfl, rfl⟩

theorem consume_owner (h : consume s t seen = some s') : SameOwner s s' := by
  obtain ⟨m, q, hstatement, rfl⟩ := consume_statement h
  exact hstatement.owner

theorem consume_others (h : consume s t seen = some s') {u : T} (hu : u ≠ t) :
    s'.consumer u = s.consumer u := by
  obtain ⟨m, q, hstatement, rfl⟩ := consume_statement h
  rw [State.goto, hstatement.consumer_eq]
  exact Function.update_of_ne hu _ _

variable [Fintype T] {n : Nat}

/-- A call adds nothing to the counters. -/
theorem sound_call (hs : Sound n s) (h : dequeue s t = some s') : Sound n s' := by
  have hnext := hs.dequeue h
  rw [dequeue_spec h] at hnext ⊢
  exact { hnext with
    drawing := { hnext.drawing with
      tail_le := hs.drawing.tail_le
      count_le := hs.drawing.count_le } }

/-- Who wins is served. -/
theorem consume_served (hs : Sound n s) (h : consume s t seen = some s') :
    s'.succeeded.card + ind ConsumerPc.served (s.consumer t) =
      s.succeeded.card + ind ConsumerPc.served (s'.consumer t) := by
  obtain ⟨m, q, hstatement, rfl⟩ := consume_statement h
  rw [goto_consumer]
  have hmine := hs.drawing.share t
  have hhand := hs.holding.hand t
  rw [State.share] at hmine
  rw [State.hand] at hhand
  generalize s.consumer t = p at hstatement hmine hhand
  cases hstatement with
  | win hseen hless =>
    have hnew := Finset.card_insert_of_notMem hmine.1.2.1
    exact hnew
  | @take index =>
    obtain ⟨hlt, hfresh⟩ := hhand index rfl
    have hle := hs.head_le
    have helement := hs.holding.elements index (by omega) hfresh
    have htail := hs.holding.tail_eq
    rw [List.getElem?_eq_getElem (by omega)] at helement
    simp [State.goto, ind, ConsumerPc.served, helement]
  | _ => rfl

end Consumers

end SubQueue

namespace BlockingQueue

open LightweightSemaphore (Pc Balanced)
open SubQueue (ConsumerPc SameOwner Sound)

variable {α P T : Type*} [DecidableEq P] [DecidableEq T]

/-! ## The search -/

/-- The sub-queue in whose `dequeue` the consumer is. -/
def Phase.trying : Phase P → Option P
  | .triesBest p | .tries _ p _ => some p
  | _ => none

def Phase.searching : Phase P → Bool
  | .lists | .sizes .. | .relists _ => true
  | _ => false

/-- The consumer goes on searching, possibly in another sub-queue. -/
inductive Searches (s : State α P T) (t : T) : State α P T → Prop
  | goto {phase : Phase P} (h : phase.searching = true) : Searches s t (s.goto t phase)
  | call {p : P} {q : SubQueue.State α T} {phase : Phase P}
      (hq : SubQueue.dequeue (s.sub p) t = some q) (hphase : phase.trying = some p) :
      Searches s t ((s.setSub p q).goto t phase)

theorem callDequeue_searches {s s' : State α P T} {t : T} {p : P} {phase : Phase P}
    (hphase : phase.trying = some p) (h : callDequeue s t p phase = some s') :
    Searches s t s' := by
  obtain ⟨q, hq, rfl⟩ := Option.map_eq_some_iff.mp h
  exact .call hq hphase

theorem leave_searches {s s' : State α P T} {t : T} {scores : Scores P}
    (h : score.leave s t scores = some s') : Searches s t s' := by
  unfold score.leave at h
  split at h
  · exact callDequeue_searches rfl h
  · obtain rfl := Option.some.inj h
    exact .goto rfl

theorem score_searches {s s' : State α P T} {t : T} {rest : List P} {scores : Scores P}
    (h : score s t rest scores = some s') : Searches s t s' := by
  unfold score at h
  split at h
  · split at h
    · obtain rfl := Option.some.inj h
      exact .goto rfl
    · exact leave_searches h
  · exact leave_searches h

theorem walk_searches {s s' : State α P T} {t : T} {best : P} {rest : List P}
    (h : walk s t best rest = some s') : Searches s t s' := by
  induction rest with
  | nil =>
    obtain rfl := Option.some.inj h
    exact .goto rfl
  | cons p rest ih =>
    unfold walk at h
    split at h
    · exact callDequeue_searches rfl h
    · exact ih h

/-! ## Who is owed an item -/

/-- The consumer was admitted by the semaphore and is not sure of an item. -/
def State.owed (s : State α P T) (t : T) : Nat :=
  match s.phase t with
  | .outside => 0
  | .waits => if s.sema.pc (.inr t) = .returned true then 1 else 0
  | .lists | .sizes .. | .relists _ => 1
  | .triesBest p | .tries _ p _ => 1 - ind ConsumerPc.served ((s.sub p).consumer t)

omit [DecidableEq P] [DecidableEq T] in
theorem owed_congr {s s' : State α P T} {t : T} (hphase : s'.phase t = s.phase t)
    (hsema : s'.sema.pc (.inr t) = s.sema.pc (.inr t))
    (hsub : ∀ p, (s'.sub p).consumer t = (s.sub p).consumer t) : s'.owed t = s.owed t := by
  simp only [State.owed, hphase, hsema, hsub]

omit [DecidableEq P] [DecidableEq T] in
theorem owed_of_searching {s : State α P T} {t : T} (h : (s.phase t).searching = true) :
    s.owed t = 1 := by
  unfold State.owed
  cases hphase : s.phase t <;> simp_all [Phase.searching]

omit [DecidableEq P] [DecidableEq T] in
theorem owed_of_trying {s : State α P T} {t : T} {p : P} (h : (s.phase t).trying = some p) :
    s.owed t = 1 - ind ConsumerPc.served ((s.sub p).consumer t) := by
  unfold State.owed
  cases hphase : s.phase t <;> simp_all [Phase.trying]

/-! ## The balance -/

section Balance

variable [Fintype P] [Fintype T]

/-- How many items were published. -/
def State.published (s : State α P T) : Nat :=
  tally (fun q : SubQueue.State α T => q.tailIndex.toNat) s.sub

/-- How many items are, or are sure to be, taken. -/
def State.won (s : State α P T) : Nat :=
  tally (fun q : SubQueue.State α T => q.succeeded.card) s.sub

/-- What holds after at most `n` steps. -/
structure Promised (n : Nat) (s : State α P T) : Prop where
  sound : ∀ p, Sound n (s.sub p)
  balanced : Balanced 0 s.sema
  producers : ∀ p, (s.sema.pc (.inl p)).signals = true
  consumers : ∀ t, s.phase t ≠ .waits → (s.sema.pc (.inr t)).outside = true
  quiet : ∀ t, (s.sema.pc (.inr t)).toAdd = 0 ∧ (s.sema.pc (.inr t)).toRelease = 0
  registered : ∀ p, p ∉ s.producerListTail →
    (s.sub p).enqueued = [] ∧ (s.sub p).producer = .idle
  signaled_eq : s.published = s.sema.signaled + tally Pc.toAdd s.sema.pc
  acquired_eq : s.sema.acquired = s.won + tally id s.owed

omit [DecidableEq P] [DecidableEq T] in
theorem promised_init : Promised 0 (init : State α P T) where
  sound := fun _ => SubQueue.sound_init
  balanced := LightweightSemaphore.balanced_init
  producers := fun _ => rfl
  consumers := fun _ _ => rfl
  quiet := fun _ => ⟨rfl, rfl⟩
  registered := fun _ _ => ⟨rfl, rfl⟩
  signaled_eq := by
    have hpublished : (init : State α P T).published = 0 := tally_eq_zero.mpr fun _ => rfl
    have hadd : tally Pc.toAdd (init : State α P T).sema.pc = 0 := tally_eq_zero.mpr fun _ => rfl
    rw [hpublished, hadd]
    rfl
  acquired_eq := by
    have hwon : (init : State α P T).won = 0 := tally_eq_zero.mpr fun _ => rfl
    have howed : tally id (init : State α P T).owed = 0 := tally_eq_zero.mpr fun _ => rfl
    rw [hwon, howed]
    rfl

omit [DecidableEq P] [DecidableEq T] [Fintype T] in
theorem published_congr {s s' : State α P T} (h : ∀ p, SameOwner (s.sub p) (s'.sub p)) :
    s'.published = s.published :=
  Finset.sum_congr rfl fun p _ => congrArg BitVec.toNat (h p).tailIndex

omit [DecidableEq T] [Fintype T] in
theorem won_setSub (s : State α P T) (p : P) (q : SubQueue.State α T) :
    (s.setSub p q).won + (s.sub p).succeeded.card = s.won + q.succeeded.card :=
  tally_update _ s.sub p q

namespace Promised

variable {n : Nat} {s s' : State α P T} {t : T}

omit [DecidableEq P] [DecidableEq T] in
theorem mono (hs : Promised n s) : Promised (n + 1) s :=
  { hs with sound := fun p => (hs.sound p).mono }

omit [DecidableEq P] [DecidableEq T] in
/-- A step of a consumer outside the semaphore. -/
theorem consumer (hs : Promised n s) {k : Nat} (hsema : s'.sema = s.sema)
    (hlist : s'.producerListTail = s.producerListTail)
    (howner : ∀ p, SameOwner (s.sub p) (s'.sub p)) (hsound : ∀ p, Sound k (s'.sub p))
    (hphase : ∀ u, u ≠ t → s'.phase u = s.phase u)
    (hout : (s.sema.pc (.inr t)).outside = true)
    (hothers : ∀ u, u ≠ t → s'.owed u = s.owed u)
    (hwon : s'.won + s'.owed t = s.won + s.owed t) : Promised k s' where
  sound := hsound
  balanced := by rw [hsema]; exact hs.balanced
  producers := by rw [hsema]; exact hs.producers
  consumers := by
    intro u hu
    rw [hsema]
    rcases eq_or_ne u t with rfl | hne
    · exact hout
    · exact hs.consumers u (by rwa [hphase u hne] at hu)
  quiet := by rw [hsema]; exact hs.quiet
  registered := by
    intro p hp
    rw [hlist] at hp
    rw [(howner p).enqueued, (howner p).producer]
    exact hs.registered p hp
  signaled_eq := by rw [published_congr howner, hsema, hs.signaled_eq]
  acquired_eq := by
    have hchange := tally_change id t hothers
    have hold := hs.acquired_eq
    simp only [id] at hchange
    rw [hsema]
    omega

theorem searches (hs : Promised n s) (hphase : s.phase t ≠ .waits) (howed : s.owed t = 1)
    (h : Searches s t s') : Promised n s' := by
  have hout := hs.consumers t hphase
  cases h with
  | @goto phase hsearching =>
    have hmine : (s.goto t phase).owed t = 1 :=
      owed_of_searching (by rw [goto_phase, hsearching])
    refine hs.consumer rfl rfl (fun p => .refl _) hs.sound (fun u hu => ?_) hout (fun u hu => ?_) ?_
    · exact goto_phase_of_ne s hu phase
    · exact owed_congr (goto_phase_of_ne s hu phase) rfl fun _ => rfl
    · rw [hmine, howed]
      rfl
  | @call p q phase hq htrying =>
    have hsub : ∀ r, r ≠ p → ((s.setSub p q).goto t phase).sub r = s.sub r :=
      fun r hr => setSub_sub_of_ne s hr q
    have hself : ((s.setSub p q).goto t phase).sub p = q := setSub_sub s p q
    have hcall := SubQueue.dequeue_spec hq
    have hmine : ((s.setSub p q).goto t phase).owed t = 1 := by
      rw [owed_of_trying (p := p) (by rw [goto_phase, htrying]), hself, hcall,
        SubQueue.goto_consumer]
      rfl
    refine hs.consumer rfl rfl (fun r => ?_) (fun r => ?_) (fun u hu => ?_) hout (fun u hu => ?_) ?_
    · rcases eq_or_ne r p with rfl | hr
      · rw [hself]
        exact SubQueue.dequeue_owner hq
      · rw [hsub r hr]
        exact .refl _
    · rcases eq_or_ne r p with rfl | hr
      · rw [hself]
        exact SubQueue.sound_call (hs.sound r) hq
      · rw [hsub r hr]
        exact hs.sound r
    · exact goto_phase_of_ne _ hu phase
    · refine owed_congr (goto_phase_of_ne _ hu phase) rfl fun r => ?_
      rcases eq_or_ne r p with rfl | hr
      · rw [hself, hcall]
        exact Function.update_of_ne hu _ _
      · rw [hsub r hr]
    · have hwon := won_setSub s p q
      have hcard : q.succeeded.card = (s.sub p).succeeded.card := by rw [hcall]; rfl
      have hgoto : ((s.setSub p q).goto t phase).won = (s.setSub p q).won := rfl
      rw [hmine, howed, hgoto]
      omega

/-- A statement in the sub-queue of `p`. -/
theorem statement (hs : Promised n s) (hn : n < 2 ^ 63) {p : P} {q : SubQueue.State α T}
    {seen : Index} (htrying : (s.phase t).trying = some p)
    (hq : SubQueue.consume (s.sub p) t seen = some q) : Promised (n + 1) (s.setSub p q) := by
  have hsub : ∀ r, r ≠ p → (s.setSub p q).sub r = s.sub r :=
    fun r hr => setSub_sub_of_ne s hr q
  have hself : (s.setSub p q).sub p = q := setSub_sub s p q
  have hphase : s.phase t ≠ .waits := by
    intro hwaits
    simp [hwaits, Phase.trying] at htrying
  refine hs.consumer (t := t) rfl rfl (fun r => ?_) (fun r => ?_) (fun _ _ => rfl)
    (hs.consumers t hphase) (fun u hu => ?_) ?_
  · rcases eq_or_ne r p with rfl | hr
    · rw [hself]
      exact SubQueue.consume_owner hq
    · rw [hsub r hr]
      exact .refl _
  · rcases eq_or_ne r p with rfl | hr
    · rw [hself]
      exact (hs.sound r).consume hn hq
    · rw [hsub r hr]
      exact (hs.sound r).mono
  · refine owed_congr rfl rfl fun r => ?_
    rcases eq_or_ne r p with rfl | hr
    · rw [hself]
      exact SubQueue.consume_others hq hu
    · rw [hsub r hr]
  · have hwon := won_setSub s p q
    have hserved := SubQueue.consume_served (hs.sound p) hq
    have hnew : (s.setSub p q).owed t = 1 - ind ConsumerPc.served (q.consumer t) := by
      rw [owed_of_trying (s := s.setSub p q) htrying, hself]
    have hold := owed_of_trying htrying
    have hle : ∀ pc : ConsumerPc α, ind ConsumerPc.served pc ≤ 1 := by
      intro pc
      unfold ind
      split <;> omega
    have hle₁ := hle (q.consumer t)
    have hle₂ := hle ((s.sub p).consumer t)
    omega

theorem settle (hs : Promised n s) {p : P} {failed : State α P T → Option (State α P T)}
    (htrying : (s.phase t).trying = some p)
    (hfailed : ∀ s', failed s = some s' → Searches s t s')
    (h : settle s t p failed = some s') : Promised n s' := by
  have hphase : s.phase t ≠ .waits := by
    intro hwaits
    simp [hwaits, Phase.trying] at htrying
  have howed := owed_of_trying htrying
  unfold BlockingQueue.settle at h
  split at h
  · rename_i item hdone
    obtain rfl := Option.some.inj h
    have hnone : s.owed t = 0 := by
      rw [howed, hdone]
      rfl
    refine hs.consumer (t := t) rfl rfl (fun r => .refl _) hs.sound (fun u hu => ?_)
      (hs.consumers t hphase) (fun u hu => ?_) ?_
    · exact goto_phase_of_ne _ hu .outside
    · exact owed_congr (goto_phase_of_ne _ hu .outside) rfl fun _ => rfl
    · rw [hnone, State.owed, goto_phase]
      rfl
  · rename_i hdone
    rw [hdone] at howed
    exact hs.searches hphase howed (hfailed s' h)
  · obtain rfl := Option.some.inj h
    exact hs

theorem consume (hs : Promised n s) (hn : n < 2 ^ 63) {seen : Index}
    (h : consume s t seen = some s') : Promised (n + 1) s' := by
  unfold BlockingQueue.consume at h
  split at h
  · rename_i best hphase
    obtain ⟨q, hq, h⟩ := Option.bind_eq_some_iff.mp h
    have htrying : (s.phase t).trying = some best := by rw [hphase]; rfl
    refine (hs.statement hn htrying hq).settle (s := s.setSub best q) htrying (fun s' hs' => ?_) h
    obtain rfl := Option.some.inj hs'
    exact .goto rfl
  · rename_i best p rest hphase
    obtain ⟨q, hq, h⟩ := Option.bind_eq_some_iff.mp h
    have htrying : (s.phase t).trying = some p := by rw [hphase]; rfl
    exact (hs.statement hn htrying hq).settle (s := s.setSub p q) htrying
      (fun s' hs' => walk_searches hs') h
  · cases h

theorem list (hs : Promised n s) {missed : Nat} (h : list s t missed = some s') :
    Promised n s' := by
  unfold BlockingQueue.list at h
  split at h
  · rename_i hphase
    exact hs.searches (by simp [hphase]) (owed_of_searching (by rw [hphase]; rfl))
      (score_searches h)
  · rename_i best hphase
    exact hs.searches (by simp [hphase]) (owed_of_searching (by rw [hphase]; rfl))
      (walk_searches h)
  · cases h

theorem size (hs : Promised n s) {tail head : Index} (h : size s t tail head = some s') :
    Promised n s' := by
  unfold BlockingQueue.size at h
  split at h
  · rename_i p rest scores hphase
    split at h
    · exact hs.searches (by simp [hphase]) (owed_of_searching (by rw [hphase]; rfl))
        (score_searches h)
    · cases h
  · cases h

/-! ### The semaphore -/

/-- A consumer's statement in the semaphore, or its call. -/
theorem waiting (hs : Promised n s) {m : LightweightSemaphore.State (P ⊕ T)} {pc : Pc}
    (hm : m.pc = s.sema.pc)
    (hstatement : LightweightSemaphore.Statement s.sema (s.sema.pc (.inr t)) m pc)
    (hsignaled : m.signaled + pc.toAdd = s.sema.signaled + (s.sema.pc (.inr t)).toAdd)
    (hquiet : pc.toAdd = 0 ∧ pc.toRelease = 0)
    (hsema : s'.sema = m.goto (.inr t) pc) (hlist : s'.producerListTail = s.producerListTail)
    (hsub : s'.sub = s.sub) (hphase : ∀ u, u ≠ t → s'.phase u = s.phase u)
    (hwaits : s'.phase t = .waits) (howed : s.owed t = 0) : Promised n s' := by
  have hpc : s'.sema.pc = Function.update s.sema.pc (.inr t) pc := by
    rw [hsema, LightweightSemaphore.pc_goto hm]
  have hother : ∀ u, u ≠ .inr t → s'.sema.pc u = s.sema.pc u := by
    intro u hu
    rw [hpc, Function.update_of_ne hu]
  have hpublished : s'.published = s.published := by rw [State.published, hsub, State.published]
  have hwon : s'.won = s.won := by rw [State.won, hsub, State.won]
  have hfields : s'.sema.signaled = m.signaled ∧ s'.sema.acquired = m.acquired := by
    rw [hsema]
    exact ⟨rfl, rfl⟩
  refine ⟨by rw [hsub]; exact hs.sound, ?_, fun p => ?_, fun u hu => ?_, fun u => ?_, ?_, ?_, ?_⟩
  · rw [hsema]
    exact (hs.balanced.statement hm hstatement).1
  · rw [hother (.inl p) (by simp)]
    exact hs.producers p
  · rcases eq_or_ne u t with rfl | hne
    · exact absurd hwaits hu
    · rw [hother (.inr u) (by simpa using hne)]
      exact hs.consumers u (by rwa [hphase u hne] at hu)
  · rcases eq_or_ne u t with rfl | hne
    · rwa [hpc, Function.update_self]
    · rw [hother (.inr u) (by simpa using hne)]
      exact hs.quiet u
  · rw [hlist, hsub]
    exact hs.registered
  · have htally := tally_update Pc.toAdd s.sema.pc (.inr t) pc
    have hold := hs.signaled_eq
    rw [hpublished, hpc, hfields.1]
    omega
  · have hmine : s'.owed t = if pc = .returned true then 1 else 0 := by
      rw [State.owed, hwaits, hpc, Function.update_self]
    have htally := tally_change id t (f := s.owed) (g := s'.owed) fun u hu =>
      owed_congr (hphase u hu) (hother (.inr u) (by simpa using hu)) fun _ => by rw [hsub]
    have hold := hs.acquired_eq
    have hacquired := hstatement.acquired_eq
    simp only [id] at htally
    rw [hwon, hfields.2]
    omega

theorem waitDequeue (hs : Promised n s) (h : waitDequeue s t = some s') : Promised n s' := by
  unfold BlockingQueue.waitDequeue at h
  split at h
  · rename_i hphase
    obtain ⟨sema, hsema, rfl⟩ := Option.map_eq_some_iff.mp h
    simp only [LightweightSemaphore.wait, Option.ite_none_right_eq_some, Option.some.injEq] at hsema
    obtain ⟨hout, rfl⟩ := hsema
    have hadd := (LightweightSemaphore.Pc.of_outside hout).2.2
    refine hs.waiting rfl (.call hout) (by rw [hadd]; rfl) ⟨rfl, rfl⟩ rfl rfl rfl
      (fun u hu => ?_) ?_ ?_
    · exact goto_phase_of_ne s hu .waits
    · exact goto_phase s t .waits
    · rw [State.owed, hphase]
  · cases h

theorem waited (hs : Promised n s) (h : waited s t = some s') : Promised n s' := by
  unfold BlockingQueue.waited at h
  split at h
  · rename_i hphase hpc
    obtain rfl := Option.some.inj h
    have hmine : (s.goto t .lists).owed t = 1 := owed_of_searching (by rw [goto_phase]; rfl)
    have howed : s.owed t = 1 := by rw [State.owed, hphase, hpc]; rfl
    refine hs.consumer rfl rfl (fun p => .refl _) hs.sound (fun u hu => ?_) (by rw [hpc]; rfl)
      (fun u hu => ?_) ?_
    · exact goto_phase_of_ne s hu .lists
    · exact owed_congr (goto_phase_of_ne s hu .lists) rfl fun _ => rfl
    · rw [hmine, howed]
      rfl
  · rename_i hphase hpc
    obtain ⟨sema, hsema, rfl⟩ := Option.map_eq_some_iff.mp h
    simp only [LightweightSemaphore.wait, Option.ite_none_right_eq_some, Option.some.injEq] at hsema
    obtain ⟨hout, rfl⟩ := hsema
    have hadd := (LightweightSemaphore.Pc.of_outside hout).2.2
    refine hs.waiting rfl (.call hout) (by rw [hadd]; rfl) ⟨rfl, rfl⟩ rfl rfl rfl
      (fun _ _ => rfl) hphase ?_
    rw [State.owed, hphase, hpc]
    rfl
  · cases h

theorem wait (hs : Promised n s) {maxSpins : Nat} {seen : Int} {ok : Bool}
    {sema : LightweightSemaphore.State (P ⊕ T)}
    (h : LightweightSemaphore.next maxSpins s.sema (.inr t) seen ok = some sema) :
    Promised n (s.setSema sema) := by
  have hinside := LightweightSemaphore.next_inside h
  obtain ⟨m, pc, hstatement, hm, rfl⟩ := LightweightSemaphore.next_statement h
  have hphase : s.phase t = .waits := by
    by_contra hne
    rw [hs.consumers t hne] at hinside
    cases hinside
  refine hs.waiting hm hstatement (hstatement.signaled_eq hinside)
    (hstatement.quiet hinside (hs.quiet t)) rfl rfl rfl (fun _ _ => rfl) hphase ?_
  have hne : s.sema.pc (.inr t) ≠ .returned true := by
    intro hpc
    rw [hpc] at hinside
    cases hinside
  rw [State.owed, hphase]
  exact if_neg hne

/-! ### The producers -/

/-- A step of a producer, with what it changes in the semaphore. -/
theorem producer (hs : Promised n s) {k : Nat} {p : P} {m : LightweightSemaphore.State (P ⊕ T)}
    {pc : Pc} (hm : m.pc = s.sema.pc)
    (hstatement : LightweightSemaphore.Statement s.sema (s.sema.pc (.inl p)) m pc)
    (hsignals : pc.signals = true) (hacquired : m.acquired = s.sema.acquired)
    (hsema : s'.sema = m.goto (.inl p) pc) (hphase : s'.phase = s.phase)
    (hsound : ∀ r, Sound k (s'.sub r))
    (hconsumer : ∀ r, (s'.sub r).consumer = (s.sub r).consumer) (hwon : s'.won = s.won)
    (hregistered : ∀ r, r ∉ s'.producerListTail →
      (s'.sub r).enqueued = [] ∧ (s'.sub r).producer = .idle)
    (hpublished : s'.published + s.sema.signaled + (s.sema.pc (.inl p)).toAdd =
      s.published + m.signaled + pc.toAdd) : Promised k s' := by
  have hpc : s'.sema.pc = Function.update s.sema.pc (.inl p) pc := by
    rw [hsema, LightweightSemaphore.pc_goto hm]
  have hother : ∀ u, u ≠ .inl p → s'.sema.pc u = s.sema.pc u := by
    intro u hu
    rw [hpc, Function.update_of_ne hu]
  have hfields : s'.sema.signaled = m.signaled ∧ s'.sema.acquired = m.acquired := by
    rw [hsema]
    exact ⟨rfl, rfl⟩
  refine ⟨hsound, ?_, fun r => ?_, fun u hu => ?_, fun u => ?_, hregistered, ?_, ?_⟩
  · rw [hsema]
    exact (hs.balanced.statement hm hstatement).1
  · rcases eq_or_ne r p with rfl | hne
    · rw [hpc, Function.update_self, hsignals]
    · rw [hother (.inl r) (by simpa using hne)]
      exact hs.producers r
  · rw [hother (.inr u) (by simp)]
    rw [hphase] at hu
    exact hs.consumers u hu
  · rw [hother (.inr u) (by simp)]
    exact hs.quiet u
  · have htally := tally_update Pc.toAdd s.sema.pc (.inl p) pc
    have hold := hs.signaled_eq
    rw [hpc, hfields.1]
    omega
  · have howed : s'.owed = s.owed := by
      funext u
      exact owed_congr (by rw [hphase]) (hother (.inr u) (by simp)) fun r => by rw [hconsumer r]
    rw [hfields.2, hacquired, hwon, howed]
    exact hs.acquired_eq

theorem signal (hs : Promised n s) {maxSpins : Nat} {p : P} {seen : Int} {ok : Bool}
    {sema : LightweightSemaphore.State (P ⊕ T)}
    (h : LightweightSemaphore.next maxSpins s.sema (.inl p) seen ok = some sema) :
    Promised n (s.setSema sema) := by
  have hinside := LightweightSemaphore.next_inside h
  obtain ⟨hsignals, hacquired⟩ := LightweightSemaphore.next_signals (hs.producers p) h
  obtain ⟨m, pc, hstatement, hm, rfl⟩ := LightweightSemaphore.next_statement h
  rw [LightweightSemaphore.pc_goto hm, Function.update_self] at hsignals
  have hsignaled := hstatement.signaled_eq hinside
  refine hs.producer hm hstatement hsignals hacquired rfl rfl hs.sound (fun _ => rfl) rfl
    hs.registered ?_
  show s.published + s.sema.signaled + _ = _
  omega

/-- A step of the owner of a sub-queue, with what it changes in the semaphore. -/
theorem owner (hs : Promised n s) {p : P} {q : SubQueue.State α T} {pc : Pc}
    (hstatement : LightweightSemaphore.Statement s.sema (s.sema.pc (.inl p)) s.sema pc)
    (hsignals : pc.signals = true) (hsound : Sound (n + 1) q) (hlisted : p ∈ s.producerListTail)
    (hconsumer : q.consumer = (s.sub p).consumer) (hsucceeded : q.succeeded = (s.sub p).succeeded)
    (htail : q.tailIndex.toNat + (s.sema.pc (.inl p)).toAdd =
      (s.sub p).tailIndex.toNat + pc.toAdd) :
    Promised (n + 1) ((s.setSub p q).setSema (s.sema.goto (.inl p) pc)) := by
  have hsub : ∀ r, r ≠ p → (s.setSub p q).sub r = s.sub r :=
    fun r hr => setSub_sub_of_ne s hr q
  have hself : (s.setSub p q).sub p = q := setSub_sub s p q
  refine hs.producer rfl hstatement hsignals rfl rfl rfl (fun r => ?_) (fun r => ?_) ?_
    (fun r hr => ?_) ?_
  · show Sound (n + 1) ((s.setSub p q).sub r)
    rcases eq_or_ne r p with rfl | hr
    · rwa [hself]
    · rw [hsub r hr]
      exact (hs.sound r).mono
  · show ((s.setSub p q).sub r).consumer = _
    rcases eq_or_ne r p with rfl | hr
    · rw [hself, hconsumer]
    · rw [hsub r hr]
  · have hwon := won_setSub s p q
    rw [hsucceeded] at hwon
    exact Nat.add_right_cancel hwon
  · have hne : r ≠ p := by
      rintro rfl
      exact hr hlisted
    show ((s.setSub p q).sub r).enqueued = _ ∧ ((s.setSub p q).sub r).producer = _
    rw [hsub r hne]
    exact hs.registered r hr
  · have hpublished : (s.setSub p q).published + (s.sub p).tailIndex.toNat =
        s.published + q.tailIndex.toNat := tally_update _ s.sub p q
    show (s.setSub p q).published + s.sema.signaled + _ = _
    omega

/-- The same where the semaphore does not change. -/
theorem owner_only (hs : Promised n s) {p : P} {q : SubQueue.State α T} (hsound : Sound (n + 1) q)
    (hlisted : p ∈ s.producerListTail) (hconsumer : q.consumer = (s.sub p).consumer)
    (hsucceeded : q.succeeded = (s.sub p).succeeded)
    (htail : q.tailIndex = (s.sub p).tailIndex) : Promised (n + 1) (s.setSub p q) := by
  have hsignals := hs.producers p
  have hne : s.sema.pc (.inl p) ≠ .returned true := by
    intro hpc
    rw [hpc] at hsignals
    cases hsignals
  have hgoto : s.sema.goto (.inl p) (s.sema.pc (.inl p)) = s.sema := by
    rw [LightweightSemaphore.State.goto, Function.update_eq_self]
  have hnext := hs.owner (p := p) (q := q) (.stay rfl rfl rfl hne) hsignals hsound hlisted hconsumer
    hsucceeded (by rw [htail])
  rwa [hgoto] at hnext

theorem enqueue (hs : Promised n s) (hn : n < 2 ^ 63) {p : P} {item : α}
    (h : enqueue s p item = some s') : Promised (n + 1) s' := by
  simp only [BlockingQueue.enqueue, Option.ite_none_right_eq_some] at h
  obtain ⟨⟨hlisted, -⟩, h⟩ := h
  obtain ⟨q, hq, rfl⟩ := Option.map_eq_some_iff.mp h
  have hsound := (hs.sound p).step (e := .enqueue item) hn hq
  obtain ⟨pc, rfl⟩ := SubQueue.enqueue_spec hq
  exact hs.owner_only hsound hlisted rfl rfl rfl

theorem produce (hs : Promised n s) (hn : n < 2 ^ 63) {p : P} {seen : Index} {allocated : Bool}
    (h : produce s p seen allocated = some s') : Promised (n + 1) s' := by
  obtain ⟨q, hq, h⟩ := Option.bind_eq_some_iff.mp h
  have hsound := (hs.sound p).produce hn hq
  have hlisted : p ∈ s.producerListTail := by
    by_contra hnot
    exact SubQueue.produce_busy hq (hs.registered p hnot).2
  split at h
  · rename_i item hitem
    obtain ⟨sema, hsema, rfl⟩ := Option.map_eq_some_iff.mp h
    simp only [LightweightSemaphore.signal, Option.ite_none_right_eq_some, Option.some.injEq]
      at hsema
    obtain ⟨hout, rfl⟩ := hsema
    have hadd := (LightweightSemaphore.Pc.of_outside hout).2.2
    have htail := (hs.sound p).drawing.tail_le
    have hq' := SubQueue.produce_publishes hitem hq
    refine hs.owner (.signal hout) rfl hsound hlisted (by rw [hq']) (by rw [hq']) ?_
    rw [hadd, hq']
    exact SubQueue.toNat_succ (by omega)
  · rename_i hnot
    obtain rfl := Option.some.inj h
    obtain ⟨pc, elements, rfl⟩ := SubQueue.produce_spec hnot hq
    exact hs.owner_only hsound hlisted rfl rfl rfl

omit [DecidableEq T] in
theorem register (hs : Promised n s) {p : P} (h : register s p = some s') : Promised n s' := by
  simp only [BlockingQueue.register, Option.ite_none_left_eq_some, Option.some.injEq] at h
  obtain ⟨-, rfl⟩ := h
  exact { hs with registered := fun r hr => hs.registered r fun hmem => hr (.tail p hmem) }

/-- **Step lemma.** -/
theorem step (hs : Promised n s) (hn : n < 2 ^ 63) {maxSpins : Nat} {e : Event α P T}
    (h : step maxSpins s e = some s') : Promised (n + 1) s' := by
  cases e with
  | register p => exact (hs.register h).mono
  | enqueue p item => exact hs.enqueue hn h
  | produce p seen allocated => exact hs.produce hn h
  | signal p seen ok =>
    obtain ⟨sema, hsema, rfl⟩ := Option.map_eq_some_iff.mp h
    exact (hs.signal hsema).mono
  | waitDequeue t => exact (hs.waitDequeue h).mono
  | wait t seen ok =>
    obtain ⟨sema, hsema, rfl⟩ := Option.map_eq_some_iff.mp h
    exact (hs.wait hsema).mono
  | waited t => exact (hs.waited h).mono
  | list t missed => exact (hs.list h).mono
  | size t tail head => exact (hs.size h).mono
  | consume t seen => exact hs.consume hn h

end Promised

/-- **Run lemma.** -/
theorem promised_run {maxSpins : Nat} {es : List (Event α P T)} {s : State α P T}
    (hlen : es.length < 2 ^ 63) (hr : Machine.run (step maxSpins) init es = some s) :
    Promised es.length s := by
  have hrun := Machine.run_history (C := fun _ _ => True)
    (J := fun es (s : State α P T) => es.length < 2 ^ 63 → Promised es.length s)
    (fun _ => promised_init) ?_ (Machine.along_true init es) hr
  · exact hrun hlen
  · intro es s e s' _ hJ _ he hlt
    rw [List.length_append, List.length_singleton] at hlt ⊢
    exact (hJ (by omega)).step (by omega) he

namespace Promised

variable {n : Nat} {s : State α P T} {t : T}

omit [DecidableEq P] [DecidableEq T] in
theorem won_le (hs : Promised n s) : s.won + tally id s.owed ≤ s.published := by
  have hpermits := hs.balanced.permits
  have hsignaled := hs.signaled_eq
  have hacquired := hs.acquired_eq
  omega

omit [DecidableEq P] [DecidableEq T] in
theorem exists_unclaimed (hs : Promised n s) (ht : 0 < s.owed t) :
    ∃ p, (s.sub p).succeeded.card < (s.sub p).tailIndex.toNat := by
  by_contra hnone
  have hall : s.published ≤ s.won := by
    refine Finset.sum_le_sum fun p _ => ?_
    exact Nat.not_lt.mp fun hlt => hnone ⟨p, hlt⟩
  have hmine : s.owed t ≤ tally id s.owed := le_tally id s.owed t
  have hle := hs.won_le
  omega

end Promised

/-- **No consumer is left beside an item.** There is an unclaimed item for each consumer that
was admitted and has none. When a consumer waits behind an empty kernel semaphore and no
producer is in `signal`, each published item is taken or there is an admitted consumer for
it. -/
theorem handoff_sound {maxSpins : Nat} {es : List (Event α P T)} {s : State α P T}
    (hlen : es.length < 2 ^ 63) (hr : Machine.run (step maxSpins) init es = some s) :
    s.won + tally id s.owed ≤ s.published ∧
      (∀ t, 0 < s.owed t →
        ∃ p, (s.sub p).succeeded.card < (s.sub p).tailIndex.toNat) ∧
      (∀ t, (s.sema.pc (.inr t)).isWaiting = true → s.sema.sema = 0 →
        (∀ p, s.sema.pc (.inl p) = .idle) → s.won + tally id s.owed = s.published) := by
  have hs := promised_run hlen hr
  refine ⟨hs.won_le, fun t ht => hs.exists_unclaimed ht, fun t ht hsema hidle => ?_⟩
  have hquiet : ∀ u, (s.sema.pc u).toAdd = 0 ∧ (s.sema.pc u).toRelease = 0 := by
    rintro (p | u)
    · rw [hidle p]
      exact ⟨rfl, rfl⟩
    · exact hs.quiet u
  have hadd : tally Pc.toAdd s.sema.pc = 0 := tally_eq_zero.mpr fun u => (hquiet u).1
  have hrelease : tally Pc.toRelease s.sema.pc = 0 := tally_eq_zero.mpr fun u => (hquiet u).2
  have hwaiting := hs.balanced.waiting
  have hpermits := hs.balanced.permits
  have hsignaled := hs.signaled_eq
  have hacquired := hs.acquired_eq
  have hpos := tally_ind_pos ht
  rw [LightweightSemaphore.State.available] at hpermits
  omega

end Balance

/-- A consumer falls asleep before the first item comes, and is woken by it. -/
def awakened : List (Event Nat Unit Unit) :=
  [.waitDequeue (), .wait () 0 true, .wait () 0 true, .register (), .enqueue () 7,
    .produce () 0 true, .produce () 0 true, .produce () 0 true, .produce () 0 true,
    .signal () 0 true, .signal () 0 true, .signal () 0 true, .wait () 0 true]

theorem handoff_sound_awakened :
    (∃ s, Machine.run (step 0) init (awakened.take 5) = some s ∧
      s.sema.pc (.inr ()) = .sleeps (-1) ∧ s.won + tally id s.owed = s.published) ∧
    ∃ s, Machine.run (step 0) init awakened = some s ∧ s.owed () = 1 ∧
      ∃ p, (s.sub p).succeeded.card < (s.sub p).tailIndex.toNat := by
  constructor
  · obtain ⟨s, hs, hsleeps, hsema, hidle⟩ : ∃ s,
        Machine.run (step 0) init (awakened.take 5) = some s ∧
          s.sema.pc (.inr ()) = .sleeps (-1) ∧ s.sema.sema = 0 ∧
          ∀ p, s.sema.pc (.inl p) = .idle := ⟨_, rfl, rfl, rfl, fun _ => rfl⟩
    exact ⟨s, hs, hsleeps,
      (handoff_sound (by decide) hs).2.2 () (by rw [hsleeps]; rfl) hsema hidle⟩
  · obtain ⟨s, hs, howed⟩ : ∃ s, Machine.run (step 0) init awakened = some s ∧ s.owed () = 1 :=
      ⟨_, rfl, rfl⟩
    exact ⟨s, hs, howed, (handoff_sound (by decide) hs).2.1 () (by omega)⟩

end BlockingQueue

end BddsBroker.Moodycamel
