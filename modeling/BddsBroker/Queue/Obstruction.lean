import BddsBroker.Queue.Custody

/-! A call on the free list that runs alone. It ends, wherever the other threads were stopped:
`try_get` gives the first node, and `add` puts its node on the list or leaves that to a thread
that has a reference. -/

namespace BddsBroker.Moodycamel.FreeList

open Tally

variable {N T : Type*} [DecidableEq N] [DecidableEq T]

/-- The latest value of the references that the thread is about to read. -/
def latestRefs (s : State N T) (t : T) : Refs :=
  match s.pc t with
  | .loadsRefs head | .raises head .. => s.freeListRefs head
  | _ => 0

/-- The thread's next statement, with the latest values. -/
def Alone (t : T) (s s' : State N T) : Prop :=
  next s t s.freeListHead (latestRefs s t) = some s'

theorem alone_rightUnique (t : T) : Relator.RightUnique (Alone (N := N) t) :=
  fun _ _ _ h h' => Option.some.inj (Eq.trans (Eq.symm h) h')

/-- A thread outside of its calls has no statement to run. -/
theorem not_alone_of_outside {s s' : State N T} {t : T} (h : (s.pc t).outside = true) :
    ¬ Alone t s s' := by
  unfold Alone next
  split <;> simp_all [Pc.outside]

section Call

variable (s : State N T) (t : T) (n : N)

omit [DecidableEq N] in
theorem goto_pc (p : Pc N) : (s.goto t p).pc t = p := by
  simp only [State.goto, Function.update_self]

omit [DecidableEq N] in
theorem goto_goto (p q : Pc N) : (s.goto t p).goto t q = s.goto t q := by
  simp only [State.goto, Function.update_idem]

/-- Taking the first node, which somebody has a reference to. -/
theorem alone_get (hhead : s.freeListHead = some n) (hrefs : s.freeListRefs n &&& refsMask ≠ 0) :
    ∃ s', Relation.ReflTransGen (Alone t) (s.goto t .getsHead) s' ∧
      s'.pc t = .returned (some n) ∧ s'.out n = true ∧
      s'.freeListHead = s.freeListNext n := by
  let raised : State N T := s.setRefs n (s.freeListRefs n + 1)
  let popped : State N T := { raised with freeListHead := s.freeListNext n }
  let lowered : State N T := { popped.setRefs n (s.freeListRefs n + 1 - 2) with
    out := Function.update s.out n true }
  have hgets : Alone t (s.goto t .getsHead) (s.goto t (.loadsRefs n)) := by
    simp only [Alone, next, goto_pc, goto_goto]
    simp [State.goto, hhead, loop]
  have hloads : Alone t (s.goto t (.loadsRefs n))
      (s.goto t (.raises n (s.freeListRefs n) hrefs)) := by
    simp only [Alone, next, latestRefs, goto_pc, goto_goto]
    exact dif_neg hrefs
  have hraises : Alone t (s.goto t (.raises n (s.freeListRefs n) hrefs))
      (raised.goto t (.loadsNext n)) := by
    simp only [Alone, next, latestRefs, goto_pc]
    simp [State.goto, State.setRefs, raised]
  have hnext : Alone t (raised.goto t (.loadsNext n))
      (raised.goto t (.pops n (s.freeListNext n))) := by
    simp only [Alone, next, goto_pc, goto_goto]
    rfl
  have hpops : Alone t (raised.goto t (.pops n (s.freeListNext n)))
      (popped.goto t (.lowersTwice n)) := by
    simp only [Alone, next, goto_pc]
    simp [State.goto, State.setRefs, raised, popped, hhead]
  have hlowers : Alone t (popped.goto t (.lowersTwice n))
      (lowered.goto t (.returned (some n))) := by
    simp only [Alone, next, goto_pc]
    simp [State.goto, State.setRefs, raised, popped, lowered]
  have hrun := Relation.ReflTransGen.single hgets |>.tail hloads |>.tail hraises
    |>.tail hnext |>.tail hpops |>.tail hlowers
  exact ⟨_, hrun, goto_pc _ _ _, Function.update_self .., rfl⟩

theorem alone_empty (hhead : s.freeListHead = none) :
    Alone t (s.goto t .getsHead) (s.goto t (.returned none)) := by
  simp only [Alone, next, goto_pc, goto_goto]
  simp [State.goto, hhead, loop]

/-- Putting a node on the list that nobody has a reference to. -/
theorem alone_add (hrefs : s.freeListRefs n = 0) :
    ∃ s', Relation.ReflTransGen (Alone t) (s.goto t (.adds n)) s' ∧ s'.pc t = .idle ∧
      s'.freeListHead = some n ∧ s'.freeListNext n = s.freeListHead := by
  let marked : State N T := s.setRefs n (s.freeListRefs n + shouldBeOnFreelist)
  let linked : State N T :=
    { marked with freeListNext := Function.update s.freeListNext n s.freeListHead }
  let counted : State N T := linked.setRefs n 1
  let pushed : State N T := { counted with freeListHead := some n }
  have hadds : Alone t (s.goto t (.adds n)) (marked.goto t (.loadsHead none n)) := by
    simp only [Alone, next, goto_pc]
    simp [State.goto, State.setRefs, marked, hrefs]
  have hloads : Alone t (marked.goto t (.loadsHead none n))
      (marked.goto t (.storesNext none n s.freeListHead)) := by
    simp only [Alone, next, goto_pc, goto_goto]
    rfl
  have hlinks : Alone t (marked.goto t (.storesNext none n s.freeListHead))
      (linked.goto t (.storesRefs none n s.freeListHead)) := by
    simp only [Alone, next, goto_pc]
    simp [State.goto, State.setRefs, marked, linked]
  have hcounts : Alone t (linked.goto t (.storesRefs none n s.freeListHead))
      (counted.goto t (.pushes none n s.freeListHead)) := by
    simp only [Alone, next, goto_pc]
    simp [State.goto, State.setRefs, marked, linked, counted]
  have hpushes : Alone t (counted.goto t (.pushes none n s.freeListHead))
      (pushed.goto t .idle) := by
    simp only [Alone, next, goto_pc]
    simp [State.goto, State.setRefs, marked, linked, counted, pushed, goBack]
  have hrun := Relation.ReflTransGen.single hadds |>.tail hloads |>.tail hlinks
    |>.tail hcounts |>.tail hpushes
  exact ⟨_, hrun, goto_pc _ _ _, rfl, Function.update_self ..⟩

theorem alone_postponed (hrefs : s.freeListRefs n ≠ 0) :
    Alone t (s.goto t (.adds n))
      ((s.setRefs n (s.freeListRefs n + shouldBeOnFreelist)).goto t .idle) := by
  simp only [Alone, next, goto_pc]
  rw [if_neg (show ¬ (s.goto t (.adds n)).freeListRefs n = 0 from hrefs)]
  simp [State.goto, State.setRefs]

end Call

variable [Fintype T]

/-- **A thread alone gets through.** Wherever the other threads are, a call of `try_get` that
runs alone and reads the latest values always takes the first node, and finds none only on an
empty list; and a call of `add` puts its node first, or marks it for another thread that has a
reference and will put it there. -/
theorem calls_alone {es : List (Event N T)} {s : State N T}
    (hthreads : Fintype.card T + 2 < 2 ^ 31) (hr : Machine.run step init es = some s) {t : T}
    (hcall : (s.pc t).outside = true) :
    (∃ m s', tryGet s t = some m ∧ Machine.EndsIn (Alone t) m s' ∧
        s'.pc t = .returned s.freeListHead ∧
        ∀ n, s.freeListHead = some n → s'.out n = true ∧ s'.freeListHead = s.freeListNext n) ∧
      ∀ n, s.out n = true → ∃ m s', add s t n = some m ∧ Machine.EndsIn (Alone t) m s' ∧
        s'.pc t = .idle ∧
        (s'.freeListHead = some n ∧ s'.freeListNext n = s.freeListHead ∨
          s'.freeListRefs n &&& shouldBeOnFreelist ≠ 0 ∧
            ∃ u, u ≠ t ∧ 0 < Pc.refs n (s'.pc u)) := by
  obtain ⟨l, h⟩ := holds_run hthreads hr
  have hends : ∀ {m s' : State N T}, Relation.ReflTransGen (Alone t) m s' →
      (s'.pc t).outside = true → Machine.EndsIn (Alone t) m s' := fun hrun hout =>
    .of_run (alone_rightUnique t) hrun fun _ => not_alone_of_outside hout
  constructor
  · refine ⟨s.goto t .getsHead, ?_⟩
    cases hhead : s.freeListHead with
    | none =>
      refine ⟨_, if_pos hcall, hends (.single (alone_empty s t hhead)) ?_, goto_pc _ _ _,
        fun n hn => ?_⟩
      · rw [goto_pc]
        rfl
      · cases hn
    | some n =>
      have hlinked := h.linked
      rw [hhead] at hlinked
      obtain ⟨rest, rfl, -⟩ := hlinked.pop
      have hcount := h.count n
      rw [List.count_cons_self] at hcount
      have hrefs : s.freeListRefs n &&& refsMask ≠ 0 :=
        mt (mask_eq_zero_iff _).mp (by omega)
      obtain ⟨s', hrun, hpc, hout, hnext⟩ := alone_get s t n hhead hrefs
      refine ⟨s', if_pos hcall, hends hrun (by rw [hpc]; rfl), hpc, fun k hk => ?_⟩
      obtain rfl := Option.some.inj hk
      exact ⟨hout, hnext⟩
  · intro n hout
    let given : State N T := { s with out := Function.update s.out n false }
    have hadd : add s t n = some (given.goto t (.adds n)) := if_pos ⟨hcall, hout⟩
    by_cases hrefs : s.freeListRefs n = 0
    · obtain ⟨s', hrun, hpc, hhead, hnext⟩ := alone_add given t n hrefs
      exact ⟨_, s', hadd, hends hrun (by rw [hpc]; rfl), hpc, .inl ⟨hhead, hnext⟩⟩
    · refine ⟨_, _, hadd, hends (.single (alone_postponed given t n hrefs)) (by rw [goto_pc]; rfl),
        goto_pc _ _ _, .inr ⟨?_, ?_⟩⟩
      · have hplace := h.place n
        rw [hout, Bool.toNat_true] at hplace
        obtain ⟨hmark, -⟩ := mark_add (r := s.freeListRefs n) (by omega)
        have hself : ((given.setRefs n (given.freeListRefs n + shouldBeOnFreelist)).goto t
            .idle).freeListRefs n = s.freeListRefs n + shouldBeOnFreelist :=
          Function.update_self ..
        rw [hself]
        exact mt (shouldBe_eq_zero_iff _).mp (by omega)
      · have hplace := h.place n
        rw [hout, Bool.toNat_true] at hplace
        have hcount := h.count n
        have hpos : 0 < tally (Pc.refs n) s.pc := by
          by_contra hzero
          exact hrefs (refs_eq_iff.mpr ⟨show _ = 0 by omega, show _ = 0 by omega⟩)
        obtain ⟨u, hu⟩ : ∃ u, Pc.refs n (s.pc u) ≠ 0 := by
          by_contra hnone
          have hzero : tally (Pc.refs n) s.pc = 0 :=
            tally_eq_zero.mpr fun u => not_not.mp fun hu => hnone ⟨u, hu⟩
          omega
        have hne : u ≠ t := by
          rintro rfl
          cases hp : s.pc u <;> simp_all [Pc.outside, Pc.refs, Pc.stake, Pc.node, Stake.nothing]
        refine ⟨u, hne, ?_⟩
        show 0 < Pc.refs n (Function.update s.pc t .idle u)
        rw [Function.update_of_ne hne]
        omega

/-- A thread that starts while the other one is about to take the node. -/
theorem calls_alone_disturbed : ∃ s m s', Machine.run step init (handedBack.take 10) = some s ∧
    tryGet s true = some m ∧ Machine.EndsIn (Alone true) m s' ∧
      s'.pc true = .returned (some ()) ∧ s'.freeListHead = none := by
  obtain ⟨s, hs, hcall, hhead, hnext⟩ : ∃ s, Machine.run step init (handedBack.take 10) = some s ∧
      (s.pc true).outside = true ∧ s.freeListHead = some () ∧ s.freeListNext () = none :=
    ⟨_, rfl, rfl, rfl, rfl⟩
  obtain ⟨⟨m, s', hget, hrun, hpc, hfirst⟩, -⟩ := calls_alone (by decide) hs hcall
  rw [hhead] at hpc
  obtain ⟨-, hleft⟩ := hfirst () hhead
  exact ⟨s, m, s', hs, hget, hrun, hpc, hleft.trans hnext⟩

end BddsBroker.Moodycamel.FreeList
