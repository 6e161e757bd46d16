import BddsBroker.Queue.Handoff

/-! A consumer that was admitted finds its item. The search of `try_dequeue` looks at a few
sub-queues only and may be led astray by the other consumers, and `wait_dequeue` then starts
again; undisturbed, the first search succeeds, whatever the sub-queues have been through. -/

namespace BddsBroker.Moodycamel.BlockingQueue

open SubQueue (AtRest Sound)
open Tally

variable {α P T : Type*} [DecidableEq P] [DecidableEq T]

/-- The consumer's next step outside the semaphore, with the latest values. -/
def Alone (t : T) (s s' : State α P T) : Prop :=
  match s.phase t with
  | .outside | .waits => False
  | .lists | .relists _ => list s t 0 = some s'
  | .sizes p _ _ => size s t (s.sub p).tailIndex (s.sub p).headIndex = some s'
  | .triesBest p | .tries _ p _ => consume s t (SubQueue.latest (s.sub p) t) = some s'

theorem alone_rightUnique (t : T) : Relator.RightUnique (Alone (α := α) (P := P) t) := by
  intro s a b ha hb
  unfold Alone at ha hb
  split at ha
  all_goals simp_all

section Updates

variable (s : State α P T) (t : T) (p : P)

omit [DecidableEq P] in
theorem goto_goto (a b : Phase P) : (s.goto t a).goto t b = s.goto t b := by
  simp only [State.goto, Function.update_idem]

theorem setSub_goto_setSub (a : Phase P) (q r : SubQueue.State α T) :
    ((s.setSub p q).goto t a).setSub p r = (s.setSub p r).goto t a := by
  simp only [State.goto, State.setSub, Function.update_idem]

theorem callDequeue_goto (a b : Phase P) :
    callDequeue (s.goto t a) t p b = callDequeue s t p b := by
  unfold callDequeue
  refine congrArg (fun f => Option.map f _) (funext fun q => ?_)
  exact goto_goto (s.setSub p q) t a b

theorem score_goto (a : Phase P) (rest : List P) (scores : Scores P) :
    score (s.goto t a) t rest scores = score s t rest scores := by
  have hleave : score.leave (s.goto t a) t scores = score.leave s t scores := by
    unfold score.leave
    cases scores.best with
    | none => exact congrArg some (goto_goto s t a .lists)
    | some best => exact callDequeue_goto s t best a (.triesBest best)
  unfold score
  cases rest with
  | nil => exact hleave
  | cons p rest => simp only [goto_goto, hleave]

end Updates

/-! ## In the sub-queue -/

/-- A call of `dequeue` that gives an item, run by its consumer alone, ends the search. -/
theorem alone_dequeue {s : State α P T} {t : T} {b : P} {q q' : SubQueue.State α T} {item : α}
    (hrun : Relation.ReflTransGen (SubQueue.Alone t) q q')
    (hdone : q'.consumer t = .done (some item)) (hnot : ∀ i, q.consumer t ≠ .done i) :
    ∃ s', Relation.ReflTransGen (Alone t) ((s.setSub b q).goto t (.triesBest b)) s' ∧
      s'.phase t = .outside ∧ s'.received t = s.received t ++ [(b, item)] := by
  induction hrun using Relation.ReflTransGen.head_induction_on with
  | refl => exact absurd hdone (hnot _)
  | @head q r hstep hrest ih =>
    have hsub : ∀ r, ((s.setSub b r).goto t (.triesBest b)).sub b = r := setSub_sub s b
    have hconsume : ∀ s', settle ((s.setSub b r).goto t (.triesBest b)) t b
        (fun s => some (s.goto t (.relists b))) = some s' →
        Alone t ((s.setSub b q).goto t (.triesBest b)) s' := by
      intro s' hs'
      simp only [Alone, goto_phase, consume, hsub]
      rw [show SubQueue.consume q t (SubQueue.latest q t) = some r from hstep, Option.bind_some,
        setSub_goto_setSub, hs']
    by_cases hr : ∃ i, r.consumer t = .done i
    · obtain ⟨i, hi⟩ := hr
      -- A thread that has left `dequeue` does not go on.
      have hlast : r = q' := by
        rcases hrest.cases_head with rfl | ⟨m, hnext, -⟩
        · rfl
        · simp [SubQueue.Alone, SubQueue.consume, hi] at hnext
      subst hlast
      have hitem := settle_item (fun s => some (s.goto t (.relists b)))
        (show (((s.setSub b r).goto t (.triesBest b)).sub b).consumer t = .done (some item) by
          rw [hsub, hdone])
      refine ⟨_, .single (hconsume _ hitem), goto_phase _ _ _, ?_⟩
      simp [State.goto, State.setSub]
    · have hinside := settle_inside (fun s => some (s.goto t (.relists b)))
        (show ∀ i, (((s.setSub b r).goto t (.triesBest b)).sub b).consumer t ≠ .done i by
          rw [hsub]
          exact fun i hi => hr ⟨i, hi⟩)
      obtain ⟨s', hrun, hs'⟩ := ih fun i hi => hr ⟨i, hi⟩
      exact ⟨s', hrun.head (hconsume _ hinside), hs'⟩

/-! ## The scores -/

/-- The sub-queue has an element below its tail that was not taken. -/
def NonEmpty (q : SubQueue.State α T) : Prop := q.headIndex.toNat < q.tailIndex.toNat

/-- The best sub-queue so far is not empty. -/
def Right (s : State α P T) (scores : Scores P) : Prop :=
  ∀ b ∈ scores.best, NonEmpty (s.sub b)

section Sizes

variable [Fintype T] {n : Nat}

omit [DecidableEq T] in
theorem sizeApprox_pos_iff {q : SubQueue.State α T} (hq : Sound n q) (hn : n < 2 ^ 63) :
    0 < sizeApprox q.tailIndex q.headIndex ↔ NonEmpty q := by
  have htail := hq.drawing.tail_le
  have hhead := hq.head_le
  have hless := circularLessThan_iff (a := q.headIndex) (b := q.tailIndex) (by omega) (by omega)
  rw [NonEmpty, ← hless, sizeApprox]
  split
  · rename_i h
    have hsub := SubQueue.toNat_sub_of_le hhead
    have hlt := hless.mp h
    simp only [h, iff_true, BitVec.lt_def, hsub]
    exact Nat.sub_pos_of_lt hlt
  · rename_i h
    simp [h]

omit [DecidableEq P] in
theorem add_best (scores : Scores P) (p : P) (size : Index) :
    (scores.add p size).best = scores.best ∨
      (scores.add p size).best = some p ∧ 0 < size := by
  unfold Scores.add
  split_ifs with hpos hbest
  · exact .inr ⟨rfl, hpos⟩
  · exact .inl rfl
  · exact .inl rfl

omit [DecidableEq P] in
theorem add_count (scores : Scores P) (p : P) (size : Index) :
    (scores.add p size).nonEmptyCount =
      scores.nonEmptyCount + if 0 < size then 1 else 0 := by
  unfold Scores.add
  split_ifs <;> rfl

omit [DecidableEq P] [DecidableEq T] in
theorem Right.add {s : State α P T} {scores : Scores P} (hr : Right s scores) {p : P}
    (hp : Sound n (s.sub p)) (hn : n < 2 ^ 63) :
    Right s (scores.add p (sizeApprox (s.sub p).tailIndex (s.sub p).headIndex)) := by
  intro b hb
  rcases add_best scores p (sizeApprox (s.sub p).tailIndex (s.sub p).headIndex)
    with heq | ⟨heq, hpos⟩
  · exact hr b (by rwa [heq] at hb)
  · rw [heq, Option.mem_some_iff] at hb
    rw [← hb]
    exact (sizeApprox_pos_iff hp hn).mp hpos

omit [Fintype T] in
/-- The call that follows the scores. -/
theorem alone_leave {s : State α P T} {t : T} {scores : Scores P} (hright : Right s scores)
    (hfound : 0 < scores.nonEmptyCount) (hrest : ∀ p, AtRest (s.sub p)) :
    ∃ b q, NonEmpty (s.sub b) ∧ SubQueue.dequeue (s.sub b) t = some q ∧
      score.leave s t scores = some ((s.setSub b q).goto t (.triesBest b)) := by
  obtain ⟨b, hb⟩ := Option.isSome_iff_exists.mp (scores.found.mpr hfound)
  obtain ⟨i, hi⟩ := hrest b t
  have hcall : SubQueue.dequeue (s.sub b) t = some ((s.sub b).goto t .loadsTail) := by
    rw [SubQueue.dequeue, hi]
  refine ⟨b, _, hright b hb, hcall, ?_⟩
  simp only [score.leave, hb, callDequeue, hcall, Option.map_some]

/-- The first loop finds a sub-queue that is not empty when there is one. -/
theorem alone_score {s : State α P T} {t : T} (hn : n < 2 ^ 63)
    (hsound : ∀ p, Sound n (s.sub p)) (hrest : ∀ p, AtRest (s.sub p)) {rest : List P}
    {scores : Scores P} (hright : Right s scores)
    (hfound : 0 < scores.nonEmptyCount ∨ ∃ p ∈ rest, NonEmpty (s.sub p)) :
    ∃ m b q, score s t rest scores = some m ∧ NonEmpty (s.sub b) ∧
      SubQueue.dequeue (s.sub b) t = some q ∧
      Relation.ReflTransGen (Alone t) m ((s.setSub b q).goto t (.triesBest b)) := by
  induction rest generalizing scores with
  | nil =>
    have hpos : 0 < scores.nonEmptyCount := hfound.resolve_right (by simp)
    obtain ⟨b, q, hb, hq, hleave⟩ := alone_leave (t := t) hright hpos hrest
    exact ⟨_, b, q, hleave, hb, hq, .refl⟩
  | cons p rest ih =>
    by_cases hthree : scores.nonEmptyCount < 3
    · have hpositive := sizeApprox_pos_iff (hsound p) hn
      have hcount := add_count scores p (sizeApprox (s.sub p).tailIndex (s.sub p).headIndex)
      obtain ⟨m, b, q, hm, hb, hq, hrun⟩ := ih (hright.add (hsound p) hn) (by
        rcases hfound with hpos | ⟨r, hr, hne⟩
        · exact .inl (by omega)
        · rcases List.mem_cons.mp hr with rfl | hr
          · rw [if_pos (hpositive.mpr hne)] at hcount
            exact .inl (by omega)
          · exact .inr ⟨r, hr, hne⟩)
      refine ⟨s.goto t (.sizes p rest scores), b, q, ?_, hb, hq, hrun.head ?_⟩
      · simp only [score, if_pos hthree]
      · simp only [Alone, goto_phase, size, score_goto]
        exact (if_pos ⟨BitVec.le_refl _, BitVec.le_refl _⟩).trans hm
    · obtain ⟨b, q, hb, hq, hleave⟩ := alone_leave (t := t) hright (by omega) hrest
      refine ⟨_, b, q, ?_, hb, hq, .refl⟩
      simp only [score, if_neg hthree, hleave]

end Sizes

/-! ## The search -/

variable [Fintype P] [Fintype T]

/-- **An admitted consumer finds an item.** When no thread is in `dequeue`, a consumer that
starts its search, runs alone and loads the latest values always leaves `wait_dequeue` with the
oldest item of one of the producers, whatever the queue has been through. -/
theorem wait_dequeue_alone {maxSpins : Nat} {es : List (Event α P T)} {s : State α P T}
    (hlen : es.length < 2 ^ 63) (hr : Machine.run (step maxSpins) init es = some s) {t : T}
    (hphase : s.phase t = .lists) (hrest : ∀ p, AtRest (s.sub p)) :
    ∃ s' p item, Machine.EndsIn (Alone t) s s' ∧ s'.phase t = .outside ∧
      (s.sub p).enqueued[(s.sub p).headIndex.toNat]? = some item ∧
      s'.received t = s.received t ++ [(p, item)] := by
  have hs := promised_run hlen hr
  have howed : s.owed t = 1 := owed_of_searching (by rw [hphase]; rfl)
  obtain ⟨p, hp⟩ := hs.exists_unclaimed (t := t) (by omega)
  have hnonempty : NonEmpty (s.sub p) := by
    have hwon := (hs.sound p).won_eq
    unfold NonEmpty
    omega
  have hlisted : p ∈ s.producerListTail := by
    by_contra hnot
    have htail := (hs.sound p).holding.tail_eq
    rw [(hs.registered p hnot).1, List.length_nil] at htail
    omega
  have hright : Right s (Scores.none : Scores P) := by simp [Right, Scores.none]
  obtain ⟨m, b, q, hm, hb, hq, hrun⟩ := alone_score (t := t) hlen hs.sound hrest
    hright (.inr ⟨p, hlisted, hnonempty⟩)
  obtain ⟨q₀, q', hq₀, hrun', hdone, -, -⟩ := SubQueue.call_alone (hs.sound b) hlen (hrest b) t
  obtain rfl := Option.some.inj (hq.symm.trans hq₀)
  have hlt : (s.sub b).headIndex.toNat < (s.sub b).enqueued.length := by
    have htail := (hs.sound b).holding.tail_eq
    unfold NonEmpty at hb
    omega
  rw [List.getElem?_eq_getElem hlt] at hdone
  obtain ⟨s', hfinal, houtside, hreceived⟩ := alone_dequeue (s := s) (b := b) hrun' hdone (by
    rw [SubQueue.dequeue_spec hq, SubQueue.goto_consumer]
    exact fun i hi => nomatch hi)
  have hfirst : Alone t s m := by
    simp only [Alone, hphase, list, List.drop_zero]
    exact hm
  refine ⟨s', b, _, .of_run (alone_rightUnique t) ((hrun.head hfirst).trans hfinal)
    fun m' hm' => ?_, houtside, List.getElem?_eq_getElem hlt, hreceived⟩
  simp [Alone, houtside] at hm'

/-- The consumer that was woken by the first item. -/
theorem wait_dequeue_alone_awakened : ∃ s s' : State Nat Unit Unit,
    Machine.run (step 0) init (awakened ++ [.waited ()]) = some s ∧
      Machine.EndsIn (Alone ()) s s' ∧ s'.phase () = .outside ∧
      s'.received () = [((), 7)] := by
  obtain ⟨s, hs, hphase, hrest, hsub, hreceived⟩ : ∃ s : State Nat Unit Unit,
      Machine.run (step 0) init (awakened ++ [.waited ()]) = some s ∧ s.phase () = .lists ∧
        (∀ p, AtRest (s.sub p)) ∧ (s.sub ()).enqueued[(s.sub ()).headIndex.toNat]? = some 7 ∧
        s.received () = [] :=
    ⟨_, rfl, rfl, fun _ _ => ⟨none, rfl⟩, rfl, rfl⟩
  obtain ⟨s', _, item, hrun, hout, hitem, hgot⟩ :=
    wait_dequeue_alone (show (awakened ++ [Event.waited ()]).length < 2 ^ 63 by decide) hs hphase
      hrest
  obtain rfl := Option.some.inj (hsub.symm.trans hitem)
  exact ⟨s, s', hs, hrun, hout, by rw [hgot, hreceived]; rfl⟩

end BddsBroker.Moodycamel.BlockingQueue
