import Mathlib.Data.List.Induction
import Mathlib.Logic.Relation

/-! Labelled machines: a partial step function, its runs over a list of labels, and
the induction rules that carry an invariant or a simulation along a run. A run may
be restricted to steps that meet a side condition; `Along` says that all do. -/

namespace Machine

variable {σ ε : Type*}

/-- Take the labels in order. The run is refused when one of its steps is. -/
def run (step : σ → ε → Option σ) : σ → List ε → Option σ
  | s, [] => some s
  | s, e :: es => (step s e).bind fun s' => run step s' es

/-- Every step that the run takes meets the condition `C`. -/
def Along (step : σ → ε → Option σ) (C : σ → ε → Prop) : σ → List ε → Prop
  | _, [] => True
  | s, e :: es => C s e ∧ ∀ s', step s e = some s' → Along step C s' es

def Reachable (step : σ → ε → Option σ) (s s' : σ) : Prop :=
  ∃ es, run step s es = some s'

variable {step : σ → ε → Option σ} {C : σ → ε → Prop} {I : σ → Prop}

instance Along.decidable [∀ s e, Decidable (C s e)] :
    ∀ (s : σ) (es : List ε), Decidable (Along step C s es)
  | _, [] => isTrue trivial
  | s, e :: es =>
      match h : step s e with
      | none => decidable_of_iff (C s e) (by simp [Along, h])
      | some m =>
          have := Along.decidable m es
          decidable_of_iff (C s e ∧ Along step C m es) (by simp [Along, h])

@[simp] theorem run_nil (s : σ) : run step s [] = some s := rfl

theorem run_cons_eq_some {s s' : σ} {e : ε} {es : List ε} :
    run step s (e :: es) = some s' ↔ ∃ m, step s e = some m ∧ run step m es = some s' := by
  simp [run, Option.bind_eq_some_iff]

theorem run_append (s : σ) (es fs : List ε) :
    run step s (es ++ fs) = (run step s es).bind fun m => run step m fs := by
  induction es generalizing s with
  | nil => rfl
  | cons e es ih =>
    simp only [List.cons_append, run, Option.bind_assoc]
    congr 1
    funext m
    exact ih m

theorem run_snoc {s m s' : σ} {es : List ε} {e : ε} (hr : run step s es = some m)
    (he : step m e = some s') : run step s (es ++ [e]) = some s' := by
  simp [run_append, hr, run, he]

theorem along_append (s : σ) (es fs : List ε) :
    Along step C s (es ++ fs) ↔
      Along step C s es ∧ ∀ m, run step s es = some m → Along step C m fs := by
  induction es generalizing s with
  | nil => simp [Along]
  | cons e es ih =>
    simp only [List.cons_append, Along, run_cons_eq_some]
    constructor
    · rintro ⟨hc, h⟩
      refine ⟨⟨hc, fun m hm => ((ih m).mp (h m hm)).1⟩, ?_⟩
      rintro s' ⟨m, hm, hr⟩
      exact ((ih m).mp (h m hm)).2 s' hr
    · rintro ⟨⟨hc, h⟩, hf⟩
      exact ⟨hc, fun m hm => (ih m).mpr ⟨h m hm, fun s' hr => hf s' ⟨m, hm, hr⟩⟩⟩

theorem along_true (s : σ) (es : List ε) : Along step (fun _ _ => True) s es := by
  induction es generalizing s with
  | nil => trivial
  | cons e es ih => exact ⟨trivial, fun m _ => ih m⟩

/-- A condition on the labels alone. -/
theorem along_of_forall {D : ε → Prop} {es : List ε} (h : ∀ e ∈ es, D e) (s : σ) :
    Along step (fun _ e => D e) s es := by
  induction es generalizing s with
  | nil => trivial
  | cons e es ih =>
    obtain ⟨he, hes⟩ := List.forall_mem_cons.mp h
    exact ⟨he, fun m _ => ih hes m⟩

/-- Two conditions that agree where an invariant holds restrict runs alike. -/
theorem along_iff {D : σ → ε → Prop} (hiff : ∀ s e, I s → (C s e ↔ D s e))
    (hstep : ∀ s e s', I s → C s e → step s e = some s' → I s') {s : σ} (hs : I s)
    (es : List ε) : Along step C s es ↔ Along step D s es := by
  induction es generalizing s with
  | nil => exact Iff.rfl
  | cons e es ih =>
    unfold Along
    rw [← hiff s e hs]
    exact and_congr_right fun hc => forall₂_congr fun s' he => ih (hstep s e s' hs hc he)

/-- **Invariant rule.** What every admitted step preserves, every admitted run does. -/
theorem run_invariant
    (hstep : ∀ s e s', I s → C s e → step s e = some s' → I s')
    {s s' : σ} {es : List ε} (hs : I s) (hc : Along step C s es)
    (hr : run step s es = some s') : I s' := by
  induction es generalizing s with
  | nil =>
    simp only [run_nil, Option.some.injEq] at hr
    exact hr ▸ hs
  | cons e es ih =>
    obtain ⟨m, hm, hr⟩ := run_cons_eq_some.mp hr
    exact ih (hstep s e m hs hc.1 hm) (hc.2 m hm) hr

theorem reachable_invariant
    (hstep : ∀ s e s', I s → step s e = some s' → I s')
    {s s' : σ} (hs : I s) (hr : Reachable step s s') : I s' := by
  obtain ⟨es, hr⟩ := hr
  exact run_invariant (fun s e s' hs _ he => hstep s e s' hs he) hs (along_true s es) hr

theorem Reachable.snoc {s m s' : σ} {e : ε} (hr : Reachable step s m)
    (he : step m e = some s') : Reachable step s s' := by
  obtain ⟨es, hr⟩ := hr
  exact ⟨es ++ [e], run_snoc hr he⟩

theorem Reachable.trans {s m s' : σ} (hr : Reachable step s m) (hr' : Reachable step m s') :
    Reachable step s s' := by
  obtain ⟨es, hes⟩ := hr
  obtain ⟨fs, hfs⟩ := hr'
  exact ⟨es ++ fs, by rw [run_append, hes]; exact hfs⟩

/-- **History rule.** A relation between the labels so far and the state. -/
theorem run_history {J : List ε → σ → Prop} {s₀ s : σ} {es : List ε} (hinit : J [] s₀)
    (hstep : ∀ es s e s', run step s₀ es = some s → J es s → C s e → step s e = some s' →
      J (es ++ [e]) s')
    (hc : Along step C s₀ es) (hr : run step s₀ es = some s) : J es s := by
  induction es using List.reverseRecOn generalizing s with
  | nil =>
    simp only [run_nil, Option.some.injEq] at hr
    exact hr ▸ hinit
  | append_singleton es e ih =>
    rw [run_append] at hr
    obtain ⟨m, hm, hr⟩ := Option.bind_eq_some_iff.mp hr
    obtain ⟨s', hs', hr⟩ := run_cons_eq_some.mp hr
    obtain rfl := Option.some.inj hr
    obtain ⟨hces, hce⟩ := (along_append s₀ es [e]).mp hc
    exact hstep es m e s' hm (ih hces hm) (hce m hm).1 hs'

/-- **Exactness rule.** When a step under the condition keeps an invariant that makes the
state good, and no other step leads to good states only, then the runs that pass good
states only are those whose steps all meet the condition. -/
theorem forall_good_iff_along {G : σ → Prop} (hgood : ∀ s, I s → G s)
    (hstep : ∀ s e s', I s → C s e → step s e = some s' → I s')
    (hcond : ∀ s e, I s → (∀ s', step s e = some s' → G s') → C s e) {s : σ} (hs : I s)
    (es : List ε) :
    (∀ fs m, fs <+: es → run step s fs = some m → G m) ↔ Along step C s es := by
  constructor
  · intro h
    induction es generalizing s with
    | nil => trivial
    | cons e es ih =>
      have hc : C s e := hcond s e hs fun s' he =>
        h [e] s' ⟨es, rfl⟩ (run_cons_eq_some.mpr ⟨s', he, rfl⟩)
      refine ⟨hc, fun s' he => ih (hstep s e s' hs hc he) fun fs m hfs hr => ?_⟩
      exact h (e :: fs) m (List.cons_prefix_cons.mpr ⟨rfl, hfs⟩)
        (run_cons_eq_some.mpr ⟨s', he, hr⟩)
  · rintro hc fs m ⟨gs, rfl⟩ hr
    exact hgood m (run_invariant hstep hs ((along_append s fs gs).mp hc).1 hr)

/-- The sum of what the steps of a run weigh. -/
def total (step : σ → ε → Option σ) (weight : σ → ε → σ → Nat) : σ → List ε → Nat
  | _, [] => 0
  | s, e :: es =>
      match step s e with
      | none => 0
      | some s' => weight s e s' + total step weight s' es

/-- When each step weighs one or nothing by its label, the run weighs the count. -/
theorem total_eq_countP {weight : σ → ε → σ → Nat} {c : ε → Bool}
    (hstep : ∀ s e s', I s → C s e → step s e = some s' → I s')
    (hweight : ∀ s e s', I s → C s e → step s e = some s' →
      weight s e s' = if c e then 1 else 0)
    {s s' : σ} {es : List ε} (hs : I s) (hc : Along step C s es) (hr : run step s es = some s') :
    total step weight s es = es.countP c := by
  induction es generalizing s with
  | nil => rfl
  | cons e es ih =>
    obtain ⟨m, hm, hr⟩ := run_cons_eq_some.mp hr
    have hrest := ih (hstep s e m hs hc.1 hm) (hc.2 m hm) hr
    have hfirst := hweight s e m hs hc.1 hm
    simp only [total, hm, List.countP_cons, hfirst, hrest]
    omega

/-- **Termination rule.** A measure that every step lowers bounds the length of a run. -/
theorem length_le_of_measure {μ : σ → Nat} (hstep : ∀ s e s', I s → step s e = some s' → I s')
    (hlower : ∀ s e s', I s → step s e = some s' → μ s' < μ s) {s s' : σ} {es : List ε}
    (hs : I s) (hr : run step s es = some s') : es.length + μ s' ≤ μ s := by
  induction es generalizing s with
  | nil =>
    simp only [run_nil, Option.some.injEq] at hr
    simp [hr]
  | cons e es ih =>
    obtain ⟨m, hm, hr⟩ := run_cons_eq_some.mp hr
    have hrest := ih (hstep s e m hs hm) hr
    have hfirst := hlower s e m hs hm
    simp only [List.length_cons]
    omega

/-- What some step of every state preserves has runs of every length. -/
theorem exists_run_of_length (hstep : ∀ s, I s → ∃ e s', step s e = some s' ∧ I s') {s : σ}
    (hs : I s) (n : Nat) : ∃ es s', es.length = n ∧ run step s es = some s' ∧ I s' := by
  induction n generalizing s with
  | zero => exact ⟨[], s, rfl, rfl, hs⟩
  | succ n ih =>
    obtain ⟨e, m, he, hm⟩ := hstep s hs
    obtain ⟨es, s', hlen, hr, hs'⟩ := ih hm
    exact ⟨e :: es, s', by simp [hlen], run_cons_eq_some.mpr ⟨m, he, hr⟩, hs'⟩

/-- **Simulation rule.** An admitted run is matched by moves of an abstract system. -/
theorem run_simulation {τ : Type*} {A : τ → τ → Prop} {R : σ → τ → Prop}
    (hsim : ∀ s e s' a, R s a → C s e → step s e = some s' →
      ∃ a', Relation.ReflTransGen A a a' ∧ R s' a')
    {s s' : σ} {a : τ} {es : List ε} (hR : R s a) (hc : Along step C s es)
    (hr : run step s es = some s') :
    ∃ a', Relation.ReflTransGen A a a' ∧ R s' a' := by
  refine run_invariant (I := fun s => ∃ a', Relation.ReflTransGen A a a' ∧ R s a')
    ?_ ⟨a, .refl, hR⟩ hc hr
  rintro s e s' ⟨b, hb, hRb⟩ hC he
  obtain ⟨a', ha', hRa⟩ := hsim s e s' b hRb hC he
  exact ⟨a', hb.trans ha', hRa⟩

/-! ## Runs without a choice -/

/-- Every run of `r` from `s` goes on to `s'` and ends there. -/
def EndsIn (r : σ → σ → Prop) (s s' : σ) : Prop :=
  (∀ m, Relation.ReflTransGen r s m → Relation.ReflTransGen r m s') ∧ ∀ m, ¬ r s' m

/-- Where each state has one successor at most, one run to the end is every run. -/
theorem EndsIn.of_run {r : σ → σ → Prop} (hr : Relator.RightUnique r) {s s' : σ}
    (hrun : Relation.ReflTransGen r s s') (hend : ∀ m, ¬ r s' m) : EndsIn r s s' := by
  refine ⟨fun m hm => ?_, hend⟩
  rcases hrun.total_of_right_unique hr hm with hback | honward
  · rcases hback.cases_head with rfl | ⟨m', hm', -⟩
    · exact .refl
    · exact absurd hm' (hend m')
  · exact honward

end Machine
