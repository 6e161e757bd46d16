import Mathlib.Logic.Relation

/-! Postconditions of programs that change a state and may stop early. A program is an
`EStateM`: it ends with a value or with the reason it stopped, and in both cases with
a state, so what was done before the stop stays done. `Ends` gives one postcondition
for each of the two; the rules below push it through a program statement by statement.
`Moves` bounds what a program can do to the state without saying how it ends. -/

namespace Program

variable {ε σ α β : Type}

/-- Run from `s`, the program ends in `Q`, or stops early in `E`. -/
def Ends (x : EStateM ε σ α) (s : σ) (Q : α → σ → Prop) (E : ε → σ → Prop) : Prop :=
  match x s with
  | .ok a s' => Q a s'
  | .error e s' => E e s'

/-- A result that may be an error, as a program. -/
def ofExcept {δ : Type} (f : δ → ε) : Except δ α → EStateM ε σ α
  | .ok a => pure a
  | .error d => throw (f d)

theorem except_pure {δ : Type} (a : α) : (pure a : Except δ α) = .ok a := rfl

theorem ok_bind {δ : Type} (a : α) (f : α → Except δ β) : (Except.ok a >>= f) = f a := rfl

theorem error_bind {δ : Type} (d : δ) (f : α → Except δ β) :
    (Except.error d >>= f) = .error d := rfl

/-- A result of two calls in a row is one of both. -/
theorem bind_eq_ok {δ : Type} {x : Except δ α} {f : α → Except δ β} {b : β} :
    (x >>= f) = .ok b ↔ ∃ a, x = .ok a ∧ f a = .ok b := by
  cases x with
  | error d => simp [error_bind]
  | ok a => simp [ok_bind]

@[simp] theorem ends_pure {a : α} {s : σ} {Q : α → σ → Prop} {E : ε → σ → Prop} :
    Ends (pure a) s Q E ↔ Q a s := Iff.rfl

@[simp] theorem ends_throw {e : ε} {s : σ} {Q : α → σ → Prop} {E : ε → σ → Prop} :
    Ends (throw e) s Q E ↔ E e s := Iff.rfl

@[simp] theorem ends_get {s : σ} {Q : σ → σ → Prop} {E : ε → σ → Prop} :
    Ends (get : EStateM ε σ σ) s Q E ↔ Q s s := Iff.rfl

@[simp] theorem ends_modify {f : σ → σ} {s : σ} {Q : PUnit → σ → Prop} {E : ε → σ → Prop} :
    Ends (modify f : EStateM ε σ PUnit) s Q E ↔ Q () (f s) := Iff.rfl

@[simp] theorem ends_modifyGet {f : σ → α × σ} {s : σ} {Q : α → σ → Prop} {E : ε → σ → Prop} :
    Ends (modifyGet f : EStateM ε σ α) s Q E ↔ Q (f s).1 (f s).2 := Iff.rfl

@[simp] theorem ends_ofExcept_ok {δ : Type} {f : δ → ε} {a : α} {s : σ} {Q : α → σ → Prop}
    {E : ε → σ → Prop} : Ends (ofExcept f (.ok a)) s Q E ↔ Q a s := Iff.rfl

@[simp] theorem ends_ofExcept_error {δ : Type} {f : δ → ε} {d : δ} {s : σ} {Q : α → σ → Prop}
    {E : ε → σ → Prop} : Ends (ofExcept f (.error d)) s Q E ↔ E (f d) s := Iff.rfl

/-- **Sequencing.** The first program's postcondition is the second one's claim. -/
@[simp] theorem ends_bind {x : EStateM ε σ α} {f : α → EStateM ε σ β} {s : σ}
    {Q : β → σ → Prop} {E : ε → σ → Prop} :
    Ends (x >>= f) s Q E ↔ Ends x s (fun a s' => Ends (f a) s' Q E) E := by
  show (match EStateM.bind x f s with | .ok a s' => Q a s' | .error e s' => E e s') ↔ _
  unfold EStateM.bind Ends
  cases x s <;> rfl

theorem Ends.imp {x : EStateM ε σ α} {s : σ} {Q Q' : α → σ → Prop} {E E' : ε → σ → Prop}
    (h : Ends x s Q E) (hQ : ∀ a s', Q a s' → Q' a s') (hE : ∀ e s', E e s' → E' e s') :
    Ends x s Q' E' := by
  unfold Ends at *
  cases hx : x s with
  | ok a s' =>
    rw [hx] at h
    exact hQ a s' h
  | error e s' =>
    rw [hx] at h
    exact hE e s' h

theorem Ends.eq_ok {x : EStateM ε σ α} {s s' : σ} {a : α}
    (h : Ends x s (fun b t => b = a ∧ t = s') fun _ _ => False) : x s = .ok a s' := by
  unfold Ends at h
  cases hx : x s with
  | ok b t =>
    rw [hx] at h
    rw [h.1, h.2]
  | error e t =>
    rw [hx] at h
    exact h.elim

/-! ## Programs that do not stop

The postcondition of the runs that come to their end; a run that stops early meets it
trivially, so a call can be taken to have given a result. -/

abbrev Returns (x : EStateM ε σ α) (s : σ) (Q : α → σ → Prop) : Prop := Ends x s Q fun _ _ => True

theorem returns_iff {x : EStateM ε σ α} {s : σ} {Q : α → σ → Prop} :
    Returns x s Q ↔ ∀ a s', x s = .ok a s' → Q a s' := by
  unfold Returns Ends
  cases x s with
  | ok a s' => simp
  | error e s' => simp

theorem returns_ofExcept {δ : Type} {f : δ → ε} {r : Except δ α} {s : σ} {Q : α → σ → Prop} :
    Returns (ofExcept f r) s Q ↔ ∀ a, r = .ok a → Q a s := by
  cases r with
  | ok a => simp
  | error d => simp

/-! ## Programs as moves

What a program does to a part of the state, seen through `g`, is a sequence of moves
of a relation, however the program ends, and it stops early only for reasons in `P`. -/

section Moves

variable {τ : Type} {g : σ → τ} {R R' : τ → τ → Prop} {P P' : ε → Prop}

def Moves (g : σ → τ) (R : τ → τ → Prop) (P : ε → Prop) (x : EStateM ε σ α) : Prop :=
  ∀ s, Ends x s (fun _ s' => Relation.ReflTransGen R (g s) (g s'))
    (fun e s' => P e ∧ Relation.ReflTransGen R (g s) (g s'))

/-- What every move leaves alone, a sequence of them does. -/
theorem kept {γ : Type} {f : τ → γ} (h : ∀ a b, R a b → f b = f a) {a b : τ}
    (hab : Relation.ReflTransGen R a b) : f b = f a := by
  induction hab with
  | refl => rfl
  | tail _ hbc ih => exact (h _ _ hbc).trans ih

theorem moves_pure (a : α) : Moves g R P (pure a : EStateM ε σ α) := fun _ => .refl

theorem moves_throw {e : ε} (he : P e) : Moves g R P (throw e : EStateM ε σ α) :=
  fun _ => ⟨he, .refl⟩

theorem moves_get : Moves g R P (get : EStateM ε σ σ) := fun _ => .refl

theorem moves_modify {f : σ → σ} (h : ∀ s, R (g s) (g (f s))) :
    Moves g R P (modify f : EStateM ε σ PUnit) := fun s => .single (h s)

theorem moves_modify_same {f : σ → σ} (h : ∀ s, g (f s) = g s) :
    Moves g R P (modify f : EStateM ε σ PUnit) := fun s => by
  rw [ends_modify, h s]

theorem moves_modifyGet {f : σ → α × σ} (h : ∀ s, R (g s) (g (f s).2)) :
    Moves g R P (modifyGet f : EStateM ε σ α) := fun s => .single (h s)

theorem Moves.bind {x : EStateM ε σ α} {f : α → EStateM ε σ β} (hx : Moves g R P x)
    (hf : ∀ a, Moves g R P (f a)) : Moves g R P (x >>= f) := by
  intro s
  rw [ends_bind]
  refine (hx s).imp (fun a s' hs => ?_) fun e s' hs => hs
  exact (hf a s').imp (fun _ _ hs' => hs.trans hs') fun _ _ hs' => ⟨hs'.1, hs.trans hs'.2⟩

/-- After a call only its result matters. -/
theorem moves_ofExcept_bind {δ : Type} {f : δ → ε} (hf : ∀ d, P (f d)) {r : Except δ α}
    {k : α → EStateM ε σ β} (h : ∀ a, r = .ok a → Moves g R P (k a)) :
    Moves g R P (ofExcept f r >>= k) := by
  intro s
  rw [ends_bind]
  cases r with
  | ok a => exact h a rfl s
  | error d => exact ⟨hf d, .refl⟩

theorem moves_ofExcept {δ : Type} {f : δ → ε} (hf : ∀ d, P (f d)) (r : Except δ α) :
    Moves g R P (ofExcept f r) := by
  cases r with
  | ok a => exact moves_pure a
  | error d => exact moves_throw (hf d)

theorem Moves.mono {x : EStateM ε σ α} (hx : Moves g R P x) (hR : ∀ a b, R a b → R' a b)
    (hP : ∀ e, P e → P' e) : Moves g R' P' x :=
  fun s => (hx s).imp (fun _ s' => Relation.ReflTransGen.mono hR (g s) (g s'))
    fun e s' h => ⟨hP e h.1, Relation.ReflTransGen.mono hR (g s) (g s') h.2⟩

end Moves

end Program
