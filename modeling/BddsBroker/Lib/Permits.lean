import Mathlib.Logic.Relation

/-! A counting semaphore in the abstract: a number of permits that are taken one at a time
and given back in any number. -/

namespace Permits

structure State where
  available : Nat
  acquired : Nat
  released : Nat
  deriving DecidableEq, Repr

attribute [ext] State

def start (initial : Nat) : State := ⟨initial, 0, 0⟩

inductive Step : State → State → Prop
  | acquire {a : State} (h : 0 < a.available) :
      Step a { a with available := a.available - 1, acquired := a.acquired + 1 }
  | release {a : State} (n : Nat) :
      Step a { a with available := a.available + n, released := a.released + n }

theorem Step.of_acquired {a b : State} (havailable : b.available + 1 = a.available)
    (hacquired : b.acquired = a.acquired + 1) (hreleased : b.released = a.released) :
    Step a b := by
  have heq : b = { a with available := a.available - 1, acquired := a.acquired + 1 } := by
    ext <;> simp only <;> omega
  rw [heq]
  exact .acquire (by omega)

theorem Step.of_released {a b : State} {n : Nat} (havailable : b.available = a.available + n)
    (hacquired : b.acquired = a.acquired) (hreleased : b.released = a.released + n) :
    Step a b := by
  have heq : b = { a with available := a.available + n, released := a.released + n } := by
    ext <;> simp only <;> omega
  rw [heq]
  exact .release n

theorem Step.balance {a b : State} (h : Step a b) :
    b.available + b.acquired + a.released = a.available + a.acquired + b.released := by
  cases h with
  | acquire h => simp only; omega
  | release n => simp only; omega

/-- **Conservation.** No permit is taken twice and none is lost. -/
theorem balance {initial : Nat} {a : State} (h : Relation.ReflTransGen Step (start initial) a) :
    a.available + a.acquired = initial + a.released := by
  induction h with
  | refl => rfl
  | tail _ hstep ih =>
    have hb := hstep.balance
    omega

end Permits
