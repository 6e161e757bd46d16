import Mathlib.Logic.Basic

/-! A mutex as its owner and the threads that are inside the sections it guards. The
rules say how the two move together when one thread enters, leaves or stays. -/

namespace Mutex

variable {T : Type*} {inside inside' : T → Prop} {owner : Option T} {t : T}

/-- The owner is the thread inside, and nobody is inside when there is none. -/
def Guards (owner : Option T) (inside : T → Prop) : Prop := ∀ t, inside t ↔ owner = some t

theorem Guards.owner_eq (h : Guards owner inside) (ht : inside t) : owner = some t := (h t).mp ht

/-- **Mutual exclusion.** -/
theorem Guards.unique (h : Guards owner inside) {u : T} (ht : inside t) (hu : inside u) :
    t = u := by
  have heq : some t = some u := (h.owner_eq ht).symm.trans (h.owner_eq hu)
  exact Option.some.inj heq

/-- A thread that finds the mutex free enters. -/
theorem Guards.acquire (h : Guards none inside) (hself : inside' t)
    (hother : ∀ u, u ≠ t → (inside' u ↔ inside u)) : Guards (some t) inside' := by
  intro u
  by_cases hu : u = t
  · subst hu
    simp [hself]
  · rw [hother u hu, h u]
    simp [Ne.symm hu]

/-- The thread inside leaves. -/
theorem Guards.release (h : Guards owner inside) (ht : inside t) (hself : ¬ inside' t)
    (hother : ∀ u, u ≠ t → (inside' u ↔ inside u)) : Guards none inside' := by
  intro u
  by_cases hu : u = t
  · subst hu
    simp [hself]
  · rw [hother u hu]
    simp only [reduceCtorEq, iff_false]
    exact fun hin => hu (h.unique hin ht)

/-- A thread moves on without entering or leaving. -/
theorem Guards.stay (h : Guards owner inside) (hall : ∀ u, inside' u ↔ inside u) :
    Guards owner inside' := fun u => (hall u).trans (h u)

end Mutex
