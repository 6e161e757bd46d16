import Mathlib.Algebra.BigOperators.Group.Finset.Basic
import Mathlib.Algebra.Order.BigOperators.Group.Finset
import Mathlib.Data.Fintype.BigOperators

/-! Weights summed over a finite family of processes. A step changes one process,
so it changes the sum by the difference of two weights. -/

namespace Tally

variable {T α : Type*} [Fintype T]

/-- The total weight of the processes in the positions `f`. -/
def tally (w : α → Nat) (f : T → α) : Nat := ∑ t, w (f t)

/-- Weight one for the positions in `p`. -/
def ind (p : α → Bool) (a : α) : Nat := if p a then 1 else 0

theorem tally_update [DecidableEq T] (w : α → Nat) (f : T → α) (t : T) (a : α) :
    tally w (Function.update f t a) + w (f t) = tally w f + w a := by
  have hrest : ∑ u ∈ Finset.univ.erase t, w (Function.update f t a u) =
      ∑ u ∈ Finset.univ.erase t, w (f u) := by
    apply Finset.sum_congr rfl
    intro u hu
    rw [Function.update_of_ne (Finset.ne_of_mem_erase hu)]
  have hnew := Finset.add_sum_erase Finset.univ (fun u => w (Function.update f t a u))
    (Finset.mem_univ t)
  have hold := Finset.add_sum_erase Finset.univ (fun u => w (f u)) (Finset.mem_univ t)
  simp only [Function.update_self, hrest] at hnew
  unfold tally
  omega

/-- The same for a step of which only the other processes' positions are known. -/
theorem tally_change (w : α → Nat) {f g : T → α} (t : T) (h : ∀ u, u ≠ t → g u = f u) :
    tally w g + w (f t) = tally w f + w (g t) := by
  classical
  have hg : g = Function.update f t (g t) := by
    funext u
    by_cases hu : u = t
    · rw [hu, Function.update_self]
    · rw [Function.update_of_ne hu, h u hu]
  have hupdate := tally_update w f t (g t)
  rwa [← hg] at hupdate

theorem le_tally (w : α → Nat) (f : T → α) (t : T) : w (f t) ≤ tally w f :=
  Finset.single_le_sum (f := fun u => w (f u)) (fun _ _ => Nat.zero_le _) (Finset.mem_univ t)

theorem add_le_tally [DecidableEq T] (w : α → Nat) (f : T → α) {t u : T} (h : u ≠ t) :
    w (f u) + w (f t) ≤ tally w f := by
  rw [tally, ← Finset.sum_pair h (f := fun v => w (f v))]
  exact Finset.sum_le_sum_of_subset (Finset.subset_univ _)

theorem tally_mono {w v : α → Nat} (h : ∀ a, w a ≤ v a) (f : T → α) : tally w f ≤ tally v f :=
  Finset.sum_le_sum fun t _ => h (f t)

theorem tally_eq_zero {w : α → Nat} {f : T → α} : tally w f = 0 ↔ ∀ t, w (f t) = 0 := by
  simp [tally, Finset.sum_eq_zero_iff]

/-- A change of position that no process' weight notices leaves the total alone. -/
theorem tally_comp {w : α → Nat} {g : α → α} (hg : ∀ a, w (g a) = w a) (f : T → α) :
    tally w (fun t => g (f t)) = tally w f := by
  simp [tally, hg]

theorem tally_ind (p : α → Bool) (f : T → α) :
    tally (ind p) f = (Finset.univ.filter fun t => p (f t) = true).card := by
  simp only [tally, ind, Finset.card_filter]

theorem tally_ind_pos {p : α → Bool} {f : T → α} {t : T} (h : p (f t) = true) :
    0 < tally (ind p) f := by
  have hle := le_tally (ind p) f t
  simp only [ind, h, if_true] at hle
  omega

theorem eq_of_tally_ind_le_one {p : α → Bool} {f : T → α} (h : tally (ind p) f ≤ 1) {t u : T}
    (ht : p (f t) = true) (hu : p (f u) = true) : t = u := by
  rw [tally_ind] at h
  exact Finset.card_le_one.mp h t (by simpa using ht) u (by simpa using hu)

theorem exists_ne_of_one_lt_tally_ind {p : α → Bool} {f : T → α} (h : 1 < tally (ind p) f)
    (t : T) : ∃ u, u ≠ t ∧ p (f u) = true := by
  rw [tally_ind] at h
  obtain ⟨u, hu, hne⟩ := Finset.exists_mem_ne h t
  exact ⟨u, hne, by simpa using hu⟩

end Tally
