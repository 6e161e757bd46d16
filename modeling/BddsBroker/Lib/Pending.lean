import Mathlib.Data.List.Induction
import Mathlib.Logic.Function.Basic

/-! A store of pending items. Items are put under a key and released by it; what is
pending after a history is, for each key, the item put last and not released since. -/

namespace Pending

variable {K V : Type*} [DecidableEq K]

inductive Event (K V : Type*)
  | put (k : K) (v : V)
  | release (k : K)
  | skip

/-- The event puts or releases an item of the key. -/
def Event.Concerns (k : K) : Event K V → Prop
  | .put k' _ | .release k' => k' = k
  | .skip => False

def apply (m : K → Option V) : Event K V → K → Option V
  | .put k v => Function.update m k (some v)
  | .release k => Function.update m k none
  | .skip => m

def pending (h : List (Event K V)) : K → Option V := h.foldl apply fun _ => none

@[simp] theorem pending_snoc (h : List (Event K V)) (e : Event K V) :
    pending (h ++ [e]) = apply (pending h) e := by
  simp [pending]

/-- The item was put last under that key and not released since. -/
def Latest (k : K) (v : V) (h : List (Event K V)) : Prop :=
  ∃ pre post, h = pre ++ .put k v :: post ∧ ∀ e ∈ post, ¬ e.Concerns k

theorem apply_of_not_concerns {m : K → Option V} {e : Event K V} {k : K} (he : ¬ e.Concerns k) :
    apply m e k = m k := by
  cases e with
  | put k' v => exact Function.update_of_ne (fun h => he h.symm) _ _
  | release k' => exact Function.update_of_ne (fun h => he h.symm) _ _
  | skip => rfl

omit [DecidableEq K] in
theorem latest_put (k : K) (v : V) (h : List (Event K V)) : Latest k v (h ++ [.put k v]) :=
  ⟨h, [], rfl, by simp⟩

/-- A position in a history with one more event is the last one or one of before. -/
theorem snoc_eq_append_cons {α : Type*} {h pre post : List α} {e x : α}
    (heq : h ++ [e] = pre ++ x :: post) :
    (post = [] ∧ x = e) ∨ ∃ post', post = post' ++ [e] ∧ h = pre ++ x :: post' := by
  rcases List.eq_nil_or_concat post with rfl | ⟨post', y, rfl⟩
  · obtain ⟨-, hlast⟩ := List.append_inj' heq rfl
    exact .inl ⟨rfl, (List.singleton_inj.mp hlast).symm⟩
  · have heq' : h ++ [e] = (pre ++ x :: post') ++ [y] := by simpa using heq
    obtain ⟨hinit, hlast⟩ := List.append_inj' heq' rfl
    exact .inr ⟨post', by simp [List.singleton_inj.mp hlast], hinit⟩

omit [DecidableEq K] in
theorem latest_snoc {k : K} {v : V} {h : List (Event K V)} {e : Event K V}
    (he : ¬ e.Concerns k) : Latest k v (h ++ [e]) ↔ Latest k v h := by
  constructor
  · rintro ⟨pre, post, heq, hpost⟩
    rcases snoc_eq_append_cons heq with ⟨-, rfl⟩ | ⟨post', rfl, hh⟩
    · exact absurd rfl he
    · exact ⟨pre, post', hh, fun d hd => hpost d (List.mem_append_left _ hd)⟩
  · rintro ⟨pre, post, rfl, hpost⟩
    refine ⟨pre, post ++ [e], by simp, ?_⟩
    intro d hd
    rcases List.mem_append.mp hd with hd | hd
    · exact hpost d hd
    · obtain rfl := List.mem_singleton.mp hd
      exact he

omit [DecidableEq K] in
theorem not_latest_snoc {k : K} {v : V} {h : List (Event K V)} {e : Event K V}
    (he : e.Concerns k) (hne : e ≠ .put k v) : ¬ Latest k v (h ++ [e]) := by
  rintro ⟨pre, post, heq, hpost⟩
  rcases snoc_eq_append_cons heq with ⟨-, hput⟩ | ⟨post', rfl, -⟩
  · exact hne hput.symm
  · exact hpost e (List.mem_append_right _ (List.mem_singleton_self e)) he

/-- **What is pending** is what was put last. -/
theorem pending_eq_some {k : K} {v : V} {h : List (Event K V)} :
    pending h k = some v ↔ Latest k v h := by
  induction h using List.reverseRecOn with
  | nil =>
    constructor
    · intro h
      cases h
    · rintro ⟨pre, post, heq, -⟩
      cases pre <;> cases heq
  | append_singleton h e ih =>
    rw [pending_snoc]
    by_cases he : e.Concerns k
    · by_cases hput : e = .put k v
      · subst hput
        simp [apply, latest_put]
      · refine iff_of_false ?_ (not_latest_snoc he hput)
        cases e with
        | put k' v' =>
          obtain rfl : k' = k := he
          have hv : v' ≠ v := fun hv => hput (by rw [hv])
          simp [apply, hv]
        | release k' =>
          obtain rfl : k' = k := he
          simp [apply]
        | skip => exact he.elim
    · rw [apply_of_not_concerns he, ih, latest_snoc he]

end Pending
