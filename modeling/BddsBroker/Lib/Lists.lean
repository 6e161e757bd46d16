import Mathlib.Data.List.Nodup
import Mathlib.Data.List.Perm.Basic
import Mathlib.Order.Basic

/-! Facts about lists: what lists that grow at the end keep, what taking out one element
does to a zip and to a count, and the first hit of a search in a sorted list. -/

namespace Lists

theorem getElem?_of_extends {α : Type*} {xs ys : List α} (h : xs <+: ys) {i : Nat} {x : α}
    (hx : xs[i]? = some x) : ys[i]? = some x := by
  obtain ⟨zs, rfl⟩ := h
  obtain ⟨hi, -⟩ := List.getElem?_eq_some_iff.mp hx
  rw [List.getElem?_append_left hi, hx]

theorem getElem?_of_extends_lt {α : Type*} {xs ys : List α} (h : xs <+: ys) {i : Nat}
    (hi : i < xs.length) : ys[i]? = xs[i]? := by
  obtain ⟨zs, rfl⟩ := h
  exact List.getElem?_append_left hi

theorem zip_eraseIdx {α β : Type*} (xs : List α) (ys : List β) (i : Nat) :
    (xs.eraseIdx i).zip (ys.eraseIdx i) = (xs.zip ys).eraseIdx i := by
  induction xs generalizing ys i with
  | nil => simp
  | cons x xs ih =>
    cases ys with
    | nil => simp
    | cons y ys =>
      cases i with
      | zero => rfl
      | succ i => simp [ih]

theorem zip_replicate_length {α β : Type*} (xs : List α) (y : β) :
    xs.zip (List.replicate xs.length y) = xs.map fun x => (x, y) := by
  induction xs with
  | nil => rfl
  | cons x xs ih => simp [List.replicate_succ, ih]

theorem count_eraseIdx {α : Type*} [DecidableEq α] {xs : List α} {i : Nat} {x : α}
    (h : xs[i]? = some x) (o : α) :
    (xs.eraseIdx i).count o + (if x = o then 1 else 0) = xs.count o := by
  obtain ⟨hi, rfl⟩ := List.getElem?_eq_some_iff.mp h
  rw [← (List.getElem_cons_eraseIdx_perm hi).count_eq o, List.count_cons]
  simp

/-- The element taken out is the only one that may be missing afterwards. -/
theorem mem_eraseIdx_or {α : Type*} {xs : List α} {x : α} (h : x ∈ xs) (i : Nat) :
    x ∈ xs.eraseIdx i ∨ xs[i]? = some x := by
  obtain ⟨k, hk⟩ := List.mem_iff_getElem?.mp h
  by_cases hki : k = i
  · exact .inr (hki ▸ hk)
  · exact .inl (List.mem_eraseIdx_iff_getElem?.mpr ⟨k, hki, hk⟩)

/-- Elements with the same image are all counted there. -/
theorem count_add_count_le_count_map {α β : Type*} [DecidableEq α] [DecidableEq β] {f : α → β}
    {a b : α} (hab : a ≠ b) (hf : f a = f b) (xs : List α) :
    xs.count a + xs.count b ≤ (xs.map f).count (f a) := by
  induction xs with
  | nil => simp
  | cons x xs ih =>
    simp only [List.map_cons, List.count_cons, beq_iff_eq]
    by_cases hxa : x = a
    · subst hxa
      simp only [if_true, if_neg hab]
      omega
    · by_cases hxb : x = b
      · subst hxb
        simp only [if_true, if_neg hxa, hf] at ih ⊢
        omega
      · rw [if_neg hxa, if_neg hxb]
        omega

/-- Pairs are distinct when those with one second component differ in the first. -/
theorem nodup_iff_filter {α β : Type*} [DecidableEq β] (ps : List (α × β)) :
    ps.Nodup ↔ ∀ b, ((ps.filter fun p => p.2 = b).map Prod.fst).Nodup := by
  constructor
  · intro h b
    refine List.Nodup.map_on ?_ (h.filter _)
    intro p hp q hq hfst
    have hp₂ : p.2 = b := by simpa using (List.mem_filter.mp hp).2
    have hq₂ : q.2 = b := by simpa using (List.mem_filter.mp hq).2
    exact Prod.ext hfst (hp₂.trans hq₂.symm)
  · intro h
    induction ps with
    | nil => exact List.nodup_nil
    | cons p ps ih =>
      refine List.nodup_cons.mpr ⟨?_, ih ?_⟩
      · intro hp
        have hhead := h p.2
        rw [List.filter_cons_of_pos (by simp), List.map_cons, List.nodup_cons] at hhead
        exact hhead.1 (List.mem_map.mpr ⟨p, List.mem_filter.mpr ⟨hp, by simp⟩, rfl⟩)
      · intro b
        exact (h b).sublist (((List.sublist_cons_self p ps).filter _).map _)

/-- Images that each give one element, whatever their index. -/
theorem flatMap_mapIdx {α β γ : Type*} {xs : List α} {f : Nat → α → β} {g : β → List γ} {k : α → γ}
    (h : ∀ i, ∀ x ∈ xs, g (f i x) = [k x]) : (xs.mapIdx f).flatMap g = xs.map k := by
  induction xs generalizing f with
  | nil => rfl
  | cons x xs ih =>
    have hrest : ∀ i, ∀ y ∈ xs, g (f (i + 1) y) = [k y] :=
      fun i y hy => h (i + 1) y (List.mem_cons_of_mem x hy)
    rw [List.mapIdx_cons, List.flatMap_cons, h 0 x List.mem_cons_self, ih hrest, List.map_cons,
      List.singleton_append]

/-- In a sorted list the first element with a property is the least. -/
theorem find?_eq_some_iff_least {α : Type*} [PartialOrder α] {l : List α}
    (hl : l.Pairwise (· ≤ ·)) (p : α → Bool) (s : α) :
    l.find? p = some s ↔ s ∈ l ∧ p s = true ∧ ∀ u ∈ l, p u = true → s ≤ u := by
  induction l with
  | nil => simp
  | cons head l ih =>
    obtain ⟨hhead, hl⟩ := List.pairwise_cons.mp hl
    by_cases hp : p head = true
    · rw [List.find?_cons_of_pos hp]
      constructor
      · rintro h
        obtain rfl := Option.some.inj h
        exact ⟨List.mem_cons_self, hp, List.forall_mem_cons.mpr
          ⟨fun _ => le_refl head, fun u hu _ => hhead u hu⟩⟩
      · rintro ⟨hmem, -, hleast⟩
        rcases List.mem_cons.mp hmem with rfl | hmem
        · rfl
        · rw [le_antisymm (hhead s hmem) (hleast head List.mem_cons_self hp)]
    · rw [List.find?_cons_of_neg hp, ih hl]
      constructor
      · rintro ⟨hmem, hs, hleast⟩
        exact ⟨List.mem_cons_of_mem head hmem, hs, List.forall_mem_cons.mpr
          ⟨fun h => absurd h hp, hleast⟩⟩
      · rintro ⟨hmem, hs, hleast⟩
        rcases List.mem_cons.mp hmem with rfl | hmem
        · exact absurd hs hp
        · exact ⟨hmem, hs, fun u hu => hleast u (List.mem_cons_of_mem head hu)⟩

end Lists
