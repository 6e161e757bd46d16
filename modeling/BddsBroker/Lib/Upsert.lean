import Mathlib.Data.List.Nodup
import BddsBroker.Lib.FirstWins

/-! Find or append: a list of entries with keys, in which an update changes the first entry
of its key, or appends a fresh one and changes that. Read through the first entry of a key,
such a list is a map from keys to entries (`first?_upsert_self`, `first?_upsert_of_ne`), and
after any sequence of updates the entry of a key is what its own updates have made of a fresh
one (`first?_build`). -/

namespace Upsert

open FirstWins

variable {α κ : Type*} [DecidableEq κ]

/-- The update of the key `k`, which begins with `fresh` where there is no entry. -/
def upsert (key : α → κ) (fresh : α) (change : α → α) (k : κ) : List α → List α
  | [] => [change fresh]
  | a :: as => if key a = k then change a :: as else a :: upsert key fresh change k as

/-- An update of a registry: a key, and the change of its entry. -/
structure Update (α κ : Type*) where
  key : κ
  change : α → α

/-- The registry after these updates. -/
def build (key : α → κ) (fresh : κ → α) (us : List (Update α κ)) : List α :=
  us.foldl (fun as u => upsert key (fresh u.key) u.change u.key as) []

/-- What the updates of a key make of an entry. -/
def changed (us : List (Update α κ)) (k : κ) (a : α) : α :=
  (us.filter fun u => u.key = k).foldl (fun a u => u.change a) a

variable {key : α → κ} {fresh : α} {change : α → α}

/-! ## One update -/

/-- The keys, in the order in which they came. -/
theorem keys_upsert (hfresh : key (change fresh) = k) (hkey : ∀ a, key (change a) = key a)
    (as : List α) : (upsert key fresh change k as).map key =
      if k ∈ as.map key then as.map key else as.map key ++ [k] := by
  induction as with
  | nil => simp [upsert, hfresh]
  | cons a as ih =>
    unfold upsert
    by_cases ha : key a = k
    · simp [ha, hkey]
    · rw [if_neg ha, List.map_cons, ih]
      by_cases hmem : k ∈ as.map key <;> simp [hmem, Ne.symm ha]

theorem nodup_keys_upsert (hfresh : key (change fresh) = k) (hkey : ∀ a, key (change a) = key a)
    {as : List α} (h : (as.map key).Nodup) : ((upsert key fresh change k as).map key).Nodup := by
  rw [keys_upsert hfresh hkey]
  split
  · exact h
  · rename_i hnew
    refine List.nodup_append.mpr ⟨h, List.nodup_singleton k, ?_⟩
    rintro a ha b hb rfl
    exact hnew (List.mem_singleton.mp hb ▸ ha)

/-- The entry of the key is the changed one. -/
theorem first?_upsert_self (hfresh : key (change fresh) = k)
    (hkey : ∀ a, key (change a) = key a) (as : List α) :
    first? key (upsert key fresh change k as) k =
      some (change ((first? key as k).getD fresh)) := by
  induction as with
  | nil => simp [upsert, first?, hfresh]
  | cons a as ih =>
    unfold upsert
    by_cases ha : key a = k
    · simp [first?, ha, hkey]
    · simpa [first?, ha] using ih

/-- The other entries are as they were, and in their order. -/
theorem filter_upsert (hfresh : key (change fresh) = k) (hkey : ∀ a, key (change a) = key a)
    (as : List α) : (upsert key fresh change k as).filter (fun a => key a ≠ k) =
      as.filter fun a => key a ≠ k := by
  induction as with
  | nil => simp [upsert, hfresh]
  | cons a as ih =>
    unfold upsert
    by_cases ha : key a = k
    · simp [ha, hkey]
    · rw [if_neg ha, List.filter_cons, List.filter_cons, ih]

/-- The entry of another key is not changed. -/
theorem first?_upsert_of_ne (hfresh : key (change fresh) = k)
    (hkey : ∀ a, key (change a) = key a) {other : κ} (hne : other ≠ k) (as : List α) :
    first? key (upsert key fresh change k as) other = first? key as other := by
  have hfilter : ∀ bs : List α, first? key bs other =
      first? key (bs.filter fun a => key a ≠ k) other := by
    intro bs
    rw [first?_filter (fun j => decide (j ≠ k))]
    simp [hne]
  rw [hfilter, filter_upsert hfresh hkey, ← hfilter]

/-! ## Sequences of updates -/

section Build

variable {fresh : κ → α} {us : List (Update α κ)}

/-- The updates leave the keys of entries alone, and a fresh entry has its key. -/
structure KeepKeys (key : α → κ) (fresh : κ → α) (us : List (Update α κ)) : Prop where
  fresh : ∀ k, key (fresh k) = k
  change : ∀ u ∈ us, ∀ a, key (u.change a) = key a

theorem build_snoc (us : List (Update α κ)) (u : Update α κ) :
    build key fresh (us ++ [u]) =
      upsert key (fresh u.key) u.change u.key (build key fresh us) := by
  simp [build, List.foldl_append]

omit [DecidableEq κ] in
theorem KeepKeys.of_snoc {u : Update α κ} (h : KeepKeys key fresh (us ++ [u])) :
    KeepKeys key fresh us ∧ (∀ a, key (u.change a) = key a) ∧
      key (u.change (fresh u.key)) = u.key := by
  have hu : ∀ a, key (u.change a) = key a := h.change u (by simp)
  refine ⟨⟨h.fresh, ?_⟩, hu, (hu _).trans (h.fresh u.key)⟩
  intro v hv
  exact h.change v (List.mem_append_left _ hv)

/-- **The keys are distinct.** -/
theorem nodup_keys_build (h : KeepKeys key fresh us) : ((build key fresh us).map key).Nodup := by
  induction us using List.reverseRecOn with
  | nil => exact List.nodup_nil
  | append_singleton us u ih =>
    obtain ⟨hus, hkey, hfresh⟩ := h.of_snoc
    rw [build_snoc]
    exact nodup_keys_upsert hfresh hkey (ih hus)

/-- **The entry of a key** is what its updates have made of a fresh one. -/
theorem first?_build (h : KeepKeys key fresh us) (k : κ) :
    first? key (build key fresh us) k =
      if k ∈ us.map Update.key then some (changed us k (fresh k)) else none := by
  induction us using List.reverseRecOn with
  | nil => rfl
  | append_singleton us u ih =>
    obtain ⟨hus, hkey, hfresh⟩ := h.of_snoc
    have hbefore := ih hus
    rw [build_snoc]
    by_cases hk : u.key = k
    · subst hk
      have hentry : (first? key (build key fresh us) u.key).getD (fresh u.key) =
          changed us u.key (fresh u.key) := by
        rw [hbefore]
        split
        · rfl
        · rename_i hnew
          have hnone : us.filter (fun v => v.key = u.key) = [] := by
            rw [List.filter_eq_nil_iff]
            intro v hv hvk
            exact hnew (List.mem_map.mpr ⟨v, hv, by simpa using hvk⟩)
          simp [changed, hnone]
      rw [first?_upsert_self hfresh hkey, hentry]
      simp [changed, List.filter_append]
    · rw [first?_upsert_of_ne hfresh hkey (Ne.symm hk), hbefore]
      simp [changed, List.filter_append, hk, Ne.symm hk]

end Build

end Upsert
