import Mathlib.Data.List.Induction
import Mathlib.Data.List.Nodup

/-! Registries that keep the first entry of each key: a new entry is appended when its key
is not there yet, and dropped otherwise. After any sequence of entries the registry holds
the first one of every key, and nothing else. -/

namespace FirstWins

variable {α κ : Type*} [DecidableEq κ]

def insertNew (key : α → κ) (xs : List α) (a : α) : List α :=
  if key a ∈ xs.map key then xs else xs ++ [a]

/-- The registry after these entries. -/
def collect (key : α → κ) (as : List α) : List α := as.foldl (insertNew key) []

/-- The first entry of that key. -/
def first? (key : α → κ) (as : List α) (k : κ) : Option α := as.find? fun a => key a == k

/-- The last entry of that key. -/
def last? (key : α → κ) (as : List α) (k : κ) : Option α := first? key as.reverse k

variable {key : α → κ}

@[simp] theorem collect_nil : collect key [] = [] := rfl

theorem collect_snoc (as : List α) (a : α) :
    collect key (as ++ [a]) = insertNew key (collect key as) a := by
  simp [collect, List.foldl_append]

/-- The oldest entry stays in front. -/
theorem head?_collect (as : List α) : (collect key as).head? = as.head? := by
  induction as using List.reverseRecOn with
  | nil => rfl
  | append_singleton as a ih =>
    rw [collect_snoc, insertNew, List.head?_append, ← ih]
    cases hcollect : collect key as with
    | nil => rfl
    | cons b bs =>
      split <;> rfl

theorem first?_isSome_iff {as : List α} {k : κ} :
    (first? key as k).isSome ↔ k ∈ as.map key := by
  simp [first?, List.find?_isSome]

theorem first?_eq_none_iff {as : List α} {k : κ} : first? key as k = none ↔ k ∉ as.map key := by
  rw [← first?_isSome_iff]
  simp

theorem first?_append (as bs : List α) (k : κ) :
    first? key (as ++ bs) k = (first? key as k).or (first? key bs k) :=
  List.find?_append

theorem key_of_first? {as : List α} {k : κ} {a : α} (h : first? key as k = some a) :
    key a = k := by
  simpa using List.find?_some h

theorem mem_of_first? {as : List α} {k : κ} {a : α} (h : first? key as k = some a) : a ∈ as :=
  List.mem_of_find?_eq_some h

/-- A filter that looks at the keys keeps the first entries of its keys. -/
theorem first?_filter (p : κ → Bool) (as : List α) (k : κ) :
    first? key (as.filter fun a => p (key a)) k = if p k then first? key as k else none := by
  unfold first?
  rw [List.find?_filter]
  by_cases hk : p k = true
  · rw [if_pos hk]
    congr 1
    funext a
    by_cases ha : key a = k
    · simp [ha, hk]
    · simp [ha]
  · rw [if_neg hk, List.find?_eq_none]
    intro a _
    by_cases ha : key a = k
    · simp [ha, hk]
    · simp [ha]

/-- An entry does not change the first one of another key, nor of a key that was there. -/
theorem first?_insertNew (xs : List α) (a : α) (k : κ) :
    first? key (insertNew key xs a) k = first? key (xs ++ [a]) k := by
  unfold insertNew
  split
  · rename_i hmem
    rw [first?_append]
    cases hx : first? key xs k with
    | some x => rfl
    | none =>
      have hk : key a ≠ k := by
        rintro rfl
        exact first?_eq_none_iff.mp hx hmem
      simp [first?, hk]
  · rfl

/-- **The first one wins.** -/
theorem first?_collect (as : List α) (k : κ) :
    first? key (collect key as) k = first? key as k := by
  induction as using List.reverseRecOn with
  | nil => rfl
  | append_singleton as a ih =>
    rw [collect_snoc, first?_insertNew, first?_append, ih, first?_append]

theorem key_mem_collect {as : List α} {k : κ} :
    k ∈ (collect key as).map key ↔ k ∈ as.map key := by
  rw [← first?_isSome_iff, first?_collect, first?_isSome_iff]

/-- The keys stand in the order in which they came. -/
theorem map_collect (as : List α) : (collect key as).map key = (as.map key).eraseDups := by
  induction as using List.reverseRecOn with
  | nil => rfl
  | append_singleton as a ih =>
    rw [collect_snoc, insertNew, List.map_append, List.eraseDups_append, List.map_singleton]
    by_cases ha : key a ∈ as.map key
    · have hnothing : [key a].removeAll (as.map key) = [] := by
        rw [List.cons_removeAll, if_neg (by simpa using ha), List.nil_removeAll]
      rw [if_pos (key_mem_collect.mpr ha), ih, hnothing, List.eraseDups_nil, List.append_nil]
    · have hnew : [key a].removeAll (as.map key) = [key a] := by
        rw [List.cons_removeAll, if_pos (by simpa using ha), List.nil_removeAll]
      rw [if_neg (fun hk => ha (key_mem_collect.mp hk)), List.map_append, ih, hnew]
      rfl

/-- No key occurs twice. -/
theorem nodup_collect (as : List α) : ((collect key as).map key).Nodup := by
  induction as using List.reverseRecOn with
  | nil => exact List.nodup_nil
  | append_singleton as a ih =>
    rw [collect_snoc, insertNew]
    split
    · exact ih
    · rename_i hnew
      rw [List.map_append, List.map_singleton, ← List.concat_eq_append]
      exact (List.nodup_concat _ _).mpr ⟨hnew, ih⟩

/-- The entries of the registry are the first ones of their keys. -/
theorem mem_collect_iff {as : List α} {a : α} :
    a ∈ collect key as ↔ first? key as (key a) = some a := by
  constructor
  · intro hmem
    induction as using List.reverseRecOn with
    | nil => cases hmem
    | append_singleton as b ih =>
      rw [collect_snoc, insertNew] at hmem
      rw [first?_append]
      split at hmem
      · rw [ih hmem]
        rfl
      · rename_i hnew
        rcases List.mem_append.mp hmem with hmem | hmem
        · rw [ih hmem]
          rfl
        · obtain rfl := List.mem_singleton.mp hmem
          rw [first?_eq_none_iff.mpr (fun hk => hnew (key_mem_collect.mpr hk))]
          simp [first?]
  · intro h
    rw [← first?_collect] at h
    exact mem_of_first? h

/-! ## Entries among other inputs -/

variable {ι : Type*} {R : ι → α → Prop}

/-- The entries that the inputs carry, in their order. Other inputs carry none. -/
inductive Picks (R : ι → α → Prop) : List ι → List α → Prop
  | nil : Picks R [] []
  | entry {i : ι} {is : List ι} {a : α} {as : List α} (h : R i a) (hrest : Picks R is as) :
      Picks R (i :: is) (a :: as)
  | other {i : ι} {is : List ι} {as : List α} (h : ∀ a, ¬ R i a) (hrest : Picks R is as) :
      Picks R (i :: is) as

/-- Where an input carries one entry at most, they are a list of their own. -/
theorem picks_iff {f : ι → Option α} (hf : ∀ i a, f i = some a ↔ R i a) {is : List ι}
    {as : List α} : Picks R is as ↔ as = is.filterMap f := by
  constructor
  · intro h
    induction h with
    | nil => rfl
    | entry h _ ih => rw [List.filterMap_cons_some ((hf _ _).mpr h), ih]
    | @other i is as h _ ih =>
      have hnone : f i = none := Option.eq_none_iff_forall_ne_some.mpr fun a ha =>
        h a ((hf i a).mp ha)
      rw [List.filterMap_cons_none hnone, ih]
  · rintro rfl
    induction is with
    | nil => exact .nil
    | cons i is ih =>
      cases hi : f i with
      | none =>
        rw [List.filterMap_cons_none hi]
        refine .other (fun a ha => ?_) ih
        rw [(hf i a).mpr ha] at hi
        cases hi
      | some a =>
        rw [List.filterMap_cons_some hi]
        exact .entry ((hf i a).mp hi) ih

theorem filterMap_snoc (f : ι → Option α) (is : List ι) (i : ι) :
    (is ++ [i]).filterMap f = is.filterMap f ++ (f i).toList := by
  rw [List.filterMap_append, List.filterMap_cons]
  cases f i <;> rfl

/-- Where each input carries an entry, the entries stand beside the inputs. -/
theorem forall₂_filterMap {f : ι → Option α} {is : List ι}
    (h : ∀ i ∈ is, ∃ a, f i = some a ∧ R i a) : List.Forall₂ R is (is.filterMap f) := by
  induction is with
  | nil => exact .nil
  | cons i is ih =>
    obtain ⟨hi, hrest⟩ := List.forall_mem_cons.mp h
    obtain ⟨a, ha, hR⟩ := hi
    rw [List.filterMap_cons_some ha]
    exact .cons hR (ih hrest)

end FirstWins
