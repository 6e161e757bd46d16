import Mathlib.Data.List.Nodup

/-! Lists that are linked by a function from each node to the next one. Where such a list ends,
it has no node twice, so a node that is put in front of it must be a new one. -/

namespace Links

variable {N : Type*} {next next' : N → Option N} {head : Option N} {n : N} {l l' : List N}

/-- The links lead from `head` through the nodes of `l` and end there. -/
def Linked (next : N → Option N) : Option N → List N → Prop
  | head, [] => head = none
  | head, n :: l => head = some n ∧ Linked next (next n) l

theorem Linked.push (h : Linked next head l) (hn : next n = head) :
    Linked next (some n) (n :: l) := by
  subst hn
  exact ⟨rfl, h⟩

theorem Linked.pop (h : Linked next (some n) l) :
    ∃ rest, l = n :: rest ∧ Linked next (next n) rest := by
  cases l with
  | nil => cases h
  | cons m rest =>
    obtain ⟨hm, hrest⟩ := h
    obtain rfl := Option.some.inj hm
    exact ⟨rest, rfl, hrest⟩

/-- Only the links of the list's own nodes matter. -/
theorem Linked.congr (h : Linked next head l) (hsame : ∀ m ∈ l, next' m = next m) :
    Linked next' head l := by
  induction l generalizing head with
  | nil => exact h
  | cons m rest ih =>
    refine ⟨h.1, ?_⟩
    rw [hsame m (List.mem_cons_self ..)]
    exact ih h.2 fun k hk => hsame k (List.mem_cons_of_mem _ hk)

theorem Linked.unique (h : Linked next head l) (h' : Linked next head l') : l = l' := by
  induction l generalizing head l' with
  | nil =>
    cases l' with
    | nil => rfl
    | cons m rest => exact absurd (h.symm.trans h'.1) (by simp)
  | cons m rest ih =>
    obtain ⟨rfl, hrest⟩ := h
    obtain ⟨rest', rfl, hrest'⟩ := h'.pop
    rw [ih hrest hrest']

theorem Linked.drop_mem (h : Linked next head l) (hn : n ∈ l) :
    ∃ rest, Linked next (some n) (n :: rest) ∧ rest.length < l.length := by
  induction l generalizing head with
  | nil => cases hn
  | cons m rest ih =>
    rcases List.mem_cons.mp hn with rfl | hmem
    · exact ⟨rest, ⟨rfl, h.2⟩, Nat.lt_succ_self _⟩
    · obtain ⟨tail, htail, hlt⟩ := ih h.2 hmem
      exact ⟨tail, htail, Nat.lt_succ_of_lt hlt⟩

theorem Linked.nodup (h : Linked next head l) : l.Nodup := by
  induction l generalizing head with
  | nil => exact List.nodup_nil
  | cons m rest ih =>
    refine List.nodup_cons.mpr ⟨fun hm => ?_, ih h.2⟩
    -- a second way through `m` would be a shorter list from the same place
    obtain ⟨tail, htail, hlt⟩ := h.2.drop_mem hm
    have hsame : rest = tail := h.2.unique htail.2
    rw [hsame] at hlt
    exact Nat.lt_irrefl _ hlt

end Links
