import Mathlib.Data.List.Flatten

/-! A stream that arrives in segments, and a blocking read of a fixed number of
elements. The read takes what it needs from as many segments as it takes and leaves
the rest of the last one; it depends on the segments only through their
concatenation. -/

namespace Segments

variable {α : Type*}

/-- Read `n` elements, or block because the segments do not hold that many. The
second component is what stays in the stream. -/
def readFull : Nat → List (List α) → Option (List α × List (List α))
  | 0, segments => some ([], segments)
  | _ + 1, [] => none
  | n + 1, c :: cs =>
      if n + 1 < c.length then some (c.take (n + 1), c.drop (n + 1) :: cs)
      else (readFull (n + 1 - c.length) cs).map fun (xs, rest) => (c ++ xs, rest)

theorem readFull_eq_some {n : Nat} {segments rest : List (List α)} {xs : List α}
    (h : readFull n segments = some (xs, rest)) :
    xs = segments.flatten.take n ∧ rest.flatten = segments.flatten.drop n ∧ xs.length = n := by
  induction segments generalizing n xs with
  | nil =>
    cases n with
    | zero =>
      simp only [readFull, Option.some.injEq, Prod.mk.injEq] at h
      obtain ⟨rfl, rfl⟩ := h
      simp
    | succ n => cases h
  | cons c cs ih =>
    cases n with
    | zero =>
      simp only [readFull, Option.some.injEq, Prod.mk.injEq] at h
      obtain ⟨rfl, rfl⟩ := h
      simp
    | succ n =>
      unfold readFull at h
      split at h
      · rename_i hlt
        simp only [Option.some.injEq, Prod.mk.injEq] at h
        obtain ⟨rfl, rfl⟩ := h
        have hle : n + 1 ≤ c.length := by omega
        simp only [List.flatten_cons, List.take_append_of_le_length hle,
          List.drop_append_of_le_length hle, List.length_take]
        exact ⟨trivial, trivial, by omega⟩
      · rename_i hge
        obtain ⟨⟨ys, r⟩, hys, heq⟩ := Option.map_eq_some_iff.mp h
        simp only [Prod.mk.injEq] at heq
        obtain ⟨rfl, rfl⟩ := heq
        obtain ⟨htake, hdrop, hlen⟩ := ih hys
        simp only [List.flatten_cons, List.take_append, List.drop_append, List.length_append]
        refine ⟨?_, ?_, by omega⟩
        · rw [List.take_of_length_le (by omega), htake]
        · rw [List.drop_of_length_le (by omega), hdrop, List.nil_append]

/-- The read completes as soon as the stream holds enough. -/
theorem readFull_isSome {n : Nat} {segments : List (List α)} (h : n ≤ segments.flatten.length) :
    ∃ xs rest, readFull n segments = some (xs, rest) := by
  induction segments generalizing n with
  | nil =>
    have hn : n = 0 := by simpa using h
    subst hn
    exact ⟨[], [], rfl⟩
  | cons c cs ih =>
    cases n with
    | zero => exact ⟨[], c :: cs, rfl⟩
    | succ n =>
      unfold readFull
      split
      · exact ⟨_, _, rfl⟩
      · simp only [List.flatten_cons, List.length_append] at h
        obtain ⟨xs, rest, hr⟩ := ih (n := n + 1 - c.length) (by omega)
        exact ⟨c ++ xs, rest, by rw [hr]; rfl⟩

theorem readFull_nil_of_flatten {n : Nat} {segments : List (List α)} (hn : 0 < n)
    (h : segments.flatten = []) : readFull n segments = none := by
  cases hr : readFull n segments with
  | none => rfl
  | some r =>
    obtain ⟨xs, rest⟩ := r
    obtain ⟨htake, -, hlen⟩ := readFull_eq_some hr
    rw [htake, h] at hlen
    simp at hlen
    omega

end Segments
