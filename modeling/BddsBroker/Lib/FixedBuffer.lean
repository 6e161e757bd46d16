import Mathlib.Data.List.TakeWhile

/-! A buffer of `n` cells that is filled from its start again and again. Behind what the
last fill wrote stand the cells of earlier fills, so a reader that does not know the length
needs a mark: a mark that is set right behind the fill shows exactly the fill up to its
first mark (`before_fill_set`). -/

/-- `n` cells. -/
structure FixedBuffer (α : Type*) (n : Nat) where
  cells : List α
  length_eq : cells.length = n

namespace FixedBuffer

variable {α : Type*} {n : Nat}

/-- Write at the start what fits of `xs`. -/
def fill (b : FixedBuffer α n) (xs : List α) : FixedBuffer α n where
  cells := xs.take n ++ b.cells.drop (xs.take n).length
  length_eq := by
    simp only [List.length_append, List.length_take, List.length_drop, b.length_eq]
    omega

/-- Write one cell, if it is one of the buffer. -/
def set? (b : FixedBuffer α n) (i : Nat) (a : α) : Option (FixedBuffer α n) :=
  if i < n then some ⟨b.cells.set i a, by rw [List.length_set, b.length_eq]⟩ else none

/-- The cells before the first mark. -/
def before [DecidableEq α] (mark : α) (b : FixedBuffer α n) : List α :=
  b.cells.takeWhile fun a => a ≠ mark

theorem set?_eq_none {b : FixedBuffer α n} {i : Nat} {a : α} : b.set? i a = none ↔ n ≤ i := by
  simp [set?]

/-- Setting a cell of the second part leaves the first part as it is. -/
theorem cells_fill_set {b b' : FixedBuffer α n} {xs : List α} {a : α} (hlen : xs.length < n)
    (h : (b.fill xs).set? xs.length a = some b') :
    b'.cells = xs ++ a :: b.cells.drop (xs.length + 1) := by
  have htake : xs.take n = xs := List.take_of_length_le (le_of_lt hlen)
  have hrest : b.cells.drop xs.length ≠ [] := by
    rw [ne_eq, List.drop_eq_nil_iff, b.length_eq]
    omega
  simp only [set?, hlen, if_true, Option.some.injEq] at h
  subst h
  cases hcells : b.cells.drop xs.length with
  | nil => exact absurd hcells hrest
  | cons c cs =>
    have hcs : b.cells.drop (xs.length + 1) = cs := by
      rw [← List.drop_drop, hcells]
      rfl
    simp [fill, htake, hcells, hcs]

/-- **A mark right behind the fill** shows the fill, whatever was in the buffer. -/
theorem before_fill_set [DecidableEq α] {b b' : FixedBuffer α n} {xs : List α} {mark : α}
    (hlen : xs.length < n) (h : (b.fill xs).set? xs.length mark = some b') :
    b'.before mark = xs.takeWhile fun a => a ≠ mark := by
  rw [before, cells_fill_set hlen h, List.takeWhile_append]
  split
  · rename_i hall
    have hself : xs.takeWhile (fun a => a ≠ mark) = xs :=
      List.IsPrefix.eq_of_length (List.takeWhile_prefix _) hall
    have hmark : ∀ cs, (mark :: cs).takeWhile (fun a => a ≠ mark) = [] := by simp
    rw [hmark, hself, List.append_nil]
  · rfl

end FixedBuffer
