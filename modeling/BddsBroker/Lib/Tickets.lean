import Mathlib.Data.Finset.Max

/-! Tickets that are drawn before anybody knows whether there is something to be had for
them. A ticket wins when it is below the bound, not counting some of the tickets below it
that have lost; the others lose. Whatever the bound was at each of these tests, there are
never more winners than the bound by now. -/

namespace Tickets

/-- The tickets drawn so far are those below `next`. -/
structure Draws where
  next : Nat
  won : Finset Nat
  lost : Finset Nat
  bound : Nat

namespace Draws

def init : Draws := ⟨0, ∅, ∅, 0⟩

/-- The losers below a ticket. -/
def lostBelow (d : Draws) (m : Nat) : Nat := (d.lost.filter (· < m)).card

def draw (d : Draws) : Draws := { d with next := d.next + 1 }

def win (d : Draws) (m : Nat) : Draws := { d with won := insert m d.won }

def lose (d : Draws) (m : Nat) : Draws := { d with lost := insert m d.lost }

def raise (d : Draws) : Draws := { d with bound := d.bound + 1 }

/-- The ticket was drawn and has not been decided. -/
def Open (d : Draws) (m : Nat) : Prop := m < d.next ∧ m ∉ d.won ∧ m ∉ d.lost

theorem lostBelow_lose_le (d : Draws) (m k : Nat) : d.lostBelow k ≤ (d.lose m).lostBelow k :=
  Finset.card_le_card (Finset.filter_subset_filter _ (Finset.subset_insert m d.lost))

theorem lostBelow_le (d : Draws) (m : Nat) : d.lostBelow m ≤ m := by
  have hsub : d.lost.filter (· < m) ⊆ Finset.range m := by
    intro k hk
    exact Finset.mem_range.mpr (Finset.mem_filter.mp hk).2
  have hcard := Finset.card_le_card hsub
  rwa [Finset.card_range] at hcard

end Draws

/-- Every winner would win again with the losers below it by now. -/
structure Fair (d : Draws) : Prop where
  drawn : ∀ m, m ∈ d.won ∨ m ∈ d.lost → m < d.next
  apart : ∀ m ∈ d.won, m ∉ d.lost
  rank : ∀ m ∈ d.won, m < d.bound + d.lostBelow m

namespace Fair

variable {d : Draws}

theorem init : Fair .init := ⟨by simp [Draws.init], by simp [Draws.init], by simp [Draws.init]⟩

theorem draw (h : Fair d) : Fair d.draw :=
  ⟨fun m hm => Nat.lt_succ_of_lt (h.drawn m hm), h.apart, h.rank⟩

theorem raise (h : Fair d) : Fair d.raise :=
  ⟨h.drawn, h.apart, fun m hm => by
    have hrank := h.rank m hm
    simp only [Draws.raise, Draws.lostBelow] at hrank ⊢
    omega⟩

/-- The new ticket is open, and every loser is below it. -/
theorem open_next (h : Fair d) : d.draw.Open d.next ∧ d.draw.lostBelow d.next = d.lost.card := by
  refine ⟨⟨Nat.lt_succ_self _, fun hm => ?_, fun hm => ?_⟩, ?_⟩
  · exact Nat.lt_irrefl _ (h.drawn _ (.inl hm))
  · exact Nat.lt_irrefl _ (h.drawn _ (.inr hm))
  · have hall : d.draw.lost.filter (· < d.next) = d.lost :=
      Finset.filter_true_of_mem fun m hm => h.drawn m (.inr hm)
    rw [Draws.lostBelow, hall]

/-- A ticket may win against any bound of the past, less any number of losers below it. -/
theorem win (h : Fair d) {m k b : Nat} (hm : d.Open m) (hk : k ≤ d.lostBelow m)
    (hb : b ≤ d.bound) (hlt : m - k < b) : Fair (d.win m) := by
  constructor
  · intro j hj
    rcases hj with hj | hj
    · rcases Finset.mem_insert.mp hj with rfl | hj
      · exact hm.1
      · exact h.drawn j (.inl hj)
    · exact h.drawn j (.inr hj)
  · intro j hj
    rcases Finset.mem_insert.mp hj with rfl | hj
    · exact hm.2.2
    · exact h.apart j hj
  · intro j hj
    rcases Finset.mem_insert.mp hj with rfl | hj
    · have hle := d.lostBelow_le j
      simp only [Draws.win, Draws.lostBelow] at hk hle ⊢
      omega
    · exact h.rank j hj

theorem lose (h : Fair d) {m : Nat} (hm : d.Open m) : Fair (d.lose m) := by
  constructor
  · intro j hj
    rcases hj with hj | hj
    · exact h.drawn j (.inl hj)
    · rcases Finset.mem_insert.mp hj with rfl | hj
      · exact hm.1
      · exact h.drawn j (.inr hj)
  · intro j hj hlost
    rcases Finset.mem_insert.mp hlost with rfl | hlost
    · exact hm.2.1 hj
    · exact h.apart j hj hlost
  · intro j hj
    have hrank := h.rank j hj
    have hle := d.lostBelow_lose_le m j
    simp only [Draws.lose] at hle ⊢
    omega

/-- **No more winners than the bound.** The last winner has the other ones and its losers
below it. -/
theorem card_won_le (h : Fair d) : d.won.card ≤ d.bound := by
  rcases d.won.eq_empty_or_nonempty with hempty | hne
  · simp [hempty]
  obtain ⟨last, hlast, hmax⟩ : ∃ m ∈ d.won, ∀ j ∈ d.won, j ≤ m :=
    ⟨d.won.max' hne, d.won.max'_mem hne, fun j hj => d.won.le_max' j hj⟩
  have hdisjoint : Disjoint (d.won.erase last) (d.lost.filter (· < last)) := by
    rw [Finset.disjoint_left]
    intro m hm hlost
    exact h.apart m (Finset.mem_of_mem_erase hm) (Finset.mem_filter.mp hlost).1
  have hsub : d.won.erase last ∪ d.lost.filter (· < last) ⊆ Finset.range last := by
    intro m hm
    rcases Finset.mem_union.mp hm with hm | hm
    · have hle := hmax m (Finset.mem_of_mem_erase hm)
      exact Finset.mem_range.mpr (lt_of_le_of_ne hle (Finset.ne_of_mem_erase hm))
    · exact Finset.mem_range.mpr (Finset.mem_filter.mp hm).2
  have hcard := Finset.card_le_card hsub
  rw [Finset.card_union_of_disjoint hdisjoint, Finset.card_erase_of_mem hlast,
    Finset.card_range] at hcard
  have hpos := Finset.card_pos.mpr hne
  have hrank := h.rank last hlast
  simp only [Draws.lostBelow] at hrank
  omega

end Fair

end Tickets
