import Mathlib.Logic.Relation
import Mathlib.Order.Nat

/-! One message in a network of relays. It enters at some nodes, each of them holds copies of
it, and a node that sends it gives a copy to every node that it feeds. Where no node is fed by
two and no path from the entry comes back to it, a node never holds a second copy. -/

namespace Relay

variable {B : Type*} {feeds : B → B → Prop} {entry : B → Prop} {copies sent copies' sent' : B → Nat}

/-- There is a path from the entry to the node. -/
def Reached (feeds : B → B → Prop) (entry : B → Prop) (b : B) : Prop :=
  ∃ a, entry a ∧ Relation.ReflTransGen feeds a b

theorem Reached.tail {p b : B} (h : Reached feeds entry p) (hp : feeds p b) :
    Reached feeds entry b := by
  obtain ⟨a, ha, hpath⟩ := h
  exact ⟨a, ha, hpath.tail hp⟩

/-- **Invariant.** The nodes hold one copy at most, those off the paths hold none, and behind a
node on a path no copy is that it did not send. -/
structure Routed (feeds : B → B → Prop) (entry : B → Prop) (copies sent : B → Nat) : Prop where
  once : ∀ b, copies b ≤ 1
  reached : ∀ b, 0 < copies b → Reached feeds entry b
  passed : ∀ p b, feeds p b → Reached feeds entry p → copies b ≤ sent p

theorem routed_zero (sent : B → Nat) : Routed feeds entry (fun _ => 0) sent :=
  ⟨fun _ => Nat.zero_le 1, fun _ h => absurd h (Nat.lt_irrefl 0), fun _ _ _ _ => Nat.zero_le _⟩

/-- The message enters. -/
theorem routed_enter (hentry : ∀ p b, feeds p b → entry b → ¬ Reached feeds entry p)
    (hone : ∀ b, copies b ≤ 1) (hhere : ∀ b, 0 < copies b → entry b) :
    Routed feeds entry copies sent where
  once := hone
  reached b hpos := ⟨b, hhere b hpos, .refl⟩
  passed p b hp hreached := by
    have hnone : copies b = 0 :=
      Nat.eq_zero_of_not_pos fun hpos => hentry p b hp (hhere b hpos) hreached
    rw [hnone]
    exact Nat.zero_le _

/-- Copies get lost. -/
theorem Routed.lower (h : Routed feeds entry copies sent) (hcopies : ∀ b, copies' b ≤ copies b)
    (hsent : ∀ b, sent b ≤ sent' b) : Routed feeds entry copies' sent' where
  once b := (hcopies b).trans (h.once b)
  reached b hpos := h.reached b (hpos.trans_le (hcopies b))
  passed p b hp hreached := ((hcopies b).trans (h.passed p b hp hreached)).trans (hsent p)

/-- What a node sends reaches the nodes it feeds. -/
theorem Routed.forward [DecidableEq B] [DecidableRel feeds] (h : Routed feeds entry copies sent)
    (hunique : ∀ p q b, feeds p b → feeds q b → p = q) (hself : ∀ b, ¬ feeds b b) {p : B} {k : Nat}
    (hsent : ∀ b, sent' b = sent b + if b = p then k else 0) (hle : sent' p ≤ copies' p)
    (hcopies : ∀ b, copies' b ≤ copies b + if feeds p b then k else 0) :
    Routed feeds entry copies' sent' := by
  have hmono : ∀ b, sent b ≤ sent' b := fun b => by
    rw [hsent b]
    exact Nat.le_add_right ..
  rcases Nat.eq_zero_or_pos k with rfl | hk
  · refine h.lower (fun b => ?_) hmono
    have hcopy := hcopies b
    rwa [ite_self] at hcopy
  -- The node had its copy and had not sent it, so those that it feeds had none.
  have hsentp : sent' p = sent p + k := by
    rw [hsent p, if_pos rfl]
  have hp : copies' p ≤ copies p := by
    have hcopy := hcopies p
    rwa [if_neg (hself p)] at hcopy
  have honce := h.once p
  have hreached : Reached feeds entry p := h.reached p (by omega)
  have hbehind : ∀ b, feeds p b → copies' b ≤ 1 := by
    intro b hb
    have hpassed := h.passed p b hb hreached
    have hcopy := hcopies b
    rw [if_pos hb] at hcopy
    omega
  have hkeep : ∀ b, ¬ feeds p b → copies' b ≤ copies b := by
    intro b hb
    have hcopy := hcopies b
    rwa [if_neg hb] at hcopy
  refine ⟨fun b => ?_, fun b hpos => ?_, fun q b hq hq' => ?_⟩
  · by_cases hb : feeds p b
    · exact hbehind b hb
    · exact (hkeep b hb).trans (h.once b)
  · by_cases hb : feeds p b
    · exact hreached.tail hb
    · exact h.reached b (hpos.trans_le (hkeep b hb))
  · by_cases hb : feeds p b
    · obtain rfl := hunique q p b hq hb
      have hone := hbehind b hb
      omega
    · exact ((hkeep b hb).trans (h.passed q b hq hq')).trans (hmono q)

/-- A copy behind a node on a path was sent by it. -/
theorem Routed.sent_of_path (h : Routed feeds entry copies sent) (hle : ∀ b, sent b ≤ copies b)
    {p b : B} (hpath : Relation.TransGen feeds p b) (hp : Reached feeds entry p)
    (hb : 0 < copies b) : 0 < sent p := by
  induction hpath using Relation.TransGen.head_induction_on with
  | single hfeeds => exact hb.trans_le (h.passed _ _ hfeeds hp)
  | head hfeeds _ ih =>
    have hnext := ih (hp.tail hfeeds)
    exact (hnext.trans_le (hle _)).trans_le (h.passed _ _ hfeeds hp)

end Relay
