import Mathlib.Data.List.Infix
import Mathlib.Data.List.Basic
import Mathlib.Logic.Function.Basic
import Mathlib.Logic.Relation

/-! Queues in the abstract, one for each producer, that several consumers share. An item is
pushed at the end of its producer's queue, and a consumer pops the first one of a queue of its
choice. -/

namespace Fifos

/-- What was pushed to each queue and what was popped from it, and by whom, in order. -/
structure State (P T α : Type*) where
  pushed : P → List α
  popped : P → List (T × α)

variable {P T α : Type*}

def start : State P T α := ⟨fun _ => [], fun _ => []⟩

inductive Step [DecidableEq P] : State P T α → State P T α → Prop
  | push {s : State P T α} (p : P) (a : α) :
      Step s { s with pushed := Function.update s.pushed p (s.pushed p ++ [a]) }
  | pop {s : State P T α} (p : P) (t : T) {a : α}
      (h : (s.pushed p)[(s.popped p).length]? = some a) :
      Step s { s with popped := Function.update s.popped p (s.popped p ++ [(t, a)]) }

/-- What the consumer `t` has popped from the queue of `p`. -/
def State.got [DecidableEq T] (s : State P T α) (t : T) (p : P) : List α :=
  ((s.popped p).filter fun x => x.1 = t).map Prod.snd

section Order

variable [DecidableEq P] {s s' : State P T α}

theorem prefix_snoc {l m : List α} {a : α} (h : l <+: m) (ha : m[l.length]? = some a) :
    l ++ [a] <+: m := by
  obtain ⟨k, rfl⟩ := h
  rw [List.getElem?_append_right (le_refl _), Nat.sub_self] at ha
  cases k with
  | nil => simp at ha
  | cons b k =>
    obtain rfl := Option.some.inj ha
    exact ⟨k, by simp⟩

theorem Step.popped_initial (h : Step s s') (hs : ∀ p, (s.popped p).map Prod.snd <+: s.pushed p)
    (p : P) : (s'.popped p).map Prod.snd <+: s'.pushed p := by
  cases h with
  | push q a =>
    rcases eq_or_ne p q with rfl | hp
    · simp only [Function.update_self]
      exact (hs p).trans (List.prefix_append _ _)
    · simp only [Function.update_of_ne hp]
      exact hs p
  | @pop q t a ha =>
    rcases eq_or_ne p q with rfl | hp
    · simp only [Function.update_self, List.map_append]
      exact prefix_snoc (hs p) (by rwa [List.length_map])
    · simp only [Function.update_of_ne hp]
      exact hs p

/-- **First in, first out.** What was popped is the start of what was pushed. -/
theorem popped_initial (h : Relation.ReflTransGen Step start s) (p : P) :
    (s.popped p).map Prod.snd <+: s.pushed p := by
  induction h generalizing p with
  | refl => exact List.nil_prefix
  | tail _ hstep ih => exact hstep.popped_initial ih p

variable [DecidableEq T]

/-- Each consumer sees the items of a producer in their order. -/
theorem got_sublist (h : Relation.ReflTransGen Step start s) (t : T) (p : P) :
    (s.got t p).Sublist (s.pushed p) :=
  (List.filter_sublist.map Prod.snd).trans (popped_initial h p).sublist

/-- A consumer that is alone misses none. -/
theorem got_initial [Subsingleton T] (h : Relation.ReflTransGen Step start s) (t : T) (p : P) :
    s.got t p <+: s.pushed p := by
  have hall : (s.popped p).filter (fun x => x.1 = t) = s.popped p :=
    List.filter_eq_self.mpr fun x _ => decide_eq_true (Subsingleton.elim x.1 t)
  rw [State.got, hall]
  exact popped_initial h p

end Order

end Fifos
