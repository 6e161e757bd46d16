import Mathlib.Data.Finset.Card
import Mathlib.Logic.Relation

/-! The reader-writer lock as its users see it: the set of threads that hold it for
reading and the thread that holds it for writing. The exclusion of readers by a
writer is part of the type. -/

namespace RwLock

/-- The holders of a reader-writer lock. -/
structure Holders (T : Type*) where
  readers : Finset T
  writer : Option T
  exclusive : writer = none ∨ readers = ∅

namespace Holders

variable {T : Type*} [DecidableEq T]

def free : Holders T := ⟨∅, none, .inl rfl⟩

def acquireRead (h : Holders T) (t : T) : Holders T := ⟨insert t h.readers, none, .inl rfl⟩

def acquireWrite (_ : Holders T) (t : T) : Holders T := ⟨∅, some t, .inr rfl⟩

def releaseRead (h : Holders T) (t : T) : Holders T := ⟨h.readers.erase t, none, .inl rfl⟩

/-- One transfer of the lock. Reading needs that nobody writes, writing that nobody
holds the lock at all. -/
inductive Step : Holders T → Holders T → Prop
  | acquireRead (h : Holders T) (t : T) (hw : h.writer = none) (ht : t ∉ h.readers) :
      Step h (h.acquireRead t)
  | acquireWrite (h : Holders T) (t : T) (hw : h.writer = none) (hr : h.readers = ∅) :
      Step h (h.acquireWrite t)
  | releaseRead (h : Holders T) (t : T) (ht : t ∈ h.readers) : Step h (h.releaseRead t)
  | releaseWrite (h : Holders T) (t : T) (ht : h.writer = some t) : Step h free

omit [DecidableEq T] in
theorem readers_eq_empty {h : Holders T} {t : T} (ht : h.writer = some t) : h.readers = ∅ := by
  rcases h.exclusive with hw | hr
  · rw [ht] at hw
    cases hw
  · exact hr

omit [DecidableEq T] in
theorem writer_eq_none {h : Holders T} {t : T} (ht : t ∈ h.readers) : h.writer = none := by
  rcases h.exclusive with hw | hr
  · exact hw
  · rw [hr] at ht
    simp at ht

end Holders

end RwLock
