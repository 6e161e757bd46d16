import Mathlib.Data.Fintype.Basic
import BddsBroker.Lib.Machine
import BddsBroker.Lock.TaskLock

/-! Threads that use one lock correctly: each call's guard test and grant are one
step, unlock is one step, and only a holder unlocks. A waiting thread may test its
guard again at any time, as after a spurious wake-up. The counters describe the
holders as long as no reader unlocks while another still reads
(`excludes_of_sole_reader`); a reader that does drops the count of the other one,
and a writer then enters beside it (`writer_beside_reader`). -/

namespace BddsBroker.Exclusion

open RwLock

/-- Where a thread stands with respect to the lock. -/
inductive Mode
  | outside
  | pendingRead
  | pendingWrite
  | reading
  | writing
  deriving DecidableEq, Repr

structure State (T : Type*) where
  lock : TaskLock
  mode : T → Mode

inductive Action (T : Type*)
  | wlockEnter (t : T)
  | wlockGrant (t : T)
  | rlockEnter (t : T)
  | rlockGrant (t : T)
  | unlock (t : T)

variable {T : Type*} [DecidableEq T]

def init : State T := ⟨.taskLockInit, fun _ => .outside⟩

def step (s : State T) : Action T → Option (State T)
  | .wlockEnter t =>
      if s.mode t = .outside then
        some ⟨s.lock.wlockEnter, Function.update s.mode t .pendingWrite⟩
      else none
  | .wlockGrant t =>
      if s.mode t = .pendingWrite ∧ s.lock.wlockWaits = false then
        some ⟨s.lock.wlockGrant, Function.update s.mode t .writing⟩
      else none
  | .rlockEnter t =>
      if s.mode t = .outside then
        some ⟨s.lock.rlockEnter, Function.update s.mode t .pendingRead⟩
      else none
  | .rlockGrant t =>
      if s.mode t = .pendingRead ∧ s.lock.rlockWaits = false then
        some ⟨s.lock.rlockGrant, Function.update s.mode t .reading⟩
      else none
  | .unlock t =>
      if s.mode t = .reading ∨ s.mode t = .writing then
        some ⟨s.lock.unlockReset, Function.update s.mode t .outside⟩
      else none

/-- While one thread writes, no other thread reads or writes. -/
def Excludes (s : State T) : Prop :=
  ∀ t u, s.mode t = .writing → u ≠ t → s.mode u ≠ .reading ∧ s.mode u ≠ .writing

/-- Unlock is called while no other thread holds the lock for reading. -/
def UnlocksAlone (s : State T) : Action T → Prop
  | .unlock t => ∀ u, u ≠ t → s.mode u ≠ .reading
  | _ => True

instance [Fintype T] (s : State T) : ∀ a, Decidable (UnlocksAlone s a)
  | .unlock t => inferInstanceAs (Decidable (∀ u, u ≠ t → s.mode u ≠ .reading))
  | .wlockEnter _ | .wlockGrant _ | .rlockEnter _ | .rlockGrant _ => isTrue trivial

/-! ## The holders behind the counters -/

/-- The threads' modes and the counters describe the same holders. -/
structure Describes (s : State T) (h : Holders T) : Prop where
  tracks : s.lock.Tracks h
  reading : ∀ t, s.mode t = .reading ↔ t ∈ h.readers
  writing : ∀ t, s.mode t = .writing ↔ h.writer = some t

omit [DecidableEq T] in
theorem describes_init : Describes (init : State T) Holders.free := by
  refine ⟨TaskLock.tracks_init, ?_, ?_⟩ <;> simp [init, Holders.free]

omit [DecidableEq T] in
/-- Exclusion is part of the type of the holders. -/
theorem Describes.excludes {s : State T} {h : Holders T} (hd : Describes s h) : Excludes s := by
  intro t u ht hne
  have hw := (hd.writing t).mp ht
  constructor
  · intro hu
    have hmem := (hd.reading u).mp hu
    rw [Holders.readers_eq_empty hw] at hmem
    simp at hmem
  · intro hu
    have hu' := (hd.writing u).mp hu
    rw [hw] at hu'
    exact hne (Option.some.inj hu').symm

/-- Thread `t` moves to the mode `m`, and nobody else's hold changes. -/
theorem Describes.update {s : State T} {h h' : Holders T} {l : TaskLock} {t : T} {m : Mode}
    (hd : Describes s h) (hl : l.Tracks h') (hread : m = .reading ↔ t ∈ h'.readers)
    (hwrite : m = .writing ↔ h'.writer = some t)
    (hother : ∀ u, u ≠ t →
      (u ∈ h.readers ↔ u ∈ h'.readers) ∧ (h.writer = some u ↔ h'.writer = some u)) :
    Describes ⟨l, Function.update s.mode t m⟩ h' := by
  refine ⟨hl, fun u => ?_, fun u => ?_⟩
  · by_cases hu : u = t
    · subst hu
      simpa using hread
    · simpa [Function.update_of_ne hu] using (hd.reading u).trans (hother u hu).1
  · by_cases hu : u = t
    · subst hu
      simpa using hwrite
    · simpa [Function.update_of_ne hu] using (hd.writing u).trans (hother u hu).2

/-- A thread enters a lock function: it held nothing and still holds nothing. -/
theorem Describes.enter {s : State T} {h : Holders T} {l : TaskLock} {t : T} {m : Mode}
    (hd : Describes s h) (hl : l.Tracks h) (hm : s.mode t = .outside)
    (hread : m ≠ .reading) (hwrite : m ≠ .writing) :
    Describes ⟨l, Function.update s.mode t m⟩ h := by
  have hr : t ∉ h.readers := by rw [← hd.reading, hm]; decide
  have hw : h.writer ≠ some t := by rw [Ne, ← hd.writing, hm]; decide
  exact hd.update hl (iff_of_false hread hr) (iff_of_false hwrite hw)
    fun _ _ => ⟨Iff.rfl, Iff.rfl⟩

theorem Describes.wlockGrant {s : State T} {h : Holders T} {t : T} (hd : Describes s h)
    (hg : s.lock.wlockWaits = false) :
    Describes ⟨s.lock.wlockGrant, Function.update s.mode t .writing⟩ (h.acquireWrite t) := by
  obtain ⟨hw, hr⟩ := hd.tracks.wlock_free hg
  apply hd.update (hd.tracks.wlockGrant hg t)
  · simp [Holders.acquireWrite]
  · simp [Holders.acquireWrite]
  · intro u hu
    simp [Holders.acquireWrite, hw, hr, Ne.symm hu]

theorem Describes.rlockGrant {s : State T} {h : Holders T} {t : T} (hd : Describes s h)
    (hg : s.lock.rlockWaits = false) (hfresh : t ∉ h.readers) :
    Describes ⟨s.lock.rlockGrant, Function.update s.mode t .reading⟩ (h.acquireRead t) := by
  have hw := hd.tracks.rlock_free hg
  apply hd.update (hd.tracks.rlockGrant hg hfresh)
  · simp [Holders.acquireRead]
  · simp [Holders.acquireRead]
  · intro u hu
    simp [Holders.acquireRead, hw, hu]

theorem Describes.unlock_writer {s : State T} {h : Holders T} {t : T} (hd : Describes s h)
    (hw : h.writer = some t) :
    Describes ⟨s.lock.unlockReset, Function.update s.mode t .outside⟩ Holders.free := by
  apply hd.update (hd.tracks.unlock_writer hw)
  · simp [Holders.free]
  · simp [Holders.free]
  · intro u hu
    simp [Holders.free, Holders.readers_eq_empty hw, hw, Ne.symm hu]

theorem Describes.unlock_reader {s : State T} {h : Holders T} {t : T} (hd : Describes s h)
    (hr : h.readers = {t}) :
    Describes ⟨s.lock.unlockReset, Function.update s.mode t .outside⟩ (h.releaseRead t) := by
  have hw := Holders.writer_eq_none (h := h) (t := t) (by simp [hr])
  apply hd.update (hd.tracks.unlock_sole_reader hr)
  · simp [Holders.releaseRead]
  · simp [Holders.releaseRead]
  · intro u hu
    simp [Holders.releaseRead, hw, hu]

/-- One admitted step is a transfer of the abstract lock, or leaves it alone. -/
theorem describes_step {s s' : State T} {a : Action T} {h : Holders T} (hd : Describes s h)
    (hc : UnlocksAlone s a) (hs : step s a = some s') :
    ∃ h', Relation.ReflTransGen Holders.Step h h' ∧ Describes s' h' := by
  cases a with
  | wlockEnter t =>
    simp only [step, Option.ite_none_right_eq_some, Option.some.injEq] at hs
    obtain ⟨hm, rfl⟩ := hs
    exact ⟨h, .refl, hd.enter hd.tracks.wlockEnter hm (by decide) (by decide)⟩
  | rlockEnter t =>
    simp only [step, Option.ite_none_right_eq_some, Option.some.injEq] at hs
    obtain ⟨hm, rfl⟩ := hs
    exact ⟨h, .refl, hd.enter hd.tracks.rlockEnter hm (by decide) (by decide)⟩
  | wlockGrant t =>
    simp only [step, Option.ite_none_right_eq_some, Option.some.injEq] at hs
    obtain ⟨⟨hm, hg⟩, rfl⟩ := hs
    obtain ⟨hw, hr⟩ := hd.tracks.wlock_free hg
    exact ⟨_, .single (.acquireWrite h t hw hr), hd.wlockGrant hg⟩
  | rlockGrant t =>
    simp only [step, Option.ite_none_right_eq_some, Option.some.injEq] at hs
    obtain ⟨⟨hm, hg⟩, rfl⟩ := hs
    have hfresh : t ∉ h.readers := by rw [← hd.reading, hm]; decide
    exact ⟨_, .single (.acquireRead h t (hd.tracks.rlock_free hg) hfresh), hd.rlockGrant hg hfresh⟩
  | unlock t =>
    simp only [step, Option.ite_none_right_eq_some, Option.some.injEq] at hs
    obtain ⟨hm, rfl⟩ := hs
    rcases hm with hm | hm
    · have hmem := (hd.reading t).mp hm
      have hsole : h.readers = {t} := by
        ext u
        rw [Finset.mem_singleton]
        constructor
        · intro hu
          by_contra hne
          exact hc u hne ((hd.reading u).mpr hu)
        · rintro rfl
          exact hmem
      exact ⟨_, .single (.releaseRead h t hmem), hd.unlock_reader hsole⟩
    · have hw := (hd.writing t).mp hm
      exact ⟨_, .single (.releaseWrite h t hw), hd.unlock_writer hw⟩

/-- **Refinement.** Runs in which no reader unlocks beside another reader are runs of
the abstract reader-writer lock. -/
theorem run_refines {s : State T} {acts : List (Action T)}
    (hc : Machine.Along step UnlocksAlone init acts)
    (hr : Machine.run step init acts = some s) :
    ∃ h, Relation.ReflTransGen Holders.Step Holders.free h ∧ Describes s h :=
  Machine.run_simulation (fun _ _ _ _ hd hc hs => describes_step hd hc hs) describes_init hc hr

/-- **Exclusion**, in every run whose readers unlock one at a time. -/
theorem excludes_of_sole_reader {s : State T} {acts : List (Action T)}
    (hc : Machine.Along step UnlocksAlone init acts)
    (hr : Machine.run step init acts = some s) : Excludes s := by
  obtain ⟨h, _, hd⟩ := run_refines hc hr
  exact hd.excludes

/-- One thread reads and unlocks, then the other one writes. -/
def handover {T : Type} (reader writer : T) : List (Action T) :=
  [.rlockEnter reader, .rlockGrant reader, .wlockEnter writer, .unlock reader,
    .wlockGrant writer]

theorem handover_excludes :
    ∃ s : State (Fin 2), Machine.run step init (handover 0 1) = some s ∧
      s.mode 1 = .writing ∧ Excludes s := by
  have hc : Machine.Along step UnlocksAlone (init : State (Fin 2)) (handover 0 1) := by decide
  exact ⟨_, rfl, rfl, excludes_of_sole_reader hc rfl⟩

/-- Two threads read, one of them unlocks, and a third one asks for writing. -/
def earlyWriter {T : Type} (first second writer : T) : List (Action T) :=
  [.rlockEnter first, .rlockGrant first, .rlockEnter second, .rlockGrant second,
    .unlock first, .wlockEnter writer, .wlockGrant writer]

/-- The first reader's unlock sets `reader_number` to 0 although the second one still
reads, so the writer's guard lets it in. -/
theorem writer_beside_reader :
    ∃ s : State (Fin 3), Machine.run step init (earlyWriter 0 1 2) = some s ∧
      s.mode 1 = .reading ∧ s.mode 2 = .writing ∧ ¬ Excludes s :=
  ⟨_, rfl, rfl, rfl, fun h => (h 2 1 rfl (by decide)).1 rfl⟩

end BddsBroker.Exclusion
