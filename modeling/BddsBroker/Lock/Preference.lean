import BddsBroker.Lib.Machine
import BddsBroker.Lib.Tally
import BddsBroker.Lock.TaskLock

/-! The lock under arbitrary calls. Any thread outside the lock functions may call any
of them; each statement on the counters is one step, the guard test with the grant
one step, and every test and assignment of unlock a step of its own. A thread whose
guard fails sleeps until a `notify_all` or a spurious wake-up. The pending counts are
the numbers of waiting threads in every reachable state, so no reader is granted the
lock past a waiting writer (`prefers_writers`). -/

namespace BddsBroker.Preference

open Tally

/-- Where a thread stands in the code of the lock. -/
inductive Pc
  | outside
  /-- Past `pending_writers++` or `pending_readers++`, about to test the guard. -/
  | pending (p : Party)
  /-- In `wait`. -/
  | asleep (p : Party)
  | testWriter
  | zeroWriter
  | testReader
  | zeroReader
  | testNotifyWriters
  | testNotifyReaders
  | notify (p : Party)
  deriving DecidableEq, Repr

/-- Past the increment and not granted. -/
def Pc.isPending (p : Party) : Pc → Bool
  | .pending q | .asleep q => p == q
  | _ => false

/-- What `notify_all` does to a thread. -/
def Pc.notified (p : Party) : Pc → Pc
  | .asleep q => if q = p then .pending q else .asleep q
  | pc => pc

structure State (T : Type*) where
  lock : TaskLock
  pc : T → Pc

inductive Action (T : Type*)
  /-- `task_mutex_wlock` or `task_mutex_rlock`, up to the increment. -/
  | call (t : T) (p : Party)
  | guard (t : T)
  /-- A spurious wake-up. -/
  | wake (t : T)
  | unlock (t : T)
  /-- The next statement of `task_mutex_unlock`. -/
  | next (t : T)

variable {T : Type*} [DecidableEq T]

def init : State T := ⟨.taskLockInit, fun _ => .outside⟩

/-- Thread `t` goes to `pc` and leaves the counters `l`. -/
def State.goto (s : State T) (t : T) (l : TaskLock) (pc : Pc) : State T :=
  ⟨l, Function.update s.pc t pc⟩

def unlockStep (s : State T) (t : T) : Option (State T) :=
  match s.pc t with
  | .testWriter =>
      some (s.goto t s.lock (if s.lock.writerNumber > 0 then .zeroWriter else .testReader))
  | .zeroWriter => some (s.goto t s.lock.zeroWriter .testNotifyWriters)
  | .testReader =>
      some (s.goto t s.lock (if s.lock.readerNumber > 0 then .zeroReader else .testNotifyWriters))
  | .zeroReader => some (s.goto t s.lock.zeroReader .testNotifyWriters)
  | .testNotifyWriters =>
      some (s.goto t s.lock
        (if s.lock.notifiesWriters then .notify .writer else .testNotifyReaders))
  | .testNotifyReaders =>
      some (s.goto t s.lock (if s.lock.notifiesReaders then .notify .reader else .outside))
  | .notify p =>
      some (State.goto ⟨s.lock, fun u => (s.pc u).notified p⟩ t s.lock .outside)
  | _ => none

def step (s : State T) : Action T → Option (State T)
  | .call t p =>
      if s.pc t = .outside then some (s.goto t (s.lock.enter p) (.pending p)) else none
  | .guard t =>
      match s.pc t with
      | .pending p =>
          if s.lock.waits p then some (s.goto t s.lock (.asleep p))
          else some (s.goto t (s.lock.grant p) .outside)
      | _ => none
  | .wake t =>
      match s.pc t with
      | .asleep p => some (s.goto t s.lock (.pending p))
      | _ => none
  | .unlock t => if s.pc t = .outside then some (s.goto t s.lock .testWriter) else none
  | .next t => unlockStep s t

/-! ## The counting invariant -/

variable [Fintype T]

/-- The pending counts are numbers of threads, and the holder counts are in range. -/
structure Counts (s : State T) : Prop where
  pending : ∀ p, s.lock.pendingNumber p = tally (ind (Pc.isPending p)) s.pc
  range : s.lock.InRange

omit [DecidableEq T] in
theorem counts_init : Counts (init : State T) := by
  refine ⟨fun p => ?_, TaskLock.inRange_init⟩
  have h0 : tally (ind (Pc.isPending p)) (fun _ : T => Pc.outside) = 0 :=
    tally_eq_zero.mpr fun _ => rfl
  simp only [init, h0]
  cases p <;> rfl

/-- A step of one thread keeps the invariant when the count moves with the thread. -/
theorem Counts.goto {s : State T} {t : T} {l : TaskLock} {pc : Pc} (hc : Counts s)
    (hl : l.InRange)
    (hp : ∀ p, l.pendingNumber p =
      s.lock.pendingNumber p + ind (Pc.isPending p) pc - ind (Pc.isPending p) (s.pc t)) :
    Counts (s.goto t l pc) := by
  refine ⟨fun p => ?_, hl⟩
  have htally := tally_update (ind (Pc.isPending p)) s.pc t pc
  have hold := hc.pending p
  have hnew := hp p
  simp only [State.goto]
  omega

/-- A step of one thread that leaves the counts alone and stays on the same side. -/
theorem Counts.stay {s : State T} {t : T} {l : TaskLock} {pc : Pc} (hc : Counts s)
    (hl : l.InRange) (hn : ∀ p, l.pendingNumber p = s.lock.pendingNumber p)
    (hp : ∀ p, pc.isPending p = (s.pc t).isPending p) : Counts (s.goto t l pc) := by
  apply hc.goto hl
  intro p
  rw [hn p]
  simp [ind, hp p]

omit [DecidableEq T] in
theorem Counts.notify {s : State T} (hc : Counts s) (p : Party) :
    Counts ⟨s.lock, fun u => (s.pc u).notified p⟩ := by
  refine ⟨fun q => ?_, hc.range⟩
  rw [tally_comp (w := ind (Pc.isPending q)) (g := Pc.notified p) ?_ s.pc]
  · exact hc.pending q
  · intro pc
    cases pc with
    | asleep r => by_cases h : r = p <;> simp [Pc.notified, ind, Pc.isPending, h]
    | _ => rfl

theorem counts_unlockStep {s s' : State T} {t : T} (hc : Counts s)
    (hs : unlockStep s t = some s') : Counts s' := by
  cases hpc : s.pc t with
  | outside | pending p | asleep p => simp [unlockStep, hpc] at hs
  | testWriter | testReader | testNotifyWriters | testNotifyReaders =>
    simp only [unlockStep, hpc, Option.some.injEq] at hs
    subst hs
    exact hc.stay hc.range (fun _ => rfl) fun p => by rw [hpc]; split <;> rfl
  | zeroWriter =>
    simp only [unlockStep, hpc, Option.some.injEq] at hs
    subst hs
    exact hc.stay hc.range.zeroWriter (by simp) fun p => by rw [hpc]; rfl
  | zeroReader =>
    simp only [unlockStep, hpc, Option.some.injEq] at hs
    subst hs
    exact hc.stay hc.range.zeroReader (by simp) fun p => by rw [hpc]; rfl
  | notify q =>
    simp only [unlockStep, hpc, Option.some.injEq] at hs
    subst hs
    exact (hc.notify q).stay hc.range (fun _ => rfl) fun p => by
      simp [hpc, Pc.notified, Pc.isPending]

theorem counts_step {s s' : State T} {a : Action T} (hc : Counts s)
    (hs : step s a = some s') : Counts s' := by
  cases a with
  | call t p =>
    simp only [step, Option.ite_none_right_eq_some, Option.some.injEq] at hs
    obtain ⟨hpc, rfl⟩ := hs
    apply hc.goto (hc.range.enter p)
    intro q
    rw [TaskLock.pendingNumber_enter, hpc]
    cases p <;> cases q <;> simp [ind, Pc.isPending]
  | guard t =>
    simp only [step] at hs
    split at hs
    · rename_i p hpc
      split at hs
      · obtain rfl := Option.some.inj hs
        exact hc.stay hc.range (fun _ => rfl) fun q => by rw [hpc]; rfl
      · rename_i hg
        obtain rfl := Option.some.inj hs
        apply hc.goto (hc.range.grant (by simpa using hg))
        intro q
        rw [TaskLock.pendingNumber_grant, hpc]
        cases p <;> cases q <;> simp [ind, Pc.isPending]
    · cases hs
  | wake t =>
    simp only [step] at hs
    split at hs
    · rename_i p hpc
      obtain rfl := Option.some.inj hs
      exact hc.stay hc.range (fun _ => rfl) fun q => by rw [hpc]; rfl
    · cases hs
  | unlock t =>
    simp only [step, Option.ite_none_right_eq_some, Option.some.injEq] at hs
    obtain ⟨hpc, rfl⟩ := hs
    exact hc.stay hc.range (fun _ => rfl) fun p => by rw [hpc]; rfl
  | next t => exact counts_unlockStep hc hs

theorem counts_reachable {s : State T} (hr : Machine.Reachable step init s) : Counts s :=
  Machine.reachable_invariant (fun _ _ _ hc hs => counts_step hc hs) counts_init hr

/-! ## Preference for writers -/

/-- What the counters say about the threads, and what it means for readers. -/
structure PrefersWriters (s : State T) : Prop where
  pendingWriters_eq : s.lock.pendingWriters =
    (Finset.univ.filter fun t => (s.pc t).isPending .writer = true).card
  pendingReaders_eq : s.lock.pendingReaders =
    (Finset.univ.filter fun t => (s.pc t).isPending .reader = true).card
  pendingWriters_nonneg : 0 ≤ s.lock.pendingWriters
  pendingReaders_nonneg : 0 ≤ s.lock.pendingReaders
  writerNumber_eq : s.lock.writerNumber = 0 ∨ s.lock.writerNumber = 1
  not_both : ¬ (0 < s.lock.writerNumber ∧ 0 < s.lock.readerNumber)
  no_grant : ∀ t s', s.pc t = .pending .reader → step s (.guard t) = some s' →
    s'.pc t = .outside → ∀ u, (s.pc u).isPending .writer = false

omit [DecidableEq T] in
theorem Counts.pendingNumber_eq {s : State T} (hc : Counts s) (p : Party) :
    s.lock.pendingNumber p =
      (Finset.univ.filter fun t => (s.pc t).isPending p = true).card := by
  rw [hc.pending p, tally_ind]

/-- A reader that the guard lets through saw no pending writer. -/
theorem Counts.no_grant {s s' : State T} (hc : Counts s) {t : T}
    (hpc : s.pc t = .pending .reader) (hs : step s (.guard t) = some s')
    (hout : s'.pc t = .outside) (u : T) : (s.pc u).isPending .writer = false := by
  simp only [step, hpc] at hs
  split at hs
  · obtain rfl := Option.some.inj hs
    simp [State.goto] at hout
  · rename_i hg
    have hpass : s.lock.rlockWaits = false := Bool.eq_false_iff.mpr hg
    have hle := (TaskLock.rlockWaits_eq_false.mp hpass).1
    have hpend : s.lock.pendingWriters = _ := hc.pending .writer
    by_contra hu
    have hpos := tally_ind_pos (p := Pc.isPending .writer) (f := s.pc) (t := u) (by simpa using hu)
    omega

/-- **Preference for writers.** For any number of threads and any calls. -/
theorem prefers_writers {s : State T} (hr : Machine.Reachable step init s) :
    PrefersWriters s := by
  have hc := counts_reachable hr
  have hw : s.lock.pendingWriters = _ := hc.pendingNumber_eq .writer
  have hrd : s.lock.pendingReaders = _ := hc.pendingNumber_eq .reader
  obtain ⟨hw0, hw1, -, hapart⟩ := hc.range
  refine ⟨hw, hrd, by omega, by omega, by omega, by omega, ?_⟩
  exact fun t s' hpc hs hout u => hc.no_grant hpc hs hout u

/-- A reader arrives after a writer, so it sleeps until the writer has unlocked. -/
def readerQueues {T : Type} (writer reader : T) : List (Action T) :=
  [.call writer .writer, .call reader .reader, .guard reader, .guard writer, .unlock writer,
    .next writer, .next writer]

theorem readerQueues_prefersWriters :
    ∃ s : State (Fin 2), Machine.run step init (readerQueues 0 1) = some s ∧
      s.pc 1 = .asleep .reader ∧ s.lock.writerNumber = 0 ∧ PrefersWriters s :=
  ⟨_, rfl, rfl, rfl, prefers_writers ⟨readerQueues 0 1, rfl⟩⟩

end BddsBroker.Preference
