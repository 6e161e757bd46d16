import Mathlib.Data.Fintype.Basic
import BddsBroker.Lib.Machine
import BddsBroker.Lib.Tally
import BddsBroker.Lock.TaskLock

/-! The lock statement by statement, with the extent of each C++ lock object. The
temporary `scoped_lock` at the head of a function is gone at the end of its own
statement; `wait_cond` lives to the end of the function, and `wait` gives the mutex
up while the thread sleeps. Unlock therefore changes the counters and notifies
without the mutex, and a waiter that has just failed its guard test is not asleep
yet: `notify_all` misses it (`reader_gone_unnoticed`). No wake-up is lost in a run
whose notifications never fall into that window (`no_wakeUp_lost`). -/

namespace BddsBroker.WakeUp

open Tally

/-- The statements of `task_mutex_wlock` and `task_mutex_rlock`. -/
inductive LockPoint
  | head
  | enter
  | lockMutex
  | test
  /-- The guard has failed and `wait` is about to release the mutex. -/
  | wait
  | asleep
  /-- Notified, and about to take the mutex again. -/
  | woken
  | countTask
  | leavePending
  | hold
  | leave
  deriving DecidableEq, Repr

/-- The statements of `task_mutex_unlock`. -/
inductive UnlockPoint
  | head
  | testWriter
  | zeroWriter
  | testReader
  | zeroReader
  | testNotifyWriters
  | testNotifyReaders
  | notify (p : Party)
  deriving DecidableEq, Repr

inductive Pc
  | outside
  | inLock (p : Party) (k : LockPoint)
  | inUnlock (k : UnlockPoint)
  deriving DecidableEq, Repr

structure State (T : Type*) where
  lock : TaskLock
  /-- Who owns `lock_mutex` between two statements. -/
  owner : Option T
  pc : T → Pc

inductive Action (T : Type*)
  | call (t : T) (p : Party)
  | callUnlock (t : T)
  /-- The next statement of the thread. -/
  | next (t : T)
  /-- A spurious wake-up. -/
  | wake (t : T)

variable {T : Type*} [DecidableEq T]

def init : State T := ⟨.taskLockInit, none, fun _ => .outside⟩

/-- Thread `t` goes to `pc` and leaves the counters `l`. -/
def State.goto (s : State T) (t : T) (l : TaskLock) (pc : Pc) : State T :=
  { s with lock := l, pc := Function.update s.pc t pc }

def State.withOwner (s : State T) (o : Option T) : State T := { s with owner := o }

def lockStep (s : State T) (t : T) (p : Party) : LockPoint → Option (State T)
  | .head => if s.owner = none then some (s.goto t s.lock (.inLock p .enter)) else none
  | .enter => some (s.goto t (s.lock.enter p) (.inLock p .lockMutex))
  | .lockMutex =>
      if s.owner = none then some ((s.goto t s.lock (.inLock p .test)).withOwner (some t))
      else none
  | .test =>
      some (s.goto t s.lock (if s.lock.waits p then .inLock p .wait else .inLock p .countTask))
  | .wait => some ((s.goto t s.lock (.inLock p .asleep)).withOwner none)
  | .asleep => none
  | .woken =>
      if s.owner = none then some ((s.goto t s.lock (.inLock p .test)).withOwner (some t))
      else none
  | .countTask => some (s.goto t (s.lock.countTask p) (.inLock p .leavePending))
  | .leavePending => some (s.goto t (s.lock.leavePending p) (.inLock p .hold))
  | .hold => some (s.goto t (s.lock.hold p) (.inLock p .leave))
  | .leave => some ((s.goto t s.lock .outside).withOwner none)

/-- What `notify_all` does to a thread. -/
def Pc.notified (p : Party) : Pc → Pc
  | .inLock q .asleep => if q = p then .inLock q .woken else .inLock q .asleep
  | pc => pc

def State.notifyAll (s : State T) (p : Party) : State T :=
  { s with pc := fun u => (s.pc u).notified p }

def unlockStep (s : State T) (t : T) : UnlockPoint → Option (State T)
  | .head => if s.owner = none then some (s.goto t s.lock (.inUnlock .testWriter)) else none
  | .testWriter =>
      some (s.goto t s.lock
        (.inUnlock (if s.lock.writerNumber > 0 then .zeroWriter else .testReader)))
  | .zeroWriter => some (s.goto t s.lock.zeroWriter (.inUnlock .testNotifyWriters))
  | .testReader =>
      some (s.goto t s.lock
        (.inUnlock (if s.lock.readerNumber > 0 then .zeroReader else .testNotifyWriters)))
  | .zeroReader => some (s.goto t s.lock.zeroReader (.inUnlock .testNotifyWriters))
  | .testNotifyWriters =>
      some (s.goto t s.lock
        (.inUnlock (if s.lock.notifiesWriters then .notify .writer else .testNotifyReaders)))
  | .testNotifyReaders =>
      some (s.goto t s.lock
        (if s.lock.notifiesReaders then .inUnlock (.notify .reader) else .outside))
  | .notify p => some ((s.notifyAll p).goto t s.lock .outside)

def step (s : State T) : Action T → Option (State T)
  | .call t p =>
      if s.pc t = .outside then some (s.goto t s.lock (.inLock p .head)) else none
  | .callUnlock t =>
      if s.pc t = .outside then some (s.goto t s.lock (.inUnlock .head)) else none
  | .next t =>
      match s.pc t with
      | .outside => none
      | .inLock p k => lockStep s t p k
      | .inUnlock k => unlockStep s t k
  | .wake t =>
      match s.pc t with
      | .inLock p .asleep => some (s.goto t s.lock (.inLock p .woken))
      | _ => none

/-! ## Lost wake-ups -/

/-- Inside a lock function and not asleep, or inside unlock. -/
def Pc.isAwake : Pc → Bool
  | .outside | .inLock _ .asleep => false
  | _ => true

/-- Nobody holds the lock or does anything about it, and yet a thread sleeps. -/
def LostWakeUp (s : State T) : Prop :=
  s.lock.writerNumber = 0 ∧ s.lock.readerNumber = 0 ∧ (∀ t, (s.pc t).isAwake = false) ∧
    ∃ t p, s.pc t = .inLock p .asleep

/-- `notify_all` runs while no thread it is meant for stands between its guard test
and its sleep. -/
def NotifiesSleepers (s : State T) : Action T → Prop
  | .next t => ∀ p, s.pc t = .inUnlock (.notify p) → ∀ u, s.pc u ≠ .inLock p .wait
  | _ => True

instance [Fintype T] (s : State T) : ∀ a, Decidable (NotifiesSleepers s a)
  | .next t =>
      match h : s.pc t with
      | .inUnlock (.notify p) =>
          decidable_of_iff (∀ u, s.pc u ≠ .inLock p .wait) (by simp [NotifiesSleepers, h])
      | .inUnlock .head | .inUnlock .testWriter | .inUnlock .zeroWriter | .inUnlock .testReader
      | .inUnlock .zeroReader | .inUnlock .testNotifyWriters | .inUnlock .testNotifyReaders
      | .inLock _ _ | .outside => isTrue (by simp [NotifiesSleepers, h])
  | .call _ _ | .callUnlock _ | .wake _ => isTrue trivial

/-- The next `n` statements of a thread. -/
def statements {T : Type} (t : T) (n : Nat) : List (Action T) := List.replicate n (.next t)

/-- A reader holds the lock and has passed the head of unlock; a writer fails its
guard test; the reader zeroes the count and notifies; only then the writer sleeps. -/
def window {T : Type} (reader writer : T) : List (Action T) :=
  .call reader .reader :: statements reader 8 ++ .callUnlock reader :: statements reader 1 ++
    .call writer .writer :: statements writer 4 ++ statements reader 5 ++ statements writer 1

theorem reader_gone_unnoticed :
    ∃ s : State (Fin 2), Machine.run step init (window 0 1) = some s ∧ LostWakeUp s :=
  ⟨_, rfl, rfl, rfl, by decide, 1, .writer, rfl⟩

/-! ## Who will wake the sleepers -/

/-- Past the increment of the pending count and not past its decrement. -/
def Pc.isPending (p : Party) : Pc → Bool
  | .inLock q .lockMutex | .inLock q .test | .inLock q .wait | .inLock q .asleep
  | .inLock q .woken | .inLock q .countTask | .inLock q .leavePending => p == q
  | _ => false

/-- Past a failed guard test, and not woken since. -/
def Pc.waitsFor (p : Party) : Pc → Bool
  | .inLock q .wait | .inLock q .asleep => p == q
  | _ => false

/-- A thread here will notify the party, or hold the lock and so unlock it. -/
def Pc.serves : Party → Pc → Bool
  | .writer, .inUnlock .testNotifyWriters | .writer, .inUnlock (.notify .writer) => true
  | .reader, .inUnlock .testNotifyWriters | .reader, .inUnlock .testNotifyReaders
  | .reader, .inUnlock (.notify .reader) | .reader, .inLock .writer .hold => true
  | _, _ => false

@[simp] theorem Pc.serves_inLock {p q : Party} {k : LockPoint} (hk : k ≠ .hold) :
    (Pc.inLock q k).serves p = false := by
  cases p <;> cases q <;> cases k <;> first | rfl | exact absurd rfl hk

/-- There is a reason for the party to wait that will end with a notification. -/
def Served (p : Party) (s : State T) : Prop :=
  s.lock.writerNumber ≠ 0 ∨ s.lock.readerNumber ≠ 0 ∨ (p = .reader ∧ 0 < s.lock.pendingWriters) ∨
    ∃ u, (s.pc u).serves p = true

variable [Fintype T]

structure Wakes (s : State T) : Prop where
  pending : ∀ p, s.lock.pendingNumber p = tally (ind (Pc.isPending p)) s.pc
  writer_nonneg : 0 ≤ s.lock.writerNumber
  reader_nonneg : 0 ≤ s.lock.readerNumber
  served : ∀ p t, (s.pc t).waitsFor p = true → Served p s

omit [DecidableEq T] in
theorem wakes_init : Wakes (init : State T) := by
  refine ⟨fun p => ?_, le_refl _, le_refl _, fun p t ht => by cases ht⟩
  have h0 : tally (ind (Pc.isPending p)) (fun _ : T => Pc.outside) = 0 :=
    tally_eq_zero.mpr fun _ => rfl
  simp only [init, h0]
  cases p <;> rfl

omit [DecidableEq T] in
theorem Wakes.pending_pos {s : State T} (h : Wakes s) {p : Party} {t : T}
    (ht : (s.pc t).isPending p = true) : 0 < s.lock.pendingNumber p := by
  have hpos := tally_ind_pos (p := Pc.isPending p) (f := s.pc) ht
  have heq := h.pending p
  omega

theorem Pc.isPending_of_waitsFor {p : Party} {pc : Pc} (h : pc.waitsFor p = true) :
    pc.isPending p = true := by
  cases pc with
  | outside => cases h
  | inUnlock k => cases h
  | inLock q k => cases k <;> first | exact h | cases h

/-- The counts move with the thread. -/
theorem Wakes.pending_goto {s : State T} (h : Wakes s) {t : T} {l : TaskLock} {pc : Pc}
    (hp : ∀ p, l.pendingNumber p =
      s.lock.pendingNumber p + ind (Pc.isPending p) pc - ind (Pc.isPending p) (s.pc t))
    (p : Party) :
    l.pendingNumber p = tally (ind (Pc.isPending p)) (Function.update s.pc t pc) := by
  have htally := tally_update (ind (Pc.isPending p)) s.pc t pc
  have hold := h.pending p
  have hnew := hp p
  omega

omit [Fintype T] in
/-- A step that takes no reason away keeps the party served. -/
theorem Served.goto {s : State T} {p : Party} {t : T} {l : TaskLock} {pc : Pc} (h : Served p s)
    (hw : s.lock.writerNumber ≠ 0 → l.writerNumber ≠ 0)
    (hr : s.lock.readerNumber ≠ 0 → l.readerNumber ≠ 0)
    (hp : s.lock.pendingWriters ≤ l.pendingWriters)
    (hs : (s.pc t).serves p = true → Served p (s.goto t l pc)) : Served p (s.goto t l pc) := by
  rcases h with h | h | ⟨rfl, h⟩ | ⟨u, hu⟩
  · exact .inl (hw h)
  · exact .inr (.inl (hr h))
  · exact .inr (.inr (.inl ⟨rfl, lt_of_lt_of_le h hp⟩))
  · by_cases hut : u = t
    · subst hut
      exact hs hu
    · refine .inr (.inr (.inr ⟨u, ?_⟩))
      simpa [State.goto, Function.update_of_ne hut] using hu

omit [Fintype T] in
theorem served_of_serves {s : State T} {p : Party} {t : T} {l : TaskLock} {pc : Pc}
    (h : pc.serves p = true) : Served p (s.goto t l pc) :=
  .inr (.inr (.inr ⟨t, by simpa [State.goto] using h⟩))

theorem Wakes.goto {s : State T} (h : Wakes s) {t : T} {l : TaskLock} {pc : Pc}
    (hp : ∀ p, l.pendingNumber p =
      s.lock.pendingNumber p + ind (Pc.isPending p) pc - ind (Pc.isPending p) (s.pc t))
    (hw : 0 ≤ l.writerNumber) (hr : 0 ≤ l.readerNumber)
    (hnew : ∀ p, pc.waitsFor p = true → (s.pc t).waitsFor p = true ∨ Served p (s.goto t l pc))
    (hold : ∀ p u, (s.pc u).waitsFor p = true → Served p s → Served p (s.goto t l pc)) :
    Wakes (s.goto t l pc) := by
  refine ⟨h.pending_goto hp, hw, hr, ?_⟩
  intro p u hu
  have hcarry : ∀ u, (s.pc u).waitsFor p = true → Served p (s.goto t l pc) :=
    fun u hu => hold p u hu (h.served p u hu)
  by_cases hut : u = t
  · subst hut
    rcases hnew p (by simpa [State.goto] using hu) with hwas | hserved
    · exact hcarry u hwas
    · exact hserved
  · exact hcarry u (by simpa [State.goto, Function.update_of_ne hut] using hu)

/-- A step that changes no counter and takes no reason away. -/
theorem Wakes.quiet {s : State T} (h : Wakes s) {t : T} {pc : Pc}
    (hpend : ∀ p, pc.isPending p = (s.pc t).isPending p)
    (hwait : ∀ p, pc.waitsFor p = true → (s.pc t).waitsFor p = true)
    (hserves : ∀ p, (s.pc t).serves p = true → pc.serves p = true) :
    Wakes (s.goto t s.lock pc) := by
  apply h.goto
  · intro p
    simp [ind, hpend p]
  · exact h.writer_nonneg
  · exact h.reader_nonneg
  · exact fun p hp => .inl (hwait p hp)
  · exact fun p u _ hs => hs.goto id id (le_refl _) fun ht => served_of_serves (hserves p ht)

/-- Such a step from a point that serves nobody. -/
theorem Wakes.quiet_from {s : State T} (h : Wakes s) {t : T} {old pc : Pc} (ht : s.pc t = old)
    (hserves : ∀ p, old.serves p = false) (hpend : ∀ p, pc.isPending p = old.isPending p)
    (hwait : ∀ p, pc.waitsFor p = true → old.waitsFor p = true) :
    Wakes (s.goto t s.lock pc) := by
  subst ht
  apply h.quiet hpend hwait
  intro p hp
  rw [hserves p] at hp
  cases hp

omit [DecidableEq T] in
theorem Wakes.withOwner {s : State T} (h : Wakes s) (o : Option T) : Wakes (s.withOwner o) :=
  ⟨h.pending, h.writer_nonneg, h.reader_nonneg, h.served⟩

/-! ## The lock functions -/

omit [Fintype T] in
/-- A failed guard test is a reason to wait. -/
theorem served_of_waits {s : State T} {p : Party} {t : T} {pc : Pc} (h : s.lock.waits p = true) :
    Served p (s.goto t s.lock pc) := by
  cases p with
  | writer =>
    simp only [TaskLock.waits, TaskLock.wlockWaits, Bool.or_eq_true, decide_eq_true_eq] at h
    rcases h with h | h
    · exact .inl (by simp only [State.goto]; omega)
    · exact .inr (.inl h)
  | reader =>
    simp only [TaskLock.waits, TaskLock.rlockWaits, Bool.or_eq_true, decide_eq_true_eq] at h
    rcases h with h | h
    · exact .inr (.inr (.inl ⟨rfl, h⟩))
    · exact .inl h

theorem Wakes.enter {s : State T} (h : Wakes s) {t : T} {p : Party}
    (ht : s.pc t = .inLock p .enter) :
    Wakes (s.goto t (s.lock.enter p) (.inLock p .lockMutex)) := by
  apply h.goto
  · intro q
    rw [TaskLock.pendingNumber_enter, ht]
    cases p <;> cases q <;> simp [ind, Pc.isPending]
  · cases p <;> exact h.writer_nonneg
  · cases p <;> exact h.reader_nonneg
  · intro q hq
    cases hq
  · intro q u _ hs
    apply hs.goto
    · cases p <;> exact id
    · cases p <;> exact id
    · cases p with
      | writer => simp [TaskLock.enter, TaskLock.wlockEnter]
      | reader => exact le_refl _
    · simp [ht]

theorem Wakes.test {s : State T} (h : Wakes s) {t : T} {p : Party}
    (ht : s.pc t = .inLock p .test) :
    Wakes (s.goto t s.lock (if s.lock.waits p then .inLock p .wait else .inLock p .countTask)) := by
  split
  · rename_i hg
    apply h.goto
    · intro q
      simp [ht, ind, Pc.isPending]
    · exact h.writer_nonneg
    · exact h.reader_nonneg
    · intro q hq
      have hqp : q = p := by simpa [Pc.waitsFor] using hq
      subst hqp
      exact .inr (served_of_waits hg)
    · intro q u _ hs
      apply hs.goto id id (le_refl _)
      simp [ht]
  · apply h.quiet
    · intro q
      rw [ht]
      rfl
    · intro q hq
      cases hq
    · intro q hq
      simp [ht] at hq

theorem Wakes.countTask {s : State T} (h : Wakes s) {t : T} {p : Party}
    (ht : s.pc t = .inLock p .countTask) :
    Wakes (s.goto t (s.lock.countTask p) (.inLock p .leavePending)) := by
  apply h.goto
  · intro q
    rw [ht]
    cases p <;> cases q <;> simp [ind, Pc.isPending, TaskLock.countTask, TaskLock.pendingNumber]
  · cases p <;> exact h.writer_nonneg
  · cases p <;> exact h.reader_nonneg
  · intro q hq
    cases hq
  · intro q u _ hs
    apply hs.goto
    · cases p <;> exact id
    · cases p <;> exact id
    · cases p <;> exact le_refl _
    · simp [ht]

/-- A writer that leaves the pending count is about to hold the lock. -/
theorem Wakes.leavePending {s : State T} (h : Wakes s) {t : T} {p : Party}
    (ht : s.pc t = .inLock p .leavePending) :
    Wakes (s.goto t (s.lock.leavePending p) (.inLock p .hold)) := by
  apply h.goto
  · intro q
    rw [ht]
    cases p <;> cases q <;> simp [ind, Pc.isPending, TaskLock.leavePending, TaskLock.pendingNumber]
  · cases p <;> exact h.writer_nonneg
  · cases p <;> exact h.reader_nonneg
  · intro q hq
    cases hq
  · intro q u _ hs
    cases p with
    | writer =>
      cases q with
      | reader => exact served_of_serves rfl
      | writer =>
        rcases hs with hs | hs | ⟨hq, -⟩ | ⟨v, hv⟩
        · exact .inl hs
        · exact .inr (.inl hs)
        · cases hq
        · have hvt : v ≠ t := by
            rintro rfl
            rw [ht] at hv
            cases hv
          exact .inr (.inr (.inr ⟨v, by simpa [State.goto, Function.update_of_ne hvt] using hv⟩))
    | reader =>
      apply hs.goto id id (le_refl _)
      simp [ht]

theorem Wakes.hold {s : State T} (h : Wakes s) {t : T} {p : Party}
    (ht : s.pc t = .inLock p .hold) :
    Wakes (s.goto t (s.lock.hold p) (.inLock p .leave)) := by
  have hw := h.writer_nonneg
  have hr := h.reader_nonneg
  apply h.goto
  · intro q
    rw [ht]
    cases p <;> cases q <;> simp [ind, Pc.isPending, TaskLock.hold, TaskLock.pendingNumber]
  · cases p <;> simp only [TaskLock.hold] <;> omega
  · cases p <;> simp only [TaskLock.hold] <;> omega
  · intro q hq
    cases hq
  · intro q u _ _
    -- Whoever waits now waits for the new holder.
    cases p with
    | writer => exact .inl (by simp only [State.goto, TaskLock.hold]; omega)
    | reader => exact .inr (.inl (by simp only [State.goto, TaskLock.hold]; omega))

theorem wakes_lockStep {s s' : State T} {t : T} {p : Party} {k : LockPoint} (h : Wakes s)
    (ht : s.pc t = .inLock p k) (hs : lockStep s t p k = some s') : Wakes s' := by
  cases k with
  | head =>
    simp only [lockStep, Option.ite_none_right_eq_some, Option.some.injEq] at hs
    obtain ⟨-, rfl⟩ := hs
    exact h.quiet_from ht (fun q => Pc.serves_inLock (by decide)) (fun q => rfl)
      fun q hq => by cases hq
  | lockMutex | woken =>
    simp only [lockStep, Option.ite_none_right_eq_some, Option.some.injEq] at hs
    obtain ⟨-, rfl⟩ := hs
    apply Wakes.withOwner
    exact h.quiet_from ht (fun q => Pc.serves_inLock (by decide)) (fun q => rfl)
      fun q hq => by cases hq
  | wait =>
    simp only [lockStep, Option.some.injEq] at hs
    subst hs
    apply Wakes.withOwner
    exact h.quiet_from ht (fun q => Pc.serves_inLock (by decide)) (fun q => rfl) fun q hq => hq
  | leave =>
    simp only [lockStep, Option.some.injEq] at hs
    subst hs
    apply Wakes.withOwner
    exact h.quiet_from ht (fun q => Pc.serves_inLock (by decide)) (fun q => rfl)
      fun q hq => by cases hq
  | asleep => cases hs
  | enter =>
    obtain rfl := Option.some.inj hs
    exact h.enter ht
  | test =>
    obtain rfl := Option.some.inj hs
    exact h.test ht
  | countTask =>
    obtain rfl := Option.some.inj hs
    exact h.countTask ht
  | leavePending =>
    obtain rfl := Option.some.inj hs
    exact h.leavePending ht
  | hold =>
    obtain rfl := Option.some.inj hs
    exact h.hold ht

/-! ## Unlock -/

/-- After a count is set to zero the thread goes on to test whom to notify. -/
theorem Wakes.zero {s : State T} (h : Wakes s) {t : T} {l : TaskLock} {k : UnlockPoint}
    (ht : s.pc t = .inUnlock k) (hl : ∀ p, l.pendingNumber p = s.lock.pendingNumber p)
    (hw : 0 ≤ l.writerNumber) (hr : 0 ≤ l.readerNumber) :
    Wakes (s.goto t l (.inUnlock .testNotifyWriters)) := by
  apply h.goto
  · intro p
    rw [hl p, ht]
    simp [ind, Pc.isPending]
  · exact hw
  · exact hr
  · exact fun p hp => by cases hp
  · exact fun p u _ _ => served_of_serves (by cases p <;> rfl)

theorem Wakes.testNotifyWriters {s : State T} (h : Wakes s) {t : T}
    (ht : s.pc t = .inUnlock .testNotifyWriters) :
    Wakes (s.goto t s.lock
      (.inUnlock (if s.lock.notifiesWriters then .notify .writer else .testNotifyReaders))) := by
  apply h.goto
  · intro p
    rw [ht]
    simp [ind, Pc.isPending]
  · exact h.writer_nonneg
  · exact h.reader_nonneg
  · exact fun p hp => by cases hp
  · intro p u hu _
    split
    · rename_i hn
      simp only [TaskLock.notifiesWriters, Bool.and_eq_true, decide_eq_true_eq] at hn
      cases p with
      | writer => exact served_of_serves rfl
      | reader => exact .inr (.inr (.inl ⟨rfl, hn.2⟩))
    · rename_i hn
      cases p with
      | reader => exact served_of_serves rfl
      | writer =>
        -- A waiting writer is counted, so only a reader can have made the test fail.
        have hpos : 0 < s.lock.pendingWriters := h.pending_pos (Pc.isPending_of_waitsFor hu)
        simp only [TaskLock.notifiesWriters, Bool.and_eq_true, decide_eq_true_eq, not_and] at hn
        exact .inr (.inl fun h0 => hn h0 hpos)

theorem Wakes.testNotifyReaders {s : State T} (h : Wakes s) {t : T}
    (ht : s.pc t = .inUnlock .testNotifyReaders) :
    Wakes (s.goto t s.lock
      (if s.lock.notifiesReaders then .inUnlock (.notify .reader) else .outside)) := by
  have hpc : ∀ p, (if s.lock.notifiesReaders then Pc.inUnlock (.notify .reader) else
      .outside).isPending p = false := fun p => by split <;> rfl
  apply h.goto
  · intro p
    have hnow : (Pc.inUnlock .testNotifyReaders).isPending p = false := rfl
    simp [ht, ind, hpc p, hnow]
  · exact h.writer_nonneg
  · exact h.reader_nonneg
  · exact fun p hp => by split at hp <;> cases hp
  · intro p u hu hs
    cases p with
    | writer => exact hs.goto id id (le_refl _) fun hserve => by rw [ht] at hserve; cases hserve
    | reader =>
      have hpos : 0 < s.lock.pendingReaders := h.pending_pos (Pc.isPending_of_waitsFor hu)
      have hn : s.lock.notifiesReaders = true := by simp [TaskLock.notifiesReaders, hpos]
      rw [if_pos hn]
      exact served_of_serves rfl

@[simp] theorem Pc.isPending_notified (p q : Party) (pc : Pc) :
    (pc.notified p).isPending q = pc.isPending q := by
  cases pc with
  | outside | inUnlock k => rfl
  | inLock r k => cases k <;> cases r <;> cases p <;> rfl

@[simp] theorem Pc.serves_notified (p q : Party) (pc : Pc) :
    (pc.notified p).serves q = pc.serves q := by
  cases pc with
  | outside | inUnlock k => rfl
  | inLock r k => cases k <;> cases r <;> cases p <;> cases q <;> rfl

/-- Who still waits after `notify_all` is of the other party, or was in the window. -/
theorem Pc.waitsFor_notified {p q : Party} {pc : Pc} (h : (pc.notified p).waitsFor q = true) :
    pc.waitsFor q = true ∧ (q = p → pc = .inLock p .wait) := by
  cases pc with
  | outside | inUnlock k => cases h
  | inLock r k =>
    cases k <;> cases r <;> cases p <;> cases q <;>
      simp_all [Pc.notified, Pc.waitsFor]

omit [DecidableEq T] in
theorem Wakes.notifyAll {s : State T} (h : Wakes s) (p : Party) : Wakes (s.notifyAll p) := by
  refine ⟨fun q => ?_, h.writer_nonneg, h.reader_nonneg, fun q t ht => ?_⟩
  · simp only [State.notifyAll]
    rw [tally_comp (w := ind (Pc.isPending q)) (g := Pc.notified p) (fun pc => by simp [ind])]
    exact h.pending q
  · rcases h.served q t (Pc.waitsFor_notified ht).1 with hs | hs | hs | ⟨u, hu⟩
    · exact .inl hs
    · exact .inr (.inl hs)
    · exact .inr (.inr (.inl hs))
    · exact .inr (.inr (.inr ⟨u, by simpa [State.notifyAll] using hu⟩))

theorem Wakes.notify {s : State T} (h : Wakes s) {t : T} {p : Party}
    (ht : s.pc t = .inUnlock (.notify p)) (hc : ∀ u, s.pc u ≠ .inLock p .wait) :
    Wakes ((s.notifyAll p).goto t s.lock .outside) := by
  have ht' : (s.notifyAll p).pc t = .inUnlock (.notify p) := by
    simp [State.notifyAll, ht, Pc.notified]
  apply (h.notifyAll p).goto
  · intro q
    rw [ht']
    simp [State.notifyAll, ind, Pc.isPending]
  · exact h.writer_nonneg
  · exact h.reader_nonneg
  · exact fun q hq => by cases hq
  · intro q u hu hs
    by_cases hqp : q = p
    · exact absurd ((Pc.waitsFor_notified hu).2 hqp) (hc u)
    · apply hs.goto id id (le_refl _)
      rw [ht']
      intro hserve
      cases q <;> cases p <;> first | exact absurd rfl hqp | cases hserve

theorem wakes_unlockStep {s s' : State T} {t : T} {k : UnlockPoint} (h : Wakes s)
    (ht : s.pc t = .inUnlock k) (hc : NotifiesSleepers s (.next t))
    (hs : unlockStep s t k = some s') : Wakes s' := by
  cases k with
  | head =>
    simp only [unlockStep, Option.ite_none_right_eq_some, Option.some.injEq] at hs
    obtain ⟨-, rfl⟩ := hs
    exact h.quiet_from ht (fun q => by cases q <;> rfl) (fun q => rfl) fun q hq => by cases hq
  | testWriter | testReader =>
    obtain rfl := Option.some.inj hs
    exact h.quiet_from ht (fun q => by cases q <;> rfl) (fun q => rfl) fun q hq => by cases hq
  | zeroWriter =>
    obtain rfl := Option.some.inj hs
    exact h.zero ht (by simp) (le_refl _) h.reader_nonneg
  | zeroReader =>
    obtain rfl := Option.some.inj hs
    exact h.zero ht (by simp) h.writer_nonneg (le_refl _)
  | testNotifyWriters =>
    obtain rfl := Option.some.inj hs
    exact h.testNotifyWriters ht
  | testNotifyReaders =>
    obtain rfl := Option.some.inj hs
    exact h.testNotifyReaders ht
  | notify p =>
    obtain rfl := Option.some.inj hs
    exact h.notify ht (hc p ht)

/-! ## Runs -/

theorem wakes_step {s s' : State T} {a : Action T} (h : Wakes s) (hc : NotifiesSleepers s a)
    (hs : step s a = some s') : Wakes s' := by
  cases a with
  | call t p =>
    simp only [step, Option.ite_none_right_eq_some, Option.some.injEq] at hs
    obtain ⟨ht, rfl⟩ := hs
    exact h.quiet_from ht (fun q => by cases q <;> rfl) (fun q => rfl) fun q hq => by cases hq
  | callUnlock t =>
    simp only [step, Option.ite_none_right_eq_some, Option.some.injEq] at hs
    obtain ⟨ht, rfl⟩ := hs
    exact h.quiet_from ht (fun q => by cases q <;> rfl) (fun q => rfl) fun q hq => by cases hq
  | next t =>
    simp only [step] at hs
    split at hs
    · cases hs
    · rename_i p k ht
      exact wakes_lockStep h ht hs
    · rename_i k ht
      exact wakes_unlockStep h ht hc hs
  | wake t =>
    simp only [step] at hs
    split at hs
    · rename_i p ht
      obtain rfl := Option.some.inj hs
      exact h.quiet_from ht (fun q => Pc.serves_inLock (by decide)) (fun q => rfl)
        fun q hq => by cases hq
    · cases hs

theorem Pc.eq_asleep {p : Party} {pc : Pc} (hp : pc.isPending p = true)
    (ha : pc.isAwake = false) : pc = .inLock p .asleep := by
  cases pc with
  | outside => cases hp
  | inUnlock k => cases hp
  | inLock q k =>
    cases k <;> cases q <;> cases p <;>
      first | rfl | exact absurd hp (by decide) | exact absurd ha (by decide)

omit [DecidableEq T] in
/-- When no thread is awake, a waiting party is served by the counters alone. -/
theorem Wakes.not_lostWakeUp {s : State T} (h : Wakes s) : ¬ LostWakeUp s := by
  rintro ⟨hw, hr, hasleep, t, p, ht⟩
  have hnone : ∀ q u, (s.pc u).serves q = false := by
    intro q u
    have hu := hasleep u
    cases hpc : s.pc u with
    | outside => cases q <;> rfl
    | inUnlock k => rw [hpc] at hu; cases hu
    | inLock r k =>
      rw [hpc] at hu
      have hk : k = .asleep := by cases k <;> first | rfl | cases hu
      rw [hk]
      exact Pc.serves_inLock (by simp)
  -- A sleeping writer has nobody to serve it.
  have hwriter : ∀ u, s.pc u ≠ .inLock .writer .asleep := by
    intro u hu
    rcases h.served .writer u (by rw [hu]; rfl) with hs | hs | ⟨hs, -⟩ | ⟨v, hv⟩
    · exact hs hw
    · exact hs hr
    · cases hs
    · rw [hnone] at hv
      cases hv
  cases p with
  | writer => exact hwriter t ht
  | reader =>
    rcases h.served .reader t (by rw [ht]; rfl) with hs | hs | ⟨-, hs⟩ | ⟨v, hv⟩
    · exact hs hw
    · exact hs hr
    · -- A sleeping reader waits for a pending writer, which sleeps as well.
      have hcount : s.lock.pendingWriters = _ := h.pending .writer
      have hne : tally (ind (Pc.isPending .writer)) s.pc ≠ 0 := by omega
      obtain ⟨u, hu⟩ := not_forall.mp (mt tally_eq_zero.mpr hne)
      have hpend : (s.pc u).isPending .writer = true := by
        by_contra hp
        exact hu (by simp [ind, hp])
      exact hwriter u (Pc.eq_asleep hpend (hasleep u))
    · rw [hnone] at hv
      cases hv

/-- **No lost wake-up**, in every run whose notifications miss the window. -/
theorem no_wakeUp_lost {s : State T} {acts : List (Action T)}
    (hc : Machine.Along step NotifiesSleepers init acts)
    (hr : Machine.run step init acts = some s) : ¬ LostWakeUp s :=
  (Machine.run_invariant (fun _ _ _ h hC hs => wakes_step h hC hs) wakes_init hc hr).not_lostWakeUp

/-- The writer is asleep before the reader notifies. -/
def wakened {T : Type} (reader writer : T) : List (Action T) :=
  .call reader .reader :: statements reader 8 ++ .callUnlock reader :: statements reader 1 ++
    .call writer .writer :: statements writer 5 ++ statements reader 5

theorem wakened_not_lost :
    ∃ s : State (Fin 2), Machine.run step init (wakened 0 1) = some s ∧
      s.pc 1 = .inLock .writer .woken ∧ ¬ LostWakeUp s := by
  have hc : Machine.Along step NotifiesSleepers (init : State (Fin 2)) (wakened 0 1) := by decide
  exact ⟨_, rfl, rfl, no_wakeUp_lost hc rfl⟩

end BddsBroker.WakeUp
