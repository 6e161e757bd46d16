import BddsBroker.Lib.RwLock

/-! The counters of `task_lock_t` and the statements that change them. The repository
has three copies of the lock, `DTHREAD`, `SBDP_THREAD` and `BROKER_THREAD`, whose
`task_mutex_wlock`, `task_mutex_rlock` and `task_mutex_unlock` have the same bodies;
the statements below are those bodies, and the modules of this directory put them
into steps of threads. The condition variables and `lock_mutex` are states of the
threads there. -/

namespace BddsBroker

open RwLock

/-- The integer fields of `task_lock_t`. -/
structure TaskLock where
  readerNumber : Int
  writerNumber : Int
  pendingWriters : Int
  pendingReaders : Int
  taskCount : Int
  deriving DecidableEq, Repr

/-- The callers of `task_mutex_wlock`, who wait on `writer_proceed`, and those of
`task_mutex_rlock`, who wait on `reader_proceed`. -/
inductive Party
  | writer
  | reader
  deriving DecidableEq, Repr

namespace TaskLock

/-- `task_lock_init`. -/
def taskLockInit : TaskLock := ⟨0, 0, 0, 0, 0⟩

/-! ## `task_mutex_wlock` -/

/-- `lock->pending_writers++`, which runs without `lock_mutex`. -/
def wlockEnter (l : TaskLock) : TaskLock := { l with pendingWriters := l.pendingWriters + 1 }

/-- The loop condition: `(lock->writer_number > 0) || (lock->reader_number)`. -/
def wlockWaits (l : TaskLock) : Bool := decide (l.writerNumber > 0) || decide (l.readerNumber ≠ 0)

/-- The three statements after the loop. -/
def wlockGrant (l : TaskLock) : TaskLock :=
  { l with
    taskCount := l.taskCount + 1
    pendingWriters := l.pendingWriters - 1
    writerNumber := l.writerNumber + 1 }

/-! ## `task_mutex_rlock` -/

/-- `lock->pending_readers++`, which runs without `lock_mutex`. -/
def rlockEnter (l : TaskLock) : TaskLock := { l with pendingReaders := l.pendingReaders + 1 }

/-- The loop condition: `(lock->pending_writers > 0) || (lock->writer_number)`. -/
def rlockWaits (l : TaskLock) : Bool := decide (l.pendingWriters > 0) || decide (l.writerNumber ≠ 0)

/-- The three statements after the loop. -/
def rlockGrant (l : TaskLock) : TaskLock :=
  { l with
    taskCount := l.taskCount - 1
    pendingReaders := l.pendingReaders - 1
    readerNumber := l.readerNumber + 1 }

/-! ## `task_mutex_unlock` -/

/-- `lock->writer_number = 0`. -/
def zeroWriter (l : TaskLock) : TaskLock := { l with writerNumber := 0 }

/-- `lock->reader_number = 0`: every reader's count goes at once. -/
def zeroReader (l : TaskLock) : TaskLock := { l with readerNumber := 0 }

/-- The first `if` of unlock. -/
def unlockReset (l : TaskLock) : TaskLock :=
  if l.writerNumber > 0 then l.zeroWriter
  else if l.readerNumber > 0 then l.zeroReader
  else l

/-- The test for `writer_proceed.notify_all()`. -/
def notifiesWriters (l : TaskLock) : Bool :=
  decide (l.readerNumber = 0) && decide (l.pendingWriters > 0)

/-- The test for `reader_proceed.notify_all()`, made when the first one fails. -/
def notifiesReaders (l : TaskLock) : Bool :=
  decide (l.readerNumber > 0) || decide (l.pendingReaders > 0) || decide (l.taskCount > 0)

/-! ## The two lock functions as one -/

def enter : Party → TaskLock → TaskLock
  | .writer => wlockEnter
  | .reader => rlockEnter

def waits : Party → TaskLock → Bool
  | .writer => wlockWaits
  | .reader => rlockWaits

def grant : Party → TaskLock → TaskLock
  | .writer => wlockGrant
  | .reader => rlockGrant

/-- `pending_writers` or `pending_readers`. -/
def pendingNumber : Party → TaskLock → Int
  | .writer => pendingWriters
  | .reader => pendingReaders

/-! The three statements of a grant one by one. -/

/-- `task_count++` in wlock, `task_count--` in rlock. -/
def countTask : Party → TaskLock → TaskLock
  | .writer, l => { l with taskCount := l.taskCount + 1 }
  | .reader, l => { l with taskCount := l.taskCount - 1 }

/-- `pending_writers--` or `pending_readers--`. -/
def leavePending : Party → TaskLock → TaskLock
  | .writer, l => { l with pendingWriters := l.pendingWriters - 1 }
  | .reader, l => { l with pendingReaders := l.pendingReaders - 1 }

/-- `writer_number++` or `reader_number++`. -/
def hold : Party → TaskLock → TaskLock
  | .writer, l => { l with writerNumber := l.writerNumber + 1 }
  | .reader, l => { l with readerNumber := l.readerNumber + 1 }

/-- A grant in one step is the three statements after the wait. -/
theorem grant_eq (p : Party) (l : TaskLock) :
    l.grant p = ((l.countTask p).leavePending p).hold p := by
  cases p <;> rfl

theorem wlockWaits_eq_false {l : TaskLock} :
    l.wlockWaits = false ↔ l.writerNumber ≤ 0 ∧ l.readerNumber = 0 := by
  simp [wlockWaits]

theorem rlockWaits_eq_false {l : TaskLock} :
    l.rlockWaits = false ↔ l.pendingWriters ≤ 0 ∧ l.writerNumber = 0 := by
  simp [rlockWaits]

@[simp] theorem pendingNumber_enter (p q : Party) (l : TaskLock) :
    (l.enter p).pendingNumber q = l.pendingNumber q + if q = p then 1 else 0 := by
  cases p <;> cases q <;> simp [enter, pendingNumber, wlockEnter, rlockEnter]

@[simp] theorem pendingNumber_grant (p q : Party) (l : TaskLock) :
    (l.grant p).pendingNumber q = l.pendingNumber q - if q = p then 1 else 0 := by
  cases p <;> cases q <;> simp [grant, pendingNumber, wlockGrant, rlockGrant]

@[simp] theorem pendingNumber_zeroWriter (q : Party) (l : TaskLock) :
    l.zeroWriter.pendingNumber q = l.pendingNumber q := by
  cases q <;> rfl

@[simp] theorem pendingNumber_zeroReader (q : Party) (l : TaskLock) :
    l.zeroReader.pendingNumber q = l.pendingNumber q := by
  cases q <;> rfl

/-! ## The range of the holder counts -/

/-- One writer or some readers, in the counts. -/
structure InRange (l : TaskLock) : Prop where
  writer_nonneg : 0 ≤ l.writerNumber
  writer_le_one : l.writerNumber ≤ 1
  reader_nonneg : 0 ≤ l.readerNumber
  apart : l.writerNumber = 0 ∨ l.readerNumber = 0

theorem inRange_init : taskLockInit.InRange := by
  constructor <;> simp [taskLockInit]

theorem InRange.enter {l : TaskLock} (h : l.InRange) (p : Party) : (l.enter p).InRange := by
  cases p <;> exact ⟨h.writer_nonneg, h.writer_le_one, h.reader_nonneg, h.apart⟩

theorem InRange.grant {l : TaskLock} (h : l.InRange) {p : Party} (hg : l.waits p = false) :
    (l.grant p).InRange := by
  obtain ⟨hw, hw', hr, -⟩ := h
  cases p with
  | writer =>
    obtain ⟨hwn, hrn⟩ := wlockWaits_eq_false.mp hg
    constructor <;> simp only [TaskLock.grant, wlockGrant] <;> omega
  | reader =>
    obtain ⟨-, hwn⟩ := rlockWaits_eq_false.mp hg
    constructor <;> simp only [TaskLock.grant, rlockGrant] <;> omega

theorem InRange.zeroWriter {l : TaskLock} (h : l.InRange) : l.zeroWriter.InRange := by
  constructor <;> simp [TaskLock.zeroWriter, h.reader_nonneg]

theorem InRange.zeroReader {l : TaskLock} (h : l.InRange) : l.zeroReader.InRange := by
  constructor <;> simp [TaskLock.zeroReader, h.writer_nonneg, h.writer_le_one]

/-! ## The counters as a record of the holders -/

/-- The counters count the holders. -/
structure Tracks {T : Type*} (l : TaskLock) (h : Holders T) : Prop where
  readers : l.readerNumber = h.readers.card
  writer : l.writerNumber = if h.writer.isSome then 1 else 0

section Tracks

variable {T : Type*} {l : TaskLock} {h : Holders T}

theorem tracks_init : taskLockInit.Tracks (Holders.free : Holders T) := ⟨rfl, rfl⟩

theorem Tracks.wlockEnter (ht : l.Tracks h) : l.wlockEnter.Tracks h := ⟨ht.readers, ht.writer⟩

theorem Tracks.rlockEnter (ht : l.Tracks h) : l.rlockEnter.Tracks h := ⟨ht.readers, ht.writer⟩

theorem Tracks.no_writer (ht : l.Tracks h) (hw : l.writerNumber ≤ 0) : h.writer = none := by
  cases hwr : h.writer with
  | none => rfl
  | some t =>
    have hone := ht.writer
    simp only [hwr, Option.isSome_some, if_true] at hone
    omega

theorem Tracks.no_reader (ht : l.Tracks h) (hr : l.readerNumber = 0) : h.readers = ∅ := by
  have hcard := ht.readers
  exact Finset.card_eq_zero.mp (by omega)

/-- A writer that passes the guard finds the lock free. -/
theorem Tracks.wlock_free (ht : l.Tracks h) (hg : l.wlockWaits = false) :
    h.writer = none ∧ h.readers = ∅ := by
  obtain ⟨hw, hr⟩ := wlockWaits_eq_false.mp hg
  exact ⟨ht.no_writer hw, ht.no_reader hr⟩

/-- A reader that passes the guard finds no writer. -/
theorem Tracks.rlock_free (ht : l.Tracks h) (hg : l.rlockWaits = false) : h.writer = none :=
  ht.no_writer (le_of_eq (rlockWaits_eq_false.mp hg).2)

theorem Tracks.wlockGrant [DecidableEq T] (ht : l.Tracks h) (hg : l.wlockWaits = false) (t : T) :
    l.wlockGrant.Tracks (h.acquireWrite t) := by
  obtain ⟨hw, hr⟩ := ht.wlock_free hg
  have hreaders := ht.readers
  have hwriter := ht.writer
  simp only [hr, hw, Finset.card_empty, Option.isSome_none] at hreaders hwriter
  constructor
  · simp [TaskLock.wlockGrant, Holders.acquireWrite, hreaders]
  · simp [TaskLock.wlockGrant, Holders.acquireWrite, hwriter]

theorem Tracks.rlockGrant [DecidableEq T] (ht : l.Tracks h) (hg : l.rlockWaits = false) {t : T}
    (hfresh : t ∉ h.readers) : l.rlockGrant.Tracks (h.acquireRead t) := by
  have hw := ht.rlock_free hg
  have hreaders := ht.readers
  have hwriter := ht.writer
  simp only [hw, Option.isSome_none] at hwriter
  constructor
  · simp [TaskLock.rlockGrant, Holders.acquireRead, Finset.card_insert_of_notMem hfresh, hreaders]
  · simp [TaskLock.rlockGrant, Holders.acquireRead, hwriter]

theorem Tracks.unlock_writer (ht : l.Tracks h) {t : T} (hw : h.writer = some t) :
    l.unlockReset.Tracks (Holders.free : Holders T) := by
  have hreaders := ht.readers
  have hwriter := ht.writer
  simp only [hw, Holders.readers_eq_empty hw, Finset.card_empty, Option.isSome_some,
    if_true] at hreaders hwriter
  constructor
  · simp [unlockReset, hwriter, zeroWriter, hreaders, Holders.free]
  · simp [unlockReset, hwriter, zeroWriter, Holders.free]

/-- Unlock by a reader clears every reader's count, so the counters stay right only
when it is the one reader. -/
theorem Tracks.unlock_sole_reader [DecidableEq T] (ht : l.Tracks h) {t : T}
    (hr : h.readers = {t}) : l.unlockReset.Tracks (h.releaseRead t) := by
  have hw := Holders.writer_eq_none (h := h) (t := t) (by simp [hr])
  have hreaders := ht.readers
  have hwriter := ht.writer
  simp only [hr, hw, Finset.card_singleton, Option.isSome_none] at hreaders hwriter
  constructor
  · simp [unlockReset, hwriter, hreaders, zeroReader, Holders.releaseRead, hr]
  · simp [unlockReset, hwriter, hreaders, zeroReader, Holders.releaseRead]

end Tracks

end TaskLock

end BddsBroker
