import BddsBroker.Lock.Preference

/-! The numbers that CONNECT handling gives to the sessions. Every session locks the one
object of `MQTTSession.cpp`, and only for writing. Each statement is a step of its own: the
guard test with the grant, the read and the write of `client_no++`, the copy to `client_n`,
and the tests and assignments of unlock, which run without `lock_mutex`. A waiting thread
may test its guard again at any time.

The lock is free for the next writer from `writer_number = 0` on. What unlock does behind
this statement only wakes threads, since its `else if` is not reached by a writer; so one
thread at a time is between its grant and `writer_number = 0`, and no number is given twice
(`client_numbers_unique`). -/

namespace BddsBroker.ClientNumbers

open Tally

/-- The statement of CONNECT handling that a thread is about to run. -/
inductive Pc
  | outside
  /-- Past `pending_writers++`. -/
  | pending
  /-- `client_no++`. -/
  | readCount
  | writeCount (read : Int)
  /-- `client_n = get_count()`. -/
  | copyCount
  | testWriter
  | zeroWriter
  | testReader
  | zeroReader
  | testNotifyWriters
  | testNotifyReaders
  | notify (p : Party)
  deriving DecidableEq, Repr

/-- A session is handled by some thread; `session` is read while the thread is inside. -/
structure State (S T : Type*) where
  lock : TaskLock
  clientNo : Int
  clientN : S → Int
  pc : T → Pc
  session : T → S
  /-- The numbers that were copied to a `client_n`, in order. -/
  obtained : List Int
  /-- How many CONNECTs have returned from unlock. -/
  left : Nat

inductive Action (S T : Type*)
  /-- A CONNECT of the session, up to `pending_writers++`. -/
  | connect (t : T) (s : S)
  | advance (t : T)
  deriving DecidableEq

variable {S T : Type*} [DecidableEq S] [DecidableEq T]

namespace State

def init (s : S) : State S T where
  lock := .taskLockInit
  clientNo := 0
  clientN := fun _ => 0
  pc := fun _ => .outside
  session := fun _ => s
  obtained := []
  left := 0

/-- The thread goes on to `pc` and leaves the counters `l`. -/
def goto (st : State S T) (t : T) (l : TaskLock) (pc : Pc) : State S T :=
  { st with lock := l, pc := Function.update st.pc t pc }

/-- The last statement of unlock. -/
def leave (st : State S T) (t : T) : State S T :=
  { st.goto t st.lock .outside with left := st.left + 1 }

end State

def connect (st : State S T) (t : T) (s : S) : Option (State S T) :=
  if st.pc t = .outside then
    some { st.goto t st.lock.wlockEnter .pending with
      session := Function.update st.session t s }
  else none

def advance (st : State S T) (t : T) : Option (State S T) :=
  match st.pc t with
  | .outside => none
  | .pending =>
      if st.lock.wlockWaits then none else st.goto t st.lock.wlockGrant .readCount
  | .readCount => st.goto t st.lock (.writeCount st.clientNo)
  | .writeCount read => some { st.goto t st.lock .copyCount with clientNo := read + 1 }
  | .copyCount => some { st.goto t st.lock .testWriter with
      clientN := Function.update st.clientN (st.session t) st.clientNo
      obtained := st.obtained ++ [st.clientNo] }
  | .testWriter =>
      st.goto t st.lock (if st.lock.writerNumber > 0 then .zeroWriter else .testReader)
  | .zeroWriter => st.goto t st.lock.zeroWriter .testNotifyWriters
  | .testReader =>
      st.goto t st.lock (if st.lock.readerNumber > 0 then .zeroReader else .testNotifyWriters)
  | .zeroReader => st.goto t st.lock.zeroReader .testNotifyWriters
  | .testNotifyWriters =>
      st.goto t st.lock (if st.lock.notifiesWriters then .notify .writer else .testNotifyReaders)
  | .testNotifyReaders =>
      if st.lock.notifiesReaders then st.goto t st.lock (.notify .reader) else st.leave t
  -- The threads that this wakes may test their guard anyway.
  | .notify _ => st.leave t

def step (st : State S T) : Action S T → Option (State S T)
  | .connect t s => connect st t s
  | .advance t => advance st t

/-! ## One thread at a time -/

namespace Pc

/-- Between the grant and `writer_number = 0`. -/
def holds : Pc → Bool
  | readCount | writeCount _ | copyCount | testWriter | zeroWriter => true
  | _ => false

/-- The thread has counted its CONNECT and not yet copied the number. -/
def copies : Pc → Bool
  | copyCount => true
  | _ => false

/-- In `task_mutex_unlock`. -/
def unlocks : Pc → Bool
  | testWriter | zeroWriter | testReader | zeroReader | testNotifyWriters | testNotifyReaders
  | notify _ => true
  | _ => false

/-- What was read is still the count, and unlock takes its first branch. -/
def Consistent (clientNo : Int) : Pc → Prop
  | writeCount read => read = clientNo
  | testReader | zeroReader => False
  | _ => True

end Pc

/-- The numbers from 1 to `n`. -/
def firstNumbers (n : Nat) : List Int := (List.range n).map fun i : Nat => (i : Int) + 1

theorem firstNumbers_succ (n : Nat) : firstNumbers (n + 1) = firstNumbers n ++ [(n : Int) + 1] := by
  unfold firstNumbers
  rw [List.range_succ, List.map_append, List.map_singleton]

/-- The counters count the holders, of which there is at most one, and the numbers were
given in order. -/
structure Exclusive [Fintype T] (st : State S T) : Prop where
  reader : st.lock.readerNumber = 0
  writer : st.lock.writerNumber = tally (ind Pc.holds) st.pc
  one : tally (ind Pc.holds) st.pc ≤ 1
  consistent : ∀ t, (st.pc t).Consistent st.clientNo
  count : st.clientNo = st.obtained.length + tally (ind Pc.copies) st.pc
  numbers : st.obtained = firstNumbers st.obtained.length
  left : st.obtained.length = st.left + tally (ind Pc.unlocks) st.pc

/-- The thread that moves is consistent, and so are the other ones. -/
theorem consistent_update {clientNo : Int} {pc : T → Pc} {t : T} {p : Pc}
    (hp : p.Consistent clientNo) (hother : ∀ u, u ≠ t → (pc u).Consistent clientNo) :
    ∀ u, (Function.update pc t p u).Consistent clientNo :=
  (Function.forall_update_iff pc fun _ p => p.Consistent clientNo).mpr ⟨hp, hother⟩

section Invariant

variable [Fintype T]

omit [DecidableEq S] [DecidableEq T] in
theorem exclusive_init (s : S) : Exclusive (State.init s : State S T) := by
  have hholds : tally (ind Pc.holds) (State.init s : State S T).pc = 0 :=
    tally_eq_zero.mpr fun _ => rfl
  have hcopies : tally (ind Pc.copies) (State.init s : State S T).pc = 0 :=
    tally_eq_zero.mpr fun _ => rfl
  have hunlocks : tally (ind Pc.unlocks) (State.init s : State S T).pc = 0 :=
    tally_eq_zero.mpr fun _ => rfl
  exact ⟨rfl, by rw [hholds]; rfl, by omega, fun _ => trivial, by rw [hcopies]; rfl, rfl,
    by rw [hunlocks]; rfl⟩

omit [DecidableEq S] [DecidableEq T] in
/-- While a thread holds the lock, no other one does. -/
theorem Exclusive.alone {st : State S T} (h : Exclusive st) {t : T} (ht : (st.pc t).holds = true)
    {u : T} (hu : u ≠ t) : (st.pc u).holds = false := by
  by_contra hne
  exact hu (eq_of_tally_ind_le_one h.one (Bool.eq_true_of_not_eq_false hne) ht)

omit [DecidableEq S] in
theorem tally_goto (w : Pc → Nat) (st : State S T) {t : T} {q : Pc} (ht : st.pc t = q)
    (l : TaskLock) (p : Pc) : tally w (st.goto t l p).pc + w q = tally w st.pc + w p := by
  have hupdate := tally_update w st.pc t p
  rw [ht] at hupdate
  exact hupdate

omit [DecidableEq S] in
/-- A statement of the lock. A thread comes to hold it only when nobody does. -/
theorem Exclusive.goto {st : State S T} (h : Exclusive st) {t : T} {q p : Pc} {l : TaskLock}
    (ht : st.pc t = q) (hreader : l.readerNumber = 0)
    (hwriter : l.writerNumber + ind Pc.holds q = st.lock.writerNumber + ind Pc.holds p)
    (hfree : ind Pc.holds p ≤ ind Pc.holds q ∨ st.lock.writerNumber ≤ 0)
    (hconsistent : p.Consistent st.clientNo) (hcopies : p.copies = q.copies)
    (hunlocks : p.unlocks = q.unlocks) : Exclusive (st.goto t l p) := by
  have hholds' := tally_goto (ind Pc.holds) st ht l p
  have hcopies' := tally_goto (ind Pc.copies) st ht l p
  have hunlocks' := tally_goto (ind Pc.unlocks) st ht l p
  have hle : ind Pc.holds p ≤ 1 := by unfold ind; split <;> omega
  have hcount := h.count
  have hleft := h.left
  have hone := h.one
  have hbefore := h.writer
  simp only [ind, hcopies] at hcopies'
  simp only [ind, hunlocks] at hunlocks'
  refine ⟨hreader, ?_, ?_, consistent_update hconsistent fun u _ => h.consistent u, ?_,
    h.numbers, ?_⟩
  · show l.writerNumber = _
    omega
  · omega
  · show st.clientNo = st.obtained.length + _
    omega
  · show st.obtained.length = st.left + _
    omega

omit [DecidableEq S] in
/-- `client_no++` writes what it read, one more. -/
theorem Exclusive.writeCount {st : State S T} (h : Exclusive st) {t : T} {read : Int}
    (ht : st.pc t = .writeCount read) :
    Exclusive { st.goto t st.lock .copyCount with clientNo := read + 1 } := by
  have hread : read = st.clientNo := by
    have hconsistent := h.consistent t
    rw [ht] at hconsistent
    exact hconsistent
  have hholds := tally_goto (ind Pc.holds) st ht st.lock .copyCount
  have hcopies := tally_goto (ind Pc.copies) st ht st.lock .copyCount
  have hunlocks := tally_goto (ind Pc.unlocks) st ht st.lock .copyCount
  simp only [ind, Pc.holds, Pc.copies, Pc.unlocks, Bool.false_eq_true, if_true, if_false]
    at hholds hcopies hunlocks
  have hcount := h.count
  have hleft := h.left
  have hone := h.one
  have hwriter := h.writer
  refine ⟨h.reader, ?_, ?_, ?_, ?_, h.numbers, ?_⟩
  · show st.lock.writerNumber = (tally (ind Pc.holds) (st.goto t st.lock .copyCount).pc : Int)
    omega
  · show tally (ind Pc.holds) (st.goto t st.lock .copyCount).pc ≤ 1
    omega
  · refine consistent_update trivial fun u hu => ?_
    -- No other thread holds a count that it has read.
    have halone := h.alone (t := t) (by rw [ht]; rfl) hu
    have hother := h.consistent u
    cases hpc : st.pc u with
    | writeCount other =>
      rw [hpc] at halone
      cases halone
    | testReader | zeroReader =>
      rw [hpc] at hother
      exact hother
    | _ => trivial
  · show read + 1 = (st.obtained.length : Int) +
      tally (ind Pc.copies) (st.goto t st.lock .copyCount).pc
    omega
  · show st.obtained.length = st.left + tally (ind Pc.unlocks) (st.goto t st.lock .copyCount).pc
    omega

/-- The number that is copied is the next one. -/
theorem Exclusive.copyCount {st : State S T} (h : Exclusive st) {t : T}
    (ht : st.pc t = .copyCount) :
    Exclusive { st.goto t st.lock .testWriter with
      clientN := Function.update st.clientN (st.session t) st.clientNo
      obtained := st.obtained ++ [st.clientNo] } := by
  have hholds := tally_goto (ind Pc.holds) st ht st.lock .testWriter
  have hcopies := tally_goto (ind Pc.copies) st ht st.lock .testWriter
  have hunlocks := tally_goto (ind Pc.unlocks) st ht st.lock .testWriter
  have hcopying : 0 < tally (ind Pc.copies) st.pc := tally_ind_pos (t := t) (by rw [ht]; rfl)
  have hle : tally (ind Pc.copies) st.pc ≤ tally (ind Pc.holds) st.pc := by
    refine tally_mono (fun pc => ?_) st.pc
    cases pc <;> simp [ind, Pc.copies, Pc.holds]
  simp only [ind, Pc.holds, Pc.copies, Pc.unlocks, Bool.false_eq_true, if_true, if_false]
    at hholds hcopies hunlocks
  have hcount := h.count
  have hleft := h.left
  have hone := h.one
  have hwriter := h.writer
  have hnext : st.clientNo = (st.obtained.length : Int) + 1 := by omega
  refine ⟨h.reader, ?_, ?_, consistent_update trivial fun u _ => h.consistent u, ?_, ?_, ?_⟩
  · show st.lock.writerNumber = (tally (ind Pc.holds) (st.goto t st.lock .testWriter).pc : Int)
    omega
  · show tally (ind Pc.holds) (st.goto t st.lock .testWriter).pc ≤ 1
    omega
  · show st.clientNo = ((st.obtained ++ [st.clientNo]).length : Int) +
      tally (ind Pc.copies) (st.goto t st.lock .testWriter).pc
    rw [List.length_append, List.length_singleton]
    omega
  · show st.obtained ++ [st.clientNo] = firstNumbers (st.obtained ++ [st.clientNo]).length
    rw [List.length_append, List.length_singleton, firstNumbers_succ, ← h.numbers, ← hnext]
  · show (st.obtained ++ [st.clientNo]).length =
      st.left + tally (ind Pc.unlocks) (st.goto t st.lock .testWriter).pc
    rw [List.length_append, List.length_singleton]
    omega

omit [DecidableEq S] in
theorem Exclusive.leave {st : State S T} (h : Exclusive st) {t : T} {q : Pc} (ht : st.pc t = q)
    (hholds : ind Pc.holds q = 0) (hcopies : ind Pc.copies q = 0)
    (hunlocks : ind Pc.unlocks q = 1) : Exclusive (st.leave t) := by
  have hholds' := tally_goto (ind Pc.holds) st ht st.lock .outside
  have hcopies' := tally_goto (ind Pc.copies) st ht st.lock .outside
  have hunlocks' := tally_goto (ind Pc.unlocks) st ht st.lock .outside
  rw [hholds, show ind Pc.holds .outside = 0 from rfl] at hholds'
  rw [hcopies, show ind Pc.copies .outside = 0 from rfl] at hcopies'
  rw [hunlocks, show ind Pc.unlocks .outside = 0 from rfl] at hunlocks'
  have hcount := h.count
  have hleft := h.left
  have hone := h.one
  have hwriter := h.writer
  refine ⟨h.reader, ?_, ?_, consistent_update trivial fun u _ => h.consistent u, ?_, h.numbers, ?_⟩
  · show st.lock.writerNumber = (tally (ind Pc.holds) (st.goto t st.lock .outside).pc : Int)
    omega
  · show tally (ind Pc.holds) (st.goto t st.lock .outside).pc ≤ 1
    omega
  · show st.clientNo = (st.obtained.length : Int) +
      tally (ind Pc.copies) (st.goto t st.lock .outside).pc
    omega
  · show st.obtained.length = st.left + 1 + tally (ind Pc.unlocks) (st.goto t st.lock .outside).pc
    omega

/-- Every statement keeps the threads apart and the numbers in order. -/
theorem advance_exclusive {st st' : State S T} {t : T} (h : Exclusive st)
    (hs : advance st t = some st') : Exclusive st' := by
  unfold advance at hs
  cases hpc : st.pc t with
  | outside =>
    rw [hpc] at hs
    cases hs
  | pending =>
    simp only [hpc] at hs
    split at hs
    · cases hs
    · rename_i hwaits
      obtain rfl := Option.some.inj hs
      obtain ⟨hfree, hreader⟩ :=
        TaskLock.wlockWaits_eq_false.mp (Bool.eq_false_of_not_eq_true hwaits)
      refine h.goto hpc hreader ?_ (.inr hfree) trivial rfl rfl
      exact Int.add_zero _
  | readCount =>
    simp only [hpc] at hs
    obtain rfl := Option.some.inj hs
    exact h.goto hpc h.reader rfl (.inl (Nat.le_refl _)) rfl rfl rfl
  | writeCount read =>
    simp only [hpc] at hs
    obtain rfl := Option.some.inj hs
    exact h.writeCount hpc
  | copyCount =>
    simp only [hpc] at hs
    obtain rfl := Option.some.inj hs
    exact h.copyCount hpc
  | testWriter =>
    have hholding : 0 < tally (ind Pc.holds) st.pc := tally_ind_pos (t := t) (by rw [hpc]; rfl)
    have hpositive : st.lock.writerNumber > 0 := by
      rw [h.writer]
      exact_mod_cast hholding
    simp only [hpc, if_pos hpositive] at hs
    obtain rfl := Option.some.inj hs
    exact h.goto hpc h.reader rfl (.inl (Nat.le_refl _)) trivial rfl rfl
  | zeroWriter =>
    have hholding : 0 < tally (ind Pc.holds) st.pc := tally_ind_pos (t := t) (by rw [hpc]; rfl)
    have hone := h.one
    have hwriter : st.lock.writerNumber = 1 := by
      rw [h.writer]
      omega
    simp only [hpc] at hs
    obtain rfl := Option.some.inj hs
    refine h.goto hpc h.reader ?_ (.inl (Nat.zero_le _)) trivial rfl rfl
    rw [hwriter]
    rfl
  | testReader | zeroReader =>
    have hconsistent := h.consistent t
    rw [hpc] at hconsistent
    exact hconsistent.elim
  | testNotifyWriters =>
    simp only [hpc] at hs
    obtain rfl := Option.some.inj hs
    split
    · exact h.goto hpc h.reader rfl (.inl (Nat.le_refl _)) trivial rfl rfl
    · exact h.goto hpc h.reader rfl (.inl (Nat.le_refl _)) trivial rfl rfl
  | testNotifyReaders =>
    simp only [hpc] at hs
    split at hs
    · obtain rfl := Option.some.inj hs
      exact h.goto hpc h.reader rfl (.inl (Nat.le_refl _)) trivial rfl rfl
    · obtain rfl := Option.some.inj hs
      exact h.leave hpc rfl rfl rfl
  | notify p =>
    simp only [hpc] at hs
    obtain rfl := Option.some.inj hs
    exact h.leave hpc rfl rfl rfl

theorem step_exclusive {st st' : State S T} {a : Action S T} (h : Exclusive st)
    (hs : step st a = some st') : Exclusive st' := by
  cases a with
  | connect t s =>
    simp only [step, connect, Option.ite_none_right_eq_some, Option.some.injEq] at hs
    obtain ⟨hpc, rfl⟩ := hs
    have hgoto := h.goto (l := st.lock.wlockEnter) (p := .pending) hpc h.reader rfl
      (.inl (Nat.le_refl _)) trivial rfl rfl
    exact ⟨hgoto.reader, hgoto.writer, hgoto.one, hgoto.consistent, hgoto.count, hgoto.numbers,
      hgoto.left⟩
  | advance t => exact advance_exclusive h hs

theorem reachable_exclusive {s : S} {st : State S T}
    (hr : Machine.Reachable step (State.init s) st) : Exclusive st :=
  Machine.reachable_invariant (fun _ _ _ h hs => step_exclusive h hs) (exclusive_init s) hr

/-! ## The numbers -/

/-- Past the grant, and not yet back from unlock. -/
def Pc.inside : Pc → Bool
  | outside | pending => false
  | _ => true

/-- **Client numbers are unique.** In every reachable state in which no CONNECT is between
its grant and its return from unlock, `client_no` is the number of CONNECTs that have
returned, and they have obtained the numbers from 1 on, each once. -/
theorem client_numbers_unique {s : S} {st : State S T}
    (hr : Machine.Reachable step (State.init s) st) (hinside : ∀ t, (st.pc t).inside = false) :
    st.clientNo = st.left ∧ st.obtained = firstNumbers st.left := by
  have h := reachable_exclusive hr
  have hzero : ∀ p : Pc → Bool, (∀ pc, p pc = true → pc.inside = true) →
      tally (ind p) st.pc = 0 := by
    intro p hp
    refine tally_eq_zero.mpr fun t => ?_
    unfold ind
    split
    · rename_i hpt
      exact absurd (hp _ hpt) (by simp [hinside t])
    · rfl
  have hcopies := hzero Pc.copies fun pc => by cases pc <;> simp [Pc.copies, Pc.inside]
  have hunlocks := hzero Pc.unlocks fun pc => by cases pc <;> simp [Pc.unlocks, Pc.inside]
  have hleft := h.left
  have hcount := h.count
  rw [hunlocks, Nat.add_zero] at hleft
  rw [hcopies, hleft] at hcount
  exact ⟨by simpa using hcount, hleft ▸ h.numbers⟩

end Invariant

/-- A second thread waits while the first one is inside, and then is let in. -/
def twoConnects {S T : Type} (t u : T) (s r : S) : List (Action S T) :=
  [.connect t s, .advance t, .connect u r] ++ List.replicate 7 (.advance t) ++
    List.replicate 9 (.advance u)

theorem twoConnects_numbers :
    ∃ st : State Bool Bool, Machine.run step (State.init true) (twoConnects true false true false) =
        some st ∧ st.left = 2 ∧ st.clientNo = 2 ∧ st.obtained = firstNumbers 2 := by
  have hrun : (Machine.run step (State.init true : State Bool Bool)
      (twoConnects true false true false)).map (fun st => (st.left, st.pc true, st.pc false)) =
        some (2, .outside, .outside) := by
    decide +kernel
  obtain ⟨st, hr, hst⟩ := Option.map_eq_some_iff.mp hrun
  simp only [Prod.mk.injEq] at hst
  obtain ⟨hleft, hfirst, hsecond⟩ := hst
  have hpc : ∀ t, st.pc t = .outside := by
    intro t
    cases t with
    | false => exact hsecond
    | true => exact hfirst
  obtain ⟨hcount, hnumbers⟩ := client_numbers_unique ⟨_, hr⟩ fun t => by rw [hpc t]; rfl
  rw [hleft] at hcount hnumbers
  exact ⟨st, hr, hleft, hcount, hnumbers⟩

end BddsBroker.ClientNumbers
