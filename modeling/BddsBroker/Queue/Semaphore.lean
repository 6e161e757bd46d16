import BddsBroker.Lib.Machine
import BddsBroker.Lib.Permits
import BddsBroker.Lib.Tally

/-! `LightweightSemaphore`: a count that the threads change without the kernel while it is
positive, and a kernel semaphore for the threads that have to sleep. A negative count is the
number of threads that wait. Each atomic access is a step of its own, and a load may return
any value: what it returns is tested again by the exchange that follows. -/

namespace BddsBroker.Moodycamel.LightweightSemaphore

open Tally

/-- The statement that a thread is about to run. -/
inductive Pc
  | idle
  /-- Not in a call; what the last `wait` gave. -/
  | returned (acquired : Bool)
  /-- In `tryWait`, at the load. -/
  | loads (timeout : Int)
  /-- In `tryWait`, at the weak exchange. -/
  | tries (timeout oldCount : Int) (hpos : 0 < oldCount)
  /-- In the spin loop, at the load. -/
  | spins (timeout : Int) (spin : Nat)
  /-- In the spin loop, at the exchange. -/
  | spinTries (timeout : Int) (spin : Nat) (oldCount : Int) (hpos : 0 < oldCount)
  | subtracts (timeout : Int)
  /-- At `m_sema.wait` or `m_sema.timed_wait`. -/
  | sleeps (timeout : Int)
  /-- In the last loop, at the load. -/
  | rechecks
  /-- In the last loop, at `m_sema.try_wait`. -/
  | retakes
  /-- In the last loop, at the exchange. -/
  | readds (oldCount : Int) (hneg : oldCount < 0)
  /-- In `signal`, at `m_count.fetch_add`. -/
  | adds (count : Nat)
  /-- In `m_sema.signal`, which posts once for each of `toRelease`. -/
  | posts (toRelease : Nat)
  deriving DecidableEq, Repr

structure State (T : Type*) where
  count : Int
  sema : Nat
  pc : T → Pc
  /-- How often a `wait` was successful. -/
  acquired : Nat
  /-- What the calls of `signal` have added. -/
  signaled : Nat

inductive Event (T : Type*)
  | wait (t : T) (timeout : Int)
  | signal (t : T) (count : Nat)
  /-- The thread's next statement, with what a load returns and whether a weak exchange or a
  wait of the kernel does not fail of itself. -/
  | next (t : T) (seen : Int) (ok : Bool)
  deriving DecidableEq

variable {T : Type*}

def init (initialCount : Nat) : State T where
  count := initialCount
  sema := 0
  pc := fun _ => .idle
  acquired := 0
  signaled := 0

def Pc.outside : Pc → Bool
  | .idle | .returned _ => true
  | _ => false

/-- `while (--spin >= 0)`, with `spin` rounds left. -/
def spinLoop (timeout : Int) : Nat → Pc
  | 0 => .subtracts timeout
  | spin + 1 => .spins timeout spin

section Threads

variable [DecidableEq T]

def State.goto (s : State T) (t : T) (pc : Pc) : State T :=
  { s with pc := Function.update s.pc t pc }

def wait (s : State T) (t : T) (timeout : Int) : Option (State T) :=
  if (s.pc t).outside then some (s.goto t (.loads timeout)) else none

def signal (s : State T) (t : T) (count : Nat) : Option (State T) :=
  if (s.pc t).outside then some (s.goto t (.adds count)) else none

def next (maxSpins : Nat) (s : State T) (t : T) (seen : Int) (ok : Bool) : Option (State T) :=
  match s.pc t with
  | .idle => none
  | .returned _ => none
  | .loads timeout =>
      if h : 0 < seen then some (s.goto t (.tries timeout seen h))
      else some (s.goto t (spinLoop timeout maxSpins))
  | .tries timeout oldCount _ =>
      if s.count = oldCount ∧ ok then
        some ({ s with count := oldCount - 1, acquired := s.acquired + 1 }.goto t (.returned true))
      else if h : 0 < s.count then some (s.goto t (.tries timeout s.count h))
      else some (s.goto t (spinLoop timeout maxSpins))
  | .spins timeout spin =>
      if h : 0 < seen then some (s.goto t (.spinTries timeout spin seen h))
      else some (s.goto t (spinLoop timeout spin))
  | .spinTries timeout spin oldCount _ =>
      if s.count = oldCount then
        some ({ s with count := oldCount - 1, acquired := s.acquired + 1 }.goto t (.returned true))
      else some (s.goto t (spinLoop timeout spin))
  | .subtracts timeout =>
      if 0 < s.count then
        some ({ s with count := s.count - 1, acquired := s.acquired + 1 }.goto t (.returned true))
      else if timeout = 0 then some ({ s with count := s.count - 1 }.goto t .rechecks)
      else some ({ s with count := s.count - 1 }.goto t (.sleeps timeout))
  | .sleeps _ =>
      if ok then
        if 0 < s.sema then
          some ({ s with sema := s.sema - 1, acquired := s.acquired + 1 }.goto t (.returned true))
        else none
      else some (s.goto t .rechecks)
  | .rechecks =>
      if h : seen < 0 then some (s.goto t (.readds seen h)) else some (s.goto t .retakes)
  | .retakes =>
      if 0 < s.sema ∧ ok then
        some ({ s with sema := s.sema - 1, acquired := s.acquired + 1 }.goto t (.returned true))
      else some (s.goto t .rechecks)
  | .readds oldCount _ =>
      if s.count = oldCount then
        some ({ s with count := oldCount + 1 }.goto t (.returned false))
      else some (s.goto t .rechecks)
  | .adds count =>
      let toRelease := if -s.count < count then -s.count else count
      some ({ s with count := s.count + count, signaled := s.signaled + count }.goto t
        (if 0 < toRelease then .posts toRelease.toNat else .idle))
  | .posts 0 => some (s.goto t .idle)
  | .posts (toRelease + 1) => some ({ s with sema := s.sema + 1 }.goto t (.posts toRelease))

def step (maxSpins : Nat) (s : State T) : Event T → Option (State T)
  | .wait t timeout => wait s t timeout
  | .signal t count => signal s t count
  | .next t seen ok => next maxSpins s t seen ok

end Threads

/-! ## What a statement changes -/

/-- The thread has lowered the count below zero and has neither been served nor given up. -/
def Pc.isWaiting : Pc → Bool
  | .sleeps _ | .rechecks | .retakes | .readds .. => true
  | _ => false

/-- What the thread is still going to post. -/
def Pc.toRelease : Pc → Nat
  | .posts toRelease => toRelease
  | _ => 0

/-- What the thread is still going to add to the count. -/
def Pc.toAdd : Pc → Nat
  | .adds count => count
  | _ => 0

/-- The statement of a thread at `p` turns `s` into `m` and leads to `q`. -/
inductive Statement (s : State T) : Pc → State T → Pc → Prop
  /-- A test, a load, an exchange that fails, a call of `wait` or a return. -/
  | stay {p q : Pc} (hwaiting : q.isWaiting = p.isWaiting) (hrelease : q.toRelease = p.toRelease)
      (hadd : q.toAdd = p.toAdd) (hq : q ≠ .returned true) : Statement s p s q
  /-- A call of `signal`. -/
  | signal {p : Pc} {count : Nat} (hout : p.outside = true) : Statement s p s (.adds count)
  | take {p : Pc} (hwaiting : p.isWaiting = false) (hrelease : p.toRelease = 0)
      (hadd : p.toAdd = 0) (hpos : 0 < s.count) :
      Statement s p { s with count := s.count - 1, acquired := s.acquired + 1 } (.returned true)
  | join {p q : Pc} (hp : p.isWaiting = false) (hprelease : p.toRelease = 0)
      (hadd : p.toAdd = 0) (hq : q.isWaiting = true) (hqrelease : q.toRelease = 0)
      (hcount : s.count ≤ 0) :
      Statement s p { s with count := s.count - 1 } q
  | wake {p : Pc} (hwaiting : p.isWaiting = true) (hrelease : p.toRelease = 0)
      (hpos : 0 < s.sema) :
      Statement s p { s with sema := s.sema - 1, acquired := s.acquired + 1 } (.returned true)
  | giveUp {p : Pc} (hwaiting : p.isWaiting = true) (hrelease : p.toRelease = 0)
      (hneg : s.count < 0) :
      Statement s p { s with count := s.count + 1 } (.returned false)
  | add {count : Nat} {q : Pc} (hwaiting : q.isWaiting = false)
      (hrelease : q.toRelease = min (-s.count).toNat count) (hadd : q.toAdd = 0)
      (hq : q ≠ .returned true) :
      Statement s (.adds count)
        { s with count := s.count + count, signaled := s.signaled + count } q
  | post {n : Nat} : Statement s (.posts (n + 1)) { s with sema := s.sema + 1 } (.posts n)

@[simp] theorem spinLoop_isWaiting (timeout : Int) (n : Nat) :
    (spinLoop timeout n).isWaiting = false := by
  cases n <;> rfl

@[simp] theorem spinLoop_toRelease (timeout : Int) (n : Nat) :
    (spinLoop timeout n).toRelease = 0 := by
  cases n <;> rfl

@[simp] theorem spinLoop_toAdd (timeout : Int) (n : Nat) : (spinLoop timeout n).toAdd = 0 := by
  cases n <;> rfl

theorem spinLoop_ne (timeout : Int) (n : Nat) : spinLoop timeout n ≠ .returned true := by
  cases n <;> simp [spinLoop]

theorem Pc.of_outside {p : Pc} (h : p.outside = true) :
    p.isWaiting = false ∧ p.toRelease = 0 ∧ p.toAdd = 0 := by
  cases p <;> simp_all [Pc.outside, Pc.isWaiting, Pc.toRelease, Pc.toAdd]

theorem Statement.call {s : State T} {p : Pc} {timeout : Int} (hout : p.outside = true) :
    Statement s p s (.loads timeout) := by
  obtain ⟨hwaiting, hrelease, hadd⟩ := Pc.of_outside hout
  exact .stay hwaiting.symm hrelease.symm hadd.symm (by simp)

theorem Statement.spin {s : State T} {p : Pc} {timeout : Int} {n : Nat}
    (hwaiting : p.isWaiting = false) (hrelease : p.toRelease = 0) (hadd : p.toAdd = 0) :
    Statement s p s (spinLoop timeout n) := by
  refine .stay ?_ ?_ ?_ (spinLoop_ne timeout n)
  · rw [hwaiting, spinLoop_isWaiting]
  · rw [hrelease, spinLoop_toRelease]
  · rw [hadd, spinLoop_toAdd]

theorem Statement.acquired_eq {s m : State T} {p q : Pc} (h : Statement s p m q) :
    m.acquired = s.acquired + if q = .returned true then 1 else 0 := by
  cases h with
  | stay _ _ _ hq => rw [if_neg hq, Nat.add_zero]
  | signal _ => simp
  | take _ _ _ _ => simp
  | join _ _ _ hq _ _ =>
    have hne : q ≠ .returned true := by
      rintro rfl
      simp [Pc.isWaiting] at hq
    rw [if_neg hne, Nat.add_zero]
  | wake _ _ _ => simp
  | giveUp _ _ _ => simp
  | add _ _ _ hq => rw [if_neg hq, Nat.add_zero]
  | post => simp

theorem Statement.signaled_eq {s m : State T} {p q : Pc} (h : Statement s p m q)
    (hp : p.outside = false) : m.signaled + q.toAdd = s.signaled + p.toAdd := by
  cases h with
  | stay _ _ hadd _ => rw [hadd]
  | signal hout => simp [hp] at hout
  | take _ _ hadd _ => rw [hadd]; rfl
  | join _ _ hadd hq _ _ => cases q <;> simp_all [Pc.isWaiting, Pc.toAdd]
  | wake hw _ _ => cases p <;> simp_all [Pc.isWaiting, Pc.toAdd]
  | giveUp hw _ _ => cases p <;> simp_all [Pc.isWaiting, Pc.toAdd]
  | add _ _ hadd _ => rw [hadd]; simp [Pc.toAdd]
  | post => rfl

/-- A thread that has nothing to signal will not in a call of `wait`. -/
theorem Statement.quiet {s m : State T} {p q : Pc} (h : Statement s p m q)
    (hp : p.outside = false) (hquiet : p.toAdd = 0 ∧ p.toRelease = 0) :
    q.toAdd = 0 ∧ q.toRelease = 0 := by
  cases h with
  | stay _ hrelease hadd _ => exact ⟨hadd.trans hquiet.1, hrelease.trans hquiet.2⟩
  | signal hout => simp [hp] at hout
  | take _ _ _ _ => exact ⟨rfl, rfl⟩
  | join _ _ _ hq hqrelease _ =>
    refine ⟨?_, hqrelease⟩
    cases q <;> simp_all [Pc.isWaiting, Pc.toAdd]
  | wake _ _ _ => exact ⟨rfl, rfl⟩
  | giveUp _ _ _ => exact ⟨rfl, rfl⟩
  | add _ hrelease hadd _ =>
    have hzero := hquiet.1
    simp only [Pc.toAdd] at hzero
    exact ⟨hadd, by omega⟩
  | post =>
    have hzero := hquiet.2
    simp only [Pc.toRelease] at hzero
    omega

section Threads

variable [DecidableEq T]

theorem next_inside {maxSpins : Nat} {s s' : State T} {t : T} {seen : Int} {ok : Bool}
    (h : next maxSpins s t seen ok = some s') : (s.pc t).outside = false := by
  unfold next at h
  cases hpc : s.pc t <;> simp_all [Pc.outside]

/-- The thread is in no call of `wait`. -/
def Pc.signals : Pc → Bool
  | .idle | .adds _ | .posts _ => true
  | _ => false

/-- A thread that only signals takes no permit. -/
theorem next_signals {maxSpins : Nat} {s s' : State T} {t : T} {seen : Int} {ok : Bool}
    (hsignals : (s.pc t).signals = true) (h : next maxSpins s t seen ok = some s') :
    (s'.pc t).signals = true ∧ s'.acquired = s.acquired := by
  unfold next at h
  cases hpc : s.pc t with
  | idle => simp [hpc] at h
  | adds count =>
    simp only [hpc] at h
    obtain rfl := Option.some.inj h
    refine ⟨?_, rfl⟩
    simp only [State.goto, Function.update_self]
    split_ifs <;> rfl
  | posts n =>
    cases n with
    | zero =>
      simp only [hpc] at h
      obtain rfl := Option.some.inj h
      simp [State.goto, Pc.signals]
    | succ n =>
      simp only [hpc] at h
      obtain rfl := Option.some.inj h
      simp [State.goto, Pc.signals]
  | _ => simp [hpc, Pc.signals] at hsignals

theorem next_statement {maxSpins : Nat} {s s' : State T} {t : T} {seen : Int} {ok : Bool}
    (h : next maxSpins s t seen ok = some s') :
    ∃ m q, Statement s (s.pc t) m q ∧ m.pc = s.pc ∧ s' = m.goto t q := by
  unfold next at h
  cases hpc : s.pc t with
  | idle => simp [hpc] at h
  | returned _ => simp [hpc] at h
  | loads timeout =>
    simp only [hpc] at h
    split_ifs at h with hpos
    · obtain rfl := Option.some.inj h
      exact ⟨s, .tries timeout seen hpos, .stay rfl rfl rfl (by simp), rfl, rfl⟩
    · obtain rfl := Option.some.inj h
      exact ⟨s, _, .spin rfl rfl rfl, rfl, rfl⟩
  | tries timeout oldCount hold =>
    simp only [hpc] at h
    split_ifs at h with hequal hpos
    · obtain rfl := Option.some.inj h
      obtain ⟨rfl, -⟩ := hequal
      exact ⟨_, _, .take rfl rfl rfl hold, rfl, rfl⟩
    · obtain rfl := Option.some.inj h
      exact ⟨s, .tries timeout s.count hpos, .stay rfl rfl rfl (by simp), rfl, rfl⟩
    · obtain rfl := Option.some.inj h
      exact ⟨s, _, .spin rfl rfl rfl, rfl, rfl⟩
  | spins timeout spin =>
    simp only [hpc] at h
    split_ifs at h with hpos
    · obtain rfl := Option.some.inj h
      exact ⟨s, .spinTries timeout spin seen hpos, .stay rfl rfl rfl (by simp), rfl, rfl⟩
    · obtain rfl := Option.some.inj h
      exact ⟨s, _, .spin rfl rfl rfl, rfl, rfl⟩
  | spinTries timeout spin oldCount hold =>
    simp only [hpc] at h
    split_ifs at h with hequal
    · obtain rfl := Option.some.inj h
      subst hequal
      exact ⟨_, _, .take rfl rfl rfl hold, rfl, rfl⟩
    · obtain rfl := Option.some.inj h
      exact ⟨s, _, .spin rfl rfl rfl, rfl, rfl⟩
  | subtracts timeout =>
    simp only [hpc] at h
    split_ifs at h with hpos hzero
    · obtain rfl := Option.some.inj h
      exact ⟨_, _, .take rfl rfl rfl hpos, rfl, rfl⟩
    · obtain rfl := Option.some.inj h
      exact ⟨_, _, .join rfl rfl rfl rfl rfl (by omega), rfl, rfl⟩
    · obtain rfl := Option.some.inj h
      exact ⟨_, _, .join rfl rfl rfl rfl rfl (by omega), rfl, rfl⟩
  | sleeps timeout =>
    simp only [hpc] at h
    split_ifs at h with hok hpos
    · obtain rfl := Option.some.inj h
      exact ⟨_, _, .wake rfl rfl hpos, rfl, rfl⟩
    · obtain rfl := Option.some.inj h
      exact ⟨s, .rechecks, .stay rfl rfl rfl (by simp), rfl, rfl⟩
  | rechecks =>
    simp only [hpc] at h
    split_ifs at h with hneg
    · obtain rfl := Option.some.inj h
      exact ⟨s, .readds seen hneg, .stay rfl rfl rfl (by simp), rfl, rfl⟩
    · obtain rfl := Option.some.inj h
      exact ⟨s, .retakes, .stay rfl rfl rfl (by simp), rfl, rfl⟩
  | retakes =>
    simp only [hpc] at h
    split_ifs at h with hpos
    · obtain rfl := Option.some.inj h
      exact ⟨_, _, .wake rfl rfl hpos.1, rfl, rfl⟩
    · obtain rfl := Option.some.inj h
      exact ⟨s, .rechecks, .stay rfl rfl rfl (by simp), rfl, rfl⟩
  | readds oldCount hold =>
    simp only [hpc] at h
    split_ifs at h with hequal
    · obtain rfl := Option.some.inj h
      subst hequal
      exact ⟨_, _, .giveUp rfl rfl hold, rfl, rfl⟩
    · obtain rfl := Option.some.inj h
      exact ⟨s, .rechecks, .stay rfl rfl rfl (by simp), rfl, rfl⟩
  | adds count =>
    simp only [hpc] at h
    obtain rfl := Option.some.inj h
    refine ⟨_, _, .add ?_ ?_ ?_ ?_, rfl, rfl⟩
    · split_ifs <;> rfl
    · split_ifs <;> simp only [Pc.toRelease] <;> omega
    · split_ifs <;> rfl
    · split_ifs <;> simp
  | posts n =>
    cases n with
    | zero =>
      simp only [hpc] at h
      obtain rfl := Option.some.inj h
      exact ⟨s, .idle, .stay rfl rfl rfl (by simp), rfl, rfl⟩
    | succ n =>
      simp only [hpc] at h
      obtain rfl := Option.some.inj h
      exact ⟨_, _, .post, rfl, rfl⟩

end Threads

/-! ## The balance -/

/-- The permits that may still be taken. -/
def State.available [Fintype T] (s : State T) : Nat :=
  s.count.toNat + s.sema + tally Pc.toRelease s.pc

/-- Each waiting thread is behind the count, or the kernel semaphore has a post for it, or
another thread is about to post; and each permit is somewhere. -/
structure Balanced [Fintype T] (initialCount : Nat) (s : State T) : Prop where
  waiting : tally (ind Pc.isWaiting) s.pc =
    (-s.count).toNat + s.sema + tally Pc.toRelease s.pc
  permits : s.available + s.acquired = initialCount + s.signaled

/-- The counting semaphore that `s` stands for. -/
def State.permits [Fintype T] (s : State T) : Permits.State :=
  ⟨s.available, s.acquired, s.signaled⟩

section Balance

variable [Fintype T] {initialCount maxSpins : Nat} {s m s' : State T} {t : T} {q : Pc}

theorem balanced_init : Balanced initialCount (init initialCount : State T) where
  waiting := by
    have hwaiting : tally (ind Pc.isWaiting) (init initialCount : State T).pc = 0 :=
      tally_eq_zero.mpr fun _ => rfl
    have hrelease : tally Pc.toRelease (init initialCount : State T).pc = 0 :=
      tally_eq_zero.mpr fun _ => rfl
    rw [hwaiting, hrelease]
    simp only [init]
    omega
  permits := by
    have hrelease : tally Pc.toRelease (init initialCount : State T).pc = 0 :=
      tally_eq_zero.mpr fun _ => rfl
    rw [State.available, hrelease]
    simp only [init]
    omega

variable [DecidableEq T]

theorem ind_eq {p : Pc} {b : Bool} (h : p.isWaiting = b) :
    ind Pc.isWaiting p = if b then 1 else 0 := by
  rw [ind, h]

omit [Fintype T] in
theorem pc_goto (hm : m.pc = s.pc) : (m.goto t q).pc = Function.update s.pc t q := by
  rw [State.goto, hm]

theorem available_goto (hm : m.pc = s.pc) : (m.goto t q).available =
    m.count.toNat + m.sema + tally Pc.toRelease (Function.update s.pc t q) := by
  rw [State.available, pc_goto hm]
  rfl

theorem Balanced.goto (hm : m.pc = s.pc)
    (hwaiting : tally (ind Pc.isWaiting) (Function.update s.pc t q) =
      (-m.count).toNat + m.sema + tally Pc.toRelease (Function.update s.pc t q))
    (hpermits : m.count.toNat + m.sema + tally Pc.toRelease (Function.update s.pc t q) +
      m.acquired = initialCount + m.signaled) : Balanced initialCount (m.goto t q) where
  waiting := by rw [pc_goto hm, hwaiting]; rfl
  permits := by rw [available_goto hm]; exact hpermits

theorem permits_goto (hm : m.pc = s.pc)
    (havailable : m.count.toNat + m.sema + tally Pc.toRelease (Function.update s.pc t q) =
      s.available)
    (hacquired : m.acquired = s.acquired) (hsignaled : m.signaled = s.signaled) :
    (m.goto t q).permits = s.permits := by
  ext
  · exact (available_goto hm).trans havailable
  · exact hacquired
  · exact hsignaled

/-- One statement of a thread is one step of the counting semaphore, or none. -/
theorem Balanced.statement (hs : Balanced initialCount s) (hm : m.pc = s.pc)
    (h : Statement s (s.pc t) m q) : Balanced initialCount (m.goto t q) ∧
      Relation.ReflTransGen Permits.Step s.permits (m.goto t q).permits := by
  have hwaiting := tally_update (ind Pc.isWaiting) s.pc t q
  have hrelease := tally_update Pc.toRelease s.pc t q
  have hW := hs.waiting
  have hP := hs.permits
  have hkeep := permits_goto (t := t) (q := q) hm
  have havailable := available_goto (t := t) (q := q) hm
  have hreturned : (Pc.returned true).toRelease = 0 := rfl
  rw [State.available] at hP hkeep
  generalize s.pc t = p at h hwaiting hrelease
  cases h with
  | stay hw hr =>
    rw [ind_eq hw, ind_eq (p := p) rfl] at hwaiting
    rw [hr] at hrelease
    refine ⟨.goto hm (by omega) (by omega), ?_⟩
    rw [hkeep (by omega) rfl rfl]
  | @signal _ count hout =>
    obtain ⟨hw, hr, -⟩ := Pc.of_outside hout
    have hadds : (Pc.adds count).toRelease = 0 := rfl
    rw [ind_eq hw, ind_eq (p := .adds count) (b := false) rfl] at hwaiting
    rw [hr, hadds] at hrelease
    refine ⟨.goto hm (by omega) (by omega), ?_⟩
    rw [hkeep (by omega) rfl rfl]
  | take hw hr _ hpos =>
    rw [ind_eq hw, ind_eq (p := .returned true) (b := false) rfl] at hwaiting
    rw [hr, hreturned] at hrelease
    simp only at havailable
    refine ⟨.goto hm (by simp only; omega) (by simp only; omega), .single (.of_acquired ?_ rfl rfl)⟩
    simp only [State.permits]
    rw [havailable, State.available]
    omega
  | join hp hpr _ hq hqr hcount =>
    rw [ind_eq hp, ind_eq hq] at hwaiting
    rw [hpr, hqr] at hrelease
    simp only [Bool.false_eq_true, if_false, if_true] at hwaiting
    refine ⟨.goto hm (by simp only; omega) (by simp only; omega), ?_⟩
    rw [hkeep (by simp only; omega) rfl rfl]
  | wake hw hr hpos =>
    rw [ind_eq hw, ind_eq (p := .returned true) (b := false) rfl] at hwaiting
    rw [hr, hreturned] at hrelease
    simp only [Bool.false_eq_true, if_false, if_true] at hwaiting havailable
    refine ⟨.goto hm (by simp only; omega) (by simp only; omega), .single (.of_acquired ?_ rfl rfl)⟩
    simp only [State.permits]
    rw [havailable, State.available]
    omega
  | giveUp hw hr hneg =>
    have hrefused : (Pc.returned false).toRelease = 0 := rfl
    rw [ind_eq hw, ind_eq (p := .returned false) (b := false) rfl] at hwaiting
    rw [hr, hrefused] at hrelease
    simp only [Bool.false_eq_true, if_false, if_true] at hwaiting
    refine ⟨.goto hm (by simp only; omega) (by simp only; omega), ?_⟩
    rw [hkeep (by simp only; omega) rfl rfl]
  | @add count _ hw hr =>
    have hadds : (Pc.adds count).toRelease = 0 := rfl
    rw [ind_eq hw, ind_eq (p := .adds count) (b := false) rfl] at hwaiting
    rw [hadds, hr] at hrelease
    simp only at havailable
    refine ⟨.goto hm (by simp only; omega) (by simp only; omega),
      .single (.of_released (n := count) ?_ rfl rfl)⟩
    simp only [State.permits]
    rw [havailable, State.available]
    omega
  | @post n =>
    have hposts : (Pc.posts (n + 1)).toRelease = n + 1 := rfl
    have hpost : (Pc.posts n).toRelease = n := rfl
    rw [ind_eq (p := .posts n) (b := false) rfl, ind_eq (p := .posts (n + 1)) (b := false) rfl]
      at hwaiting
    rw [hposts, hpost] at hrelease
    refine ⟨.goto hm (by simp only; omega) (by simp only; omega), ?_⟩
    rw [hkeep (by simp only; omega) rfl rfl]

omit [Fintype T] in
theorem step_statement {e : Event T} (h : step maxSpins s e = some s') :
    ∃ t m q, Statement s (s.pc t) m q ∧ m.pc = s.pc ∧ s' = m.goto t q := by
  cases e with
  | wait t timeout =>
    simp only [step, wait, Option.ite_none_right_eq_some, Option.some.injEq] at h
    exact ⟨t, s, _, .call h.1, rfl, h.2.symm⟩
  | signal t count =>
    simp only [step, signal, Option.ite_none_right_eq_some, Option.some.injEq] at h
    exact ⟨t, s, _, .signal h.1, rfl, h.2.symm⟩
  | next t seen ok => exact ⟨t, next_statement h⟩

theorem balanced_run {es : List (Event T)}
    (hr : Machine.run (step maxSpins) (init initialCount) es = some s) :
    Balanced initialCount s := by
  refine Machine.run_invariant (fun s e s' hs _ he => ?_) balanced_init (Machine.along_true _ es) hr
  obtain ⟨t, m, q, hstatement, hm, rfl⟩ := step_statement he
  exact (hs.statement hm hstatement).1

/-- The semaphore is a counting semaphore, whatever the order of the statements. -/
theorem refines_permits {es : List (Event T)}
    (hr : Machine.run (step maxSpins) (init initialCount) es = some s) :
    Relation.ReflTransGen Permits.Step (Permits.start initialCount) s.permits := by
  have hinit : (init initialCount : State T).permits = Permits.start initialCount := by
    have hrelease : tally Pc.toRelease (init initialCount : State T).pc = 0 :=
      tally_eq_zero.mpr fun _ => rfl
    rw [State.permits, State.available, hrelease]
    rfl
  have hsim : ∀ (s : State T) (e : Event T) (s' : State T) (a : Permits.State),
      (Balanced initialCount s ∧ s.permits = a) → True → step maxSpins s e = some s' →
      ∃ a', Relation.ReflTransGen Permits.Step a a' ∧ Balanced initialCount s' ∧
        s'.permits = a' := by
    rintro s e s' a ⟨hs, rfl⟩ - he
    obtain ⟨t, m, q, hstatement, hm, rfl⟩ := step_statement he
    exact ⟨_, (hs.statement hm hstatement).2, (hs.statement hm hstatement).1, rfl⟩
  obtain ⟨a, ha, -, rfl⟩ :=
    Machine.run_simulation hsim ⟨balanced_init, hinit⟩ (Machine.along_true _ es) hr
  exact ha

/-- **No permit is lost.** A wait is successful no more often than there are permits. A thread
waits behind an empty kernel semaphore, with nobody about to post, only when every permit was
taken; and when no thread is in a call, the count is the number of permits that are left. -/
theorem wait_sound {es : List (Event T)}
    (hr : Machine.run (step maxSpins) (init initialCount) es = some s) :
    s.acquired ≤ initialCount + s.signaled ∧
      (∀ t, (s.pc t).isWaiting = true → s.sema = 0 → (∀ u, (s.pc u).toRelease = 0) →
        s.acquired = initialCount + s.signaled) ∧
      ((∀ t, (s.pc t).outside = true) →
        s.sema = 0 ∧ s.count + s.acquired = initialCount + s.signaled) := by
  have hbalance := Permits.balance (refines_permits hr)
  simp only [State.permits] at hbalance
  have hwaiting := (balanced_run hr).waiting
  refine ⟨by omega, fun t ht hsema hpost => ?_, fun hout => ?_⟩
  · have hrelease : tally Pc.toRelease s.pc = 0 := tally_eq_zero.mpr hpost
    have hpos := tally_ind_pos ht
    rw [State.available] at hbalance
    omega
  · have hrelease : tally Pc.toRelease s.pc = 0 :=
      tally_eq_zero.mpr fun t => (Pc.of_outside (hout t)).2.1
    have hnone : tally (ind Pc.isWaiting) s.pc = 0 :=
      tally_eq_zero.mpr fun t => ind_eq (Pc.of_outside (hout t)).1
    rw [State.available] at hbalance
    constructor <;> omega

end Balance

/-- One thread sleeps, another one signals and the first one is woken. -/
def handover : List (Event Bool) :=
  [.wait true (-1), .next true 0 true, .next true 0 true, .signal false 1, .next false 0 true,
    .next false 0 true, .next false 0 true, .next true 0 true]

theorem wait_sound_handover :
    (∃ s, Machine.run (step 0) (init 0) (handover.take 3) = some s ∧ s.pc true = .sleeps (-1) ∧
      s.acquired = 0 + s.signaled) ∧
    ∃ s, Machine.run (step 0) (init 0) handover = some s ∧ s.pc true = .returned true ∧
      s.count + s.acquired = (0 : Nat) + s.signaled := by
  constructor
  · obtain ⟨s, hs, hsleeps, hsema, hpost⟩ : ∃ s,
        Machine.run (step 0) (init 0) (handover.take 3) = some s ∧ s.pc true = .sleeps (-1) ∧
          s.sema = 0 ∧ ∀ u, (s.pc u).toRelease = 0 := ⟨_, rfl, rfl, rfl, by decide⟩
    exact ⟨s, hs, hsleeps, (wait_sound hs).2.1 true (by rw [hsleeps]; rfl) hsema hpost⟩
  · obtain ⟨s, hs, hreturned, hout⟩ : ∃ s, Machine.run (step 0) (init 0) handover = some s ∧
        s.pc true = .returned true ∧ ∀ u, (s.pc u).outside = true := ⟨_, rfl, rfl, by decide⟩
    exact ⟨s, hs, hreturned, ((wait_sound hs).2.2 hout).2⟩

end BddsBroker.Moodycamel.LightweightSemaphore
