import BddsBroker.Pool.Order

/-! A task that calls `enqueue` on its own pool. The worker that runs it owns
`pool_queue_mutex`, and `enqueue` begins by locking it, so the worker waits for itself and
never gets on (`waitsForOwn_forever`). -/

namespace BddsBroker.DdsThread

variable {τ κ C : Type*} {n : Nat} {code : TaskCode τ κ}

/-- The worker `i` is at the lock in an `enqueue` of its task and owns the mutex. -/
def WaitsForOwn (s : State τ κ C n) (i : Fin n) : Prop :=
  (∃ task rest new, s.worker i = .enqueues task rest (.locks new)) ∧
    s.pool.poolQueueMutex = some (.worker i)

/-- A task that has come to an `enqueue` makes its worker wait for itself. -/
theorem Invariant.waitsForOwn {s : State τ κ C n} {i : Fin n} {task : τ} {rest : κ}
    {pc : EnqueuePc τ} (hi : Invariant code s) (h : s.worker i = .enqueues task rest pc) :
    WaitsForOwn s i := by
  have hok : (s.worker i).Ok code s.pool := hi.ok (.worker i)
  rw [h] at hok
  obtain ⟨-, -, new, rfl⟩ := hok
  have hin : s.holds (.worker i) = true := by
    show (s.worker i).holds = true
    rw [h]
    rfl
  exact ⟨⟨task, rest, new, h⟩, hi.guards.owner_eq hin⟩

/-- A worker has a task in hand only when somebody has called `enqueue` for it. -/
theorem Invariant.nonempty_caller {s : State τ κ C n} {task : τ} (hi : Invariant code s)
    (h : s.pool.started = s.pool.completed ++ [task]) : Nonempty C := by
  apply hi.sound.offered
  rw [hi.sound.accepted, h]
  simp

theorem not_waitsForOwn_of_flat {s : State τ κ C n} {i : Fin n} (hi : Invariant code s)
    (hflat : IsEmpty C ∨ ∀ task, ¬ code.UsesPool task) : ¬ WaitsForOwn s i := by
  rintro ⟨⟨task, rest, new, h⟩, -⟩
  have hok : (s.worker i).Ok code s.pool := hi.ok (.worker i)
  rw [h] at hok
  obtain ⟨hrun, huses, -⟩ := hok
  rcases hflat with hempty | hflat
  · exact not_isEmpty_iff.mpr (hi.nonempty_caller hrun) hempty
  · exact hflat task huses

section Run

variable [DecidableEq C]

/-- Nobody else can release the mutex, and the worker itself has no step. -/
theorem waitsForOwn_step {s s' : State τ κ C n} {i : Fin n} {a : Action τ κ C n}
    (hi : Invariant code s) (hw : WaitsForOwn s i) (h : step code s a = some s') :
    WaitsForOwn s' i := by
  obtain ⟨⟨task, rest, new, hpc⟩, hown⟩ := hw
  have hlocked : s.pool.lock (.worker i) = none := by simp [Pool.lock, hown]
  suffices hsame : s'.worker i = s.worker i from
    (invariant_step hi h).1.waitsForOwn (hsame.trans hpc)
  simp only [step, Option.ite_none_left_eq_some] at h
  obtain ⟨-, h⟩ := h
  cases a with
  | worker j chosen =>
    simp only [live, Option.map_eq_some_iff] at h
    obtain ⟨next, h, rfl⟩ := h
    refine Function.update_of_ne ?_ _ _
    rintro rfl
    simp [hpc, workerStep, enqueueStep, hlocked] at h
  | task j act =>
    simp only [live, Option.map_eq_some_iff] at h
    obtain ⟨next, h, rfl⟩ := h
    refine Function.update_of_ne ?_ _ _
    rintro rfl
    simp [hpc, taskStep] at h
  | wake j =>
    simp only [live, Option.some.injEq] at h
    rw [← h]
  | call c task =>
    simp only [live] at h
    split at h
    · simp only [Option.some.injEq] at h
      rw [← h]
      rfl
    · cases h
  | caller c chosen | destructor =>
    simp only [live, Option.map_eq_some_iff] at h
    obtain ⟨next, -, rfl⟩ := h
    rfl

/-- From then on the worker waits in every state. -/
theorem waitsForOwn_forever {s s' : State τ κ C n} {i : Fin n} (hi : Invariant code s)
    (hw : WaitsForOwn s i) (hr : Machine.Reachable (step code) s s') : WaitsForOwn s' i := by
  have hboth := Machine.reachable_invariant (I := fun s => Invariant code s ∧ WaitsForOwn s i)
    (fun _ _ _ hs h => ⟨(invariant_step hs.1 h).1, waitsForOwn_step hs.1 hs.2 h⟩) ⟨hi, hw⟩ hr
  exact hboth.2

/-- One caller hands the task over and the worker takes it. -/
def handsOver (c : C) (i : Fin n) (task : τ) : List (Action τ κ C n) :=
  [.call c task] ++ List.replicate 5 (.caller c none) ++ List.replicate 4 (.worker i none)

theorem run_handsOver (code : TaskCode τ κ) (c : C) (i : Fin n) (task : τ) :
    ∃ s, Machine.run (step code) init (handsOver c i task) = some s ∧
      s.worker i = .runs task (code.start task) ∧ s.pool.terminated = false := by
  simp [handsOver, Machine.run, step, live, init, Pool.init, State.callerTo, State.workerTo,
    callerStep, enqueueStep, workerStep, Pool.lock, Pool.unlock, Pool.emplace, Pool.notifyOne,
    Pool.record, Pool.ready, Pool.take, List.replicate]

/-- Its worker can follow the task to every point of its code. -/
theorem reachable_runs {c : C} {i : Fin n} {task : τ} {point : κ} (h : code.Reaches task point) :
    ∃ s : State τ κ C n, Machine.Reachable (step code) init s ∧
      s.worker i = .runs task point ∧ s.pool.terminated = false := by
  induction h with
  | refl =>
    obtain ⟨s, hr, hw, ht⟩ := run_handsOver code c i task
    exact ⟨s, ⟨_, hr⟩, hw, ht⟩
  | @tail point rest _ hmay ih =>
    obtain ⟨s, hr, hw, ht⟩ := ih
    refine ⟨s.workerTo i (s.pool, .runs task rest), ?_, Function.update_self _ _ _, ht⟩
    apply hr.snoc (e := .task i (.works rest))
    simp [step, ht, live, hw, taskStep, hmay]

theorem reachable_waitsForOwn {c : C} {i : Fin n} {task : τ} (h : code.UsesPool task) :
    ∃ s : State τ κ C n, Machine.Reachable (step code) init s ∧ WaitsForOwn s i := by
  obtain ⟨point, new, rest, hreach, hmay⟩ := h
  obtain ⟨s, hr, hw, ht⟩ := reachable_runs (c := c) (i := i) hreach
  have hnext : step code s (.task i (.enqueues new rest)) =
      some (s.workerTo i (s.pool, .enqueues task rest (.locks new))) := by
    simp [step, ht, live, hw, taskStep, hmay]
  refine ⟨_, hr.snoc hnext, ?_⟩
  exact (invariant_of_reachable (hr.snoc hnext)).waitsForOwn (Function.update_self _ _ _)

/-- **Reentry.** No worker ever waits for the mutex it owns exactly when no task that is
handed to the pool may call `enqueue` (or nothing is handed over, or nothing runs). -/
theorem never_waitsForOwn_iff :
    (∀ s : State τ κ C n, Machine.Reachable (step code) init s → ∀ i, ¬ WaitsForOwn s i) ↔
      n = 0 ∨ IsEmpty C ∨ ∀ task, ¬ code.UsesPool task := by
  constructor
  · intro h
    by_contra hne
    simp only [not_or, not_forall, not_not] at hne
    obtain ⟨hn, hC, task, huses⟩ := hne
    obtain ⟨c⟩ := not_isEmpty_iff.mp hC
    obtain ⟨s, hr, hw⟩ := reachable_waitsForOwn (c := c) (i := ⟨0, Nat.pos_of_ne_zero hn⟩) huses
    exact h s hr _ hw
  · rintro (rfl | hflat) s hr i
    · exact i.elim0
    · exact not_waitsForOwn_of_flat (invariant_of_reachable hr) hflat

end Run

/-- A task that adds tasks to its pool. -/
def reentrant : TaskCode Nat Unit where
  start _ := ()
  may
    | (), .enqueues _ () => true
    | (), _ => false

theorem reentrant_task_waits_for_own :
    ∃ s : State Nat Unit Unit 1,
      Machine.run (step reentrant) init (handsOver () 0 7 ++ [.task 0 (.enqueues 8 ())]) = some s ∧
        WaitsForOwn s 0 :=
  ⟨_, rfl, ⟨7, (), 8, rfl⟩, rfl⟩

end BddsBroker.DdsThread
