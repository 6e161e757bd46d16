import BddsBroker.Lib.Machine
import BddsBroker.Lock.Exclusion

/-! The lock of the connected-client counter. `SBDP_THREAD::mutex` is a `static`
variable of a header, so every translation unit that names it has an object of its
own, zero from static initialization. CONNECT handling locks the object of
`MQTTSession.cpp`, the announcer the object of `BrokerParticipant.cpp`. The steps
below take the object of each unit from a `linkage`: the two sections exclude each
other exactly when both units denote one object (`excluded_iff_shared`). With the header's
linkage they do not, and any session overlaps with the announcer
(`counter_guarded_iff`). -/

namespace BddsBroker.Linkage

/-- The translation units whose code locks `SBDP_THREAD::mutex` around `client_no`. -/
inductive TranslationUnit
  | mqttSession
  | brokerParticipant
  deriving DecidableEq, Repr

/-- `static task_lock_t mutex` in a header: one object for each unit. -/
def staticInHeader : TranslationUnit → TranslationUnit := id

/-- CONNECT handling: the statement about to run. -/
inductive ConnectPc
  | outside
  | pending
  | increaseCount
  | getCount
  | unlock
  deriving DecidableEq, Repr

/-- The announcer's constructor and `handle_timeout`: the statement about to run. -/
inductive SnapshotPc
  | outside
  | pending
  | getCount
  | toJson
  | unlock
  deriving DecidableEq, Repr

structure State (O T : Type*) where
  mutex : O → TaskLock
  clientNo : Int
  clientN : T → Int
  connect : T → ConnectPc
  snapshot : SnapshotPc
  /-- `ConnectedClientNum` of `SBDP_DATA`. -/
  connectedClientCount : Int
  /-- The same number in the encoded `message_`. -/
  message : Int

/-- The next statement of a session's CONNECT handling, or of the announcer. -/
inductive Action (T : Type*)
  | connect (t : T)
  | snapshot

variable {O T : Type*} [DecidableEq O] [DecidableEq T]

def init : State O T :=
  ⟨fun _ => .taskLockInit, 0, fun _ => 0, fun _ => .outside, .outside, 0, 0⟩

def State.lock (s : State O T) (o : O) (l : TaskLock) : State O T :=
  { s with mutex := Function.update s.mutex o l }

def State.connectTo (s : State O T) (t : T) (pc : ConnectPc) : State O T :=
  { s with connect := Function.update s.connect t pc }

def State.snapshotTo (s : State O T) (pc : SnapshotPc) : State O T := { s with snapshot := pc }

/-- CONNECT handling with the lock object `o`. -/
def connectStep (o : O) (s : State O T) (t : T) : Option (State O T) :=
  match s.connect t with
  | .outside => some ((s.lock o (s.mutex o).wlockEnter).connectTo t .pending)
  | .pending =>
      if (s.mutex o).wlockWaits = false then
        some ((s.lock o (s.mutex o).wlockGrant).connectTo t .increaseCount)
      else none
  | .increaseCount => some ({ s with clientNo := s.clientNo + 1 }.connectTo t .getCount)
  | .getCount =>
      some ({ s with clientN := Function.update s.clientN t s.clientNo }.connectTo t .unlock)
  | .unlock => some ((s.lock o (s.mutex o).unlockReset).connectTo t .outside)

/-- The announcer with the lock object `o`. -/
def snapshotStep (o : O) (s : State O T) : Option (State O T) :=
  match s.snapshot with
  | .outside => some ((s.lock o (s.mutex o).rlockEnter).snapshotTo .pending)
  | .pending =>
      if (s.mutex o).rlockWaits = false then
        some ((s.lock o (s.mutex o).rlockGrant).snapshotTo .getCount)
      else none
  | .getCount => some ({ s with connectedClientCount := s.clientNo }.snapshotTo .toJson)
  | .toJson => some ({ s with message := s.connectedClientCount }.snapshotTo .unlock)
  | .unlock => some ((s.lock o (s.mutex o).unlockReset).snapshotTo .outside)

def step (linkage : TranslationUnit → O) (s : State O T) : Action T → Option (State O T)
  | .connect t => connectStep (linkage .mqttSession) s t
  | .snapshot => snapshotStep (linkage .brokerParticipant) s

def ConnectPc.mode : ConnectPc → Exclusion.Mode
  | .outside => .outside
  | .pending => .pendingWrite
  | .increaseCount | .getCount | .unlock => .writing

def SnapshotPc.mode : SnapshotPc → Exclusion.Mode
  | .outside => .outside
  | .pending => .pendingRead
  | .getCount | .toJson | .unlock => .reading

/-- A CONNECT is inside its write section while the announcer is inside its read section. -/
def Overlaps (s : State O T) : Prop :=
  (∃ t, (s.connect t).mode = .writing) ∧ s.snapshot.mode = .reading

/-! ## One shared object

The object of both units is used as `Exclusion` demands: the announcer is the only
reader. -/

/-- The lock `o` and its users: the sessions and, as `none`, the announcer. -/
def view (o : O) (s : State O T) : Exclusion.State (Option T) :=
  ⟨s.mutex o, fun
    | none => s.snapshot.mode
    | some t => (s.connect t).mode⟩

omit [DecidableEq O] [DecidableEq T] in
theorem view_init (o : O) : view o (init : State O T) = Exclusion.init := by
  unfold view init Exclusion.init
  congr 1
  funext u
  cases u <;> rfl

omit [DecidableEq O] in
theorem view_connectTo (o : O) (s : State O T) (t : T) (pc : ConnectPc) :
    view o (s.connectTo t pc) =
      ⟨s.mutex o, Function.update (view o s).mode (some t) pc.mode⟩ := by
  unfold view State.connectTo
  congr 1
  funext u
  cases u with
  | none => rfl
  | some u =>
    by_cases hu : u = t
    · subst hu
      simp
    · simp [hu]

omit [DecidableEq O] in
theorem view_snapshotTo (o : O) (s : State O T) (pc : SnapshotPc) :
    view o (s.snapshotTo pc) = ⟨s.mutex o, Function.update (view o s).mode none pc.mode⟩ := by
  unfold view State.snapshotTo
  congr 1
  funext u
  cases u <;> simp

omit [DecidableEq O] in
theorem view_connectTo_same {o : O} {s : State O T} {t : T} {pc : ConnectPc}
    (h : pc.mode = (s.connect t).mode) : view o (s.connectTo t pc) = view o s := by
  rw [view_connectTo, h]
  exact congrArg (Exclusion.State.mk _) (Function.update_eq_self (some t) (view o s).mode)

omit [DecidableEq O] in
theorem view_snapshotTo_same {o : O} {s : State O T} {pc : SnapshotPc}
    (h : pc.mode = s.snapshot.mode) : view o (s.snapshotTo pc) = view o s := by
  rw [view_snapshotTo, h]
  exact congrArg (Exclusion.State.mk _) (Function.update_eq_self none (view o s).mode)

omit [DecidableEq O] [DecidableEq T] in
theorem reading_announcer {o : O} {s : State O T} {u : Option T}
    (h : (view o s).mode u = .reading) : u = none := by
  cases u with
  | none => rfl
  | some t =>
    have hm : (s.connect t).mode = .reading := h
    cases hpc : s.connect t <;> rw [hpc] at hm <;> cases hm

/-- A statement of CONNECT handling with the shared object. -/
theorem view_connectStep {o : O} {s s' : State O T} {t : T}
    (hx : Exclusion.Excludes (view o s)) (hs : connectStep o s t = some s') :
    view o s' = view o s ∨ ∃ b, Exclusion.UnlocksAlone (view o s) b ∧
      Exclusion.step (view o s) b = some (view o s') := by
  have hmode : (view o s).mode (some t) = (s.connect t).mode := rfl
  unfold connectStep at hs
  cases hpc : s.connect t with
  | outside =>
    simp only [hpc, Option.some.injEq] at hs
    subst hs
    refine .inr ⟨.wlockEnter (some t), trivial, ?_⟩
    rw [view_connectTo]
    simp [Exclusion.step, hpc, ConnectPc.mode, State.lock, view]
  | pending =>
    simp only [hpc, Option.ite_none_right_eq_some, Option.some.injEq] at hs
    obtain ⟨hg, rfl⟩ := hs
    refine .inr ⟨.wlockGrant (some t), trivial, ?_⟩
    rw [view_connectTo]
    simp [Exclusion.step, hpc, ConnectPc.mode, State.lock, view, hg]
  | increaseCount | getCount =>
    simp only [hpc, Option.some.injEq] at hs
    subst hs
    exact .inl (view_connectTo_same (by rw [hpc]; rfl))
  | unlock =>
    simp only [hpc, Option.some.injEq] at hs
    subst hs
    refine .inr ⟨.unlock (some t), fun u hu => (hx (some t) u (by rw [hmode, hpc]; rfl) hu).1, ?_⟩
    rw [view_connectTo]
    simp [Exclusion.step, hpc, ConnectPc.mode, State.lock, view]

/-- A statement of the announcer with the shared object. -/
theorem view_snapshotStep {o : O} {s s' : State O T} (hs : snapshotStep o s = some s') :
    view o s' = view o s ∨ ∃ b, Exclusion.UnlocksAlone (view o s) b ∧
      Exclusion.step (view o s) b = some (view o s') := by
  unfold snapshotStep at hs
  cases hpc : s.snapshot with
  | outside =>
    simp only [hpc, Option.some.injEq] at hs
    subst hs
    refine .inr ⟨.rlockEnter none, trivial, ?_⟩
    rw [view_snapshotTo]
    simp [Exclusion.step, hpc, SnapshotPc.mode, State.lock, view]
  | pending =>
    simp only [hpc, Option.ite_none_right_eq_some, Option.some.injEq] at hs
    obtain ⟨hg, rfl⟩ := hs
    refine .inr ⟨.rlockGrant none, trivial, ?_⟩
    rw [view_snapshotTo]
    simp [Exclusion.step, hpc, SnapshotPc.mode, State.lock, view, hg]
  | getCount | toJson =>
    simp only [hpc, Option.some.injEq] at hs
    subst hs
    exact .inl (view_snapshotTo_same (by rw [hpc]))
  | unlock =>
    simp only [hpc, Option.some.injEq] at hs
    subst hs
    refine .inr ⟨.unlock none, fun u hu hread => hu (reading_announcer hread), ?_⟩
    rw [view_snapshotTo]
    simp [Exclusion.step, hpc, SnapshotPc.mode, State.lock, view]

theorem describes_step {linkage : TranslationUnit → O} {s s' : State O T} {a : Action T}
    (hl : linkage .mqttSession = linkage .brokerParticipant)
    (hd : ∃ h, Exclusion.Describes (view (linkage .mqttSession) s) h)
    (hs : step linkage s a = some s') :
    ∃ h, Exclusion.Describes (view (linkage .mqttSession) s') h := by
  obtain ⟨h, hd⟩ := hd
  have hview : view (linkage .mqttSession) s' = view (linkage .mqttSession) s ∨
      ∃ b, Exclusion.UnlocksAlone (view (linkage .mqttSession) s) b ∧
        Exclusion.step (view (linkage .mqttSession) s) b =
          some (view (linkage .mqttSession) s') := by
    cases a with
    | connect t => exact view_connectStep hd.excludes hs
    | snapshot =>
      have hs' : snapshotStep (linkage .mqttSession) s = some s' := by rw [hl]; exact hs
      exact view_snapshotStep hs'
  rcases hview with hsame | ⟨b, hb, hstep⟩
  · rw [hsame]
    exact ⟨h, hd⟩
  · obtain ⟨h', -, hd'⟩ := Exclusion.describes_step hd hb hstep
    exact ⟨h', hd'⟩

theorem not_overlaps_of_shared {linkage : TranslationUnit → O} {s : State O T}
    (hl : linkage .mqttSession = linkage .brokerParticipant)
    (hr : Machine.Reachable (step linkage) init s) : ¬ Overlaps s := by
  have hinit : ∃ h, Exclusion.Describes (view (linkage .mqttSession) (init : State O T)) h := by
    rw [view_init]
    exact ⟨_, Exclusion.describes_init⟩
  obtain ⟨h, hd⟩ := Machine.reachable_invariant
    (fun s e s' hd hs => describes_step hl hd hs) hinit hr
  rintro ⟨⟨t, ht⟩, hread⟩
  exact (hd.excludes (some t) none ht (by simp)).1 hread

/-! ## Two objects -/

/-- One CONNECT is granted its object and then the announcer its own. -/
def bothEnter (t : T) : List (Action T) := [.connect t, .connect t, .snapshot, .snapshot]

theorem bothEnter_overlaps {linkage : TranslationUnit → O}
    (hl : linkage .mqttSession ≠ linkage .brokerParticipant) (t : T) :
    ∃ s, Machine.run (step linkage) init (bothEnter t) = some s ∧ Overlaps s := by
  have hw : TaskLock.taskLockInit.wlockEnter.wlockWaits = false := by decide
  have hr : TaskLock.taskLockInit.rlockEnter.rlockWaits = false := by decide
  have hsection : ∃ u, (Function.update (Function.update (fun _ => ConnectPc.outside) t
      ConnectPc.pending) t ConnectPc.increaseCount u).mode = .writing :=
    ⟨t, by simp [ConnectPc.mode]⟩
  simpa [bothEnter, Machine.run, step, connectStep, snapshotStep, init, State.lock,
    State.connectTo, State.snapshotTo, Overlaps, hw, hr, Ne.symm hl, SnapshotPc.mode]
    using hsection

/-- For any linkage, the counter is guarded exactly when both units denote one object. -/
theorem excluded_iff_shared (linkage : TranslationUnit → O) :
    (∀ s : State O T, Machine.Reachable (step linkage) init s → ¬ Overlaps s) ↔
      linkage .mqttSession = linkage .brokerParticipant ∨ IsEmpty T := by
  constructor
  · intro h
    by_contra hne
    obtain ⟨hl, hT⟩ := not_or.mp hne
    obtain ⟨t⟩ := not_isEmpty_iff.mp hT
    obtain ⟨s, hr, ho⟩ := bothEnter_overlaps hl t
    exact h s ⟨_, hr⟩ ho
  · rintro (hl | hT) s hr ho
    · exact not_overlaps_of_shared hl hr ho
    · exact hT.elim ho.1.choose

/-- **The header's linkage** guards the counter only as long as nobody connects. -/
theorem counter_guarded_iff :
    (∀ s : State TranslationUnit T, Machine.Reachable (step staticInHeader) init s →
      ¬ Overlaps s) ↔ IsEmpty T := by
  rw [excluded_iff_shared]
  constructor
  · rintro (hl | hT)
    · cases hl
    · exact hT
  · exact .inr

/-- One session and the announcer. -/
theorem connect_beside_snapshot :
    ∃ s : State TranslationUnit (Fin 1),
      Machine.run (step staticInHeader) init (bothEnter 0) = some s ∧ Overlaps s :=
  ⟨_, rfl, ⟨0, rfl⟩, rfl⟩

end BddsBroker.Linkage
