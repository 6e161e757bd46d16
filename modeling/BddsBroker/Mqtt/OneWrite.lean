import BddsBroker.Mqtt.AtMostOnce

/-! The writes on the clients' sockets. `send` starts an `async_write` and returns; its
bytes go out in any number of transfers, and it completes at any later time, on another
thread. Nothing in `send` or in its callers waits for that. So a session has one write at a
time, and its frames go out one after another, exactly in the runs in which every accepted
`send` finds the earlier writes on its session completed (`one_write_iff`). -/

namespace BddsBroker.OneWrite

open Writers

variable {L : Libraries} {T : Type}

/-- An `async_write`, by the number of the call of `send` that starts it. -/
@[ext] structure Write where
  number : Nat
  session : SessionPtr
  deriving DecidableEq, Repr

structure Sockets (L : Libraries) (T : Type) where
  writers : State L T
  outstanding : List Write
  /-- The transfers on all sockets so far, each by its write. -/
  wire : List Write

def Sockets.init : Sockets L T := ⟨.init, [], []⟩

inductive Event (T : Type)
  | writer (e : Writers.Event T)
  /-- An outstanding write passes some of its bytes to its socket. -/
  | transfer (i : Nat)
  /-- The completion handler of an outstanding write runs. -/
  | complete (i : Nat)
  deriving DecidableEq

/-- The `async_write` that a step starts: `send` starts one unless it returns -1. -/
def started (w : State L T) : Writers.Event T → List Write
  | .advance t =>
      match w.threads t with
      | .sending _ client data =>
          if MqttSession.send data < 0 then [] else [⟨w.sent.length, client⟩]
      | _ => []
  | _ => []

def step [DecidableEq T] (st : Sockets L T) : Event T → Option (Sockets L T)
  | .writer e => (Writers.step st.writers e).map fun w =>
      { st with writers := w, outstanding := st.outstanding ++ started st.writers e }
  | .transfer i => st.outstanding[i]?.map fun w => { st with wire := st.wire ++ [w] }
  | .complete i =>
      if i < st.outstanding.length then
        some { st with outstanding := st.outstanding.eraseIdx i }
      else none

/-! ## One write at a time -/

/-- No two writes are outstanding on one socket. -/
def OneAtATime (outstanding : List Write) : Prop :=
  outstanding.Pairwise fun v w => v.session ≠ w.session

/-- A frame goes on after a part of another one on the same socket. -/
def Interleaved (wire : List Write) : Prop :=
  ∃ v w : Write, v.session = w.session ∧ v ≠ w ∧ [v, w, v].Sublist wire

/-- No write is outstanding on the session whose write the step starts. -/
def Waits (st : Sockets L T) : Event T → Prop
  | .writer e => ∀ w ∈ started st.writers e, ∀ v ∈ st.outstanding, v.session ≠ w.session
  | .transfer _ | .complete _ => True

instance (outstanding : List Write) : Decidable (OneAtATime outstanding) :=
  inferInstanceAs (Decidable (List.Pairwise _ _))

/-! ## The order on the wire -/

/-- Every write is one of the calls. -/
def Called (calls : List Sent) (w : Write) : Prop :=
  calls[w.number]?.map Sent.session = some w.session

/-- On each socket one write is outstanding, and no later write has been transferred. -/
structure InOrder (st : Sockets L T) : Prop where
  one : OneAtATime st.outstanding
  outstanding : ∀ w ∈ st.outstanding, Called st.writers.sent w
  wire : ∀ w ∈ st.wire, Called st.writers.sent w
  sorted : st.wire.Pairwise fun v w => v.session = w.session → v.number ≤ w.number
  last : ∀ w ∈ st.outstanding, ∀ v ∈ st.wire, v.session = w.session → v.number ≤ w.number

theorem Called.number_lt {calls : List Sent} {w : Write} (h : Called calls w) :
    w.number < calls.length := by
  obtain ⟨call, hcall, -⟩ := Option.map_eq_some_iff.mp h
  exact (List.getElem?_eq_some_iff.mp hcall).1

theorem Called.mono {calls later : List Sent} {w : Write} (h : Called calls w)
    (hlater : calls <+: later) : Called later w := by
  obtain ⟨call, hcall, hsession⟩ := Option.map_eq_some_iff.mp h
  exact Option.map_eq_some_iff.mpr ⟨call, Lists.getElem?_of_extends hlater hcall, hsession⟩

theorem OneAtATime.unique {outstanding : List Write} (h : OneAtATime outstanding) {v w : Write}
    (hv : v ∈ outstanding) (hw : w ∈ outstanding) (hsession : v.session = w.session) : v = w := by
  by_contra hne
  have hsymm : Std.Symm fun v w : Write => v.session ≠ w.session := ⟨fun _ _ => Ne.symm⟩
  exact List.Pairwise.forall h hv hw hne hsession

/-- Writes in the order of their calls are not interleaved. -/
theorem InOrder.not_interleaved {st : Sockets L T} (h : InOrder st) : ¬ Interleaved st.wire := by
  rintro ⟨v, w, hsession, hne, hsub⟩
  have hsorted := h.sorted.sublist hsub
  simp only [List.pairwise_cons, List.mem_cons, List.not_mem_nil, or_false, forall_eq_or_imp,
    forall_eq] at hsorted
  obtain ⟨⟨hvw, -⟩, hwv, -⟩ := hsorted
  have hnumber : v.number = w.number := le_antisymm (hvw hsession) (hwv hsession.symm)
  exact hne (Write.ext hnumber hsession)

section Steps

variable [DecidableEq T]

/-- The call that starts a write is the next one. -/
theorem started_cases {w w' : State L T} {e : Writers.Event T} (hs : Writers.step w e = some w') :
    (started w e = [] ∧ w.sent <+: w'.sent) ∨
      ∃ call : Sent, started w e = [⟨w.sent.length, call.session⟩] ∧
        w'.sent = w.sent ++ [call] := by
  cases e with
  | environment e =>
    obtain ⟨b, tasks, -, -, -, rfl⟩ := environment_eq_some hs
    exact .inl ⟨rfl, List.prefix_refl _⟩
  | dequeue t i =>
    obtain ⟨origin, task, -, -, -, rfl⟩ := dequeue_eq_some hs
    exact .inl ⟨rfl, List.prefix_refl _⟩
  | advance t =>
    obtain ⟨m, q, hstatement, rfl⟩ := advance_statement hs
    rcases sent_statement hstatement with ⟨hm, hne⟩ | ⟨r, client, data, hp, hm⟩
    · refine .inl ⟨?_, hm ▸ List.prefix_refl _⟩
      unfold started
      dsimp only
      split
      · rename_i r client data hp
        exact absurd hp (hne r client data)
      · rfl
    · by_cases hfail : MqttSession.send data < 0
      · refine .inl ⟨by simp only [started, hp, if_pos hfail], ?_⟩
        exact hm ▸ List.prefix_append _ _
      · exact .inr ⟨⟨r.origin, client, data⟩, by simp only [started, hp, if_neg hfail], hm⟩

theorem step_inOrder {st st' : Sockets L T} {e : Event T} (hst : InOrder st) (hc : Waits st e)
    (hs : step st e = some st') : InOrder st' := by
  cases e with
  | writer e =>
    obtain ⟨w, hw, rfl⟩ := Option.map_eq_some_iff.mp hs
    rcases started_cases hw with ⟨hnone, hsent⟩ | ⟨call, hstart, hsent⟩
    · refine ⟨?_, ?_, fun v hv => (hst.wire v hv).mono hsent, hst.sorted, ?_⟩
      · simpa only [hnone, List.append_nil] using hst.one
      · simp only [hnone, List.append_nil]
        exact fun v hv => (hst.outstanding v hv).mono hsent
      · simpa only [hnone, List.append_nil] using hst.last
    · have hprefix : st.writers.sent <+: w.sent := hsent ▸ List.prefix_append _ _
      have hfree := hc ⟨_, call.session⟩ (by rw [hstart]; exact List.mem_singleton_self _)
      simp only [hstart]
      refine ⟨?_, ?_, fun v hv => (hst.wire v hv).mono hprefix, hst.sorted, ?_⟩
      · exact List.pairwise_append.mpr ⟨hst.one, List.pairwise_singleton _ _,
          fun v hv u hu => List.mem_singleton.mp hu ▸ hfree v hv⟩
      · refine List.forall_mem_append.mpr ⟨fun v hv => (hst.outstanding v hv).mono hprefix, ?_⟩
        refine List.forall_mem_singleton.mpr ?_
        show w.sent[st.writers.sent.length]?.map Sent.session = some call.session
        rw [hsent, List.getElem?_concat_length, Option.map_some]
      · refine List.forall_mem_append.mpr ⟨hst.last, List.forall_mem_singleton.mpr ?_⟩
        exact fun v hv _ => (hst.wire v hv).number_lt.le
  | transfer i =>
    obtain ⟨w, hw, rfl⟩ := Option.map_eq_some_iff.mp hs
    have hmem := List.mem_of_getElem? hw
    refine ⟨hst.one, hst.outstanding, ?_, ?_, fun u hu => ?_⟩
    · exact List.forall_mem_append.mpr
        ⟨hst.wire, List.forall_mem_singleton.mpr (hst.outstanding w hmem)⟩
    · exact List.pairwise_append.mpr ⟨hst.sorted, List.pairwise_singleton _ _,
        fun v hv u hu => List.mem_singleton.mp hu ▸ hst.last w hmem v hv⟩
    · refine List.forall_mem_append.mpr ⟨hst.last u hu, List.forall_mem_singleton.mpr ?_⟩
      exact fun hsession => (hst.one.unique hmem hu hsession) ▸ le_refl _
  | complete i =>
    simp only [step, Option.ite_none_right_eq_some, Option.some.injEq] at hs
    obtain ⟨-, rfl⟩ := hs
    have hsub := List.eraseIdx_sublist st.outstanding i
    exact ⟨hst.one.sublist hsub, fun w hw => hst.outstanding w (hsub.subset hw), hst.wire,
      hst.sorted, fun w hw => hst.last w (hsub.subset hw)⟩

omit [DecidableEq T] in
theorem inOrder_init : InOrder (Sockets.init : Sockets L T) where
  one := .nil
  outstanding _ hw := absurd hw List.not_mem_nil
  wire _ hw := absurd hw List.not_mem_nil
  sorted := .nil
  last _ hw := absurd hw List.not_mem_nil

/-- A thread that calls `send` is not held up. -/
theorem exists_step_of_started {st : State L T} {e : Writers.Event T} {w : Write}
    (h : w ∈ started st e) : ∃ st', Writers.step st e = some st' := by
  cases e with
  | environment | dequeue => cases h
  | advance t =>
    simp only [started] at h
    split at h
    · rename_i r client data hp
      split at h
      · cases h
      · rename_i hok
        exact ⟨(st.record r.origin client data).goto t (.looping r.next),
          by simp only [Writers.step, advance, hp, if_neg hok]⟩
    · cases h

/-- A step that leads to one write at a time only has waited. -/
theorem waits_of_oneAtATime {st : Sockets L T} {e : Event T}
    (h : ∀ st', step st e = some st' → OneAtATime st'.outstanding) : Waits st e := by
  cases e with
  | writer e =>
    intro w hw v hv
    obtain ⟨w', hw'⟩ := exists_step_of_started hw
    have hone := h _ (Option.map_eq_some_iff.mpr ⟨w', hw', rfl⟩)
    exact (List.pairwise_append.mp hone).2.2 v hv w hw
  | transfer | complete => trivial

/-- **One write at a time.** In every run of the broker, its writers and the completions,
no state has two writes on one socket or frames interleaved on the wire exactly if every
accepted send waits for the earlier ones on its session. -/
theorem one_write_iff (es : List (Event T)) :
    (∀ fs st, fs <+: es → Machine.run step (Sockets.init : Sockets L T) fs = some st →
        OneAtATime st.outstanding ∧ ¬ Interleaved st.wire) ↔
      Machine.Along step Waits (Sockets.init : Sockets L T) es := by
  refine Machine.forall_good_iff_along (I := InOrder) ?_ ?_ ?_ inOrder_init es
  · exact fun st hst => ⟨hst.one, hst.not_interleaved⟩
  · exact fun st e st' hst hc hs => step_inOrder hst hc hs
  · exact fun st e _ h => waits_of_oneAtATime fun st' hs => (h st' hs).1

end Steps

open AtMostOnce

/-- Session 1 connects and subscribes, and one thread sends its CONNACK and its SUBACK.
The first write has passed a part of its bytes when the second one starts. -/
def unfinished {T : Type} (t : T) : List (Event T) :=
  (([.accept 1, .packet 1 (Wire.connectAs 97), .packet 1 Wire.subscribeGps] : List Run.Event).map
    fun e => .writer (.environment e)) ++
      (serve t 5).map .writer ++ [.transfer 0] ++ (serve t 6).map .writer ++
        [.transfer 1, .transfer 0]

theorem unfinished_interleaves :
    ∃ st : Sockets Wire.libraries Unit,
      Machine.run step Sockets.init (unfinished ()) = some st ∧
        ¬ OneAtATime st.outstanding ∧ Interleaved st.wire :=
  ⟨_, rfl, by decide +kernel, ⟨0, 1⟩, ⟨1, 1⟩, rfl, by decide, List.Sublist.refl _⟩

/-! ## Two writes -/

/-- The writes stand in the order of their calls. -/
structure Numbered (st : Sockets L T) : Prop where
  increasing : st.outstanding.Pairwise fun v w => v.number < w.number
  bound : ∀ w ∈ st.outstanding, w.number < st.writers.sent.length

section Two

variable [DecidableEq T]

theorem step_numbered {st st' : Sockets L T} {e : Event T} (hst : Numbered st)
    (hs : step st e = some st') : Numbered st' := by
  cases e with
  | writer e =>
    obtain ⟨w, hw, rfl⟩ := Option.map_eq_some_iff.mp hs
    rcases started_cases hw with ⟨hnone, hsent⟩ | ⟨call, hstart, hsent⟩
    · simp only [hnone, List.append_nil]
      exact ⟨hst.increasing, fun v hv => (hst.bound v hv).trans_le hsent.length_le⟩
    · have hlength : w.sent.length = st.writers.sent.length + 1 := by
        rw [hsent, List.length_append, List.length_singleton]
      simp only [hstart]
      refine ⟨List.pairwise_append.mpr ⟨hst.increasing, List.pairwise_singleton _ _, ?_⟩, ?_⟩
      · exact fun v hv u hu => List.mem_singleton.mp hu ▸ hst.bound v hv
      · refine List.forall_mem_append.mpr ⟨fun v hv => ?_, List.forall_mem_singleton.mpr ?_⟩
        · have hbound := hst.bound v hv
          show v.number < w.sent.length
          omega
        · show st.writers.sent.length < w.sent.length
          omega
  | transfer i =>
    obtain ⟨w, -, rfl⟩ := Option.map_eq_some_iff.mp hs
    exact ⟨hst.increasing, hst.bound⟩
  | complete i =>
    simp only [step, Option.ite_none_right_eq_some, Option.some.injEq] at hs
    obtain ⟨-, rfl⟩ := hs
    have hsub := List.eraseIdx_sublist st.outstanding i
    exact ⟨hst.increasing.sublist hsub, fun w hw => hst.bound w (hsub.subset hw)⟩

theorem reachable_numbered {st : Sockets L T} (hr : Machine.Reachable step Sockets.init st) :
    Numbered st := by
  refine Machine.reachable_invariant (I := Numbered) (fun _ _ _ hst hs => step_numbered hst hs)
    ?_ hr
  exact ⟨.nil, fun w hw => absurd hw List.not_mem_nil⟩

/-- **Two writes interleave.** From every reachable state with two writes on one socket,
three transfers interleave their frames. -/
theorem interleaves_of_two {st : Sockets L T} (hr : Machine.Reachable step Sockets.init st)
    (h : ¬ OneAtATime st.outstanding) :
    ∃ st', Machine.Reachable step st st' ∧ Interleaved st'.wire := by
  obtain ⟨i, j, hi, hj, hij, hsession⟩ : ∃ i j, ∃ (hi : i < st.outstanding.length)
      (hj : j < st.outstanding.length), i < j ∧
        st.outstanding[i].session = st.outstanding[j].session := by
    unfold OneAtATime at h
    rw [List.pairwise_iff_getElem] at h
    push Not at h
    exact h
  have hnumber := List.pairwise_iff_getElem.mp (reachable_numbered hr).increasing i j hi hj hij
  let v := st.outstanding[i]
  let w := st.outstanding[j]
  refine ⟨{ st with wire := st.wire ++ [v] ++ [w] ++ [v] },
    ⟨[.transfer i, .transfer j, .transfer i], ?_⟩, v, w, hsession, ?_, ?_⟩
  · simp [Machine.run, step, hi, hj, v, w]
  · exact fun heq => hnumber.ne (congrArg Write.number heq)
  · simp only [List.append_assoc, List.singleton_append]
    exact List.sublist_append_right st.wire [v, w, v]

end Two

end BddsBroker.OneWrite
