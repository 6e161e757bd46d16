import BddsBroker.Dds.Cycles
import BddsBroker.Dds.Hop

/-! What a message tells while it goes from broker to broker. In each of them it is a text in the
queue and a sample again, and the queues and readers hold other messages as well. -/

namespace BddsBroker.Dds.Brokers

open Hop Loop Program

variable {B : Type} {L : Libraries} {C : Codec L} {f : Nat → Option (Message C.numbers)}

/-! ## In one broker -/

/-- Under each number the broker has what `f` tells, as a sample or as a text. -/
structure Tells (f : Nat → Option (Message C.numbers)) (q : Loop.State L C) : Prop where
  length : q.origins.length = q.broker.ddsTaskQueue.length
  delivered : ∀ d ∈ q.delivered, f d.origin = some d.message
  queued : ∀ p ∈ q.origins.zip q.broker.ddsTaskQueue, ∀ m, decode C.json p.2.data = .ok m →
    f p.1 = some m

theorem tells_init (f : Nat → Option (Message C.numbers)) : Tells f (Loop.init : Loop.State L C) :=
  ⟨rfl, fun _ h => absurd h List.not_mem_nil, fun _ h => absurd h List.not_mem_nil⟩

theorem Tells.mono {g : Nat → Option (Message C.numbers)} {q : Loop.State L C} (h : Tells f q)
    (hg : ∀ o m, f o = some m → g o = some m) : Tells g q :=
  ⟨h.length, fun d hd => hg _ _ (h.delivered d hd), fun p hp m hm => hg _ _ (h.queued p hp m hm)⟩

/-- Tasks of one message are enqueued. -/
theorem Tells.withBroker {q : Loop.State L C} (h : Tells f q) {b : Broker L}
    {tasks : List BrokerTask} (hb : b.ddsTaskQueue = q.broker.ddsTaskQueue ++ tasks) {o : Nat}
    (htasks : ∀ task ∈ tasks, ∀ m, decode C.json task.data = .ok m → f o = some m) :
    Tells f (q.withBroker b o) := by
  have hcount : b.ddsTaskQueue.length - q.broker.ddsTaskQueue.length = tasks.length := by
    rw [hb, List.length_append]
    omega
  refine ⟨?_, h.delivered, ?_⟩
  · dsimp only [State.withBroker]
    rw [hcount, hb, List.length_append, List.length_append, List.length_replicate, h.length]
  · dsimp only [State.withBroker]
    rw [hcount, hb, List.zip_append h.length]
    refine List.forall_mem_append.mpr ⟨h.queued, ?_⟩
    rintro ⟨o', task⟩ hp m hm
    obtain ⟨ho, htask⟩ := List.of_mem_zip hp
    rw [List.eq_of_mem_replicate ho]
    exact htasks task htask m hm

theorem Tells.eraseTask {q : Loop.State L C} (h : Tells f q) (i : Nat) : Tells f { q with
    broker := { q.broker with ddsTaskQueue := q.broker.ddsTaskQueue.eraseIdx i }
    origins := q.origins.eraseIdx i } := by
  refine ⟨by simp [List.length_eraseIdx, h.length], h.delivered, ?_⟩
  show ∀ p ∈ (q.origins.eraseIdx i).zip (q.broker.ddsTaskQueue.eraseIdx i), _
  rw [Lists.zip_eraseIdx]
  exact fun p hp => h.queued p (List.mem_of_mem_eraseIdx hp)

theorem Tells.deliver {q : Loop.State L C} (h : Tells f q) {ds : List (Delivery C.numbers)}
    (hds : ∀ d ∈ ds, f d.origin = some d.message) :
    Tells f { q with delivered := q.delivered ++ ds } :=
  ⟨h.length, List.forall_mem_append.mpr ⟨h.delivered, hds⟩, h.queued⟩

/-- What the listener enqueues is the sample as JSON. -/
theorem ddsTasks_onDataAvailable (C : Codec L) (topicName : String) (globalQos : Int)
    (message : Message C.numbers) (b : Frame L) :
    Ends (onDataAvailable C topicName globalQos message) b
      (fun _ b' => ∃ tasks, b'.broker.ddsTaskQueue = b.broker.ddsTaskQueue ++ tasks ∧
        ∀ task ∈ tasks, encode C.json message = .ok task.data)
      fun _ b' => ∃ tasks, b'.broker.ddsTaskQueue = b.broker.ddsTaskQueue ++ tasks ∧
        ∀ task ∈ tasks, encode C.json message = .ok task.data := by
  rw [ends_onDataAvailable]
  split
  · exact ⟨[], (List.append_nil _).symm, fun _ h => absurd h List.not_mem_nil⟩
  · rename_i json hjson
    split
    · refine ⟨[_], Broker.ddsTaskQueue_enqueueDds _ _, fun task htask => ?_⟩
      rw [List.mem_singleton.mp htask]
      exact hjson
    · refine ⟨[_], ddsTaskQueue_forwardSample _ _ _ _, fun task htask => ?_⟩
      rw [List.mem_singleton.mp htask]
      exact hjson

/-- The messages that fit are read from JSON as they were. -/
theorem decode_of_encode (hJ : Transmits C.numbers C.json) {m : Message C.numbers} (hm : Fits m)
    {text : String} (htext : encode C.json m = .ok text) : decode C.json text = .ok m := by
  obtain ⟨json, tree, hencode, hdecode, -⟩ := message_survives hJ hm
  obtain rfl := Except.ok.inj (hencode.symm.trans htext)
  exact hdecode

theorem Tells.dataAvailable (hJ : Transmits C.numbers C.json) {c : Config}
    {q q' : Loop.State L C} (h : Tells f q) (hfits : ∀ o m, f o = some m → Fits m) {i : Nat}
    (hs : dataAvailable c q i = some q') : Tells f q' := by
  obtain ⟨d, hd, rfl⟩ := Option.map_eq_some_iff.mp hs
  have hf := h.delivered d (List.mem_of_getElem? hd)
  have htaken : Tells f { q with delivered := q.delivered.eraseIdx i } :=
    ⟨h.length, fun d' hd' => h.delivered d' (List.mem_of_mem_eraseIdx hd'), h.queued⟩
  have hmove : ∀ {b : Broker L}, (∃ tasks, b.ddsTaskQueue = q.broker.ddsTaskQueue ++ tasks ∧
      ∀ task ∈ tasks, encode C.json d.message = .ok task.data) →
        Tells f ({ q with delivered := q.delivered.eraseIdx i }.withBroker b d.origin) := by
    rintro b ⟨tasks, hb, htasks⟩
    refine htaken.withBroker hb fun task htask m hm => ?_
    have hsame := decode_of_encode hJ (hfits _ _ hf) (htasks task htask)
    rw [hf, Except.ok.inj (hsame.symm.trans hm)]
  have hends := ddsTasks_onDataAvailable C c.sendTopicName c.globalQos d.message ⟨q.broker, ""⟩
  unfold Ends at hends
  dsimp only
  split
  · rename_i e b hrun
    rw [hrun] at hends
    have htold := hmove hends
    exact ⟨htold.length, htold.delivered, htold.queued⟩
  · rename_i b hrun
    rw [hrun] at hends
    have htold := hmove hends
    unfold State.countMessage
    split <;> exact ⟨htold.length, htold.delivered, htold.queued⟩

theorem Tells.publishStep {c : Config} {q q' : Loop.State L C} (h : Tells f q) {i : Nat}
    (hs : publishStep c q i = some q') : Tells f q' := by
  unfold Loop.publishStep at hs
  split at hs
  · rename_i task o htask ho
    have herased := h.eraseTask i
    have hqueued : ∀ m, decode C.json task.data = .ok m → f o = some m := by
      refine h.queued (o, task) (List.mem_of_getElem? (i := i) ?_)
      rw [List.getElem?_zip_eq_some]
      exact ⟨ho, htask⟩
    dsimp only at hs
    split at hs
    · obtain rfl := Option.some.inj hs
      exact ⟨herased.length, herased.delivered, herased.queued⟩
    · rename_i m hm
      obtain rfl := Option.some.inj hs
      have hds : ∀ d ∈ [(⟨o, m⟩ : Delivery C.numbers)], f d.origin = some d.message :=
        List.forall_mem_singleton.mpr (hqueued m hm)
      have hdelivered := herased.deliver hds
      rw [Loop.deliver]
      split
      · exact ⟨hdelivered.length, hdelivered.delivered, hdelivered.queued⟩
      · exact ⟨herased.length, herased.delivered, herased.queued⟩
  · cases hs

theorem entered_publishStep {c : Config} {q q' : Loop.State L C} {i : Nat}
    (hs : publishStep c q i = some q') : q'.entered = q.entered := by
  unfold Loop.publishStep at hs
  split at hs
  · dsimp only at hs
    split at hs
    · obtain rfl := Option.some.inj hs
      rfl
    · obtain rfl := Option.some.inj hs
      rw [Loop.deliver]
      split <;> rfl
  · cases hs

/-- What is written is what the text in the queue tells. -/
theorem Tells.published {q : Loop.State L C} (h : Tells f q) (e : Loop.Event C.numbers) :
    ∀ d ∈ published q e, f d.origin = some d.message := by
  intro d hd
  unfold Brokers.published at hd
  split at hd
  · rename_i i
    split at hd
    · rename_i task o htask ho
      split at hd
      · exact absurd hd List.not_mem_nil
      · rename_i m hm
        obtain rfl := List.mem_singleton.mp hd
        refine h.queued (o, task) (List.mem_of_getElem? (i := i) ?_) m hm
        rw [List.getElem?_zip_eq_some]
        exact ⟨ho, htask⟩
    · exact absurd hd List.not_mem_nil
  · exact absurd hd List.not_mem_nil

theorem entered_step {c : Config} {q q' : Loop.State L C} {e : Loop.Event C.numbers}
    (he : ∀ message, e ≠ .sample message) (hclient : ∀ e', e ≠ .broker e')
    (hs : Loop.step c q e = some q') : q'.entered = q.entered := by
  obtain ⟨-, hs⟩ := loop_cases hs
  cases e with
  | broker e' => exact absurd rfl (hclient e')
  | sample message => exact absurd rfl (he message)
  | dataAvailable i => exact (dataAvailable_places hs).2
  | publish i => exact entered_publishStep hs
  | matched =>
    dsimp only at hs
    subst hs
    rfl
  | exit =>
    dsimp only at hs
    subst hs
    rfl

/-- An event of a broker with which no message enters keeps what it has. -/
theorem Tells.step (hJ : Transmits C.numbers C.json) {c : Config} {q q' : Loop.State L C}
    (h : Tells f q) (hfits : ∀ o m, f o = some m → Fits m) {e : Loop.Event C.numbers}
    (he : ∀ message, e ≠ .sample message) (hclient : ∀ e', e ≠ .broker e')
    (hs : Loop.step c q e = some q') : Tells f q' := by
  obtain ⟨-, hs⟩ := loop_cases hs
  cases e with
  | broker e' => exact absurd rfl (hclient e')
  | sample message => exact absurd rfl (he message)
  | dataAvailable i => exact h.dataAvailable hJ hfits hs
  | publish i => exact h.publishStep hs
  | matched =>
    dsimp only at hs
    subst hs
    exact ⟨h.length, h.delivered, h.queued⟩
  | exit =>
    dsimp only at hs
    subst hs
    exact ⟨h.length, h.delivered, h.queued⟩

/-! ## In all brokers -/

/-- The messages so far have contents that fit, and all brokers tell the same. -/
structure Agree (f : Nat → Option (Message C.numbers)) (s : State B L C) : Prop where
  tells : ∀ b, Tells f (s.brokers b)
  entered : ∀ o m, f o = some m → o < s.entries.length
  fits : ∀ o m, f o = some m → Fits m

/-- The messages that enter fit into the fields of a sample. -/
def Fitting (s : State B L C) : Event B C.numbers → Prop
  | .vehicle _ message => Fits message
  | .broker b (.broker e) => ∀ b' tasks, Run.step (s.brokers b).broker e = some b' →
      b'.ddsTaskQueue = (s.brokers b).broker.ddsTaskQueue ++ tasks →
        ∀ task ∈ tasks, ∀ m : Message C.numbers, decode C.json task.data = .ok m → Fits m
  | _ => True

theorem tells_deliver {cfg : B → Config} {topicName : String} {ds : List (Delivery C.numbers)}
    {brokers : B → Loop.State L C} {b : B} (h : Tells f (brokers b))
    (hds : ∀ d ∈ ds, f d.origin = some d.message) :
    Tells f (deliver cfg topicName ds brokers b) := by
  rw [Brokers.deliver]
  split
  · exact h.deliver hds
  · exact h

section Steps

variable {cfg : B → Config} {s s' : State B L C}

/-- A message enters, with these contents. -/
theorem Agree.extend (h : Agree f s) (content : Option (Message C.numbers)) (s' : State B L C)
    {e : Entry B} (hentries : s'.entries = s.entries ++ [e])
    (hfits : ∀ m, content = some m → Fits m) :
    (∀ o m, f o = some m → Function.update f s.entries.length content o = some m) ∧
      ((∀ b, Tells (Function.update f s.entries.length content) (s'.brokers b)) →
        Agree (Function.update f s.entries.length content) s') := by
  refine ⟨fun o m ho => ?_, fun htells => ⟨htells, fun o m ho => ?_, fun o m ho => ?_⟩⟩
  · rw [Function.update_of_ne (h.entered o m ho).ne]
    exact ho
  · rw [hentries, List.length_append, List.length_singleton]
    by_cases hn : o = s.entries.length
    · omega
    · rw [Function.update_of_ne hn] at ho
      have hlt := h.entered o m ho
      omega
  · by_cases hn : o = s.entries.length
    · subst hn
      rw [Function.update_self] at ho
      exact hfits m ho
    · rw [Function.update_of_ne hn] at ho
      exact h.fits o m ho

theorem agree_init : Agree (fun _ => none) (init : State B L C) :=
  ⟨fun _ => tells_init _, fun _ _ h => (by cases h), fun _ _ h => (by cases h)⟩

variable [DecidableEq B] {b : B}

/-- A client's packet, whose message enters. -/
theorem Agree.receive (h : Agree f s) {e : Run.Event} (hc : Fitting s (.broker b (.broker e)))
    (hs : step cfg s (.broker b (.broker e)) = some s') :
    ∃ g, Agree g s' ∧ ∀ o m, f o = some m → g o = some m := by
  obtain ⟨-, q, hq, rfl⟩ := step_broker hs
  obtain ⟨-, hnot, b', hb', rfl⟩ := loop_cases hq
  obtain ⟨tasks, hlen, htasks⟩ := ddsTaskQueue_step hnot hb'
  let content := tasks.head?.bind fun task =>
    (decode C.json task.data : Except String (Message C.numbers)).toOption
  have hcontent : ∀ task ∈ tasks, ∀ m, decode C.json task.data = .ok m → content = some m := by
    intro task htask m hm
    obtain ⟨task', rfl⟩ : ∃ task', tasks = [task'] := by
      cases tasks with
      | nil => exact absurd htask List.not_mem_nil
      | cons task' rest =>
        have hrest : rest = [] := List.eq_nil_of_length_eq_zero (by simpa using hlen)
        exact ⟨task', by rw [hrest]⟩
    obtain rfl := List.mem_singleton.mp htask
    simp only [content, List.head?_cons, Option.bind_some, hm]
    rfl
  have hfits : ∀ m, content = some m → Fits m := by
    intro m hm
    obtain ⟨task, htask, hdecode⟩ := Option.bind_eq_some_iff.mp hm
    refine hc b' tasks hb' htasks task (List.mem_of_head? htask) m ?_
    cases hresult : (decode C.json task.data : Except String (Message C.numbers)) with
    | error what =>
      rw [hresult] at hdecode
      cases hdecode
    | ok m' =>
      rw [hresult] at hdecode
      rw [Option.some.inj hdecode]
  have hentries : s.entries ++ List.replicate (s.entries.length + 1 - s.entries.length)
      (.client b) = s.entries ++ [.client b] := by
    rw [Nat.add_sub_cancel_left]
    rfl
  obtain ⟨hmono, hagree⟩ := h.extend content ⟨_, _⟩ hentries hfits
  refine ⟨_, hagree fun c => ?_, hmono⟩
  have hold := (h.tells c).mono hmono
  by_cases hcb : c = b
  · subst hcb
    dsimp only
    rw [Function.update_self]
    have hearlier : Tells (Function.update f s.entries.length content)
        { s.brokers c with entered := s.entries.length } :=
      ⟨hold.length, hold.delivered, hold.queued⟩
    have htold := hearlier.withBroker htasks (o := s.entries.length) fun task htask m hm => by
      rw [Function.update_self]
      exact hcontent task htask m hm
    exact ⟨htold.length, htold.delivered, htold.queued⟩
  · dsimp only
    rw [Function.update_of_ne hcb]
    exact tells_deliver hold fun d hd => absurd hd List.not_mem_nil

/-- A broker takes samples or writes them. -/
theorem Agree.write (hJ : Transmits C.numbers C.json) (h : Agree f s) {q : Loop.State L C}
    {e : Loop.Event C.numbers}
    (hq : Loop.step (cfg b) { s.brokers b with entered := s.entries.length } e = some q)
    (he : ∀ message, e ≠ .sample message) (hclient : ∀ e', e ≠ .broker e') :
    Agree f ⟨Function.update
        (deliver cfg (cfg b).sendTopicName (published (s.brokers b) e) s.brokers) b q,
      s.entries ++ List.replicate (q.entered - s.entries.length) (.client b)⟩ := by
  have hentered : q.entered = s.entries.length := entered_step he hclient hq
  have hold : Tells f { s.brokers b with entered := s.entries.length } :=
    ⟨(h.tells b).length, (h.tells b).delivered, (h.tells b).queued⟩
  rw [hentered, Nat.sub_self, List.replicate_zero, List.append_nil]
  refine ⟨fun c => ?_, h.entered, h.fits⟩
  by_cases hcb : c = b
  · subst hcb
    dsimp only
    rw [Function.update_self]
    exact hold.step hJ h.fits he hclient hq
  · dsimp only
    rw [Function.update_of_ne hcb]
    exact tells_deliver (h.tells c) ((h.tells b).published e)

/-- **Step lemma.** The contents of what has entered stay. -/
theorem step_agree (hJ : Transmits C.numbers C.json) (h : Agree f s) {e : Event B C.numbers}
    (hc : Fitting s e) (hs : step cfg s e = some s') :
    ∃ g, Agree g s' ∧ ∀ o m, f o = some m → g o = some m := by
  cases e with
  | vehicle topicName message =>
    obtain rfl := Option.some.inj hs
    obtain ⟨hmono, hagree⟩ := h.extend (some message) ⟨deliver cfg topicName
      [⟨s.entries.length, message⟩] s.brokers, s.entries ++ [.vehicle topicName]⟩
      rfl fun m hm => Option.some.inj hm ▸ hc
    refine ⟨_, hagree fun b => ?_, hmono⟩
    refine tells_deliver ((h.tells b).mono hmono) fun d hd => ?_
    rw [List.mem_singleton.mp hd]
    exact Function.update_self ..
  | broker b e =>
    cases e with
    | sample => cases hs
    | broker e => exact h.receive hc hs
    | _ =>
      obtain ⟨he, q, hq, rfl⟩ := step_broker hs
      exact ⟨f, Agree.write hJ h hq he (by simp), fun _ _ hm => hm⟩

/-- **Run lemma.** -/
theorem run_agree (hJ : Transmits C.numbers C.json) {es : List (Event B C.numbers)}
    (h : Agree f s) (hc : Machine.Along (step cfg) Fitting s es)
    (hr : Machine.run (step cfg) s es = some s') :
    ∃ g, Agree g s' ∧ ∀ o m, f o = some m → g o = some m :=
  Machine.run_invariant (I := fun s' => ∃ g, Agree g s' ∧ ∀ o m, f o = some m → g o = some m)
    (fun _ _ _ ⟨_, hg, hmono⟩ hc hs => by
      obtain ⟨g', hg', hmono'⟩ := step_agree hJ hg hc hs
      exact ⟨g', hg', fun o m ho => hmono' o m (hmono o m ho)⟩)
    ⟨f, h, fun _ _ ho => ho⟩ hc hr

/-- **Agreement.** Whatever topics the brokers have and in whatever order they step: if what
enters fits into the fields of a sample, then a message is the same sample at every reader and at
every time. -/
theorem contents_agree (hJ : Transmits C.numbers C.json) {es es' : List (Event B C.numbers)}
    (hc : Machine.Along (step cfg) Fitting init (es ++ es'))
    (hr : Machine.run (step cfg) init es = some s)
    (hr' : Machine.run (step cfg) s es' = some s') {b b' : B} {d d' : Delivery C.numbers}
    (hd : d ∈ (s.brokers b).delivered) (hd' : d' ∈ (s'.brokers b').delivered)
    (horigin : d.origin = d'.origin) : d.message = d'.message := by
  obtain ⟨hc, hc'⟩ := (Machine.along_append _ es es').mp hc
  obtain ⟨f, hf, -⟩ := run_agree hJ agree_init hc hr
  obtain ⟨g, hg, hmono⟩ := run_agree hJ hf (hc' s hr) hr'
  have hearly := hmono _ _ ((hf.tells b).delivered d hd)
  rw [horigin, (hg.tells b').delivered d' hd'] at hearly
  exact (Option.some.inj hearly).symm

end Steps

/-- The libraries of the two brokers in a row, with numbers of any size. -/
def decimalCodec : Codec Wire.libraries := { Wire.codec with numbers := decimals }

theorem survives_awkward (c : Config) : Survives decimalCodec c awkward := by
  obtain ⟨json, tree, hencode, hdecode, -⟩ := message_survives transmits_decimals fits_awkward
  exact ⟨json, _, hencode, hdecode, rfl⟩

/-- The bounds of the fields arrive at the second broker as the vehicle has sent them. -/
theorem contents_agree_inLine :
    ∃ s s' : State Bool Wire.libraries decimalCodec,
      Machine.run (step inLine) init [.vehicle "GPS" awkward] = some s ∧
      Machine.run (step inLine) s (hop true) = some s' ∧
      ∃ d ∈ (s.brokers true).delivered, ∃ d' ∈ (s'.brokers false).delivered,
        d.origin = d'.origin ∧ d.message = awkward ∧ d.message = d'.message := by
  let s : State Bool Wire.libraries decimalCodec :=
    ⟨deliver inLine "GPS" [⟨0, awkward⟩] init.brokers, [.vehicle "GPS"]⟩
  have hinit : ∀ b, Ready awkward 0 ((init : State Bool Wire.libraries decimalCodec).brokers b) :=
    fun _ => ready_init (C := decimalCodec) awkward
  have hready : Ready awkward 0 (s.brokers true) := (hinit true).deliver inLine "GPS"
  obtain ⟨s', q, hrun, rfl, -, -, -⟩ :=
    hready.hop inLine (survives_awkward (inLine true)) (List.cons_ne_nil _ _)
  have hr : Machine.run (step inLine) init [.vehicle "GPS" awkward] = some s := rfl
  have hc : Machine.Along (step inLine) Fitting (init : State Bool Wire.libraries decimalCodec)
      ([.vehicle "GPS" awkward] ++ hop true) :=
    ⟨fits_awkward, fun _ _ => ⟨trivial, fun _ _ => ⟨trivial, fun _ _ => ⟨trivial, fun _ _ =>
      trivial⟩⟩⟩⟩
  let d : Delivery decimalCodec.numbers := ⟨0, awkward⟩
  have hd : d ∈ (s.brokers true).delivered := List.mem_singleton_self d
  have hd' : d ∈ (Function.update (deliver inLine "Output" [d] s.brokers) true q false).delivered :=
    List.mem_singleton_self d
  exact ⟨s, _, hr, hrun, d, hd, d, hd', rfl, rfl,
    contents_agree transmits_decimals hc hr hrun hd hd' rfl⟩

end BddsBroker.Dds.Brokers
