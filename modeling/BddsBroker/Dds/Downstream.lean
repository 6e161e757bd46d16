import BddsBroker.Dds.Cycles

/-! That no message is lost between the brokers. As long as no process ends, what one broker has
written is at every broker behind it: with its reader, in its queue or among its own writes. -/

namespace BddsBroker.Dds.Brokers

open Loop Relay Program

variable {B : Type} {L : Libraries} {C : Codec L} {cfg : B → Config} {s s' : State B L C}

/-! ## In one broker -/

section

variable {c : Config} {q q' : Loop.State L C}

theorem places_dataAvailable {i : Nat} (hs : dataAvailable c q i = some q')
    (hrunning : q'.ended = false) (o : Nat) : q.places o ≤ q'.places o := by
  obtain ⟨d, hd, rfl⟩ := Option.map_eq_some_iff.mp hs
  have htake := places_eraseDelivered hd o
  have hends := ddsTaskQueue_onDataAvailable C c.sendTopicName c.globalQos d.message
    ⟨q.broker, ""⟩
  have hput : ∀ {b : Broker L}, (∃ task, b.ddsTaskQueue = q.broker.ddsTaskQueue ++ [task]) →
      q.places o ≤
        ({ q with delivered := q.delivered.eraseIdx i }.withBroker b d.origin).places o := by
    rintro b ⟨task, hb⟩
    have hcount : b.ddsTaskQueue.length - q.broker.ddsTaskQueue.length = 1 := by
      rw [hb, List.length_append, List.length_singleton, Nat.add_sub_cancel_left]
    simp only [State.places, State.withBroker, hcount, List.replicate_one, List.count_append,
      List.count_singleton, beq_iff_eq, eq_comm (a := d.origin)] at htake ⊢
    omega
  unfold Ends at hends
  dsimp only at hrunning ⊢
  split at hrunning
  · cases hrunning
  · rename_i b hrun
    rw [hrun] at hends
    unfold State.countMessage
    split <;> exact hput hends

theorem places_publishStep {i : Nat} (hs : publishStep c q i = some q')
    (hrunning : q'.ended = false) (o : Nat) : q.places o ≤ q'.places o := by
  unfold publishStep at hs
  split at hs
  · rename_i task origin htask horigin
    have hcount := Lists.count_eraseIdx horigin o
    dsimp only at hs
    split at hs
    · obtain rfl := Option.some.inj hs
      cases hrunning
    · obtain rfl := Option.some.inj hs
      rw [Loop.deliver]
      split <;>
        simp only [State.places, List.map_append, List.count_append, List.count_singleton,
          beq_iff_eq] <;>
        omega
  · cases hs

/-- A broker that goes on keeps its messages. -/
theorem places_step {e : Loop.Event C.numbers} (hs : Loop.step c q e = some q')
    (hrunning : q'.ended = false) (o : Nat) : q.places o ≤ q'.places o := by
  obtain ⟨-, hs⟩ := loop_cases hs
  cases e with
  | broker e =>
    obtain ⟨-, b, -, rfl⟩ := hs
    simp only [State.places, State.withBroker, List.count_append]
    omega
  | sample message =>
    dsimp only at hs
    subst hs
    simp only [State.places, List.map_append, List.count_append]
    omega
  | dataAvailable i => exact places_dataAvailable hs hrunning o
  | matched =>
    dsimp only at hs
    subst hs
    exact Nat.le_refl _
  | publish i => exact places_publishStep hs hrunning o
  | exit =>
    dsimp only at hs
    subst hs
    cases hrunning

end

/-! ## In all brokers -/

/-- No process has ended. -/
def Running (s : State B L C) : Prop := ∀ b, (s.brokers b).ended = false

/-- What was written to a topic is at all brokers that read it. -/
structure Kept (cfg : B → Config) (s : State B L C) : Prop where
  passed : ∀ p b o, Feeds cfg p b → o ∈ (s.brokers p).written → 0 < (s.brokers b).places o
  vehicles : ∀ o topicName b, s.entries[o]? = some (.vehicle topicName) →
    (cfg b).recvTopicName = topicName → 0 < (s.brokers b).places o

theorem kept_init : Kept cfg (init : State B L C) :=
  ⟨fun _ _ _ _ h => absurd h List.not_mem_nil, fun _ _ _ h => by cases h⟩

theorem ended_deliver (cfg : B → Config) (topicName : String) (ds : List (Delivery C.numbers))
    (brokers : B → Loop.State L C) (b : B) :
    (deliver cfg topicName ds brokers b).ended = (brokers b).ended := by
  rw [deliver]
  split <;> rfl

/-- A vehicle's sample is at all readers of its topic. -/
theorem Kept.vehicle (h : Kept cfg s) (topicName : String) (message : Message C.numbers) :
    Kept cfg ⟨deliver cfg topicName [⟨s.entries.length, message⟩] s.brokers,
      s.entries ++ [.vehicle topicName]⟩ := by
  have hplaces : ∀ c o, (s.brokers c).places o ≤
      (deliver cfg topicName [⟨s.entries.length, message⟩] s.brokers c).places o := by
    intro c o
    rw [places_deliver]
    exact Nat.le_add_right ..
  refine ⟨fun p c o hp ho => ?_, fun o name c ho hc => ?_⟩
  · dsimp only at ho
    rw [written_deliver] at ho
    exact (h.passed p c o hp ho).trans_le (hplaces c o)
  · rw [List.getElem?_append] at ho
    split at ho
    · exact (h.vehicles o name c ho hc).trans_le (hplaces c o)
    · obtain ⟨hlt, hname⟩ := List.getElem?_eq_some_iff.mp ho
      rw [List.length_singleton] at hlt
      obtain rfl : o = s.entries.length := by omega
      have hsame : topicName = name := by simpa using hname
      dsimp only
      rw [places_deliver, if_pos (hc.trans hsame.symm), List.map_singleton,
        List.count_singleton_self]
      exact Nat.succ_pos _

/-- Nothing is queued, and no sample waits at a reader. -/
def AtRest (s : State B L C) : Prop :=
  ∀ b, (s.brokers b).origins = [] ∧ (s.brokers b).delivered = []

theorem AtRest.written (h : AtRest s) {b : B} {o : Nat} (hb : 0 < (s.brokers b).places o) :
    o ∈ (s.brokers b).written := by
  obtain ⟨horigins, hdelivered⟩ := h b
  rw [Loop.State.places, horigins, hdelivered] at hb
  exact List.count_pos_iff.mp (by simpa using hb)

theorem Kept.walk (h : Kept cfg s) (hrest : AtRest s) {a b : B} {o : Nat}
    (hpath : Relation.ReflTransGen (Feeds cfg) a b) (ha : o ∈ (s.brokers a).written) :
    o ∈ (s.brokers b).written := by
  induction hpath with
  | refl => exact ha
  | tail _ hfeeds ih => exact hrest.written (h.passed _ _ _ hfeeds ih)

variable [DecidableEq B] {b : B} {q : Loop.State L C} {e : Event B C.numbers}

theorem running_step (hs : step cfg s e = some s') (h : Running s') : Running s := by
  intro c
  have hc := h c
  cases e with
  | vehicle topicName message =>
    obtain rfl := Option.some.inj hs
    rwa [ended_deliver] at hc
  | broker b e =>
    obtain ⟨-, q, hq, rfl⟩ := step_broker hs
    by_cases hcb : c = b
    · subst hcb
      exact (loop_cases hq).1
    · dsimp only at hc
      rwa [Function.update_of_ne hcb, ended_deliver] at hc

/-- A broker goes on, and gives what it writes to those behind it. -/
theorem Kept.broker (h : Kept cfg s) {ds : List (Delivery C.numbers)} {entries : List (Entry B)}
    (hplaces : ∀ o, (s.brokers b).places o ≤ q.places o)
    (hwritten : q.written = (s.brokers b).written ++ ds.map Delivery.origin)
    (hentries : ∀ (o : Nat) topicName, entries[o]? = some (Entry.vehicle topicName) →
      s.entries[o]? = some (Entry.vehicle topicName)) :
    Kept cfg ⟨Function.update (deliver cfg (cfg b).sendTopicName ds s.brokers) b q, entries⟩ := by
  have hall : ∀ c o, (s.brokers c).places o ≤
      (Function.update (deliver cfg (cfg b).sendTopicName ds s.brokers) b q c).places o := by
    intro c o
    by_cases hcb : c = b
    · subst hcb
      rw [Function.update_self]
      exact hplaces o
    · rw [Function.update_of_ne hcb, places_deliver]
      exact Nat.le_add_right ..
  refine ⟨fun p c o hp ho => ?_, fun o name c ho hc =>
    (h.vehicles o name c (hentries o name ho) hc).trans_le (hall c o)⟩
  dsimp only at ho ⊢
  by_cases hpb : p = b
  · subst hpb
    rw [Function.update_self] at ho
    by_cases hcb : c = p
    · subst hcb
      rw [Function.update_self]
      exact (List.count_pos_iff.mpr ho).trans_le (count_written_le ..)
    · rw [hwritten, List.mem_append] at ho
      obtain hold | hnew := ho
      · exact (h.passed p c o hp hold).trans_le (hall c o)
      · rw [Function.update_of_ne hcb, places_deliver, if_pos hp.symm]
        exact Nat.add_pos_right _ (List.count_pos_iff.mpr hnew)
  · rw [Function.update_of_ne hpb, written_deliver] at ho
    exact (h.passed p c o hp ho).trans_le (hall c o)

/-- **Step lemma.** While all go on, nothing that was written is lost. -/
theorem step_kept (hacyclic : Acyclic cfg) (h : Kept cfg s) (hs : step cfg s e = some s')
    (hrunning : Running s') : Kept cfg s' := by
  cases e with
  | vehicle topicName message =>
    obtain rfl := Option.some.inj hs
    exact h.vehicle topicName message
  | broker b e =>
    obtain ⟨he, q, hq, rfl⟩ := step_broker hs
    have hown := hrunning b
    dsimp only at hown
    rw [Function.update_self] at hown
    have hwritten : q.written =
        (s.brokers b).written ++ (published (s.brokers b) e).map Delivery.origin := by
      rw [← published_entered (s.brokers b) s.entries.length e]
      obtain ⟨-, -, hwritten⟩ | ⟨-, -, hwritten, hnone⟩ :=
        loop_step (hacyclic.ne b) he hq
      · exact hwritten
      · rw [hwritten, hnone]
        exact (List.append_nil _).symm
    refine h.broker (fun o => places_step hq hown o) hwritten fun o topicName ho => ?_
    rw [List.getElem?_append] at ho
    split at ho
    · exact ho
    · exact absurd (List.eq_of_mem_replicate (List.mem_of_getElem? ho)) (by simp)

theorem reachable_kept (hacyclic : Acyclic cfg) (hr : Machine.Reachable (step cfg) init s)
    (hrunning : Running s) : Kept cfg s :=
  Machine.reachable_invariant (I := fun s => Running s → Kept cfg s)
    (fun _ _ _ h hs hrunning => step_kept hacyclic (h (running_step hs hrunning)) hs hrunning)
    (fun _ => kept_init) hr hrunning

/-- **Exactly once.** When no two brokers write to one topic, none is behind itself and no process
has ended, then at rest a vehicle's sample, and what any broker has written, was written once by
every broker that a path of topics leads to, and by no other. -/
theorem exactly_once_at_rest (hdistinct : Function.Injective fun b => (cfg b).sendTopicName)
    (hacyclic : Acyclic cfg) (hr : Machine.Reachable (step cfg) init s) (hrunning : Running s)
    (hrest : AtRest s) {o : Nat}
    (ho : (∃ topicName, s.entries[o]? = some (.vehicle topicName)) ∨
      ∃ b, o ∈ (s.brokers b).written) (b : B) :
    (Reached (Feeds cfg) (Enters cfg s o) b → (s.brokers b).written.count o = 1) ∧
      (¬ Reached (Feeds cfg) (Enters cfg s o) b → o ∉ (s.brokers b).written) := by
  have hways := reachable_onTheirWays hdistinct hacyclic hr o
  have hkept := reachable_kept hacyclic hr hrunning
  have hreached : ∀ b, o ∈ (s.brokers b).written → Reached (Feeds cfg) (Enters cfg s o) b :=
    fun b hb => hways.reached b ((List.count_pos_iff.mpr hb).trans_le (count_written_le ..))
  have hentry : ∀ a, Enters cfg s o a → o ∈ (s.brokers a).written := by
    rintro a ⟨e, he, hat⟩
    cases e with
    | vehicle topicName => exact hrest.written (hkept.vehicles o topicName a he hat)
    | client a' =>
      obtain rfl : a = a' := hat
      obtain ⟨topicName, htopic⟩ | ⟨b₁, hb₁⟩ := ho
      · cases he.symm.trans htopic
      -- Whoever has written it is behind this broker, which has written it before.
      obtain ⟨a', ⟨e', he', hat'⟩, hpath⟩ := hreached b₁ hb₁
      obtain rfl := Option.some.inj (he.symm.trans he')
      obtain rfl : a' = a := hat'
      obtain rfl | htrans := Relation.reflTransGen_iff_eq_or_transGen.mp hpath
      · exact hb₁
      · have hpos := (List.count_pos_iff.mpr hb₁).trans_le (count_written_le ..)
        exact List.count_pos_iff.mp (hways.sent_of_path (fun _ => count_written_le ..) htrans
          ⟨a', ⟨_, he, rfl⟩, .refl⟩ hpos)
  refine ⟨fun ⟨a, ha, hpath⟩ => ?_, fun hnot hb => hnot (hreached b hb)⟩
  have hpos := List.count_pos_iff.mpr (hkept.walk hrest hpath (hentry a ha))
  have hle := (count_written_le ..).trans (hways.once b)
  exact Nat.le_antisymm hle hpos

/-- After both brokers have had it, a vehicle's sample is at rest. -/
theorem exactly_once_at_rest_inLine : ∃ s : State Bool Wire.libraries Wire.codec,
    Machine.Reachable (step inLine) init s ∧ Running s ∧ AtRest s ∧
      (s.brokers true).written.count 0 = 1 ∧ (s.brokers false).written.count 0 = 1 := by
  obtain ⟨s, hr, hentries, hready⟩ := passes_inLine
  have hrunning : Running s := fun b => (hready b).1.running
  have hrest : AtRest s := fun b => ⟨(hready b).1.origins, (hready b).2⟩
  have hvehicle : s.entries[0]? = some (.vehicle "GPS") := by
    rw [hentries]
    rfl
  have hentry : Enters inLine s 0 true := ⟨_, hvehicle, rfl⟩
  have hdistinct : Function.Injective fun b => (inLine b).sendTopicName := by decide
  have hall := exactly_once_at_rest hdistinct acyclic_inLine hr hrunning hrest
    (.inl ⟨_, hvehicle⟩)
  exact ⟨s, hr, hrunning, hrest, (hall true).1 ⟨true, hentry, .refl⟩,
    (hall false).1 ⟨true, hentry, .single rfl⟩⟩

end BddsBroker.Dds.Brokers
