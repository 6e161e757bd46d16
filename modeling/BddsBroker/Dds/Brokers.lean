import BddsBroker.Dds.Loop
import BddsBroker.Lib.Relay

/-! Any number of brokers in one DDS domain, each with the topics of its command line. It is
assumed of DDS that a sample which is written is delivered once to every reader of its topic.
Those of vehicles come from outside. A message keeps its number on its way from broker to
broker. -/

namespace BddsBroker.Dds.Brokers

open Loop Relay

/-- Where a message enters: at a broker from a client, or on a topic from a vehicle. -/
inductive Entry (B : Type)
  | client (b : B)
  | vehicle (topicName : String)
  deriving DecidableEq

structure State (B : Type) (L : Libraries) (C : Codec L) where
  brokers : B → Loop.State L C
  /-- Where the messages have entered, in the order of their numbers. -/
  entries : List (Entry B)

inductive Event (B : Type) (N : Numbers)
  | broker (b : B) (e : Loop.Event N)
  | vehicle (topicName : String) (message : Message N)

variable {B : Type} {L : Libraries} {C : Codec L}

def init : State B L C := ⟨fun _ => Loop.init, []⟩

/-- What an event of a broker writes to its topic. -/
def published (s : Loop.State L C) : Loop.Event C.numbers → List (Delivery C.numbers)
  | .publish i =>
      match s.broker.ddsTaskQueue[i]?, s.origins[i]? with
      | some task, some origin =>
          match decode C.json task.data with
          | .error _ => []
          | .ok message => [⟨origin, message⟩]
      | _, _ => []
  | _ => []

/-- DDS gives each of the samples once to every reader of the topic. -/
def deliver (cfg : B → Config) (topicName : String) (ds : List (Delivery C.numbers))
    (brokers : B → Loop.State L C) : B → Loop.State L C := fun b =>
  if (cfg b).recvTopicName = topicName then
    { brokers b with delivered := (brokers b).delivered ++ ds }
  else brokers b

section Steps

variable [DecidableEq B]

/-- An event of one broker. Its reader has its own samples from `Loop.step`. -/
def brokerStep (cfg : B → Config) (s : State B L C) (b : B) (e : Loop.Event C.numbers) :
    Option (State B L C) :=
  (Loop.step (cfg b) { s.brokers b with entered := s.entries.length } e).map fun q =>
    { brokers := Function.update
        (deliver cfg (cfg b).sendTopicName (published (s.brokers b) e) s.brokers) b q
      entries := s.entries ++ List.replicate (q.entered - s.entries.length) (.client b) }

def step (cfg : B → Config) (s : State B L C) : Event B C.numbers → Option (State B L C)
  | .broker _ (.sample _) => none
  | .broker b e => brokerStep cfg s b e
  | .vehicle topicName message =>
      some ⟨deliver cfg topicName [⟨s.entries.length, message⟩] s.brokers,
        s.entries ++ [.vehicle topicName]⟩

end Steps

/-! ## The ways of a message -/

/-- What the one broker writes the other reads. -/
def Feeds (cfg : B → Config) (p b : B) : Prop := (cfg p).sendTopicName = (cfg b).recvTopicName

instance (cfg : B → Config) : DecidableRel (Feeds cfg) := fun p b =>
  inferInstanceAs (Decidable ((cfg p).sendTopicName = (cfg b).recvTopicName))

def Entry.At (cfg : B → Config) : Entry B → B → Prop
  | .client b', b => b = b'
  | .vehicle topicName, b => (cfg b).recvTopicName = topicName

/-- The message with that number has entered at the broker. -/
def Enters (cfg : B → Config) (s : State B L C) (o : Nat) (b : B) : Prop :=
  ∃ e, s.entries[o]? = some e ∧ e.At cfg b

/-- No broker is behind itself. -/
def Acyclic (cfg : B → Config) : Prop := ∀ b, ¬ Relation.TransGen (Feeds cfg) b b

theorem Acyclic.ne {cfg : B → Config} (h : Acyclic cfg) (b : B) :
    (cfg b).recvTopicName ≠ (cfg b).sendTopicName :=
  fun heq => h b (.single heq.symm)

/-- A message does not come back to where it has entered. -/
theorem Acyclic.not_reached {cfg : B → Config} (h : Acyclic cfg) (e : Entry B) (p b : B)
    (hp : Feeds cfg p b) (hb : e.At cfg b) : ¬ Reached (Feeds cfg) (e.At cfg) p := by
  rintro ⟨a, ha, hpath⟩
  have hback : Feeds cfg p a := by
    cases e with
    | client b' =>
      obtain rfl : b = b' := hb
      obtain rfl : a = b := ha
      exact hp
    | vehicle topicName =>
      have hbtopic : (cfg b).recvTopicName = topicName := hb
      have hatopic : (cfg a).recvTopicName = topicName := ha
      exact hp.trans (hbtopic.trans hatopic.symm)
  exact h a (Relation.TransGen.tail' hpath hback)

/-! ## Steps -/

theorem places_deliver (cfg : B → Config) (topicName : String) (ds : List (Delivery C.numbers))
    (brokers : B → Loop.State L C) (b : B) (o : Nat) :
    (deliver cfg topicName ds brokers b).places o = (brokers b).places o +
      if (cfg b).recvTopicName = topicName then (ds.map Delivery.origin).count o else 0 := by
  rw [deliver]
  split
  · simp only [Loop.State.places, List.map_append, List.count_append]
    omega
  · rfl

theorem written_deliver (cfg : B → Config) (topicName : String) (ds : List (Delivery C.numbers))
    (brokers : B → Loop.State L C) (b : B) :
    (deliver cfg topicName ds brokers b).written = (brokers b).written := by
  rw [deliver]
  split <;> rfl

theorem deliver_nil (cfg : B → Config) (topicName : String) (brokers : B → Loop.State L C) :
    deliver cfg topicName [] brokers = brokers := by
  funext b
  rw [deliver]
  split
  · rw [List.append_nil]
  · rfl

theorem published_entered (s : Loop.State L C) (n : Nat) (e : Loop.Event C.numbers) :
    published { s with entered := n } e = published s e := by
  cases e <;> rfl

theorem written_dataAvailable {cfg : Config} {s s' : Loop.State L C} {i : Nat}
    (hs : dataAvailable cfg s i = some s') : s'.written = s.written := by
  obtain ⟨d, -, rfl⟩ := Option.map_eq_some_iff.mp hs
  dsimp only
  split
  · rfl
  · unfold State.countMessage
    split <;> rfl

theorem written_publishStep {cfg : Config} (hne : cfg.recvTopicName ≠ cfg.sendTopicName)
    {s s' : Loop.State L C} {i : Nat} (hs : publishStep cfg s i = some s') :
    s'.written = s.written ++ (published s (.publish i)).map Delivery.origin := by
  unfold publishStep at hs
  split at hs
  · rename_i task o htask ho
    dsimp only at hs
    split at hs
    · rename_i e hdecode
      obtain rfl := Option.some.inj hs
      simp only [published, htask, ho, hdecode, List.map_nil, List.append_nil]
    · rename_i message hdecode
      rw [Loop.deliver, if_neg hne] at hs
      obtain rfl := Option.some.inj hs
      simp only [published, htask, ho, hdecode, List.map_cons, List.map_nil]
  · cases hs

/-- **Inversion.** What the events of one broker are. -/
theorem loop_cases {cfg : Config} {s s' : Loop.State L C} {e : Loop.Event C.numbers}
    (hs : Loop.step cfg s e = some s') : s.ended = false ∧
      match e with
      | .broker e => (∀ topicName json packet, e ≠ .sample topicName json packet) ∧
          ∃ b, Run.step s.broker e = some b ∧
            { s.withBroker b s.entered with entered := s.entered + 1 } = s'
      | .sample message =>
          { s with
            delivered := s.delivered ++ [⟨s.entered, message⟩]
            entered := s.entered + 1 } = s'
      | .dataAvailable i => dataAvailable cfg s i = some s'
      | .matched => { s with matched := true } = s'
      | .publish i => publishStep cfg s i = some s'
      | .exit => { s with ended := true } = s' := by
  unfold Loop.step at hs
  split at hs
  · cases hs
  rename_i hrunning
  refine ⟨Bool.eq_false_of_not_eq_true hrunning, ?_⟩
  cases e with
  | broker e =>
    cases e with
    | sample => cases hs
    | _ => exact ⟨by simp, Option.map_eq_some_iff.mp hs⟩
  | sample message => exact Option.some.inj hs
  | dataAvailable i =>
    simp only [Option.ite_none_left_eq_some] at hs
    exact hs.2
  | matched => exact Option.some.inj hs
  | publish i =>
    simp only [Option.ite_none_right_eq_some] at hs
    exact hs.2
  | exit =>
    simp only [Option.ite_none_right_eq_some, Option.some.injEq] at hs
    exact hs.2

/-- What one broker does with the messages: it writes what it has, or one enters. -/
theorem loop_step {cfg : Config} (hne : cfg.recvTopicName ≠ cfg.sendTopicName)
    {s s' : Loop.State L C} {e : Loop.Event C.numbers} (he : ∀ message, e ≠ .sample message)
    (hs : Loop.step cfg s e = some s') :
    s'.entered = s.entered ∧ (∀ o, s'.places o ≤ s.places o) ∧
        s'.written = s.written ++ (published s e).map Delivery.origin ∨
      s'.entered = s.entered + 1 ∧
        (∀ o, s'.places o ≤ s.places o + if o = s.entered then 1 else 0) ∧
        s'.written = s.written ∧ published s e = [] := by
  obtain ⟨-, hs⟩ := loop_cases hs
  cases e with
  | broker e =>
    obtain ⟨hnot, b, hb, rfl⟩ := hs
    obtain ⟨tasks, hlen, htasks⟩ := ddsTaskQueue_step hnot hb
    exact .inr ⟨rfl, places_withBroker hlen htasks s.entered, rfl, rfl⟩
  | sample message => exact absurd rfl (he message)
  | dataAvailable i =>
    obtain ⟨hplaces, hentered⟩ := dataAvailable_places hs
    refine .inl ⟨hentered, hplaces, ?_⟩
    rw [written_dataAvailable hs]
    exact (List.append_nil _).symm
  | publish i =>
    obtain ⟨hplaces, hentered⟩ := publishStep_places hne hs
    exact .inl ⟨hentered, hplaces, written_publishStep hne hs⟩
  | matched =>
    dsimp only at hs
    subst hs
    exact .inl ⟨rfl, fun _ => Nat.le_refl _, (List.append_nil _).symm⟩
  | exit =>
    dsimp only at hs
    subst hs
    exact .inl ⟨rfl, fun _ => Nat.le_refl _, (List.append_nil _).symm⟩

/-- **Inversion.** One broker takes a step of its own. -/
theorem step_broker [DecidableEq B] {cfg : B → Config} {s s' : State B L C} {b : B}
    {e : Loop.Event C.numbers} (hs : step cfg s (.broker b e) = some s') :
    (∀ message, e ≠ .sample message) ∧
      ∃ q, Loop.step (cfg b) { s.brokers b with entered := s.entries.length } e = some q ∧
        ⟨Function.update
            (deliver cfg (cfg b).sendTopicName (published (s.brokers b) e) s.brokers) b q,
          s.entries ++ List.replicate (q.entered - s.entries.length) (.client b)⟩ = s' := by
  cases e with
  | sample => cases hs
  | _ => exact ⟨by simp, Option.map_eq_some_iff.mp hs⟩

/-! ## Runs -/

/-- **Invariant.** Every message is on its way from where it entered. -/
def OnTheirWays (cfg : B → Config) (s : State B L C) : Prop :=
  ∀ o, Routed (Feeds cfg) (Enters cfg s o) (fun b => (s.brokers b).places o)
    fun b => (s.brokers b).written.count o

theorem onTheirWays_init (cfg : B → Config) : OnTheirWays cfg (init : State B L C) :=
  fun _ => routed_zero _

variable {cfg : B → Config} {s s' : State B L C}

theorem count_written_le (q : Loop.State L C) (o : Nat) : q.written.count o ≤ q.places o :=
  Nat.le_add_left ..

theorem OnTheirWays.atMostOneWrite (h : OnTheirWays cfg s) (b : B) :
    AtMostOneWrite (s.brokers b) :=
  fun o => (count_written_le ..).trans ((h o).once b)

/-- Nothing has the number of the next message. -/
theorem OnTheirWays.places_next (h : OnTheirWays cfg s) (b : B) :
    (s.brokers b).places s.entries.length = 0 := by
  by_contra hne
  obtain ⟨a, ⟨e, he, -⟩, -⟩ := (h s.entries.length).reached b (Nat.pos_of_ne_zero hne)
  rw [List.getElem?_eq_none (Nat.le_refl _)] at he
  cases he

theorem enters_snoc {e : Entry B} (hentries : s'.entries = s.entries ++ [e]) {o : Nat}
    (ho : o ≠ s.entries.length) : Enters cfg s' o = Enters cfg s o := by
  have hsame : s'.entries[o]? = s.entries[o]? := by
    rw [hentries, List.getElem?_append]
    split
    · rfl
    · rw [List.getElem?_eq_none (by rw [List.length_singleton]; omega),
        List.getElem?_eq_none (by omega)]
  unfold Enters
  rw [hsame]

theorem enters_next {e : Entry B} (hentries : s'.entries = s.entries ++ [e]) :
    Enters cfg s' s.entries.length = e.At cfg := by
  have hlast : s'.entries[s.entries.length]? = some e := by
    rw [hentries, List.getElem?_concat_length]
  funext b
  refine propext ⟨fun ⟨e', he', hat⟩ => ?_, fun hat => ⟨e, hlast, hat⟩⟩
  obtain rfl := Option.some.inj (hlast.symm.trans he')
  exact hat

/-- A message enters, and the others stay where they are. -/
theorem OnTheirWays.enter (h : OnTheirWays cfg s) (hacyclic : Acyclic cfg) {e : Entry B}
    (hentries : s'.entries = s.entries ++ [e])
    (hplaces : ∀ b o, o ≠ s.entries.length → (s'.brokers b).places o ≤ (s.brokers b).places o)
    (hnext : ∀ b, (s'.brokers b).places s.entries.length ≤ 1 ∧
      (0 < (s'.brokers b).places s.entries.length → e.At cfg b))
    (hwritten : ∀ b, (s'.brokers b).written = (s.brokers b).written) : OnTheirWays cfg s' := by
  intro o
  by_cases ho : o = s.entries.length
  · subst ho
    rw [enters_next hentries]
    exact routed_enter (hacyclic.not_reached e) (fun b => (hnext b).1) fun b => (hnext b).2
  · rw [enters_snoc hentries ho]
    exact (h o).lower (fun b => hplaces b o ho) fun b => by rw [hwritten]

section

variable [DecidableEq B] {b : B} {q : Loop.State L C} {ds : List (Delivery C.numbers)}

/-- A broker gives its samples to those behind it. -/
theorem OnTheirWays.write (h : OnTheirWays cfg s)
    (hdistinct : Function.Injective fun b => (cfg b).sendTopicName) (hacyclic : Acyclic cfg)
    (hentries : s'.entries = s.entries)
    (hbrokers : s'.brokers =
      Function.update (deliver cfg (cfg b).sendTopicName ds s.brokers) b q)
    (hplaces : ∀ o, q.places o ≤ (s.brokers b).places o)
    (hwritten : q.written = (s.brokers b).written ++ ds.map Delivery.origin) :
    OnTheirWays cfg s' := by
  intro o
  have hsame : Enters cfg s' o = Enters cfg s o := by
    unfold Enters
    rw [hentries]
  have hown : s'.brokers b = q := by
    rw [hbrokers, Function.update_self]
  have hother : ∀ c, c ≠ b →
      s'.brokers c = deliver cfg (cfg b).sendTopicName ds s.brokers c := fun c hc => by
    rw [hbrokers, Function.update_of_ne hc]
  rw [hsame]
  refine (h o).forward (p := b) (k := (ds.map Delivery.origin).count o)
    (fun p p' c hp hp' => hdistinct (hp.trans hp'.symm)) (fun c hc => hacyclic c (.single hc))
    (fun c => ?_) (Nat.le_add_left ..) fun c => ?_
  · by_cases hc : c = b
    · subst hc
      rw [hown, hwritten, List.count_append, if_pos rfl]
    · rw [hother c hc, written_deliver, if_neg hc]
      rfl
  · by_cases hc : c = b
    · subst hc
      rw [hown]
      exact (hplaces o).trans (Nat.le_add_right ..)
    · rw [hother c hc, places_deliver]
      exact Nat.le_of_eq (congrArg _ (if_congr eq_comm rfl rfl))

/-- A client of the broker publishes. -/
theorem OnTheirWays.receive (h : OnTheirWays cfg s) (hacyclic : Acyclic cfg)
    (hentries : s'.entries = s.entries ++ [.client b])
    (hbrokers : s'.brokers = Function.update (deliver cfg (cfg b).sendTopicName [] s.brokers) b q)
    (hplaces : ∀ o, q.places o ≤ (s.brokers b).places o + if o = s.entries.length then 1 else 0)
    (hwritten : q.written = (s.brokers b).written) : OnTheirWays cfg s' := by
  have hown : s'.brokers b = q := by
    rw [hbrokers, Function.update_self]
  have hother : ∀ c, c ≠ b → s'.brokers c = deliver cfg (cfg b).sendTopicName [] s.brokers c :=
    fun c hc => by rw [hbrokers, Function.update_of_ne hc]
  have hsame : ∀ c o, c ≠ b → (s'.brokers c).places o = (s.brokers c).places o := by
    intro c o hc
    rw [hother c hc, places_deliver, List.map_nil, List.count_nil, ite_self, Nat.add_zero]
  refine h.enter hacyclic hentries (fun c o ho => ?_) (fun c => ?_) fun c => ?_
  · by_cases hc : c = b
    · subst hc
      have hplace := hplaces o
      rw [if_neg ho] at hplace
      rwa [hown]
    · exact Nat.le_of_eq (hsame c o hc)
  · by_cases hc : c = b
    · subst hc
      have hplace := hplaces s.entries.length
      rw [h.places_next, if_pos rfl] at hplace
      rw [hown]
      exact ⟨hplace, fun _ => rfl⟩
    · rw [hsame c _ hc, h.places_next]
      exact ⟨Nat.zero_le 1, fun hpos => absurd hpos (Nat.lt_irrefl 0)⟩
  · by_cases hc : c = b
    · subst hc
      rw [hown, hwritten]
    · rw [hother c hc, written_deliver]

/-- **Step lemma.** -/
theorem step_onTheirWays (hdistinct : Function.Injective fun b => (cfg b).sendTopicName)
    (hacyclic : Acyclic cfg) {e : Event B C.numbers} (h : OnTheirWays cfg s)
    (hs : step cfg s e = some s') : OnTheirWays cfg s' := by
  cases e with
  | vehicle topicName message =>
    obtain rfl := Option.some.inj hs
    refine h.enter hacyclic rfl (fun b o ho => ?_) (fun b => ?_) fun b => written_deliver ..
    · have hnone : [s.entries.length].count o = 0 := by
        rw [List.count_eq_zero, List.mem_singleton]
        exact ho
      rw [places_deliver, List.map_singleton, hnone, ite_self]
      exact Nat.le_refl _
    · rw [places_deliver, h.places_next, List.map_singleton, List.count_singleton_self]
      split
      · rename_i hb
        exact ⟨Nat.le_refl 1, fun _ => hb⟩
      · exact ⟨Nat.zero_le 1, fun hpos => absurd hpos (Nat.lt_irrefl 0)⟩
  | broker b e =>
    obtain ⟨he, q, hq, rfl⟩ := step_broker hs
    obtain ⟨hentered, hplaces, hwritten⟩ | ⟨hentered, hplaces, hwritten, hpublished⟩ :=
      loop_step (hacyclic.ne b) he hq
    · have hn : q.entered = s.entries.length := hentered
      refine h.write hdistinct hacyclic ?_ rfl hplaces ?_
      · show s.entries ++ List.replicate (q.entered - s.entries.length) _ = s.entries
        rw [hn, Nat.sub_self]
        exact List.append_nil _
      · rw [hwritten, published_entered]
    · have hn : q.entered = s.entries.length + 1 := hentered
      rw [published_entered] at hpublished
      refine h.receive hacyclic (b := b) ?_ (by rw [hpublished]) hplaces hwritten
      show s.entries ++ List.replicate (q.entered - s.entries.length) _ = _
      rw [hn, Nat.add_sub_cancel_left]
      rfl

theorem reachable_onTheirWays (hdistinct : Function.Injective fun b => (cfg b).sendTopicName)
    (hacyclic : Acyclic cfg) (hr : Machine.Reachable (step cfg) init s) : OnTheirWays cfg s :=
  Machine.reachable_invariant (I := OnTheirWays cfg)
    (fun _ _ _ h hs => step_onTheirWays hdistinct hacyclic h hs) (onTheirWays_init cfg) hr

end

end BddsBroker.Dds.Brokers
