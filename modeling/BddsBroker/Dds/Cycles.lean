import BddsBroker.Dds.Brokers

/-! What topics must be like for the brokers of a domain to write no message twice. One hop is
`on_data_available` and a round of `work` in one broker, and along a cycle of topics the hops
bring a message back to a broker that has written it. -/

namespace BddsBroker.Dds.Brokers

open Loop Relay

variable {B : Type} {L : Libraries} {C : Codec L} {cfg : B → Config} {s : State B L C}

/-! ## One event of one broker -/

section

variable [DecidableEq B] {b : B} {q : Loop.State L C}

theorem deliver_update (cfg : B → Config) (topicName : String) (ds : List (Delivery C.numbers))
    (brokers : B → Loop.State L C) (b : B) (p q : Loop.State L C) :
    Function.update (deliver cfg topicName ds (Function.update brokers b p)) b q =
      Function.update (deliver cfg topicName ds brokers) b q := by
  funext c
  by_cases hc : c = b
  · subst hc
    rw [Function.update_self, Function.update_self]
  · rw [Function.update_of_ne hc, Function.update_of_ne hc, deliver, deliver,
      Function.update_of_ne hc]

/-- An event of a broker with which no message enters. -/
theorem step_update (brokers : B → Loop.State L C) {entries : List (Entry B)}
    {p : Loop.State L C} {e : Loop.Event C.numbers} (he : ∀ message, e ≠ .sample message)
    (hs : Loop.step (cfg b) { p with entered := entries.length } e = some q)
    (hentered : q.entered = entries.length) :
    step cfg ⟨Function.update brokers b p, entries⟩ (.broker b e) = some ⟨Function.update
      (deliver cfg (cfg b).sendTopicName (published p e) brokers) b q, entries⟩ := by
  have hstep : step cfg ⟨Function.update brokers b p, entries⟩ (.broker b e) =
      brokerStep cfg ⟨Function.update brokers b p, entries⟩ b e := by
    cases e with
    | sample message => exact absurd rfl (he message)
    | _ => rfl
  rw [hstep, brokerStep]
  simp only [Function.update_self]
  rw [hs, Option.map_some, hentered, Nat.sub_self, List.replicate_zero, List.append_nil,
    deliver_update]

/-- Samples that wait at the reader behind the one that is taken stay there. -/
theorem dataAvailable_append (cfg : Config) (s : Loop.State L C) (d : Delivery C.numbers)
    (hs : s.delivered = [d]) (ds : List (Delivery C.numbers)) :
    dataAvailable cfg { s with delivered := d :: ds } 0 =
      (dataAvailable cfg s 0).map fun q => { q with delivered := q.delivered ++ ds } := by
  unfold dataAvailable
  rw [hs]
  dsimp only [List.getElem?_cons_zero, Option.map_some, List.eraseIdx_cons_zero]
  cases onDataAvailable C cfg.sendTopicName cfg.globalQos d.message ⟨s.broker, ""⟩ with
  | error e f => rfl
  | ok _ f =>
    dsimp only [State.countMessage, State.withBroker]
    split <;> rfl

end

/-- The broker is on a cycle through the other one. -/
def OnCycle (cfg : B → Config) (a b : B) : Prop :=
  Relation.TransGen (Feeds cfg) a b ∧ Relation.TransGen (Feeds cfg) b a

/-! ## Hops -/

section Copies

variable {b : B} {q : Loop.State L C} {c : Config} {message : Message C.numbers} {n : Nat}

/-- The broker has written the message `n` times, and has nothing but copies of it to read. -/
structure Ready (message : Message C.numbers) (n : Nat) (q : Loop.State L C) : Prop where
  copies : ∀ d ∈ q.delivered, d = ⟨0, message⟩
  origins : q.origins = []
  queue : q.broker.ddsTaskQueue = []
  running : q.ended = false
  listening : q.exiting = false
  written : q.written = List.replicate n 0
  retained : q.retainedMessageCount = n

theorem Ready.deliver (h : Ready message n (s.brokers b)) (cfg : B → Config)
    (topicName : String) :
    Ready message n (deliver cfg topicName [⟨0, message⟩] s.brokers b) := by
  obtain ⟨hcopies, horigins, hqueue, hrunning, hlistening, hwritten, hretained⟩ := h
  rw [Brokers.deliver]
  split
  · refine ⟨fun d hd => ?_, horigins, hqueue, hrunning, hlistening, hwritten, hretained⟩
    rcases List.mem_append.mp hd with hd | hd
    · exact hcopies d hd
    · exact List.mem_singleton.mp hd
  · exact ⟨hcopies, horigins, hqueue, hrunning, hlistening, hwritten, hretained⟩

theorem ready_init (message : Message C.numbers) : Ready message 0 (Loop.init : Loop.State L C) :=
  ⟨fun _ hd => absurd hd List.not_mem_nil, rfl, rfl, rfl, rfl, rfl, rfl⟩

/-- A copy waits at the broker, and all brokers are ready for it. -/
structure Arrived (message : Message C.numbers) (b : B) (s : State B L C) : Prop where
  ready : ∀ c, ∃ n, Ready message n (s.brokers c)
  waits : (s.brokers b).delivered ≠ []

theorem Ready.arrive (h : ∀ c, ∃ n, Ready message n (s.brokers c)) {topicName : String}
    (hb : (cfg b).recvTopicName = topicName) (entries : List (Entry B)) :
    Arrived message b ⟨Brokers.deliver cfg topicName [⟨0, message⟩] s.brokers, entries⟩ where
  ready c := by
    obtain ⟨n, hn⟩ := h c
    exact ⟨n, hn.deliver cfg topicName⟩
  waits := by
    show (Brokers.deliver cfg topicName [⟨0, message⟩] s.brokers b).delivered ≠ []
    rw [Brokers.deliver, if_pos hb]
    exact List.append_ne_nil_of_right_ne_nil _ (List.cons_ne_nil _ _)

/-- The listener takes a copy. -/
theorem Ready.listen (h : Ready message n q) (hm : Survives C c message) (hd : q.delivered ≠ [])
    (next : Nat) : ∃ q',
      Loop.step c { q with matched := true, entered := next } (.dataAvailable 0) = some q' ∧
      q'.entered = next ∧ Queued 0 message n { q' with delivered := [] } ∧
      q'.delivered = q.delivered.tail ∧
      ((n : Int) < c.maxRetainQueueMessageCount →
        q'.exiting = false ∧ q'.retainedMessageCount = n + 1) := by
  obtain ⟨d, ds, hdelivered⟩ := List.exists_cons_of_ne_nil hd
  obtain rfl := h.copies d (hdelivered ▸ List.mem_cons_self)
  let q₀ : Loop.State L C :=
    { q with matched := true, entered := next, delivered := [⟨0, message⟩] }
  have hcircling : Circling 0 message n q₀ :=
    ⟨rfl, h.origins, h.queue, rfl, h.running, h.written⟩
  obtain ⟨q₁, hstep, hqueued, hcount⟩ := hcircling.listen hm h.listening
  have htake : ∀ q' : Loop.State L C, q'.ended = false → q'.exiting = false →
      Loop.step c q' (.dataAvailable 0) = dataAvailable c q' 0 := by
    intro q' hrunning hlistening
    simp [Loop.step, hrunning, hlistening]
  rw [htake q₀ h.running h.listening] at hstep
  refine ⟨{ q₁ with delivered := q₁.delivered ++ ds }, ?_, (dataAvailable_places hstep).2, ?_, ?_,
    ?_⟩
  · have happend := dataAvailable_append c q₀ ⟨0, message⟩ rfl ds
    rw [hstep, Option.map_some, show (⟨0, message⟩ :: ds) = q.delivered from hdelivered.symm]
      at happend
    exact (htake { q with matched := true, entered := next } h.running h.listening).trans happend
  · obtain ⟨-, horigins, hqueue, hmatched, hrunning, hwritten⟩ := hqueued
    exact ⟨rfl, horigins, hqueue, hmatched, hrunning, hwritten⟩
  · rw [hqueued.delivered, hdelivered]
    rfl
  · intro hlt
    obtain ⟨hexiting, hretained⟩ := hcount (h.retained.trans_lt hlt)
    exact ⟨hexiting, hretained.trans (congrArg (· + 1) h.retained)⟩

/-- And it is written. -/
theorem publish_queued (hq : Queued 0 message n { q with delivered := [] })
    (hcopies : ∀ d ∈ q.delivered, d = ⟨0, message⟩) :
    published q (.publish 0) = [⟨0, message⟩] ∧
      ∃ q', Loop.step c q (.publish 0) = some q' ∧ q'.entered = q.entered ∧
        q'.written = List.replicate (n + 1) 0 ∧
        q'.delivered = q.delivered ++
          (if c.recvTopicName = c.sendTopicName then [⟨0, message⟩] else []) ∧
        (q.exiting = false → q.retainedMessageCount = n + 1 → Ready message (n + 1) q') := by
  obtain ⟨-, horigins, ⟨task, hqueue, hdecode⟩, hmatched, hrunning, hwritten⟩ := hq
  dsimp only at horigins hqueue hmatched hrunning hwritten
  have hstep : Loop.step c q (.publish 0) = some (Loop.deliver c ⟨0, message⟩ { q with
      broker := { q.broker with ddsTaskQueue := [] }
      origins := []
      written := q.written ++ [0] }) := by
    simp [Loop.step, publishStep, hrunning, hmatched, hqueue, horigins, hdecode]
  refine ⟨by simp [published, hqueue, horigins, hdecode], _, hstep, ?_, ?_, ?_, ?_⟩
  · rw [Loop.deliver]
    split <;> rfl
  · rw [Loop.deliver, hwritten, List.replicate_succ']
    split <;> rfl
  · rw [Loop.deliver]
    split
    · rfl
    · exact (List.append_nil _).symm
  · intro hexiting hretained
    rw [Loop.deliver, hwritten, ← List.replicate_succ']
    split
    · refine ⟨fun d hd => ?_, rfl, rfl, hrunning, hexiting, rfl, hretained⟩
      rcases List.mem_append.mp hd with hd | hd
      · exact hcopies d hd
      · exact List.mem_singleton.mp hd
    · exact ⟨hcopies, rfl, rfl, hrunning, hexiting, rfl, hretained⟩

end Copies

section Walks

variable [DecidableEq B] {b : B} {message : Message C.numbers} {n : Nat}

/-- The listener and the writer of one broker, with a copy that waits there. -/
def hop (b : B) : List (Event B C.numbers) :=
  [.broker b .matched, .broker b (.dataAvailable 0), .broker b (.publish 0)]

/-- **One hop.** The message is written, and all those behind the broker have a copy. -/
theorem Ready.hop (cfg : B → Config) (h : Ready message n (s.brokers b))
    (hm : Survives C (cfg b) message) (hd : (s.brokers b).delivered ≠ []) :
    ∃ s' q, Machine.run (step cfg) s (hop b) = some s' ∧
      s' = ⟨Function.update
        (Brokers.deliver cfg (cfg b).sendTopicName [⟨0, message⟩] s.brokers) b q, s.entries⟩ ∧
      q.written = List.replicate (n + 1) 0 ∧
      q.delivered = (s.brokers b).delivered.tail ++
        (if Feeds cfg b b then [⟨0, message⟩] else []) ∧
      ((n : Int) < (cfg b).maxRetainQueueMessageCount → Ready message (n + 1) q) := by
  obtain ⟨q₂, hlisten, hentered₂, hqueued, htail, hcount⟩ := h.listen hm hd s.entries.length
  have hcopies : ∀ d ∈ q₂.delivered, d = ⟨0, message⟩ := by
    rw [htail]
    exact fun d hd => h.copies d (List.mem_of_mem_tail hd)
  obtain ⟨hpublished, q₃, hpublish, hentered₃, hwritten, hself, hready⟩ :=
    publish_queued (c := cfg b) hqueued hcopies
  let q₁ : Loop.State L C := { s.brokers b with matched := true, entered := s.entries.length }
  have hmatched : Loop.step (cfg b) { s.brokers b with entered := s.entries.length } .matched =
      some q₁ := by
    simp [Loop.step, h.running, q₁]
  have hwrite : Loop.step (cfg b) { q₂ with entered := s.entries.length } (.publish 0) =
      some q₃ := by
    rw [← hentered₂]
    exact hpublish
  have h₁ := step_update s.brokers (e := .matched) (fun _ => by simp) hmatched rfl
  have h₂ := step_update s.brokers (p := q₁) (e := .dataAvailable 0) (fun _ => by simp) hlisten
    hentered₂
  have h₃ := step_update s.brokers (e := .publish 0) (fun _ => by simp) hwrite
    (hentered₃.trans hentered₂)
  rw [Function.update_eq_self, show published (s.brokers b) .matched = [] from rfl,
    deliver_nil] at h₁
  rw [show published q₁ (.dataAvailable 0) = [] from rfl, deliver_nil] at h₂
  rw [hpublished] at h₃
  refine ⟨_, q₃, ?_, rfl, hwritten, ?_, fun hlt => ?_⟩
  · simp only [Brokers.hop, Machine.run, h₁, Option.bind_some, h₂, h₃]
  · rw [hself, htail]
    exact congrArg _ (if_congr eq_comm rfl rfl)
  · obtain ⟨hexiting, hretained⟩ := hcount hlt
    exact hready hexiting hretained

section Once

variable {a : B} (honce : ∀ b, OnCycle cfg a b → ∀ s : State B L C,
    Machine.Reachable (step cfg) init s → AtMostOneWrite (s.brokers b))
  (hm : ∀ b, Survives C (cfg b) message) (hmax : ∀ b, 0 < (cfg b).maxRetainQueueMessageCount)

include honce hm

/-- Where nothing is written twice, what waits has not been written. -/
theorem Arrived.unwritten (h : Arrived message b s) (hb : OnCycle cfg a b)
    (hs : Machine.Reachable (step cfg) init s) : 0 ∉ (s.brokers b).written := by
  obtain ⟨n, hn⟩ := h.ready b
  obtain ⟨s', q, hrun, rfl, hwritten, -, -⟩ := hn.hop cfg (hm b) h.waits
  have hcount := honce b hb _ (hs.trans ⟨_, hrun⟩) 0
  dsimp only at hcount
  rw [Function.update_self, hwritten, List.count_replicate_self] at hcount
  rw [hn.written, Nat.le_zero.mp (Nat.le_of_succ_le_succ hcount)]
  exact List.not_mem_nil

include hmax

/-- **Step lemma.** It is written once, and waits at those behind. -/
theorem Arrived.hop (h : Arrived message b s) (hb : OnCycle cfg a b)
    (hs : Machine.Reachable (step cfg) init s) :
    ∃ s', Machine.Reachable (step cfg) init s' ∧ (∀ c, Feeds cfg b c → Arrived message c s') ∧
      0 ∈ (s'.brokers b).written ∧ ∀ c, 0 ∈ (s.brokers c).written → 0 ∈ (s'.brokers c).written := by
  obtain ⟨n, hn⟩ := h.ready b
  have hzero : n = 0 := by
    have hnot := h.unwritten honce hm hb hs
    rw [hn.written, List.mem_replicate] at hnot
    omega
  subst hzero
  obtain ⟨s', q, hrun, rfl, hwritten, hself, hready⟩ := hn.hop cfg (hm b) h.waits
  have hmem : 0 ∈ q.written := by
    rw [hwritten]
    exact List.mem_singleton_self 0
  refine ⟨_, hs.trans ⟨_, hrun⟩, fun c hc => ⟨fun c' => ?_, ?_⟩, ?_, fun c hold => ?_⟩
  · by_cases hc' : c' = b
    · subst hc'
      dsimp only
      rw [Function.update_self]
      exact ⟨1, hready (hmax c')⟩
    · obtain ⟨n, hn'⟩ := h.ready c'
      dsimp only
      rw [Function.update_of_ne hc']
      exact ⟨n, hn'.deliver cfg _⟩
  · dsimp only
    by_cases hcb : c = b
    · subst hcb
      rw [Function.update_self]
      rw [hself, if_pos hc]
      exact List.append_ne_nil_of_right_ne_nil _ (List.cons_ne_nil _ _)
    · rw [Function.update_of_ne hcb]
      exact (Ready.arrive h.ready hc.symm []).waits
  · dsimp only
    rw [Function.update_self]
    exact hmem
  · dsimp only
    by_cases hcb : c = b
    · subst hcb
      rw [Function.update_self]
      exact hmem
    · rw [Function.update_of_ne hcb, written_deliver]
      exact hold

/-- **Run lemma.** It goes along every path on the cycle. -/
theorem Arrived.walk {p : B} (hpath : Relation.ReflTransGen (Feeds cfg) p b)
    (h : Arrived message p s) (hp : OnCycle cfg a p) (hb : Relation.TransGen (Feeds cfg) b a)
    (hs : Machine.Reachable (step cfg) init s) :
    ∃ s', Machine.Reachable (step cfg) init s' ∧ Arrived message b s' ∧
      ∀ c, 0 ∈ (s.brokers c).written → 0 ∈ (s'.brokers c).written := by
  induction hpath with
  | refl => exact ⟨s, hs, h, fun _ hc => hc⟩
  | tail hpath hfeeds ih =>
    have hon := Relation.TransGen.head hfeeds hb
    obtain ⟨s₁, hs₁, harrived, hkept⟩ := ih hon
    obtain ⟨s₂, hs₂, hbehind, -, hkept'⟩ :=
      harrived.hop honce hm hmax ⟨hp.1.trans_left hpath, hon⟩ hs₁
    exact ⟨s₂, hs₂, hbehind _ hfeeds, fun c hc => hkept' c (hkept c hc)⟩

/-- A cycle brings it back. -/
theorem not_onCycle_of_once : ¬ Relation.TransGen (Feeds cfg) a a := by
  intro hcycle
  have hinit : ∀ c, ∃ n, Ready message n ((init : State B L C).brokers c) := fun _ =>
    ⟨0, ready_init message⟩
  have hstart : Arrived message a ⟨Brokers.deliver cfg (cfg a).recvTopicName [⟨0, message⟩]
      (init : State B L C).brokers, [.vehicle (cfg a).recvTopicName]⟩ := Ready.arrive hinit rfl _
  obtain ⟨s₁, hs₁, hbehind, hwritten, -⟩ :=
    hstart.hop honce hm hmax ⟨hcycle, hcycle⟩ ⟨[.vehicle (cfg a).recvTopicName message], rfl⟩
  obtain ⟨c, hfeeds, hpath⟩ := Relation.TransGen.head'_iff.mp hcycle
  obtain ⟨s₂, hs₂, harrived, hkept⟩ := (hbehind c hfeeds).walk honce hm hmax hpath
    ⟨.single hfeeds, Relation.TransGen.trans_right hpath hcycle⟩ hcycle hs₁
  exact harrived.unwritten honce hm ⟨hcycle, hcycle⟩ hs₂ (hkept a hwritten)

end Once

end Walks

/-! ## At most one write -/

/-- The topics lead on. -/
theorem acyclic_of_rank (rank : B → Nat) (h : ∀ p b, Feeds cfg p b → rank p < rank b) :
    Acyclic cfg := by
  have hlt : ∀ p b, Relation.TransGen (Feeds cfg) p b → rank p < rank b := by
    intro p b hpath
    induction hpath with
    | single hfeeds => exact h _ _ hfeeds
    | tail _ hfeeds ih => exact ih.trans (h _ _ hfeeds)
  exact fun b hcycle => Nat.lt_irrefl _ (hlt b b hcycle)

/-- A broker for the vehicles, and one behind it. -/
def inLine : Bool → Config
  | true => ⟨"GPS", "Output", 100, 0⟩
  | false => ⟨"Output", "Display", 100, 0⟩

/-- Two brokers that read what the other one writes. -/
def inRing : Bool → Config
  | true => ⟨"GPS", "Output", 100, 0⟩
  | false => ⟨"Output", "GPS", 100, 0⟩

theorem acyclic_inLine : Acyclic inLine :=
  acyclic_of_rank (fun b => if b then 0 else 1) (by decide)

/-- A vehicle's sample goes through both brokers. -/
theorem passes_inLine : ∃ s : State Bool Wire.libraries Wire.codec,
    Machine.Reachable (step inLine) init s ∧ s.entries = [.vehicle "GPS"] ∧
      ∀ b, Ready vehicle 1 (s.brokers b) ∧ (s.brokers b).delivered = [] := by
  let s₁ : State Bool Wire.libraries Wire.codec :=
    ⟨deliver inLine "GPS" [⟨0, vehicle⟩] init.brokers, [.vehicle "GPS"]⟩
  have hinit : ∀ b, Ready vehicle 0 ((init : State Bool Wire.libraries Wire.codec).brokers b) :=
    fun _ => ready_init (C := Wire.codec) vehicle
  have hready : ∀ b, Ready vehicle 0 (s₁.brokers b) := fun b => (hinit b).deliver inLine "GPS"
  obtain ⟨s₂, q, hrun, rfl, -, hdelivered, hfirst⟩ :=
    (hready true).hop inLine (survives_vehicle (inLine true)) (List.cons_ne_nil _ _)
  let s₂ : State Bool Wire.libraries Wire.codec :=
    ⟨Function.update (deliver inLine "Output" [⟨0, vehicle⟩] s₁.brokers) true q, s₁.entries⟩
  have hready₂ : Ready vehicle 0 (s₂.brokers false) := (hready false).deliver inLine "Output"
  obtain ⟨s₃, q', hrun', rfl, -, hdelivered', hsecond⟩ :=
    hready₂.hop inLine (survives_vehicle (inLine false)) (List.cons_ne_nil _ _)
  let s₃ : State Bool Wire.libraries Wire.codec :=
    ⟨Function.update (deliver inLine "Display" [⟨0, vehicle⟩] s₂.brokers) false q', s₂.entries⟩
  have hr₁ : Machine.Reachable (step inLine) init s₁ := ⟨[.vehicle "GPS" vehicle], rfl⟩
  have hr : Machine.Reachable (step inLine) init s₃ := (hr₁.trans ⟨_, hrun⟩).trans ⟨_, hrun'⟩
  exact ⟨s₃, hr, rfl, Bool.forall_bool.mpr
    ⟨⟨hsecond (by decide), hdelivered'⟩, ⟨hfirst (by decide), hdelivered⟩⟩⟩

section Once

variable [DecidableEq B]

/-- **Brokers without a cycle.** When no two brokers write to one topic and no broker is behind
itself, every broker writes each message at most once, whatever the order of all their steps;
it writes only what has a way to it from where it entered, and nothing that a broker on the way
has not written. -/
theorem written_once (hdistinct : Function.Injective fun b => (cfg b).sendTopicName)
    (hacyclic : Acyclic cfg) (hr : Machine.Reachable (step cfg) init s) (b : B) :
    AtMostOneWrite (s.brokers b) ∧ ∀ o ∈ (s.brokers b).written,
      Reached (Feeds cfg) (Enters cfg s o) b ∧
      ∀ p, Reached (Feeds cfg) (Enters cfg s o) p → Relation.TransGen (Feeds cfg) p b →
        o ∈ (s.brokers p).written := by
  have h := reachable_onTheirWays hdistinct hacyclic hr
  refine ⟨h.atMostOneWrite b, fun o ho => ?_⟩
  have hpos : 0 < (s.brokers b).places o :=
    (List.count_pos_iff.mpr ho).trans_le (count_written_le ..)
  refine ⟨(h o).reached b hpos, fun p hp hpath => ?_⟩
  exact List.count_pos_iff.mp ((h o).sent_of_path (fun _ => count_written_le ..) hpath hp hpos)

/-- A sample of a vehicle goes through both brokers, and each writes it once. -/
theorem written_once_inLine : ∃ s : State Bool Wire.libraries Wire.codec,
    Machine.Reachable (step inLine) init s ∧ (s.brokers false).written = [0] ∧
      AtMostOneWrite (s.brokers false) ∧ 0 ∈ (s.brokers true).written := by
  obtain ⟨s, hr, hentries, hready⟩ := passes_inLine
  have hdistinct : Function.Injective fun b => (inLine b).sendTopicName := by decide
  obtain ⟨honce, hways⟩ := written_once hdistinct acyclic_inLine hr false
  have hwritten : (s.brokers false).written = [0] := (hready false).1.written
  have hmem : 0 ∈ (s.brokers false).written := by
    rw [hwritten]
    exact List.mem_singleton_self 0
  have hentry : Enters inLine s 0 true := ⟨.vehicle "GPS", by rw [hentries]; rfl, rfl⟩
  exact ⟨s, hr, hwritten, honce, (hways 0 hmem).2 true ⟨true, hentry, .refl⟩ (.single rfl)⟩

/-- Messages are written at most once by every broker in every run exactly when no broker is
behind itself, where no two of them write to one topic and the message survives the way through
their JSON. On every cycle a broker writes a message twice in some run. -/
theorem once_iff_acyclic (hdistinct : Function.Injective fun b => (cfg b).sendTopicName)
    (hmax : ∀ b, 0 < (cfg b).maxRetainQueueMessageCount) {message : Message C.numbers}
    (hm : ∀ b, Survives C (cfg b) message) :
    ((∀ s : State B L C, Machine.Reachable (step cfg) init s →
      ∀ b, AtMostOneWrite (s.brokers b)) ↔ Acyclic cfg) ∧
    ∀ a, Relation.TransGen (Feeds cfg) a a → ∃ b, OnCycle cfg a b ∧
      ∃ s : State B L C, Machine.Reachable (step cfg) init s ∧ ¬ AtMostOneWrite (s.brokers b) := by
  refine ⟨⟨fun honce a => ?_, fun hacyclic s hr => ?_⟩, fun a hcycle => ?_⟩
  · exact not_onCycle_of_once (fun b _ s hr => honce s hr b) hm hmax
  · exact (reachable_onTheirWays hdistinct hacyclic hr).atMostOneWrite
  · by_contra hnone
    push Not at hnone
    exact not_onCycle_of_once hnone hm hmax hcycle

/-- In a row they write everything once, and in a ring one of them does not. -/
theorem once_iff_acyclic_inLine :
    (∀ s : State Bool Wire.libraries Wire.codec, Machine.Reachable (step inLine) init s →
      ∀ b, AtMostOneWrite (s.brokers b)) ∧
    ∃ b, ∃ s : State Bool Wire.libraries Wire.codec, Machine.Reachable (step inRing) init s ∧
      ¬ AtMostOneWrite (s.brokers b) := by
  have hcycle : Relation.TransGen (Feeds inRing) true true := .tail (.single (b := false) rfl) rfl
  obtain ⟨b, -, hwrites⟩ := (once_iff_acyclic (L := Wire.libraries) (by decide) (by decide)
    fun b => survives_vehicle (inRing b)).2 true hcycle
  exact ⟨(once_iff_acyclic (by decide) (by decide) fun b => survives_vehicle (inLine b)).1.mpr
      acyclic_inLine, b, hwrites⟩

end Once

end BddsBroker.Dds.Brokers
