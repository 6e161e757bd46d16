import BddsBroker.Sbdp.Announcer

/-! Discovery among any number of brokers. Each of them announces itself and receives what
the multicast group brings, its own datagrams among them; the network may lose, repeat and
reorder datagrams. Each broker is the main one or the alternative one, as its command line
says, and two brokers may say the same. -/

namespace BddsBroker.Sbdp.Network

open PropertyTree FirstWins

/-- The id that a broker is configured with. -/
def ownId (brokerFlag : Bool) : String :=
  if brokerFlag then BrokerConfig.brokerId else BrokerAltConfig.brokerId

/-- A process: its reader, its writer from the constructor on, and `client_no`. -/
structure Broker where
  brokerFlag : Bool
  clientNo : Nat
  reader : Reader
  writer : Option Writer
  deriving DecidableEq, Repr

structure State (B : Type) where
  /-- The processes that have started. -/
  brokers : B → Option Broker
  /-- Every datagram that was sent, in order. -/
  wire : List String
  /-- The datagrams that reached a broker, in order. -/
  arrived : B → List String

inductive Event (B : Type)
  | start (b : B) (brokerFlag : Bool)
  /-- A client connects. -/
  | connect (b : B)
  /-- The constructor of the writer. -/
  | construct (b : B)
  /-- The network takes what stands in the buffer of a send. -/
  | transmit (b : B)
  | sendTo (b : B) (error : Bool)
  | timeout (b : B) (error : Bool)
  /-- The datagram with that number reaches the broker. -/
  | arrive (b : B) (i : Nat)
  deriving DecidableEq

variable {B : Type}

def init : State B := ⟨fun _ => none, [], fun _ => []⟩

section Steps

variable [DecidableEq B]

def State.set (s : State B) (b : B) (k : Broker) : State B :=
  { s with brokers := Function.update s.brokers b (some k) }

def State.hear (s : State B) (b : B) (text : String) : State B :=
  { s with arrived := Function.update s.arrived b (s.arrived b ++ [text]) }

/-- The step is refused for a broker that has not started, and when a handler throws, which
ends the process. -/
def step (J : Json) (s : State B) : Event B → Option (State B)
  | .start b brokerFlag =>
      match s.brokers b with
      | some _ => none
      | none => some (s.set b ⟨brokerFlag, 0, .start (ownId brokerFlag), none⟩)
  | .connect b => do
      let k ← s.brokers b
      -- `client_no` is an `int`.
      if isInt32 (k.clientNo + 1) then some (s.set b { k with clientNo := k.clientNo + 1 })
      else none
  | .construct b => do
      let k ← s.brokers b
      match k.writer with
      | some _ => none
      | none =>
          let w ← (Writer.start J k.brokerFlag k.clientNo).toOption
          return s.set b { k with writer := some w }
  | .transmit b => do
      let k ← s.brokers b
      let w ← k.writer
      if w.pending = .sendTo then some { s with wire := s.wire ++ [w.message] } else none
  | .sendTo b error => do
      let k ← s.brokers b
      let w ← k.writer
      let w' ← writerStep J w (.sendTo error)
      return s.set b { k with writer := some w' }
  | .timeout b error => do
      let k ← s.brokers b
      let w ← k.writer
      let w' ← writerStep J w (.timeout error k.clientNo)
      return s.set b { k with writer := some w' }
  | .arrive b i => do
      let k ← s.brokers b
      let text ← s.wire[i]?
      let reader ← Sbdp.step J k.reader (datagram text)
      return (s.set b { k with reader := reader }).hear b text

end Steps

/-! ## What the brokers know of each other -/

/-- A broker in `s` has announced that, with a number of clients that it has had. -/
def Said (s : State B) (d : AltDiscoveredBrokerData) : Prop :=
  ∃ c k, ∃ n : Nat, s.brokers c = some k ∧ n ≤ k.clientNo ∧ d = announcement k.brokerFlag n

/-- What the datagrams that reached the broker announce, in order. -/
def State.heard (J : Json) (s : State B) (b : B) : List AltDiscoveredBrokerData :=
  (s.arrived b).filterMap fun text => announced J (datagram text)

/-- What holds of one process. -/
structure Process (J : Json) (k : Broker) (heard : List AltDiscoveredBrokerData) : Prop where
  fits : isInt32 k.clientNo = true
  reader : k.reader = .after (ownId k.brokerFlag) heard
  writer : ∀ w, k.writer = some w → ∃ n : Nat, n ≤ k.clientNo ∧
    w.sbdpData = announcement k.brokerFlag n ∧ w.sbdpData.toJson J = .ok w.message

structure Sound (J : Json) (s : State B) : Prop where
  process : ∀ b k, s.brokers b = some k → Process J k (s.heard J b)
  wire : ∀ text ∈ s.wire, ∃ d, Said s d ∧ d.toJson J = .ok text
  arrived : ∀ b, ∀ text ∈ s.arrived b, text ∈ s.wire
  /-- Nothing has reached who has not started. -/
  silent : ∀ b, s.brokers b = none → s.arrived b = []

theorem sound_init (J : Json) : Sound J (init : State B) :=
  ⟨nofun, nofun, nofun, fun _ _ => rfl⟩

section Invariant

variable [DecidableEq B] {J : Json} {s s' : State B}

/-- A process goes on with at least as many clients. -/
theorem said_set {b : B} {k : Broker} (hk : ∀ k₀, s.brokers b = some k₀ →
      k₀.brokerFlag = k.brokerFlag ∧ k₀.clientNo ≤ k.clientNo)
    {d : AltDiscoveredBrokerData} (h : Said s d) : Said (s.set b k) d := by
  obtain ⟨c, k₀, n, hc, hn, rfl⟩ := h
  rcases eq_or_ne c b with rfl | hne
  · obtain ⟨hflag, hle⟩ := hk k₀ hc
    exact ⟨c, k, n, by simp [State.set], by omega, by rw [hflag]⟩
  · exact ⟨c, k₀, n, by simp [State.set, hne, hc], hn, rfl⟩

/-- A step of one process that neither sends nor hears anything. -/
theorem Sound.set (hs : Sound J s) {b : B} {k : Broker} (hk : ∀ k₀, s.brokers b = some k₀ →
      k₀.brokerFlag = k.brokerFlag ∧ k₀.clientNo ≤ k.clientNo)
    (hprocess : Process J k (s.heard J b)) : Sound J (s.set b k) where
  process := fun c k' hc => by
    rcases eq_or_ne c b with rfl | hne
    · obtain rfl : k = k' := by simpa [State.set] using hc
      exact hprocess
    · exact hs.process c k' (by simpa [State.set, hne] using hc)
  wire := fun text htext => (hs.wire text htext).imp fun _ h => ⟨said_set hk h.1, h.2⟩
  arrived := hs.arrived
  silent := fun c hc => by
    rcases eq_or_ne c b with rfl | hne
    · simp [State.set] at hc
    · exact hs.silent c (by simpa [State.set, hne] using hc)

theorem isInt32_of_le {m n : Nat} (h : m ≤ n) (hn : isInt32 n = true) : isInt32 m = true := by
  simp only [isInt32, Bool.and_eq_true, decide_eq_true_eq] at hn ⊢
  omega

omit [DecidableEq B] in
/-- What was sent is a complete announcement. -/
theorem Sound.carries (hJ : Speaks J) (hs : Sound J s) {text : String} (htext : text ∈ s.wire) :
    ∃ d, Said s d ∧ Carries J (datagram text) d := by
  obtain ⟨d, ⟨c, k, n, hc, hn, rfl⟩, hwritten⟩ := hs.wire text htext
  have hfits := isInt32_of_le hn (hs.process c k hc).fits
  exact ⟨_, ⟨c, k, n, hc, hn, rfl⟩, hJ.carries hfits hwritten⟩

/-- The data of a writer that goes on. -/
theorem Sound.write (hs : Sound J s) {b : B} {k : Broker} {w : Writer} (hk : s.brokers b = some k)
    (hw : ∃ n : Nat, n ≤ k.clientNo ∧ w.sbdpData = announcement k.brokerFlag n ∧
      w.sbdpData.toJson J = .ok w.message) :
    Sound J (s.set b { k with writer := some w }) := by
  have hprocess := hs.process b k hk
  refine hs.set (fun k₀ hk₀ => ?_) ⟨hprocess.fits, hprocess.reader, fun w' hw' => ?_⟩
  · obtain rfl := Option.some.inj (hk.symm.trans hk₀)
    exact ⟨rfl, Nat.le_refl _⟩
  · obtain rfl := Option.some.inj hw'
    exact hw

omit [DecidableEq B] in
/-- What reached a broker are complete announcements. -/
theorem Sound.forall₂_heard (hJ : Speaks J) (hs : Sound J s) (b : B) :
    List.Forall₂ (fun text d => Carries J (datagram text) d) (s.arrived b) (s.heard J b) := by
  refine forall₂_filterMap fun text htext => ?_
  obtain ⟨d, -, hcarries⟩ := hs.carries hJ (hs.arrived b text htext)
  exact ⟨d, announced_of_carries hcarries, hcarries⟩

omit [DecidableEq B] in
/-- A broker has said what it is heard to say. -/
theorem Sound.said (hJ : Speaks J) (hs : Sound J s) {b : B} {d : AltDiscoveredBrokerData}
    (hd : d ∈ s.heard J b) : Said s d := by
  obtain ⟨text, htext, hannounced⟩ := List.mem_filterMap.mp hd
  obtain ⟨d', hsaid, hcarries⟩ := hs.carries hJ (hs.arrived b text htext)
  obtain rfl := Option.some.inj ((announced_of_carries hcarries).symm.trans hannounced)
  exact hsaid

theorem Sound.arrive (hJ : Speaks J) (hs : Sound J s) {b : B} {k : Broker} {text : String}
    (hk : s.brokers b = some k) (htext : text ∈ s.wire) {reader : Reader}
    (hreader : Sbdp.step J k.reader (datagram text) = some reader) :
    Sound J ((s.set b { k with reader := reader }).hear b text) := by
  obtain ⟨d, -, hcarries⟩ := hs.carries hJ htext
  have hprocess := hs.process b k hk
  rw [hprocess.reader, step_after _ _ hcarries] at hreader
  obtain rfl := Option.some.inj hreader
  have hkeep : ∀ k₀, s.brokers b = some k₀ → k₀.brokerFlag = k.brokerFlag ∧
      k₀.clientNo ≤ k.clientNo := by
    intro k₀ hk₀
    obtain rfl := Option.some.inj (hk.symm.trans hk₀)
    exact ⟨rfl, Nat.le_refl _⟩
  let after : Broker := { k with reader := .after (ownId k.brokerFlag) (s.heard J b ++ [d]) }
  have hheard : ((s.set b after).hear b text).heard J b = s.heard J b ++ [d] := by
    simp [State.heard, State.hear, State.set, announced_of_carries hcarries]
  have hother : ∀ c, c ≠ b → ((s.set b after).hear b text).heard J c = s.heard J c := by
    intro c hne
    simp [State.heard, State.hear, State.set, hne]
  refine ⟨fun c k' hc => ?_, fun t ht => ?_, fun c t ht => ?_, fun c hc => ?_⟩
  · rcases eq_or_ne c b with rfl | hne
    · obtain rfl : after = k' := by simpa [State.set, State.hear] using hc
      rw [hheard]
      exact ⟨hprocess.fits, rfl, hprocess.writer⟩
    · rw [hother c hne]
      exact hs.process c k' (by simpa [State.set, State.hear, hne] using hc)
  · obtain ⟨e, he, hwritten⟩ := hs.wire t ht
    exact ⟨e, said_set (k := after) hkeep he, hwritten⟩
  · rcases eq_or_ne c b with rfl | hne
    · simp only [State.set, State.hear, Function.update_self, List.mem_append,
        List.mem_singleton] at ht
      rcases ht with ht | rfl
      · exact hs.arrived c t ht
      · exact htext
    · exact hs.arrived c t (by simpa [State.set, State.hear, hne] using ht)
  · rcases eq_or_ne c b with rfl | hne
    · simp [State.set, State.hear] at hc
    · simp only [State.set, State.hear, Function.update_of_ne hne] at hc ⊢
      exact hs.silent c hc

/-- **Step lemma.** -/
theorem Sound.step (hJ : Speaks J) (hs : Sound J s) {e : Event B} (h : step J s e = some s') :
    Sound J s' := by
  cases e with
  | start b brokerFlag =>
    simp only [Network.step] at h
    split at h
    · cases h
    · rename_i hb
      obtain rfl := Option.some.inj h
      have hzero : isInt32 ((0 : Nat) : Int) = true := by decide
      refine hs.set (fun k₀ hk₀ => ?_) ⟨hzero, ?_, nofun⟩
      · rw [hb] at hk₀
        cases hk₀
      · rw [State.heard, hs.silent b hb]
        rfl
  | connect b =>
    obtain ⟨k, hk, h⟩ := Option.bind_eq_some_iff.mp h
    split at h
    · rename_i hfits
      obtain rfl := Option.some.inj h
      have hprocess := hs.process b k hk
      refine hs.set (fun k₀ hk₀ => ?_) ⟨hfits, hprocess.reader, fun w hw => ?_⟩
      · obtain rfl := Option.some.inj (hk.symm.trans hk₀)
        exact ⟨rfl, Nat.le_succ _⟩
      · obtain ⟨n, hn, hdata⟩ := hprocess.writer w hw
        exact ⟨n, Nat.le_succ_of_le hn, hdata⟩
    · cases h
  | construct b =>
    obtain ⟨k, hk, h⟩ := Option.bind_eq_some_iff.mp h
    split at h
    · cases h
    · obtain ⟨w, hw, h⟩ := Option.bind_eq_some_iff.mp h
      obtain rfl := Option.some.inj h
      obtain ⟨text, htext, hstart⟩ := start_eq hJ k.brokerFlag (hs.process b k hk).fits
      rw [hstart] at hw
      obtain rfl := Option.some.inj hw
      exact hs.write hk ⟨k.clientNo, Nat.le_refl _, rfl, htext⟩
  | transmit b =>
    obtain ⟨k, hk, h⟩ := Option.bind_eq_some_iff.mp h
    obtain ⟨w, hw, h⟩ := Option.bind_eq_some_iff.mp h
    split at h
    · obtain rfl := Option.some.inj h
      obtain ⟨n, hn, hdata, hwritten⟩ := (hs.process b k hk).writer w hw
      refine ⟨hs.process, fun text htext => ?_, fun c text htext =>
        List.mem_append_left _ (hs.arrived c text htext), hs.silent⟩
      rcases List.mem_append.mp htext with htext | htext
      · exact hs.wire text htext
      · obtain rfl := List.mem_singleton.mp htext
        exact ⟨_, ⟨b, k, n, hk, hn, rfl⟩, hdata ▸ hwritten⟩
    · cases h
  | sendTo b error =>
    obtain ⟨k, hk, h⟩ := Option.bind_eq_some_iff.mp h
    obtain ⟨w, hw, h⟩ := Option.bind_eq_some_iff.mp h
    obtain ⟨w', hw', h⟩ := Option.bind_eq_some_iff.mp h
    obtain rfl := Option.some.inj h
    obtain ⟨n, hn, hdata, hwritten⟩ := (hs.process b k hk).writer w hw
    refine hs.write hk ⟨n, hn, ?_⟩
    simp only [writerStep] at hw'
    split at hw'
    · obtain rfl := Option.some.inj hw'
      unfold Writer.handleSendTo
      split <;> exact ⟨hdata, hwritten⟩
    · cases hw'
  | timeout b error =>
    obtain ⟨k, hk, h⟩ := Option.bind_eq_some_iff.mp h
    obtain ⟨w, hw, h⟩ := Option.bind_eq_some_iff.mp h
    obtain ⟨w', hw', h⟩ := Option.bind_eq_some_iff.mp h
    obtain rfl := Option.some.inj h
    obtain ⟨n, hn, hdata, hwritten⟩ := (hs.process b k hk).writer w hw
    simp only [writerStep] at hw'
    split at hw'
    · cases error with
      | true =>
        obtain rfl := Option.some.inj hw'
        exact hs.write hk ⟨n, hn, hdata, hwritten⟩
      | false =>
        obtain ⟨text, htext, hannounce⟩ := announce_eq hJ (hs.process b k hk).fits hdata
        simp only [Writer.handleTimeout, Bool.false_eq_true, if_false, hannounce] at hw'
        obtain rfl := Option.some.inj hw'
        exact hs.write hk ⟨k.clientNo, Nat.le_refl _, rfl, htext⟩
    · cases hw'
  | arrive b i =>
    obtain ⟨k, hk, h⟩ := Option.bind_eq_some_iff.mp h
    obtain ⟨text, htext, h⟩ := Option.bind_eq_some_iff.mp h
    obtain ⟨reader, hreader, h⟩ := Option.bind_eq_some_iff.mp h
    obtain rfl := Option.some.inj h
    exact hs.arrive hJ hk (List.mem_of_getElem? htext) hreader

end Invariant

/-! ## Runs -/

section Runs

variable [DecidableEq B] {J : Json} {s : State B} {es : List (Event B)}

/-- **Run lemma.** -/
theorem sound_run (hJ : Speaks J) (hr : Machine.run (step J) init es = some s) : Sound J s :=
  Machine.run_invariant (fun _ _ _ hs _ he => hs.step hJ he) (sound_init J)
    (Machine.along_true _ es) hr

omit [DecidableEq B] in
/-- Who is stored has said so, as an alternative broker. -/
theorem listed_said (hJ : Speaks J) (hs : Sound J s) {b : B} {e : AltDiscoveredBrokerData}
    (he : e ∈ listed (s.heard J b)) : ∃ c k, ∃ n : Nat, s.brokers c = some k ∧ n ≤ k.clientNo ∧
      k.brokerFlag = false ∧ e = announcement false n := by
  obtain ⟨hid, hfirst⟩ := mem_listed.mp he
  obtain ⟨c, k, n, hc, hn, rfl⟩ := hs.said hJ (mem_of_first? hfirst)
  cases hflag : k.brokerFlag with
  | true =>
    rw [hflag] at hid
    exact absurd rfl hid
  | false => exact ⟨c, k, n, hc, hn, hflag, rfl⟩

/-- **Discovery.** In every run, whatever the network does, the receive of each broker stays
armed and nothing that was sent can stop it; every datagram that has reached it is a complete
announcement; both of its lists are the same and hold at most one broker, which is the first
alternative one among these announcements, as that announced itself then, and no main broker. -/
theorem discovery_sound (hJ : Speaks J) (hr : Machine.run (step J) init es = some s) {b : B}
    {k : Broker} (hk : s.brokers b = some k) :
    (∀ text ∈ s.wire, ∃ r, Sbdp.step J k.reader (datagram text) = some r ∧ r.outstanding = 1) ∧
      k.reader.localStorage = k.reader.altBrokerList ∧ k.reader.altBrokerList.length ≤ 1 ∧
      (∀ e ∈ k.reader.altBrokerList, ∃ c k', ∃ n : Nat, s.brokers c = some k' ∧ n ≤ k'.clientNo ∧
        k'.brokerFlag = false ∧ e = announcement false n) ∧
      (∀ text ∈ s.arrived b, text ∈ s.wire) ∧
      ∃ ds, List.Forall₂ (fun text d => Carries J (datagram text) d) (s.arrived b) ds ∧
        k.reader.altBrokerList.head? = ds.find? fun d => d.brokerId ≠ BrokerConfig.brokerId := by
  have hs := sound_run hJ hr
  have hreader := (hs.process b k hk).reader
  have hlists : k.reader.localStorage = listed (s.heard J b) ∧
      k.reader.altBrokerList = listed (s.heard J b) := by
    rw [hreader]
    exact ⟨rfl, rfl⟩
  have hids : ∀ e ∈ listed (s.heard J b), e.brokerId = BrokerAltConfig.brokerId := by
    intro e he
    obtain ⟨c, k', n, -, -, -, rfl⟩ := listed_said hJ hs he
    rfl
  refine ⟨fun text htext => ?_, ?_, ?_, ?_, hs.arrived b, s.heard J b, hs.forall₂_heard hJ b, ?_⟩
  · obtain ⟨d, -, hcarries⟩ := hs.carries hJ htext
    rw [hreader]
    exact ⟨_, step_after _ _ hcarries, rfl⟩
  · rw [hlists.1, hlists.2]
  · rw [hlists.2]
    have hnodup : (ids (listed (s.heard J b))).Nodup := nodup_collect _
    cases hlisted : listed (s.heard J b) with
    | nil => exact Nat.zero_le 1
    | cons e rest =>
      cases rest with
      | nil => exact Nat.le_refl 1
      | cons e' rest =>
        rw [hlisted] at hids hnodup
        have hsame : e.brokerId = e'.brokerId :=
          (hids e (by simp)).trans (hids e' (by simp)).symm
        simp [ids, hsame] at hnodup
  · rw [hlists.2]
    exact fun e he => listed_said hJ hs he
  · rw [hlists.2, listed, head?_collect, List.head?_filter]

end Runs

/-- The alternative broker has a client when it announces itself to the main one, which has
heard itself before and hears the other one twice. -/
def meeting : List (Event Bool) :=
  [.start true true, .start false false, .connect false, .construct true, .construct false,
    .transmit true, .transmit false, .arrive true 0, .arrive true 1, .arrive true 1]

theorem run_meeting {J : Json} (hJ : Speaks J) :
    ∃ main alt, Carries J (datagram main) (announcement true 0) ∧
      Carries J (datagram alt) (announcement false 1) ∧
      ∃ s, Machine.run (step J) init meeting = some s ∧ (s.brokers true).isSome = true ∧
        s.arrived true = [main, alt, alt] := by
  have hzero : isInt32 0 = true := rfl
  have hone : isInt32 1 = true := rfl
  obtain ⟨main, hmain, hstart⟩ := start_eq hJ true hzero
  obtain ⟨alt, halt, hstart'⟩ := start_eq hJ false hone
  have hcarries := hJ.carries hzero hmain
  have hcarries' := hJ.carries hone halt
  have hfirst : Sbdp.step J (.start (ownId true)) (datagram main) =
      some (.after (ownId true) [announcement true 0]) := step_after (ownId true) [] hcarries
  have hsecond := step_after (ownId true) [announcement true 0] hcarries'
  have hthird := step_after (ownId true) [announcement true 0, announcement false 1] hcarries'
  have htoOption : (Writer.start J true 0).toOption =
      some ⟨1, main, announcement true 0, .sendTo⟩ := by rw [hstart]; rfl
  have htoOption' : (Writer.start J false 1).toOption =
      some ⟨1, alt, announcement false 1, .sendTo⟩ := by rw [hstart']; rfl
  simp only [List.cons_append, List.nil_append] at hsecond hthird
  refine ⟨main, alt, hcarries, hcarries', ?_⟩
  simp [meeting, Machine.run, step, init, State.set, State.hear, hone, htoOption, htoOption',
    hfirst, hsecond, hthird]

theorem discovery_sound_meeting : ∃ s k, Machine.run (step JsonText.json) init meeting = some s ∧
    s.brokers true = some k ∧ k.reader.altBrokerList.length ≤ 1 ∧
      k.reader.altBrokerList.head? = some (announcement false 1) := by
  obtain ⟨main, alt, hmain, halt, s, hrun, hsome, harrived⟩ := run_meeting speaks_json
  obtain ⟨k, hk⟩ := Option.isSome_iff_exists.mp hsome
  obtain ⟨-, -, hlen, -, -, ds, hds, hhead⟩ := discovery_sound speaks_json hrun hk
  rw [harrived] at hds
  rcases hds with _ | ⟨h₁, _ | ⟨h₂, _ | ⟨h₃, hnil⟩⟩⟩
  cases hnil
  rw [carries_unique h₁ hmain, carries_unique h₂ halt, carries_unique h₃ halt] at hhead
  exact ⟨s, k, hrun, hk, hlen, hhead⟩

end BddsBroker.Sbdp.Network
