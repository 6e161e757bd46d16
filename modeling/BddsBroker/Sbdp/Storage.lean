import BddsBroker.Sbdp.Survival

/-! The two lists of brokers: what one announcement adds to them, and what they hold after
any calls of the handler, with calls among them that throw. -/

namespace BddsBroker.Sbdp

open PropertyTree Program FirstWins

variable {J : Json}

/-! ## One announcement -/

/-- What is assumed of the library on one tree: what it writes is read back, and consists of
bytes other than zero. -/
structure Sends (J : Json) (pt : Tree) : Prop where
  roundTrips : J.RoundTrips pt
  oneByte : ∀ text, J.writeJson pt = .ok text → OneByte text

/-- **Announcements round-trip.** The receiver appends the sender's broker to both lists, with
the first of its protocols and the first of its locators. -/
theorem handleReceiveFrom_toJson {d : AltDiscoveredBrokerData} {protocol : String}
    {protocols : List String} {locator : Locator} {locators : List Locator} {text : String}
    {r : Reader} (hprotocols : d.brokerProtocolKind = protocol :: protocols)
    (hlocators : d.brokerLocator = locator :: locators)
    (hints : Ints d.expectedClientNum d.connectedClientCount d.maximumNumClient locator.port)
    (hJ : ∀ pt, d.toTree = .ok pt → Sends J pt) (htext : d.toJson J = .ok text)
    (hlen : text.toList.length < maxLength) (hid : d.brokerId ≠ BrokerConfig.brokerId)
    (hnew : d.brokerId ∉ ids r.localStorage) :
    handleReceiveFrom J (datagram text) r = .ok () { r with
      localStorage := r.localStorage ++
        [{ d with brokerProtocolKind := [protocol], brokerLocator := [locator] }]
      altBrokerList := r.altBrokerList ++
        [{ d with brokerProtocolKind := [protocol], brokerLocator := [locator] }]
      outstanding := r.outstanding + 1 } := by
  have hbytes : OneByte text := by
    obtain ⟨pt, hpt, -⟩ := announces_toTree hprotocols hlocators hints
    exact (hJ pt hpt).oneByte text ((toJson_eq_ok hpt).mp htext)
  have hcarries := carries_toJson hprotocols hlocators hints
    (fun pt hpt => (hJ pt hpt).roundTrips) htext hbytes hlen
  have hignores : ¬ r.Ignores d.brokerId := not_or.mpr ⟨hid, hnew⟩
  apply Ends.eq_ok
  rw [ends_announced (announced_of_carries hcarries), if_neg hignores]
  exact ⟨rfl, rfl⟩

/-- A broker with two protocols and two locators. -/
def twofold : AltDiscoveredBrokerData :=
  ⟨"RSU_NY_UNIT_003", 7, 12, 250, ["MQTTv5.0", "DDS"],
    [⟨"192.168.0.3", 1883⟩, ⟨"10.0.0.3", 8883⟩]⟩

/-- What a receiver makes of it. -/
def twofoldHeard : AltDiscoveredBrokerData :=
  ⟨"RSU_NY_UNIT_003", 7, 12, 250, ["MQTTv5.0"], [⟨"192.168.0.3", 1883⟩]⟩

theorem sends_twofold {pt : Tree} (hpt : twofold.toTree = .ok pt) :
    Sends JsonText.json pt ∧ twofold.toJson JsonText.json = .ok (message twofold) := by
  have hwritten : twofold.toJson JsonText.json = .ok (message twofold) := toJson_eq_message rfl rfl
  refine ⟨⟨JsonText.roundTrips pt, ?_⟩, hwritten⟩
  intro text htext
  obtain rfl := Except.ok.inj (((toJson_eq_ok hpt).mpr htext).symm.trans hwritten)
  exact (sent_message (by decide +kernel)).1

theorem handleReceiveFrom_twofold :
    handleReceiveFrom JsonText.json (datagram (message twofold)) (.start "RSU_NY_UNIT_001") =
      .ok () ⟨"RSU_NY_UNIT_001", [twofoldHeard], [twofoldHeard], 2⟩ :=
  handleReceiveFrom_toJson (d := twofold) rfl rfl ⟨rfl, rfl, rfl, rfl⟩
    (fun _ hpt => (sends_twofold hpt).1) (sends_twofold rfl).2
    (sent_message (by decide +kernel)).2 (by decide) (by decide)

/-! ## Any calls -/

/-- The reader after a call of the handler, however the call ends: what it did before it
stopped stays done. A call whose behaviour C++ leaves open is taken to stop there. -/
def afterCall (J : Json) (r : Reader) (c : Completion) : Reader :=
  match handleReceiveFrom J c r with
  | .ok _ r' => r'
  | .error _ r' => r'

theorem of_ends {P : Reader → Prop} {r : Reader} {c : Completion}
    (h : Ends (handleReceiveFrom J c) r (fun _ => P) fun _ => P) : P (afterCall J r c) := by
  unfold Ends at h
  unfold afterCall
  cases hrun : handleReceiveFrom J c r with
  | ok a r' =>
    rw [hrun] at h
    exact h
  | error e r' =>
    rw [hrun] at h
    exact h

def afterCalls (J : Json) (r : Reader) (cs : List Completion) : Reader := cs.foldl (afterCall J) r

/-- Both lists hold these brokers. -/
def Lists (brokers : List AltDiscoveredBrokerData) (r : Reader) : Prop :=
  r.localStorage = brokers ∧ r.altBrokerList = brokers

/-- Both lists are the same, with each id once, and never with the constant. -/
structure NoDuplicates (r : Reader) : Prop where
  same : r.localStorage = r.altBrokerList
  nodup : (ids r.localStorage).Nodup
  self : BrokerConfig.brokerId ∉ ids r.localStorage

/-- There is an entry for each announced id, in the order of the first announcements, and it
is the first announcement. -/
structure OneOfEach (ds : List AltDiscoveredBrokerData) (r : Reader) : Prop
    extends NoDuplicates r where
  order : ids r.localStorage = ((ids ds).filter fun id => id ≠ BrokerConfig.brokerId).eraseDups
  first : ∀ e ∈ r.localStorage, first? AltDiscoveredBrokerData.brokerId ds e.brokerId = some e

/-- **Step lemma.** The lists stay the first announcements of each id, however a call ends. -/
theorem afterCall_lists {ds : List AltDiscoveredBrokerData} {r : Reader}
    (h : Lists (listed ds) r) (c : Completion) :
    Lists (listed (ds ++ (announced J c).toList)) (afterCall J r c) := by
  obtain ⟨hlocal, halt⟩ := h
  cases hannounced : announced J c with
  | none =>
    have hsame : SameLists r (afterCall J r c) :=
      of_ends (ends_of_not_announced hannounced r)
    rw [Option.toList_none, List.append_nil]
    exact ⟨hsame.1.trans hlocal, hsame.2.trans halt⟩
  | some d =>
    rw [Option.toList_some, listed_snoc, ← hlocal]
    apply of_ends
    rw [ends_announced hannounced]
    by_cases hignores : r.Ignores d.brokerId
    · have hignores' : d.brokerId = BrokerConfig.brokerId ∨ d.brokerId ∈ ids r.localStorage :=
        hignores
      rw [if_pos hignores, if_pos hignores']
      exact ⟨rfl, halt.trans hlocal.symm⟩
    · have hignores' : ¬ (d.brokerId = BrokerConfig.brokerId ∨ d.brokerId ∈ ids r.localStorage) :=
        hignores
      rw [if_neg hignores, if_neg hignores', hlocal]
      exact ⟨congrArg (· ++ [d]) hlocal, congrArg (· ++ [d]) halt⟩

/-- **Run lemma.** -/
theorem afterCalls_lists (J : Json) (b : String) (n : Nat) (cs : List Completion) :
    Lists (listed (cs.filterMap (announced J))) (afterCalls J ⟨b, [], [], n⟩ cs) := by
  induction cs using List.reverseRecOn with
  | nil => exact ⟨rfl, rfl⟩
  | append_singleton cs c ih =>
    rw [filterMap_snoc, afterCalls, List.foldl_append]
    exact afterCall_lists ih c

theorem ids_listed (ds : List AltDiscoveredBrokerData) :
    ids (listed ds) = ((ids ds).filter fun id => id ≠ BrokerConfig.brokerId).eraseDups := by
  rw [ids, listed, map_collect, ids, List.filter_map]
  rfl

theorem oneOfEach {ds : List AltDiscoveredBrokerData} {r : Reader} (h : Lists (listed ds) r) :
    OneOfEach ds r := by
  obtain ⟨hlocal, halt⟩ := h
  refine ⟨⟨hlocal.trans halt.symm, ?_, ?_⟩, ?_, ?_⟩
  · rw [hlocal]
    exact nodup_collect _
  · rw [hlocal]
    exact fun hmem => (mem_ids_listed.mp hmem).2 rfl
  · rw [hlocal, ids_listed]
  · intro e he
    exact (mem_listed.mp (hlocal ▸ he)).2

/-! ## Complete announcements -/

/-- After each call both lists hold one entry of each broker, in the order of the first
complete announcements, and a call that stops changes neither list. -/
structure Agrees (J : Json) (b : String) (n : Nat) (cs : List Completion) : Prop where
  lists : ∀ before, before <+: cs → ∃ ds, Picks (Carries J) before ds ∧
    OneOfEach ds (afterCalls J ⟨b, [], [], n⟩ before)
  stopped : ∀ (r r' : Reader) (c : Completion) (e : Stop),
    handleReceiveFrom J c r = .error e r' → SameLists r r'

/-- The first announcement of each id whose numbers begin their texts is complete: the texts
are the numbers. -/
def FirstsComplete (J : Json) (cs : List Completion) : Prop :=
  ∀ before c, before ++ [c] <+: cs → ∀ d, CarriesIn Begins J c d →
    d.brokerId ≠ BrokerConfig.brokerId →
    (∀ c' ∈ before, ∀ d', CarriesIn Begins J c' d' → d'.brokerId ≠ d.brokerId) → Carries J c d

open Classical in
/-- The broker of a complete announcement. -/
noncomputable def complete (J : Json) (c : Completion) : Option AltDiscoveredBrokerData :=
  (announced J c).filter fun d => decide (Carries J c d)

theorem complete_eq_some_iff {c : Completion} {d : AltDiscoveredBrokerData} :
    complete J c = some d ↔ Carries J c d := by
  simp only [complete, Option.filter_eq_some_iff, decide_eq_true_eq, and_iff_right_iff_imp]
  exact announced_of_carries

theorem picks_carries {cs : List Completion} {ds : List AltDiscoveredBrokerData} :
    Picks (Carries J) cs ds ↔ ds = cs.filterMap (complete J) :=
  picks_iff fun _ _ => complete_eq_some_iff

theorem mem_ids_announced {cs : List Completion} {brokerId : String} :
    brokerId ∈ ids (cs.filterMap (announced J)) ↔
      ∃ c ∈ cs, ∃ d, CarriesIn Begins J c d ∧ d.brokerId = brokerId := by
  simp only [ids, List.mem_map, List.mem_filterMap, announced_eq_some_iff]
  constructor
  · rintro ⟨d, ⟨c, hc, hd⟩, hid⟩
    exact ⟨c, hc, d, hd, hid⟩
  · rintro ⟨c, hc, d, hd, hid⟩
    exact ⟨d, ⟨c, hc, hd⟩, hid⟩

/-- An announcement that is not complete comes when its broker is known. -/
theorem listed_complete {cs : List Completion} (h : FirstsComplete J cs)
    {before : List Completion} (hbefore : before <+: cs) :
    listed (before.filterMap (announced J)) = listed (before.filterMap (complete J)) := by
  induction before using List.reverseRecOn with
  | nil => rfl
  | append_singleton before c ih =>
    have hlists := ih ((List.prefix_append before [c]).trans hbefore)
    rw [filterMap_snoc, filterMap_snoc]
    cases hannounced : announced J c with
    | none =>
      have hcomplete : complete J c = none := by
        rw [complete, hannounced]
        rfl
      rw [hcomplete, Option.toList_none, List.append_nil, List.append_nil, hlists]
    | some d =>
      by_cases hcarries : Carries J c d
      · rw [complete_eq_some_iff.mpr hcarries, Option.toList_some, listed_snoc, listed_snoc, hlists]
      · have hcomplete : complete J c = none := by
          rw [complete, hannounced, Option.filter_some_neg (by simpa using hcarries)]
        have hknown : d.brokerId = BrokerConfig.brokerId ∨
            d.brokerId ∈ ids (listed (before.filterMap (announced J))) := by
          by_contra hnew
          obtain ⟨hid, hnot⟩ := not_or.mp hnew
          refine hcarries (h before c hbefore d (announced_eq_some_iff.mp hannounced) hid ?_)
          intro c' hc' d' hd' hsame
          exact hnot (mem_ids_listed.mpr ⟨mem_ids_announced.mpr ⟨c', hc', d', hd', hsame⟩, hid⟩)
        rw [hcomplete, Option.toList_none, List.append_nil, Option.toList_some, listed_snoc,
          if_pos hknown, hlists]

theorem agrees_of_firstsComplete {cs : List Completion} (h : FirstsComplete J cs) (b : String)
    (n : Nat) {before : List Completion} (hbefore : before <+: cs) :
    ∃ ds, Picks (Carries J) before ds ∧ OneOfEach ds (afterCalls J ⟨b, [], [], n⟩ before) := by
  refine ⟨_, picks_carries.mpr rfl, oneOfEach ?_⟩
  rw [← listed_complete h hbefore]
  exact afterCalls_lists J b n before

theorem firstsComplete_of_agrees {b : String} {n : Nat} {cs : List Completion}
    (h : Agrees J b n cs) : FirstsComplete J cs := by
  intro before c hbefore d hd hid hnew
  by_contra hcarries
  have hannounced : announced J c = some d := announced_eq_some_iff.mpr hd
  obtain ⟨ds, hpicks, hone⟩ := h.lists (before ++ [c]) hbefore
  have hcomplete : complete J c = none := by
    rw [complete, hannounced, Option.filter_some_neg (by simpa using hcarries)]
  have hds : ds = before.filterMap (complete J) := by
    rw [picks_carries.mp hpicks, filterMap_snoc, hcomplete, Option.toList_none, List.append_nil]
  -- The handler has stored the broker, and no complete announcement has named it.
  have hstored : d.brokerId ∈ ids (afterCalls J ⟨b, [], [], n⟩ (before ++ [c])).localStorage := by
    rw [(afterCalls_lists J b n (before ++ [c])).1]
    exact mem_ids_listed.mpr
      ⟨mem_ids_announced.mpr ⟨c, by simp, d, hd, rfl⟩, hid⟩
  rw [hone.order, hds, List.mem_eraseDups] at hstored
  obtain ⟨d', hd', hsame⟩ := List.mem_map.mp (List.mem_of_mem_filter hstored)
  obtain ⟨c', hc', hcomplete'⟩ := List.mem_filterMap.mp hd'
  have hearlier : CarriesIn Begins J c' d' :=
    (complete_eq_some_iff.mp hcomplete').mono fun _ _ => Reads.begins
  exact hnew c' hc' d' hearlier hsame

/-- **Two lists, one content.** Both lists always hold the same brokers, each once. They are
those of the complete announcements, in the order of the first ones, just when the first
announcement that can be read of each id is complete. -/
theorem lists_agree_iff (J : Json) (b : String) (n : Nat) (cs : List Completion) :
    (Agrees J b n cs ↔ FirstsComplete J cs) ∧ NoDuplicates (afterCalls J ⟨b, [], [], n⟩ cs) := by
  refine ⟨⟨firstsComplete_of_agrees, fun h => ⟨fun before hbefore =>
    agrees_of_firstsComplete h b n hbefore, ?_⟩⟩,
    (oneOfEach (afterCalls_lists J b n cs)).toNoDuplicates⟩
  intro r r' c e hstop
  have hsame := thrown_sameLists J c r
  rw [Ends, hstop] at hsame
  exact hsame

/-! ## A port with a word behind it -/

theorem carries_twofold : Carries JsonText.json (datagram (message twofold)) twofoldHeard :=
  carries_message (d := twofold) rfl rfl ⟨rfl, rfl, rfl, rfl⟩ (sends_twofold rfl).2
    (by decide +kernel)

/-- The announcement of `twofold` with the port "1883abc". -/
def wordy : Tree :=
  match twofold.toTree with
  | .ok pt => pt.putString ["BROKER", "Locators", "port"] "1883abc"
  | .error _ => .empty

def wordyText : String := JsonText.textOfTree wordy

theorem sent_wordy : OneByte wordyText ∧ wordyText.toList.length < maxLength := by
  have hsendable :
      sendable ((JsonText.pieces 16 0 wordy).flatMap JsonText.render ++ ['\n']) = true := by
    decide +kernel
  exact sent_of_sendable String.toList_ofList hsendable

theorem readJson_wordy :
    JsonText.json.readJson (dataText (datagram wordyText).received) = .ok wordy := by
  rw [dataText_datagram sent_wordy.1]
  exact JsonText.roundTrips wordy _ (JsonText.writeJson_eq rfl)

/-- The handler reads it as the announcement of the port 1883. -/
theorem announced_wordy :
    announced JsonText.json (datagram wordyText) = some twofoldHeard := by
  have hlen : (datagram wordyText).received.length < maxLength := by
    simpa [datagram] using sent_wordy.2
  exact announced_eq_some_iff.mpr ⟨rfl, hlen, wordy, readJson_wordy,
    .intro rfl ⟨_, rfl, rfl⟩ ⟨_, rfl, rfl⟩ ⟨_, rfl, rfl⟩ rfl rfl rfl rfl ⟨_, rfl, rfl⟩⟩

theorem not_carries_wordy (d : AltDiscoveredBrokerData) :
    ¬ Carries JsonText.json (datagram wordyText) d := by
  rintro ⟨-, -, pt, hpt, hannounces⟩
  obtain rfl := Except.ok.inj (readJson_wordy.symm.trans hpt)
  obtain ⟨-, -, -, -, -, -, -, -, text, htext, hnumeral, -⟩ := hannounces
  obtain rfl : "1883abc" = text := Except.ok.inj htext
  exact absurd hnumeral.2 (by decide)

/-- The wordy announcement is stored before the alternative broker's, which is complete
before the next one. -/
theorem wordy_first :
    ids (afterCalls JsonText.json ⟨"RSU_NY_UNIT_001", [], [], 1⟩
        [datagram wordyText, datagram (message (alternative 0)),
          datagram (message twofold)]).localStorage = ["RSU_NY_UNIT_003", "RSU_NY_UNIT_002"] ∧
      Picks (Carries JsonText.json) [datagram wordyText, datagram (message (alternative 0)),
        datagram (message twofold)] [alternative 0, twofoldHeard] ∧
      ¬ Agrees JsonText.json "RSU_NY_UNIT_001" 1 [datagram wordyText,
        datagram (message (alternative 0)), datagram (message twofold)] := by
  have hpicks : Picks (Carries JsonText.json) [datagram wordyText,
      datagram (message (alternative 0)), datagram (message twofold)]
      [alternative 0, twofoldHeard] :=
    .other not_carries_wordy (.entry carries_zero (.entry carries_twofold .nil))
  have hids := (afterCalls_lists JsonText.json "RSU_NY_UNIT_001" 1 [datagram wordyText,
    datagram (message (alternative 0)), datagram (message twofold)]).1
  rw [List.filterMap_cons_some announced_wordy,
    List.filterMap_cons_some (announced_of_carries carries_zero),
    List.filterMap_cons_some (announced_of_carries carries_twofold), List.filterMap_nil] at hids
  refine ⟨by rw [hids]; decide, hpicks, ?_⟩
  intro hagrees
  obtain ⟨ds, hds, hone⟩ := hagrees.lists _ (List.prefix_refl _)
  obtain rfl := (picks_carries.mp hds).trans (picks_carries.mp hpicks).symm
  have horder := hone.order
  rw [hids] at horder
  exact absurd horder (by decide)

end BddsBroker.Sbdp
