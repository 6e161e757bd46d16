import BddsBroker.Lib.FirstWins
import BddsBroker.Sbdp.Reader

/-! What the reader knows after a sequence of complete announcements: the first one of each
id, other than the constant of the configuration. -/

namespace BddsBroker.Sbdp

open PropertyTree Program FirstWins

variable {J : Json}

/-- The datagram is a complete announcement of that broker. -/
abbrev Carries (J : Json) : Completion → AltDiscoveredBrokerData → Prop := CarriesIn Reads J

/-- The brokers that are stored. -/
def listed (ds : List AltDiscoveredBrokerData) : List AltDiscoveredBrokerData :=
  collect AltDiscoveredBrokerData.brokerId
    (ds.filter fun d => d.brokerId ≠ BrokerConfig.brokerId)

/-- The reader of that broker after those announcements. -/
def Reader.after (b : String) (ds : List AltDiscoveredBrokerData) : Reader :=
  ⟨b, listed ds, listed ds, 1⟩

/-- The broker itself is in neither list, and every other broker is in both. -/
structure ListsOthers (b : String) (ds : List AltDiscoveredBrokerData) (r : Reader) : Prop where
  self : b ∉ ids r.localStorage ∧ b ∉ ids r.altBrokerList
  others : ∀ brokerId ∈ ids ds, brokerId ≠ b →
    brokerId ∈ ids r.localStorage ∧ brokerId ∈ ids r.altBrokerList

/-- What is stored of a broker is its last announcement. -/
def Current (ds : List AltDiscoveredBrokerData) (r : Reader) : Prop :=
  ∀ e ∈ r.altBrokerList, last? AltDiscoveredBrokerData.brokerId ds e.brokerId = some e

/-! ## Runs -/

theorem announced_of_carries {c : Completion} {d : AltDiscoveredBrokerData}
    (h : Carries J c d) : announced J c = some d :=
  announced_eq_some_iff.mpr (h.mono fun _ _ => Reads.begins)

theorem carries_unique {c : Completion} {d d' : AltDiscoveredBrokerData} (h : Carries J c d)
    (h' : Carries J c d') : d = d' :=
  Option.some.inj ((announced_of_carries h).symm.trans (announced_of_carries h'))

/-- A complete announcement is ignored or stored, and the next receive is armed. -/
theorem step_carries {b : String} {l a : List AltDiscoveredBrokerData} {c : Completion}
    {d : AltDiscoveredBrokerData} (h : Carries J c d) :
    step J ⟨b, l, a, 1⟩ c = some
      (if d.brokerId = BrokerConfig.brokerId ∨ d.brokerId ∈ ids l then ⟨b, l, a, 1⟩
        else ⟨b, l ++ [d], a ++ [d], 1⟩) := by
  rw [step_eq_some_iff, ends_announced (announced_of_carries h)]
  by_cases hignores : d.brokerId = BrokerConfig.brokerId ∨ d.brokerId ∈ ids l
  · have hignores' : Reader.Ignores ⟨b, l, a, 0⟩ d.brokerId := hignores
    rw [if_pos hignores', if_pos hignores]
    rfl
  · have hignores' : ¬ Reader.Ignores ⟨b, l, a, 0⟩ d.brokerId := hignores
    rw [if_neg hignores', if_neg hignores]
    rfl

theorem listed_snoc (ds : List AltDiscoveredBrokerData) (d : AltDiscoveredBrokerData) :
    listed (ds ++ [d]) =
      if d.brokerId = BrokerConfig.brokerId ∨ d.brokerId ∈ ids (listed ds) then listed ds
      else listed ds ++ [d] := by
  unfold listed
  rw [List.filter_append]
  by_cases hid : d.brokerId = BrokerConfig.brokerId
  · simp [hid]
  · have hfilter : [d].filter (fun d => d.brokerId ≠ BrokerConfig.brokerId) = [d] := by
      simp [hid]
    rw [hfilter, collect_snoc, insertNew]
    simp only [hid, false_or]
    rfl

theorem step_after (b : String) (ds : List AltDiscoveredBrokerData) {c : Completion}
    {d : AltDiscoveredBrokerData} (h : Carries J c d) :
    step J (.after b ds) c = some (.after b (ds ++ [d])) := by
  unfold Reader.after
  rw [step_carries h, listed_snoc]
  split <;> rfl

/-- **Run lemma.** Announcements are always received, and these are the lists. -/
theorem run_after {b : String} {cs : List Completion} {ds : List AltDiscoveredBrokerData}
    (h : List.Forall₂ (Carries J) cs ds) (before : List AltDiscoveredBrokerData) :
    Machine.run (step J) (.after b before) cs = some (.after b (before ++ ds)) := by
  induction h generalizing before with
  | nil => simp
  | cons hcd _ ih =>
    rw [Machine.run, step_after b before hcd, Option.bind_some, ih, List.append_assoc,
      List.singleton_append]

/-! ## The lists -/

theorem mem_ids_listed {ds : List AltDiscoveredBrokerData} {brokerId : String} :
    brokerId ∈ ids (listed ds) ↔ brokerId ∈ ids ds ∧ brokerId ≠ BrokerConfig.brokerId := by
  unfold ids listed
  rw [key_mem_collect, List.mem_map, List.mem_map]
  constructor
  · rintro ⟨d, hd, rfl⟩
    obtain ⟨hmem, hid⟩ := List.mem_filter.mp hd
    exact ⟨⟨d, hmem, rfl⟩, by simpa using hid⟩
  · rintro ⟨⟨d, hd, rfl⟩, hid⟩
    exact ⟨d, List.mem_filter.mpr ⟨hd, by simpa using hid⟩, rfl⟩

theorem mem_listed {ds : List AltDiscoveredBrokerData} {e : AltDiscoveredBrokerData} :
    e ∈ listed ds ↔ e.brokerId ≠ BrokerConfig.brokerId ∧
      first? AltDiscoveredBrokerData.brokerId ds e.brokerId = some e := by
  unfold listed
  rw [mem_collect_iff, first?_filter fun brokerId => brokerId ≠ BrokerConfig.brokerId]
  by_cases hid : e.brokerId = BrokerConfig.brokerId
  · simp [hid]
  · simp [hid]

/-- The reader of the broker `b` filters the constant and not `b`. -/
theorem listsOthers_iff (b : String) {cs : List Completion} {ds : List AltDiscoveredBrokerData}
    (h : List.Forall₂ (Carries J) cs ds) :
    ∃ r, Machine.run (step J) (.start b) cs = some r ∧
      (ListsOthers b ds r ↔
        b = BrokerConfig.brokerId ∨ (b ∉ ids ds ∧ BrokerConfig.brokerId ∉ ids ds)) := by
  refine ⟨.after b ds, run_after h [], ?_⟩
  constructor
  · rintro ⟨⟨hself, -⟩, hothers⟩
    by_cases hb : b = BrokerConfig.brokerId
    · exact .inl hb
    · refine .inr ⟨fun hmem => hself (mem_ids_listed.mpr ⟨hmem, hb⟩), fun hmem => ?_⟩
      exact (mem_ids_listed.mp (hothers _ hmem (Ne.symm hb)).1).2 rfl
  · rintro (rfl | ⟨hb, hconst⟩)
    · have hself : BrokerConfig.brokerId ∉ ids (listed ds) := fun hmem =>
        (mem_ids_listed.mp hmem).2 rfl
      refine ⟨⟨hself, hself⟩, ?_⟩
      intro brokerId hmem hne
      exact ⟨mem_ids_listed.mpr ⟨hmem, hne⟩, mem_ids_listed.mpr ⟨hmem, hne⟩⟩
    · have hself : b ∉ ids (listed ds) := fun hmem => hb (mem_ids_listed.mp hmem).1
      refine ⟨⟨hself, hself⟩, ?_⟩
      intro brokerId hmem _
      have hne : brokerId ≠ BrokerConfig.brokerId := fun heq => hconst (heq ▸ hmem)
      exact ⟨mem_ids_listed.mpr ⟨hmem, hne⟩, mem_ids_listed.mpr ⟨hmem, hne⟩⟩

/-- A later announcement of a broker is not looked at. -/
theorem current_iff (b : String) {cs : List Completion} {ds : List AltDiscoveredBrokerData}
    (h : List.Forall₂ (Carries J) cs ds) :
    ∃ r, Machine.run (step J) (.start b) cs = some r ∧
      (Current ds r ↔ ∀ d ∈ ds, d.brokerId ≠ BrokerConfig.brokerId →
        first? AltDiscoveredBrokerData.brokerId ds d.brokerId =
          last? AltDiscoveredBrokerData.brokerId ds d.brokerId) := by
  refine ⟨.after b ds, run_after h [], ?_⟩
  constructor
  · intro hcurrent d hd hid
    have hsome : (first? AltDiscoveredBrokerData.brokerId ds d.brokerId).isSome :=
      first?_isSome_iff.mpr (List.mem_map_of_mem hd)
    obtain ⟨e, he⟩ := Option.isSome_iff_exists.mp hsome
    have hkey := key_of_first? he
    have hlast := hcurrent e (mem_listed.mpr ⟨hkey ▸ hid, hkey ▸ he⟩)
    rw [he, ← hkey, hlast]
  · intro hsame e he
    obtain ⟨hid, hfirst⟩ := mem_listed.mp he
    rw [← hsame e (mem_of_first? hfirst) hid, hfirst]

/-! ## What the brokers send

The writer sends the text of `to_json` as it is. -/

def datagram (text : String) : Completion :=
  ⟨false, text.toList.map fun c => UInt8.ofNat c.toNat⟩

/-- Characters of one byte, and no zero among them. -/
def OneByte (text : String) : Prop := ∀ c ∈ text.toList, 0 < c.toNat ∧ c.toNat < 256

theorem dataText_datagram {text : String} (h : OneByte text) :
    dataText (datagram text).received = text := by
  have hchars : ∀ cs : List Char, (∀ c ∈ cs, 0 < c.toNat ∧ c.toNat < 256) →
      ((cs.map fun c => UInt8.ofNat c.toNat).takeWhile fun byte => byte ≠ 0).map
        (fun byte => Char.ofNat byte.toNat) = cs := by
    intro cs hcs
    induction cs with
    | nil => rfl
    | cons c cs ih =>
      obtain ⟨⟨hpos, hlt⟩, hcs⟩ := List.forall_mem_cons.mp hcs
      have hbyte : (UInt8.ofNat c.toNat).toNat = c.toNat := UInt8.toNat_ofNat_of_lt hlt
      have hzero : UInt8.ofNat c.toNat ≠ 0 := by
        intro h
        rw [h] at hbyte
        exact absurd hbyte (Nat.ne_of_lt hpos)
      rw [List.map_cons, List.takeWhile_cons_of_pos (by simpa using hzero), List.map_cons, hbyte,
        ih hcs, Char.ofNat_toNat]
  rw [dataText, datagram, hchars _ h, String.ofList_toList]

/-- **A broker's own message is a complete announcement of it.** -/
theorem carries_toJson {d : AltDiscoveredBrokerData} {protocol : String} {protocols : List String}
    {locator : Locator} {locators : List Locator}
    (hprotocols : d.brokerProtocolKind = protocol :: protocols)
    (hlocators : d.brokerLocator = locator :: locators)
    (h : Ints d.expectedClientNum d.connectedClientCount d.maximumNumClient locator.port)
    (hJ : ∀ pt, d.toTree = .ok pt → J.RoundTrips pt) {text : String}
    (htext : d.toJson J = .ok text) (hbytes : OneByte text)
    (hlen : text.toList.length < maxLength) :
    Carries J (datagram text)
      { d with brokerProtocolKind := [protocol], brokerLocator := [locator] } := by
  refine ⟨rfl, by simpa [datagram] using hlen, ?_⟩
  rw [dataText_datagram hbytes]
  exact announces_toJson hprotocols hlocators h hJ htext

/-- What the alternative broker announces with that many clients. -/
def alternative (connectedClientCount : Int) : AltDiscoveredBrokerData :=
  .make BrokerAltConfig.brokerId 0 connectedClientCount 250 "MQTTv5.0" "192.168.0.200" 32888

/-- The characters of its message. -/
def characters (d : AltDiscoveredBrokerData) : List Char :=
  match d.toTree with
  | .ok pt => (JsonText.pieces 16 0 pt).flatMap JsonText.render ++ ['\n']
  | .error _ => []

def message (d : AltDiscoveredBrokerData) : String := String.ofList (characters d)

def sendable (cs : List Char) : Bool :=
  decide (cs.length < maxLength) && cs.all fun c => decide (0 < c.toNat ∧ c.toNat < 256)

theorem toJson_eq_message {d : AltDiscoveredBrokerData} {pt : Tree} (hpt : d.toTree = .ok pt)
    (hwritable : JsonText.writable 16 0 pt = true) :
    d.toJson JsonText.json = .ok (message d) := by
  rw [toJson_eq_ok hpt, JsonText.writeJson_eq hwritable, message, characters, hpt]
  rfl

theorem sent_of_sendable {text : String} {cs : List Char} (htext : text.toList = cs)
    (h : sendable cs = true) : OneByte text ∧ text.toList.length < maxLength := by
  simp only [sendable, Bool.and_eq_true, decide_eq_true_eq, List.all_eq_true] at h
  rw [OneByte, htext]
  exact ⟨h.2, h.1⟩

/-- The message is one datagram. -/
theorem sent_message {d : AltDiscoveredBrokerData} (h : sendable (characters d) = true) :
    OneByte (message d) ∧ (message d).toList.length < maxLength :=
  sent_of_sendable String.toList_ofList h

/-- What the library writes of the announcement is received as one. -/
theorem carries_message {d : AltDiscoveredBrokerData} {protocol : String}
    {protocols : List String} {locator : Locator} {locators : List Locator}
    (hprotocols : d.brokerProtocolKind = protocol :: protocols)
    (hlocators : d.brokerLocator = locator :: locators)
    (hints : Ints d.expectedClientNum d.connectedClientCount d.maximumNumClient locator.port)
    (hwritten : d.toJson JsonText.json = .ok (message d)) (h : sendable (characters d) = true) :
    Carries JsonText.json (datagram (message d))
      { d with brokerProtocolKind := [protocol], brokerLocator := [locator] } := by
  obtain ⟨hbytes, hlen⟩ := sent_message h
  exact carries_toJson hprotocols hlocators hints (fun pt _ => JsonText.roundTrips pt) hwritten
    hbytes hlen

theorem carries_alternative {n : Int} (hn : isInt32 n = true)
    (h : sendable (characters (alternative n)) = true) :
    Carries JsonText.json (datagram (message (alternative n))) (alternative n) :=
  carries_message (d := alternative n) rfl rfl ⟨rfl, hn, rfl, rfl⟩ (toJson_eq_message rfl rfl) h

theorem carries_zero : Carries JsonText.json (datagram (message (alternative 0))) (alternative 0) :=
  carries_alternative rfl (by decide +kernel)

theorem carries_one : Carries JsonText.json (datagram (message (alternative 1))) (alternative 1) :=
  carries_alternative rfl (by decide +kernel)

/-- The alternative broker, before and after a client connects to it. -/
theorem carries_both : List.Forall₂ (Carries JsonText.json)
    [datagram (message (alternative 0)), datagram (message (alternative 1))]
    [alternative 0, alternative 1] :=
  .cons carries_zero (.cons carries_one .nil)

/-- For the broker of the constant that is as it should be. -/
theorem alternative_listed :
    ∃ r, Machine.run (step JsonText.json) (.start BrokerConfig.brokerId)
        [datagram (message (alternative 0)), datagram (message (alternative 1))] = some r ∧
      ListsOthers BrokerConfig.brokerId [alternative 0, alternative 1] r := by
  obtain ⟨r, hrun, hiff⟩ := listsOthers_iff BrokerConfig.brokerId carries_both
  exact ⟨r, hrun, hiff.mpr (.inl rfl)⟩

/-- The alternative broker lists itself. -/
theorem alternative_lists_itself :
    ∃ r, Machine.run (step JsonText.json) (.start BrokerAltConfig.brokerId)
        [datagram (message (alternative 0))] = some r ∧
      BrokerAltConfig.brokerId ∈ ids r.localStorage ∧
      BrokerAltConfig.brokerId ∈ ids r.altBrokerList ∧
      ¬ ListsOthers BrokerAltConfig.brokerId [alternative 0] r := by
  have hmem : BrokerAltConfig.brokerId ∈ ids (listed [alternative 0]) :=
    mem_ids_listed.mpr ⟨List.mem_singleton_self _, by decide⟩
  exact ⟨_, run_after (.cons carries_zero .nil) [], hmem, hmem, fun h => h.self.1 hmem⟩

/-- A third broker. -/
def neighbour : AltDiscoveredBrokerData :=
  .make "RSU_NY_UNIT_003" 5 2 250 "MQTTv5.0" "192.168.0.3" 1883

theorem carries_neighbour : Carries JsonText.json (datagram (message neighbour)) neighbour :=
  carries_message (d := neighbour) rfl rfl ⟨rfl, rfl, rfl, rfl⟩ (toJson_eq_message rfl rfl)
    (by decide +kernel)

/-- An announcement that comes again is current. -/
theorem alternative_current :
    ∃ r, Machine.run (step JsonText.json) (.start BrokerConfig.brokerId)
        [datagram (message (alternative 1)), datagram (message neighbour),
          datagram (message (alternative 1))] = some r ∧
      Current [alternative 1, neighbour, alternative 1] r := by
  obtain ⟨r, hrun, hiff⟩ := current_iff BrokerConfig.brokerId
    (.cons carries_one (.cons carries_neighbour (.cons carries_one .nil)))
  exact ⟨r, hrun, hiff.mpr (by decide)⟩

/-- The client that connected is not counted. -/
theorem alternative_not_current :
    ∃ r, Machine.run (step JsonText.json) (.start BrokerConfig.brokerId)
        [datagram (message (alternative 0)), datagram (message (alternative 1))] = some r ∧
      r.altBrokerList = [alternative 0] ∧ ¬ Current [alternative 0, alternative 1] r := by
  refine ⟨_, run_after carries_both [], by decide, ?_⟩
  intro hcurrent
  have hlast := hcurrent (alternative 0) (by decide)
  exact absurd hlast (by decide)

end BddsBroker.Sbdp
