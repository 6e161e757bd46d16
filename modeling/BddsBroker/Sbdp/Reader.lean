import BddsBroker.Lib.Machine
import BddsBroker.Sbdp.Announcement

/-! `SBDPBuiltinEndpointDataReader`: the receiver of the announcements. Its handler is
called when a receive completes, and arms the next one at its end. -/

namespace BddsBroker

/-- `BROKER_ID`. The name of its namespace is also a macro that expands to nothing, so
the unqualified name means this constant everywhere. -/
def BrokerConfig.brokerId : String := "RSU_NY_UNIT_001"

def BrokerAltConfig.brokerId : String := "RSU_NY_UNIT_002"

namespace Sbdp

open PropertyTree Program

/-- The reader, with the global `alt_broker_list`, that nothing else changes. -/
structure Reader where
  /-- The id given to the constructor. -/
  brokerId : String
  localStorage : List AltDiscoveredBrokerData
  altBrokerList : List AltDiscoveredBrokerData
  /-- The calls of `async_receive_from` that have not completed. -/
  outstanding : Nat
  deriving DecidableEq, Repr

/-- The arguments of the handler: an error, or the bytes of a datagram in `data_`. -/
structure Completion where
  error : Bool
  received : List UInt8
  deriving DecidableEq, Repr

def maxLength : Nat := 1024

/-- What `str_stream << data_` writes: the characters before the first zero. -/
def dataText (received : List UInt8) : String :=
  String.ofList ((received.takeWhile fun byte => byte ≠ 0).map fun byte => Char.ofNat byte.toNat)

namespace Reader

/-- The constructor. -/
def start (brokerId : String) : Reader := ⟨brokerId, [], [], 1⟩

def addBroker (altBroker : AltDiscoveredBrokerData) (r : Reader) : Reader :=
  { r with localStorage := r.localStorage ++ [altBroker] }

/-- `AlternativeServerInfo::add_broker`. -/
def addAltBroker (broker : AltDiscoveredBrokerData) (r : Reader) : Reader :=
  { r with altBrokerList := r.altBrokerList ++ [broker] }

def asyncReceiveFrom (r : Reader) : Reader := { r with outstanding := r.outstanding + 1 }

end Reader

/-- The loop of `find_broker`, with the index where it stands. -/
def findBrokerFrom (bId : String) : Int → List AltDiscoveredBrokerData → Int
  | _, [] => -1
  | i, temp :: rest => if bId = temp.brokerId then i else findBrokerFrom bId (i + 1) rest

def findBroker (bId : String) (storage : List AltDiscoveredBrokerData) : Int :=
  findBrokerFrom bId 0 storage

/-- The handler from the comparison on: the id is compared with the constant of the
configuration, and not with the id of this broker, which the local `broker_id` hides. -/
def store (brokerId : String) (pt : Tree) : EStateM Stop Reader Unit :=
  if brokerId = BrokerConfig.brokerId then return ()
  else do
    let r ← get
    if findBroker brokerId r.localStorage = -1 then
      let received ← ofExcept id (receivedBroker brokerId pt)
      modify (Reader.addBroker received)
      modify (Reader.addAltBroker received)
    else return ()

def handleReceiveFrom (J : Json) (c : Completion) : EStateM Stop Reader Unit :=
  if c.error then return ()
  -- `data_[bytes_recvd] = '\0'`
  else if maxLength ≤ c.received.length then throw .writesPastEnd
  else do
    let pt ← ofExcept id (call (J.readJson (dataText c.received)))
    let brokerId ← ofExcept id (call (pt.getString ["BROKER", "BrokerID"]))
    store brokerId pt
    modify Reader.asyncReceiveFrom

/-- A receive completes. The step is refused when none is outstanding, and when the handler
does not return: an exception leaves `run` of the `io_context` and ends the process. -/
def step (J : Json) (r : Reader) (c : Completion) : Option Reader :=
  match r.outstanding with
  | 0 => none
  | n + 1 =>
      match handleReceiveFrom J c { r with outstanding := n } with
      | .ok _ r' => some r'
      | .error _ _ => none

/-! ## The handler -/

def ids (brokers : List AltDiscoveredBrokerData) : List String :=
  brokers.map AltDiscoveredBrokerData.brokerId

theorem findBrokerFrom_eq (bId : String) {i : Int} (hi : 0 ≤ i)
    (storage : List AltDiscoveredBrokerData) :
    findBrokerFrom bId i storage = -1 ↔ bId ∉ ids storage := by
  induction storage generalizing i with
  | nil => simp [findBrokerFrom, ids]
  | cons temp rest ih =>
    have hrest := ih (i := i + 1) (by omega)
    unfold findBrokerFrom
    by_cases h : bId = temp.brokerId
    · rw [if_pos h]
      simp only [ids, List.map_cons, List.mem_cons, h, true_or, not_true_eq_false, iff_false]
      omega
    · rw [if_neg h, hrest]
      simp [ids, h]

theorem findBroker_eq (bId : String) (storage : List AltDiscoveredBrokerData) :
    findBroker bId storage = -1 ↔ bId ∉ ids storage :=
  findBrokerFrom_eq bId (Int.le_refl 0) storage

namespace Reader

/-- Announcements of this id are not stored: it is the constant, or it is known. -/
def Ignores (r : Reader) (brokerId : String) : Prop :=
  brokerId = BrokerConfig.brokerId ∨ brokerId ∈ ids r.localStorage

instance (r : Reader) (brokerId : String) : Decidable (r.Ignores brokerId) :=
  inferInstanceAs (Decidable (_ ∨ _))

def add (d : AltDiscoveredBrokerData) (r : Reader) : Reader := (r.addBroker d).addAltBroker d

end Reader

theorem ends_store {brokerId : String} {pt : Tree} {r : Reader} {Q : Unit → Reader → Prop}
    {E : Stop → Reader → Prop} :
    Ends (store brokerId pt) r Q E ↔
      if r.Ignores brokerId then Q () r
      else
        match receivedBroker brokerId pt with
        | .error e => E e r
        | .ok d => Q () (r.add d) := by
  unfold store
  by_cases hid : brokerId = BrokerConfig.brokerId
  · have hignores : r.Ignores brokerId := .inl hid
    rw [if_pos hid, if_pos hignores]
    exact ends_pure
  · rw [if_neg hid, ends_bind, ends_get]
    by_cases hmem : brokerId ∈ ids r.localStorage
    · have hignores : r.Ignores brokerId := .inr hmem
      rw [if_neg (fun h => (findBroker_eq _ _).mp h hmem), if_pos hignores]
      exact ends_pure
    · have hignores : ¬ r.Ignores brokerId := not_or.mpr ⟨hid, hmem⟩
      rw [if_pos ((findBroker_eq _ _).mpr hmem), if_neg hignores]
      cases receivedBroker brokerId pt with
      | error e => simp
      | ok d => simp [Reader.add]

/-- **What the handler does.** -/
theorem ends_handleReceiveFrom {J : Json} {c : Completion} {r : Reader}
    {Q : Unit → Reader → Prop} {E : Stop → Reader → Prop} :
    Ends (handleReceiveFrom J c) r Q E ↔
      if c.error = true then Q () r
      else if maxLength ≤ c.received.length then E .writesPastEnd r
      else
        match J.readJson (dataText c.received) with
        | .error what => E (.thrown what) r
        | .ok pt =>
          match pt.getString ["BROKER", "BrokerID"] with
          | .error what => E (.thrown what) r
          | .ok brokerId =>
            if r.Ignores brokerId then Q () r.asyncReceiveFrom
            else
              match receivedBroker brokerId pt with
              | .error e => E e r
              | .ok d => Q () (r.add d).asyncReceiveFrom := by
  unfold handleReceiveFrom
  split
  · exact ends_pure
  · split
    · exact ends_throw
    · cases J.readJson (dataText c.received) with
      | error what => simp [call, Except.mapError]
      | ok pt =>
        cases hid : pt.getString ["BROKER", "BrokerID"] with
        | error what => simp [call, Except.mapError, hid]
        | ok brokerId => simp [call, Except.mapError, hid, ends_store]

/-- The two lists are as they were. -/
def SameLists (r r' : Reader) : Prop :=
  r'.localStorage = r.localStorage ∧ r'.altBrokerList = r.altBrokerList

/-- The datagram is an announcement of that broker, with such texts for the numbers. -/
def CarriesIn (Numeral : String → Int → Prop) (J : Json) (c : Completion)
    (d : AltDiscoveredBrokerData) : Prop :=
  c.error = false ∧ c.received.length < maxLength ∧
    ∃ pt, J.readJson (dataText c.received) = .ok pt ∧ AnnouncesIn Numeral pt d

theorem CarriesIn.mono {P Q : String → Int → Prop} (hPQ : ∀ text n, P text n → Q text n)
    {J : Json} {c : Completion} {d : AltDiscoveredBrokerData} (h : CarriesIn P J c d) :
    CarriesIn Q J c d := by
  obtain ⟨herror, hlen, pt, hpt, hannounces⟩ := h
  exact ⟨herror, hlen, pt, hpt, hannounces.mono hPQ⟩

/-- The broker of a datagram, when the handler reads each of its fields. -/
def announced (J : Json) (c : Completion) : Option AltDiscoveredBrokerData :=
  if c.error = true ∨ maxLength ≤ c.received.length then none
  else
    match J.readJson (dataText c.received) with
    | .error _ => none
    | .ok pt =>
      match pt.getString ["BROKER", "BrokerID"] with
      | .error _ => none
      | .ok brokerId => (receivedBroker brokerId pt).toOption

/-- The handler reads the announcements whose numbers begin their texts. -/
theorem announced_eq_some_iff {J : Json} {c : Completion} {d : AltDiscoveredBrokerData} :
    announced J c = some d ↔ CarriesIn Begins J c d := by
  unfold announced
  constructor
  · intro h
    split at h
    · cases h
    · rename_i hdatagram
      obtain ⟨herror, hlen⟩ := not_or.mp hdatagram
      split at h
      · cases h
      · rename_i pt hpt
        split at h
        · cases h
        · rename_i brokerId hid
          cases hbroker : receivedBroker brokerId pt with
          | error e =>
            rw [hbroker] at h
            cases h
          | ok d' =>
            rw [hbroker] at h
            obtain rfl := Option.some.inj h
            obtain ⟨-, hannounces⟩ := announces_receivedBroker hid hbroker
            exact ⟨by simpa using herror, by omega, pt, hpt, hannounces⟩
  · rintro ⟨herror, hlen, pt, hpt, hannounces⟩
    rw [if_neg (by simp [herror]; omega), hpt]
    simp only [announces_id hannounces, receivedBroker_eq hannounces]
    rfl

/-- A datagram that announces a broker is ignored or stored. -/
theorem ends_announced {J : Json} {c : Completion} {d : AltDiscoveredBrokerData} {r : Reader}
    {Q : Unit → Reader → Prop} {E : Stop → Reader → Prop} (h : announced J c = some d) :
    Ends (handleReceiveFrom J c) r Q E ↔
      if r.Ignores d.brokerId then Q () r.asyncReceiveFrom
      else Q () (r.add d).asyncReceiveFrom := by
  obtain ⟨herror, hlen, pt, hpt, hannounces⟩ := announced_eq_some_iff.mp h
  rw [ends_handleReceiveFrom, if_neg (by simp [herror]), if_neg (by omega), hpt]
  simp only [announces_id hannounces, receivedBroker_eq hannounces]

/-- Any other completion changes neither list, however the handler ends. -/
theorem ends_of_not_announced {J : Json} {c : Completion} (h : announced J c = none)
    (r : Reader) :
    Ends (handleReceiveFrom J c) r (fun _ => SameLists r) fun _ => SameLists r := by
  rw [ends_handleReceiveFrom]
  split
  · exact ⟨rfl, rfl⟩
  · rename_i herror
    split
    · exact ⟨rfl, rfl⟩
    · rename_i hlen
      split
      · exact ⟨rfl, rfl⟩
      · rename_i pt hpt
        split
        · exact ⟨rfl, rfl⟩
        · rename_i brokerId hid
          split
          · exact ⟨rfl, rfl⟩
          · split
            · exact ⟨rfl, rfl⟩
            · rename_i d hbroker
              have hsome : announced J c = some d := announced_eq_some_iff.mpr
                ⟨by simpa using herror, by omega, pt, hpt,
                  (announces_receivedBroker hid hbroker).2⟩
              rw [h] at hsome
              cases hsome

/-- A step of an armed reader, as a postcondition of the handler. -/
theorem step_eq_some_iff {J : Json} {b : String} {l a : List AltDiscoveredBrokerData}
    {c : Completion} {r' : Reader} :
    step J ⟨b, l, a, 1⟩ c = some r' ↔
      Ends (handleReceiveFrom J c) ⟨b, l, a, 0⟩ (fun _ r => r = r') fun _ _ => False := by
  show (match handleReceiveFrom J c ⟨b, l, a, 0⟩ with
    | .ok _ r => some r
    | .error _ _ => none) = some r' ↔ _
  unfold Ends
  cases handleReceiveFrom J c ⟨b, l, a, 0⟩ <;> simp

end Sbdp

end BddsBroker
