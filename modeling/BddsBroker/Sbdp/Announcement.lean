import Mathlib.Data.List.TakeWhile
import BddsBroker.Lib.JsonText
import BddsBroker.Lib.Program

/-! The announcement of a broker, `AltDiscoveredBrokerData`: how it is written as JSON, and
how the receiver takes it apart. -/

namespace BddsBroker.Sbdp

open PropertyTree Program

structure Locator where
  ip : String
  port : Int
  deriving DecidableEq, Repr

structure AltDiscoveredBrokerData where
  brokerId : String
  expectedClientNum : Int
  connectedClientCount : Int
  maximumNumClient : Int
  brokerProtocolKind : List String
  brokerLocator : List Locator
  deriving DecidableEq, Repr

namespace AltDiscoveredBrokerData

/-- The constructor from the fields of an announcement. -/
def make (brokerId : String) (brokerExpectedClientNum brokerConnectedClientNum
    brokerMaximumClientNum : Int) (brokerProtocol brokerIp : String) (brokerPort : Int) :
    AltDiscoveredBrokerData :=
  ⟨brokerId, brokerExpectedClientNum, brokerConnectedClientNum, brokerMaximumClientNum,
    [brokerProtocol], [⟨brokerIp, brokerPort⟩]⟩

end AltDiscoveredBrokerData

/-! ## Numbers -/

/-- `isspace`. -/
def isSpace (c : Char) : Bool :=
  c == ' ' || c == '\t' || c == '\n' || c == '\x0b' || c == '\x0c' || c == '\r'

/-- The sign, and what stands behind it. -/
def takeSign : List Char → Int × List Char
  | '-' :: cs => (-1, cs)
  | '+' :: cs => (1, cs)
  | cs => (1, cs)

def isInt32 (n : Int) : Bool := -2 ^ 31 ≤ n && n < 2 ^ 31

/-- `std::stoi`: blanks, a sign and digits are read, and what follows is ignored. -/
def stoi (text : String) : Except String Int :=
  let (sign, cs) := takeSign (text.toList.dropWhile isSpace)
  let digits := cs.takeWhile Char.isDigit
  if digits = [] then .error "invalid stoi argument"
  else
    let n := sign * (Nat.ofDigitChars 10 digits 0 : Nat)
    if isInt32 n then .ok n else .error "stoi argument out of range"

/-- The text is a number: a sign, if any, and digits. -/
def IsNumeral (text : String) : Prop :=
  (takeSign text.toList).2 ≠ [] ∧ (takeSign text.toList).2.all Char.isDigit = true

/-- The text is that number, which fits. -/
def Reads (text : String) (n : Int) : Prop := IsNumeral text ∧ stoi text = .ok n

/-- The text begins with that number, which fits: blanks may stand before it, and anything
behind it. -/
def Begins (text : String) (n : Int) : Prop := stoi text = .ok n

theorem Reads.begins {text : String} {n : Int} (h : Reads text n) : Begins text n := h.2

/-- A text that begins with a number is taken for the number. -/
example : stoi " 12 clients" = .ok 12 := by decide

/-! ## The two ways -/

/-- Why the code stops: an exception, a write behind the end of `data_`, or a read of
the end of a container. C++ promises nothing after the last two. -/
inductive Stop
  | thrown (what : String)
  | writesPastEnd
  | readsEnd
  deriving DecidableEq, Repr

def call {α : Type} : Except String α → Except Stop α := Except.mapError .thrown

/-- The tree that `to_json` builds, with the first locator. -/
def AltDiscoveredBrokerData.toTree (d : AltDiscoveredBrokerData) : Except Stop Tree :=
  match d.brokerLocator with
  | [] => .error .readsEnd
  | brokerLocator :: _ =>
    let output := Tree.empty
      |>.putString ["BROKER", "BrokerID"] d.brokerId
      |>.putString ["BROKER", "ExpectedClientNum"] (toString d.expectedClientNum)
      |>.putString ["BROKER", "MaximumClientNum"] (toString d.maximumNumClient)
      |>.putString ["BROKER", "ConnectedClientNum"] (toString d.connectedClientCount)
    let protocol := d.brokerProtocolKind.foldl
      (fun protocol tempProtocol => protocol.pushBack "" (Tree.empty.putString [] tempProtocol))
      Tree.empty
    let locator := Tree.empty
      |>.putString ["ip"] brokerLocator.ip
      |>.putString ["port"] (toString brokerLocator.port)
    .ok <| (output.addChild ["BROKER"] "Protocols" protocol).addChild ["BROKER"] "Locators" locator

def AltDiscoveredBrokerData.toJson (J : Json) (d : AltDiscoveredBrokerData) :
    Except Stop String := do
  let output ← d.toTree
  call (J.writeJson output)

def getNumber (path : List String) (pt : Tree) : Except Stop Int := do
  let text ← call (pt.getString path)
  call (stoi text)

/-- The first of the protocols. The iterator is read without comparing it with the end. -/
def firstProtocol (pt : Tree) : Except Stop Tree := do
  let protocols ← call (pt.getChild ["BROKER", "Protocols"])
  match protocols.children with
  | [] => .error .readsEnd
  | (_, protocols) :: _ => .ok protocols

/-- The broker of an announcement, in the order in which the fields are read. -/
def receivedBroker (brokerId : String) (pt : Tree) : Except Stop AltDiscoveredBrokerData := do
  let brokerExpectedClientNum ← getNumber ["BROKER", "ExpectedClientNum"] pt
  let brokerConnectedClientNum ← getNumber ["BROKER", "ConnectedClientNum"] pt
  let brokerMaximumClientNum ← getNumber ["BROKER", "MaximumClientNum"] pt
  let protocols ← firstProtocol pt
  let brokerProtocol ← call (protocols.getString [])
  let brokerIp ← call (pt.getString ["BROKER", "Locators", "ip"])
  let brokerPort ← getNumber ["BROKER", "Locators", "port"] pt
  return .make brokerId brokerExpectedClientNum brokerConnectedClientNum brokerMaximumClientNum
    brokerProtocol brokerIp brokerPort

/-! ## Complete announcements -/

/-- The tree has a text for that number at the end of the path. -/
def HasNumber (Numeral : String → Int → Prop) (pt : Tree) (path : List String) (n : Int) : Prop :=
  ∃ text, pt.getString path = .ok text ∧ Numeral text n

/-- The tree has every field of an announcement of that broker, with such texts for the
numbers. -/
inductive AnnouncesIn (Numeral : String → Int → Prop) (pt : Tree) : AltDiscoveredBrokerData → Prop
  | intro {brokerId brokerProtocol brokerIp key : String} {expected connected maximum port : Int}
      {protocols first : Tree} {rest : List (String × Tree)}
      (hid : pt.getString ["BROKER", "BrokerID"] = .ok brokerId)
      (hexpected : HasNumber Numeral pt ["BROKER", "ExpectedClientNum"] expected)
      (hconnected : HasNumber Numeral pt ["BROKER", "ConnectedClientNum"] connected)
      (hmaximum : HasNumber Numeral pt ["BROKER", "MaximumClientNum"] maximum)
      (hprotocols : pt.getChild ["BROKER", "Protocols"] = .ok protocols)
      (hfirst : protocols.children = (key, first) :: rest) (hdata : first.data = brokerProtocol)
      (hip : pt.getString ["BROKER", "Locators", "ip"] = .ok brokerIp)
      (hport : HasNumber Numeral pt ["BROKER", "Locators", "port"] port) :
      AnnouncesIn Numeral pt
        (.make brokerId expected connected maximum brokerProtocol brokerIp port)

/-- The tree is a complete announcement of that broker. -/
abbrev Announces (pt : Tree) : AltDiscoveredBrokerData → Prop := AnnouncesIn Reads pt

theorem HasNumber.mono {P Q : String → Int → Prop} (hPQ : ∀ text n, P text n → Q text n)
    {pt : Tree} {path : List String} {n : Int} (h : HasNumber P pt path n) :
    HasNumber Q pt path n := by
  obtain ⟨text, htext, hn⟩ := h
  exact ⟨text, htext, hPQ text n hn⟩

theorem AnnouncesIn.mono {P Q : String → Int → Prop} (hPQ : ∀ text n, P text n → Q text n)
    {pt : Tree} {d : AltDiscoveredBrokerData} (h : AnnouncesIn P pt d) : AnnouncesIn Q pt d := by
  obtain ⟨hid, hexpected, hconnected, hmaximum, hprotocols, hfirst, hdata, hip, hport⟩ := h
  exact ⟨hid, hexpected.mono hPQ, hconnected.mono hPQ, hmaximum.mono hPQ, hprotocols, hfirst,
    hdata, hip, hport.mono hPQ⟩

theorem call_eq_ok {α : Type} {x : Except String α} {a : α} : call x = .ok a ↔ x = .ok a := by
  cases x <;> simp [call, Except.mapError]

theorem getNumber_eq_ok {pt : Tree} {path : List String} {n : Int} :
    getNumber path pt = .ok n ↔ HasNumber Begins pt path n := by
  simp only [getNumber, bind_eq_ok, call_eq_ok, HasNumber, Begins]

theorem firstProtocol_eq_ok {pt first : Tree} :
    firstProtocol pt = .ok first ↔ ∃ protocols key rest,
      pt.getChild ["BROKER", "Protocols"] = .ok protocols ∧
        protocols.children = (key, first) :: rest := by
  simp only [firstProtocol, bind_eq_ok, call_eq_ok]
  constructor
  · rintro ⟨protocols, hprotocols, hfirst⟩
    split at hfirst
    · cases hfirst
    · rename_i key protocol rest hchildren
      obtain rfl := Except.ok.inj hfirst
      exact ⟨protocols, key, rest, hprotocols, hchildren⟩
  · rintro ⟨protocols, key, rest, hprotocols, hchildren⟩
    refine ⟨protocols, hprotocols, ?_⟩
    rw [hchildren]

/-- What is received of an announcement: its numbers only have to begin their texts. -/
theorem receivedBroker_eq {pt : Tree} {d : AltDiscoveredBrokerData} (h : AnnouncesIn Begins pt d) :
    receivedBroker d.brokerId pt = .ok d := by
  obtain ⟨hid, hexpected, hconnected, hmaximum, hprotocols, hfirst, hdata, hip, hport⟩ := h
  rename_i first _
  have hprotocol : firstProtocol pt = .ok first :=
    firstProtocol_eq_ok.mpr ⟨_, _, _, hprotocols, hfirst⟩
  have hdata' : call (first.getString []) = .ok first.data := rfl
  have hip' : call (pt.getString ["BROKER", "Locators", "ip"]) = .ok _ := congrArg call hip
  simp only [AltDiscoveredBrokerData.make, receivedBroker, getNumber_eq_ok.mpr hexpected,
    getNumber_eq_ok.mpr hconnected, getNumber_eq_ok.mpr hmaximum, getNumber_eq_ok.mpr hport,
    hprotocol, hdata', hip', hdata, ok_bind, except_pure]

/-- Nothing else is received. -/
theorem announces_receivedBroker {brokerId : String} {pt : Tree} {d : AltDiscoveredBrokerData}
    (hid : pt.getString ["BROKER", "BrokerID"] = .ok brokerId)
    (h : receivedBroker brokerId pt = .ok d) : d.brokerId = brokerId ∧ AnnouncesIn Begins pt d := by
  simp only [receivedBroker, bind_eq_ok, getNumber_eq_ok, firstProtocol_eq_ok, call_eq_ok] at h
  obtain ⟨_, hexpected, _, hconnected, _, hmaximum, first,
    ⟨protocols, key, rest, hprotocols, hfirst⟩, _, hdata, _, hip, _, hport, h⟩ := h
  obtain rfl := Except.ok.inj h
  exact ⟨rfl, hid, hexpected, hconnected, hmaximum, hprotocols, hfirst, Except.ok.inj hdata, hip,
    hport⟩

theorem announces_id {Numeral : String → Int → Prop} {pt : Tree} {d : AltDiscoveredBrokerData}
    (h : AnnouncesIn Numeral pt d) : pt.getString ["BROKER", "BrokerID"] = .ok d.brokerId := by
  cases h with
  | intro hid => exact hid

/-! ## What a broker sends -/

/-- A number in decimal is its sign and its digits. -/
theorem toList_toString (n : Int) :
    (toString n).toList = (if 0 ≤ n then [] else ['-']) ++ Nat.toDigits 10 n.natAbs := by
  rw [Int.toString_eq_repr, Int.repr_eq_if]
  by_cases hn : 0 ≤ n
  · have hnat : n.toNat = n.natAbs := by omega
    rw [if_pos hn, if_pos hn, Nat.toList_repr, hnat, List.nil_append]
  · have hnat : (-n).toNat = n.natAbs := by omega
    rw [if_neg hn, if_neg hn, String.toList_append, Nat.toList_repr, hnat]
    rfl

theorem takeSign_toString (n : Int) :
    takeSign (toString n).toList = (if 0 ≤ n then 1 else -1, Nat.toDigits 10 n.natAbs) := by
  rw [toList_toString]
  split
  · rw [List.nil_append]
    unfold takeSign
    split
    · rename_i cs h
      exact absurd h (JsonText.toDigits_ne_cons (by decide) _ cs)
    · rename_i cs h
      exact absurd h (JsonText.toDigits_ne_cons (by decide) _ cs)
    · rfl
  · rfl

theorem dropWhile_isSpace_toString (n : Int) :
    (toString n).toList.dropWhile isSpace = (toString n).toList := by
  have hhead : ∀ c cs, (toString n).toList = c :: cs → isSpace c = false := by
    intro c cs h
    rw [toList_toString] at h
    cases hc : isSpace c with
    | false => rfl
    | true =>
      have hdigit : c.isDigit = false := by
        simp only [isSpace, Bool.or_eq_true, beq_iff_eq] at hc
        rcases hc with ((((rfl | rfl) | rfl) | rfl) | rfl) | rfl <;> decide
      split at h
      · exact absurd h (JsonText.toDigits_ne_cons hdigit _ cs)
      · obtain ⟨rfl, -⟩ := List.cons.inj h
        cases hc
  cases hlist : (toString n).toList with
  | nil => rfl
  | cons c cs => rw [List.dropWhile_cons, if_neg (by simp [hhead c cs hlist])]

theorem reads_toString {n : Int} (h : isInt32 n = true) : Reads (toString n) n := by
  have hdigits := JsonText.all_isDigit_toDigits n.natAbs
  have htake : (Nat.toDigits 10 n.natAbs).takeWhile Char.isDigit = Nat.toDigits 10 n.natAbs :=
    List.takeWhile_eq_self_iff.mpr (List.all_eq_true.mp hdigits)
  have hvalue : (if 0 ≤ n then 1 else -1) * (n.natAbs : Int) = n := by
    split <;> omega
  constructor
  · rw [IsNumeral, takeSign_toString]
    exact ⟨Nat.toDigits_ne_nil, hdigits⟩
  · simp only [stoi, dropWhile_isSpace_toString, takeSign_toString, htake,
      if_neg Nat.toDigits_ne_nil, Nat.ofDigitChars_ten_toDigits, hvalue, h, if_true]

/-- The numbers are `int`s, as the constructor takes them. -/
structure Ints (expected connected maximum port : Int) : Prop where
  expected : isInt32 expected = true
  connected : isInt32 connected = true
  maximum : isInt32 maximum = true
  port : isInt32 port = true

/-- The list of protocols, as an array of the tree. -/
theorem children_protocol (kinds : List String) (t : Tree) :
    (kinds.foldl (fun protocol tempProtocol =>
        protocol.pushBack "" (Tree.empty.putString [] tempProtocol)) t).children =
      t.children ++ kinds.map fun kind => ("", PropertyTree.Tree.node kind []) := by
  induction kinds generalizing t with
  | nil => simp
  | cons kind kinds ih =>
    rw [List.foldl_cons, ih, List.map_cons, Tree.pushBack, Tree.children, List.append_assoc]
    rfl

/-- The tree announces the broker with the first of its protocols and of its locators. -/
theorem announces_toTree {d : AltDiscoveredBrokerData} {protocol : String}
    {protocols : List String} {locator : Locator} {locators : List Locator}
    (hprotocols : d.brokerProtocolKind = protocol :: protocols)
    (hlocators : d.brokerLocator = locator :: locators)
    (h : Ints d.expectedClientNum d.connectedClientCount d.maximumNumClient locator.port) :
    ∃ pt, d.toTree = .ok pt ∧
      Announces pt { d with brokerProtocolKind := [protocol], brokerLocator := [locator] } := by
  obtain ⟨brokerId, expected, connected, maximum, kinds, brokerLocator⟩ := d
  obtain rfl : kinds = _ := hprotocols
  obtain rfl : brokerLocator = _ := hlocators
  refine ⟨_, rfl, ?_⟩
  exact .intro rfl ⟨_, rfl, reads_toString h.expected⟩ ⟨_, rfl, reads_toString h.connected⟩
    ⟨_, rfl, reads_toString h.maximum⟩ rfl (children_protocol (protocol :: protocols) Tree.empty)
    rfl rfl ⟨_, rfl, reads_toString h.port⟩

theorem toJson_eq_ok {J : Json} {d : AltDiscoveredBrokerData} {pt : Tree} {text : String}
    (hpt : d.toTree = .ok pt) : d.toJson J = .ok text ↔ J.writeJson pt = .ok text := by
  rw [AltDiscoveredBrokerData.toJson, hpt, ok_bind, call]
  cases J.writeJson pt with
  | ok written => simp [Except.mapError]
  | error what => simp [Except.mapError]

/-- **Round trip.** What a broker writes is read as a complete announcement of it. -/
theorem announces_toJson {J : Json} {d : AltDiscoveredBrokerData} {protocol : String}
    {protocols : List String} {locator : Locator} {locators : List Locator}
    (hprotocols : d.brokerProtocolKind = protocol :: protocols)
    (hlocators : d.brokerLocator = locator :: locators)
    (h : Ints d.expectedClientNum d.connectedClientCount d.maximumNumClient locator.port)
    (hJ : ∀ pt, d.toTree = .ok pt → J.RoundTrips pt) {text : String}
    (htext : d.toJson J = .ok text) :
    ∃ pt, J.readJson text = .ok pt ∧
      Announces pt { d with brokerProtocolKind := [protocol], brokerLocator := [locator] } := by
  obtain ⟨pt, hpt, hannounces⟩ := announces_toTree hprotocols hlocators h
  exact ⟨pt, hJ pt hpt text ((toJson_eq_ok hpt).mp htext), hannounces⟩

end BddsBroker.Sbdp
