import BddsBroker.Sbdp.Discovery

/-! `SBDPBuiltinEndpointDataWriter`: the sender of the announcements. It sends, waits two
seconds and sends again, so that one asynchronous operation is outstanding at a time, and
gives up after fifty messages or the first error. -/

namespace BddsBroker.Sbdp

open PropertyTree Program

/-- The default constructor. -/
def AltDiscoveredBrokerData.initial : AltDiscoveredBrokerData :=
  .make BrokerConfig.brokerId 0 0 250 "MQTTv5.0" "192.168.0.200" 32888

/-- The asynchronous operation that has not completed. -/
inductive Pending
  | none
  | sendTo
  | timer
  deriving DecidableEq, Repr

structure Writer where
  messageCount : Nat
  /-- `message_`, the buffer of the send. -/
  message : String
  sbdpData : AltDiscoveredBrokerData
  pending : Pending
  deriving DecidableEq, Repr

namespace Writer

/-- The message with that number of clients is built, and its send begins. -/
def announce (J : Json) (w : Writer) (count : Int) : Except Stop Writer := do
  let sbdpData := { w.sbdpData with connectedClientCount := count }
  let message ← sbdpData.toJson J
  return ⟨w.messageCount + 1, message, sbdpData, .sendTo⟩

/-- The constructor. -/
def start (J : Json) (brokerFlag : Bool) (count : Int) : Except Stop Writer :=
  let sbdpData := if brokerFlag then AltDiscoveredBrokerData.initial
    else { AltDiscoveredBrokerData.initial with brokerId := BrokerAltConfig.brokerId }
  announce J ⟨0, "", sbdpData, .none⟩ count

def handleSendTo (w : Writer) (error : Bool) : Writer :=
  if error = false ∧ w.messageCount < 50 then { w with pending := .timer }
  else { w with pending := .none }

def handleTimeout (J : Json) (w : Writer) (error : Bool) (count : Int) : Except Stop Writer :=
  if error then return { w with pending := .none } else w.announce J count

end Writer

/-- A call of a handler, with what `get_count` gives. -/
inductive Handler
  | sendTo (error : Bool)
  | timeout (error : Bool) (count : Int)
  deriving DecidableEq, Repr

def Handler.error : Handler → Bool
  | .sendTo error => error
  | .timeout error _ => error

/-- The outstanding operation completes. The step is refused when none of that kind is
outstanding, and when the handler throws. -/
def writerStep (J : Json) (w : Writer) : Handler → Option Writer
  | .sendTo error =>
      match w.pending with
      | .sendTo => some (w.handleSendTo error)
      | _ => none
  | .timeout error count =>
      match w.pending with
      | .timer => (w.handleTimeout J error count).toOption
      | _ => none

/-! ## The data -/

/-- What a broker announces when it has that many clients. -/
def announcement (brokerFlag : Bool) (count : Int) : AltDiscoveredBrokerData :=
  .make (if brokerFlag then BrokerConfig.brokerId else BrokerAltConfig.brokerId) 0 count 250
    "MQTTv5.0" "192.168.0.200" 32888

/-- What is assumed of the library: it writes the announcements, in one datagram each, and
reads what it has written. -/
structure Speaks (J : Json) : Prop where
  written : ∀ brokerFlag count, isInt32 count = true →
    ∃ text, (announcement brokerFlag count).toJson J = .ok text
  sendable : ∀ brokerFlag count text, isInt32 count = true →
    (announcement brokerFlag count).toJson J = .ok text →
      OneByte text ∧ text.toList.length < maxLength
  roundTrips : ∀ brokerFlag count pt, (announcement brokerFlag count).toTree = .ok pt →
    J.RoundTrips pt

theorem Speaks.carries {J : Json} (hJ : Speaks J) {brokerFlag : Bool} {count : Int} {text : String}
    (hcount : isInt32 count = true) (htext : (announcement brokerFlag count).toJson J = .ok text) :
    Carries J (datagram text) (announcement brokerFlag count) := by
  obtain ⟨hbytes, hlen⟩ := hJ.sendable brokerFlag count text hcount htext
  exact carries_toJson (d := announcement brokerFlag count) rfl rfl ⟨rfl, hcount, rfl, rfl⟩
    (hJ.roundTrips brokerFlag count) htext hbytes hlen

/-! ## The message -/

/-- The pieces of the message. -/
def announcementPieces (brokerFlag : Bool) (count : Int) : List JsonText.Piece :=
  match (announcement brokerFlag count).toTree with
  | .ok pt => JsonText.pieces 16 0 pt
  | .error _ => []

theorem characters_announcement (brokerFlag : Bool) (count : Int) :
    characters (announcement brokerFlag count) =
      (announcementPieces brokerFlag count).flatMap JsonText.render ++ ['\n'] := rfl

/-- The place of the number of clients. -/
def numeralAt : Nat := 28

/-- The messages of a broker differ in one piece. -/
theorem announcementPieces_eq (brokerFlag : Bool) (count : Int) :
    announcementPieces brokerFlag count =
      (announcementPieces brokerFlag 0).take numeralAt ++
        .token (.string (toString count)) ::
          (announcementPieces brokerFlag 0).drop (numeralAt + 1) := by
  cases brokerFlag <;> rfl

theorem numeral_chars (count : Int) :
    ∀ c ∈ (toString count).toList, c = '-' ∨ c.isDigit = true := by
  intro c hc
  rw [toList_toString, List.mem_append] at hc
  rcases hc with hsign | hdigit
  · split at hsign
    · cases hsign
    · exact .inl (List.mem_singleton.mp hsign)
  · exact .inr (List.all_eq_true.mp (JsonText.all_isDigit_toDigits _) c hdigit)

/-- A numeral is written as it is. -/
theorem flatMap_escape_numeral (count : Int) :
    (toString count).toList.flatMap JsonText.escape = (toString count).toList := by
  have hescape : ∀ c ∈ (toString count).toList, JsonText.escape c = [c] := by
    intro c hc
    have hne : ∀ d : Char, d ≠ '-' → d.isDigit = false → c ≠ d := by
      rintro d hdash hdigit rfl
      rcases numeral_chars count c hc with h | h
      · exact hdash h
      · rw [hdigit] at h
        cases h
    unfold JsonText.escape
    rw [if_neg (hne _ (by decide) (by decide)), if_neg]
    rintro (h | h | h)
    · exact hne '"' (by decide) (by decide) h
    · exact hne '\\' (by decide) (by decide) h
    · exact hne '/' (by decide) (by decide) h
  rw [List.flatMap_congr hescape, List.flatMap_singleton']

theorem length_numeral {count : Int} (h : isInt32 count = true) :
    (toString count).toList.length ≤ 11 := by
  simp only [isInt32, Bool.and_eq_true, decide_eq_true_eq] at h
  have hdigits : (Nat.toDigits 10 count.natAbs).length ≤ 10 :=
    (Nat.length_toDigits_le_iff (by decide) (by decide)).mpr (by omega)
  rw [toList_toString, List.length_append]
  split
  · simp only [List.length_nil]
    omega
  · simp only [List.length_singleton]
    omega

/-- Characters of one byte. -/
def oneByte (cs : List Char) : Bool := cs.all fun c => decide (0 < c.toNat ∧ c.toNat < 256)

theorem oneByte_numeral (count : Int) : oneByte (toString count).toList = true := by
  rw [oneByte, List.all_eq_true]
  intro c hc
  rw [decide_eq_true_eq]
  rcases numeral_chars count c hc with rfl | hdigit
  · decide
  · simp only [Char.isDigit, Bool.and_eq_true, decide_eq_true_eq, UInt32.le_iff_toNat_le] at hdigit
    have hlow : '0'.val.toNat = 48 := rfl
    have hhigh : '9'.val.toNat = 57 := rfl
    simp only [Char.toNat]
    omega

/-- The parts of the message before and after the number. -/
theorem parts_fit (brokerFlag : Bool) :
    let first := ((announcementPieces brokerFlag 0).take numeralAt).flatMap JsonText.render
    let last := ((announcementPieces brokerFlag 0).drop (numeralAt + 1)).flatMap JsonText.render
    (oneByte first && oneByte last && decide (first.length + last.length < 900)) = true := by
  cases brokerFlag <;> decide +kernel

theorem sendable_announcement (brokerFlag : Bool) {count : Int} (h : isInt32 count = true) :
    sendable (characters (announcement brokerFlag count)) = true := by
  have hparts := parts_fit brokerFlag
  have hlen := length_numeral h
  have hbyte := oneByte_numeral count
  have hquote : oneByte ['"'] = true := by decide
  have hnewline : oneByte ['\n'] = true := by decide
  simp only [Bool.and_eq_true, decide_eq_true_eq] at hparts
  obtain ⟨⟨hfirst, hlast⟩, hshort⟩ := hparts
  rw [characters_announcement, announcementPieces_eq, List.flatMap_append, List.flatMap_cons,
    JsonText.render, JsonText.renderToken, flatMap_escape_numeral]
  unfold oneByte at hbyte hquote hnewline hfirst hlast
  simp only [sendable, List.all_append, List.all_cons, List.all_nil, Bool.and_true,
    Bool.and_eq_true, decide_eq_true_eq, List.length_append, List.length_cons, List.length_nil]
    at hquote hnewline ⊢
  have hmax : maxLength = 1024 := rfl
  refine ⟨by omega, ⟨hfirst, ⟨?_, hlast⟩⟩, ?_⟩
  · exact ⟨⟨hquote, hbyte⟩, hquote⟩
  · exact hnewline

/-- The library of the model does what is assumed. -/
theorem speaks_json : Speaks JsonText.json := by
  have hmessage : ∀ brokerFlag count, (announcement brokerFlag count).toJson JsonText.json =
      .ok (message (announcement brokerFlag count)) := by
    intro brokerFlag count
    cases brokerFlag
    · exact toJson_eq_message rfl rfl
    · exact toJson_eq_message rfl rfl
  refine ⟨fun brokerFlag count _ => ⟨_, hmessage brokerFlag count⟩, ?_,
    fun _ _ pt _ => JsonText.roundTrips pt⟩
  intro brokerFlag count text hcount htext
  obtain rfl := Except.ok.inj ((hmessage brokerFlag count).symm.trans htext)
  exact sent_message (sendable_announcement brokerFlag hcount)

/-! ## The writer's runs -/

/-- The handler builds a message. -/
def Handler.announces : Handler → Bool
  | .timeout false _ => true
  | _ => false

/-- The number of clients in the last message. -/
def lastCount (first : Int) (hs : List Handler) : Int :=
  hs.foldl (fun last h => match h with | .timeout false count => count | _ => last) first

/-- The number that `get_count` gives is an `int`. -/
def Handler.Fits : Handler → Prop
  | .timeout _ count => isInt32 count = true
  | .sendTo _ => True

/-- How often the handlers were called, by what is outstanding. -/
def Called (hs : List Handler) (w : Writer) : Prop :=
  match w.pending with
  | .sendTo => hs.length + 2 = 2 * w.messageCount ∧ w.messageCount ≤ 50 ∧
      ∀ h ∈ hs, h.error = false
  | .timer => hs.length + 1 = 2 * w.messageCount ∧ w.messageCount < 50 ∧
      ∀ h ∈ hs, h.error = false
  | .none => hs.length ≤ 99 ∧ w.messageCount ≤ 50 ∧
      ((∃ h ∈ hs, h.error = true) ∨ hs.length = 99 ∧ w.messageCount = 50)

/-- What holds after the calls `hs`. -/
structure Announcing (J : Json) (brokerFlag : Bool) (first : Int) (hs : List Handler) (w : Writer) :
    Prop where
  fits : isInt32 (lastCount first hs) = true
  data : w.sbdpData = announcement brokerFlag (lastCount first hs)
  written : w.sbdpData.toJson J = .ok w.message
  count : w.messageCount = 1 + hs.countP Handler.announces
  called : Called hs w

section Runs

variable {J : Json} {brokerFlag : Bool} {first : Int} {hs : List Handler} {w w' : Writer}

theorem announce_eq (hJ : Speaks J) {count old : Int} (hcount : isInt32 count = true)
    (hdata : w.sbdpData = announcement brokerFlag old) :
    ∃ text, (announcement brokerFlag count).toJson J = .ok text ∧
      w.announce J count =
        .ok ⟨w.messageCount + 1, text, announcement brokerFlag count, .sendTo⟩ := by
  obtain ⟨text, htext⟩ := hJ.written brokerFlag count hcount
  have hset :
      { w.sbdpData with connectedClientCount := count } = announcement brokerFlag count := by
    rw [hdata]
    rfl
  refine ⟨text, htext, ?_⟩
  simp only [Writer.announce, hset, htext, ok_bind]
  rfl

theorem start_eq (hJ : Speaks J) (brokerFlag : Bool) (hfirst : isInt32 first = true) :
    ∃ text, (announcement brokerFlag first).toJson J = .ok text ∧
      Writer.start J brokerFlag first =
        .ok ⟨1, text, announcement brokerFlag first, .sendTo⟩ := by
  unfold Writer.start
  have hdata : (if brokerFlag then AltDiscoveredBrokerData.initial
      else { AltDiscoveredBrokerData.initial with brokerId := BrokerAltConfig.brokerId }) =
      announcement brokerFlag 0 := by
    cases brokerFlag <;> rfl
  exact announce_eq hJ hfirst hdata

theorem announcing_start (hfirst : isInt32 first = true) {text : String}
    (htext : (announcement brokerFlag first).toJson J = .ok text) :
    Announcing J brokerFlag first [] ⟨1, text, announcement brokerFlag first, .sendTo⟩ where
  fits := hfirst
  data := rfl
  written := htext
  count := rfl
  called := ⟨rfl, show 1 ≤ 50 by decide, by simp⟩

theorem Announcing.sendTo (hw : Announcing J brokerFlag first hs w) (hpending : w.pending = .sendTo)
    (error : Bool) :
    Announcing J brokerFlag first (hs ++ [.sendTo error]) (w.handleSendTo error) := by
  obtain ⟨hlen, hle, hnone⟩ : hs.length + 2 = 2 * w.messageCount ∧ w.messageCount ≤ 50 ∧
      ∀ h ∈ hs, h.error = false := by
    have hcalled := hw.called
    rwa [Called, hpending] at hcalled
  have hlast : lastCount first (hs ++ [.sendTo error]) = lastCount first hs := by
    simp [lastCount]
  have hcount : (hs ++ [Handler.sendTo error]).countP Handler.announces =
      hs.countP Handler.announces := by
    simp [Handler.announces]
  unfold Writer.handleSendTo
  split
  · rename_i hgo
    refine ⟨hlast ▸ hw.fits, hlast ▸ hw.data, hw.written, hcount ▸ hw.count, ?_⟩
    refine ⟨by simp only [List.length_append, List.length_singleton]; omega, hgo.2, ?_⟩
    intro h hh
    rcases List.mem_append.mp hh with hh | hh
    · exact hnone h hh
    · obtain rfl := List.mem_singleton.mp hh
      exact hgo.1
  · rename_i hstop
    refine ⟨hlast ▸ hw.fits, hlast ▸ hw.data, hw.written, hcount ▸ hw.count, ?_⟩
    have hlen' : (hs ++ [Handler.sendTo error]).length = hs.length + 1 := by simp
    refine ⟨by omega, hle, ?_⟩
    cases error with
    | true => exact .inl ⟨.sendTo true, by simp, rfl⟩
    | false =>
      have hfifty : ¬ w.messageCount < 50 := fun h => hstop ⟨rfl, h⟩
      exact .inr ⟨by omega, by show w.messageCount = 50; omega⟩

theorem Announcing.timeout (hJ : Speaks J) (hw : Announcing J brokerFlag first hs w)
    (hpending : w.pending = .timer) (error : Bool) {count : Int} (hcount : isInt32 count = true) :
    ∃ w', w.handleTimeout J error count = .ok w' ∧
      Announcing J brokerFlag first (hs ++ [.timeout error count]) w' := by
  obtain ⟨hlen, hlt, hnone⟩ : hs.length + 1 = 2 * w.messageCount ∧ w.messageCount < 50 ∧
      ∀ h ∈ hs, h.error = false := by
    have hcalled := hw.called
    rwa [Called, hpending] at hcalled
  have hlen' : (hs ++ [Handler.timeout error count]).length = hs.length + 1 := by simp
  cases error with
  | true =>
    have hlast : lastCount first (hs ++ [.timeout true count]) = lastCount first hs := by
      simp [lastCount]
    have hcountP : (hs ++ [Handler.timeout true count]).countP Handler.announces =
        hs.countP Handler.announces := by
      simp [Handler.announces]
    refine ⟨{ w with pending := .none }, rfl, hlast ▸ hw.fits, hlast ▸ hw.data, hw.written,
      hcountP ▸ hw.count, ?_⟩
    exact ⟨by omega, Nat.le_of_lt hlt, .inl ⟨.timeout true count, by simp, rfl⟩⟩
  | false =>
    obtain ⟨text, htext, hannounce⟩ := announce_eq hJ hcount hw.data
    have hlast : lastCount first (hs ++ [.timeout false count]) = count := by
      simp [lastCount]
    have hcountP : (hs ++ [Handler.timeout false count]).countP Handler.announces =
        hs.countP Handler.announces + 1 := by
      simp [Handler.announces]
    have hold := hw.count
    refine ⟨_, hannounce, ?_, ?_, htext, ?_, ?_⟩
    · rwa [hlast]
    · rw [hlast]
    · rw [hcountP]
      show w.messageCount + 1 = _
      omega
    · refine ⟨?_, hlt, ?_⟩
      · show _ = 2 * (w.messageCount + 1)
        omega
      · intro h hh
        rcases List.mem_append.mp hh with hh | hh
        · exact hnone h hh
        · obtain rfl := List.mem_singleton.mp hh
          rfl

/-- **Step lemma.** -/
theorem Announcing.step (hJ : Speaks J) (hw : Announcing J brokerFlag first hs w) {h : Handler}
    (hfits : h.Fits) (hstep : writerStep J w h = some w') :
    Announcing J brokerFlag first (hs ++ [h]) w' := by
  cases h with
  | sendTo error =>
    simp only [writerStep] at hstep
    split at hstep
    · rename_i hpending
      obtain rfl := Option.some.inj hstep
      exact hw.sendTo hpending error
    · cases hstep
  | timeout error count =>
    simp only [writerStep] at hstep
    split at hstep
    · rename_i hpending
      obtain ⟨w'', hok, hannouncing⟩ := hw.timeout hJ hpending error hfits
      rw [hok] at hstep
      obtain rfl := Option.some.inj hstep
      exact hannouncing
    · cases hstep

/-- **A broker announces itself fifty times, or until the first error.** However the operations
complete, the message is that of the last count and decodes to it, no handler throws, and the
writer stops after at most ninety-nine calls: at an error, or with the fiftieth message. -/
theorem announces_itself (hJ : Speaks J) (brokerFlag : Bool) (hfirst : isInt32 first = true)
    (hfits : ∀ h ∈ hs, h.Fits) :
    ∃ w₀, Writer.start J brokerFlag first = .ok w₀ ∧
      ∀ w, Machine.run (writerStep J) w₀ hs = some w →
        w.sbdpData = announcement brokerFlag (lastCount first hs) ∧
        w.sbdpData.toJson J = .ok w.message ∧
        Carries J (datagram w.message) (announcement brokerFlag (lastCount first hs)) ∧
        w.messageCount = 1 + hs.countP Handler.announces ∧ Called hs w ∧
        (w.pending = .timer → ∀ error count, isInt32 count = true →
          ∃ w', w.handleTimeout J error count = .ok w') := by
  obtain ⟨text, htext, hstart⟩ := start_eq hJ brokerFlag hfirst
  refine ⟨_, hstart, fun w hr => ?_⟩
  have hw : Announcing J brokerFlag first hs w :=
    Machine.run_history (announcing_start hfirst htext)
      (fun _ _ _ _ _ hw hc he => hw.step hJ hc he) (Machine.along_of_forall hfits _) hr
  have hcarries := hJ.carries hw.fits (hw.data ▸ hw.written)
  exact ⟨hw.data, hw.written, hcarries, hw.count, hw.called, fun hpending error count hcount =>
    (hw.timeout hJ hpending error hcount).imp fun _ h => h.1⟩

end Runs

/-- Every operation completes, and each timeout finds one client more. -/
def fifty : List Handler :=
  (List.range 49).flatMap (fun i => [.sendTo false, .timeout false (i + 1)]) ++ [.sendTo false]

/-- The third operation fails. -/
def broken : List Handler := [.sendTo false, .timeout false 3, .sendTo true]

/-- The alternative broker stops with the fiftieth message, or with the second one, which the
network does not take. -/
theorem announces_itself_alternative :
    ∃ w₀, Writer.start JsonText.json false 0 = .ok w₀ ∧
      (∃ w, Machine.run (writerStep JsonText.json) w₀ fifty = some w ∧ w.messageCount = 50 ∧
        w.pending = .none ∧ Carries JsonText.json (datagram w.message) (announcement false 49)) ∧
      ∃ w, Machine.run (writerStep JsonText.json) w₀ broken = some w ∧ w.messageCount = 2 ∧
        w.pending = .none ∧ Carries JsonText.json (datagram w.message) (announcement false 3) := by
  have hfifty : ∀ h ∈ fifty, h.Fits := by
    have hall : fifty.all (fun h => match h with
      | .timeout _ count => isInt32 count
      | .sendTo _ => true) = true := by decide +kernel
    intro h hh
    have hfits := List.all_eq_true.mp hall h hh
    cases h with
    | sendTo error => trivial
    | timeout error count => exact hfits
  have hbroken : ∀ h ∈ broken, h.Fits := by
    simp [broken, Handler.Fits, isInt32]
  have hzero : isInt32 0 = true := rfl
  have hstart : Writer.start JsonText.json false 0 =
      .ok ⟨1, message (announcement false 0), announcement false 0, .sendTo⟩ := rfl
  obtain ⟨w₀, h₀, hruns⟩ := announces_itself speaks_json false hzero hfifty
  obtain rfl := Except.ok.inj (hstart.symm.trans h₀)
  obtain ⟨w₀', h₀', hruns'⟩ := announces_itself speaks_json false hzero hbroken
  obtain rfl := Except.ok.inj (hstart.symm.trans h₀')
  have hsome : (Machine.run (writerStep JsonText.json)
      ⟨1, message (announcement false 0), announcement false 0, .sendTo⟩ fifty).map
        Writer.pending = some .none := by decide +kernel
  refine ⟨_, hstart, ?_, ?_⟩
  · obtain ⟨w, hrun, hpending⟩ := Option.map_eq_some_iff.mp hsome
    obtain ⟨-, -, hcarries, hcount, -, -⟩ := hruns w hrun
    have hmessages : fifty.countP Handler.announces = 49 := by decide +kernel
    exact ⟨w, hrun, by rw [hcount, hmessages], hpending, hcarries⟩
  · obtain ⟨-, -, hcarries, hcount, -, -⟩ := hruns' _ rfl
    exact ⟨_, rfl, hcount, rfl, hcarries⟩

end BddsBroker.Sbdp
