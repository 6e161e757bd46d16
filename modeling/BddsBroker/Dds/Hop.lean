import BddsBroker.Dds.Message

/-! The GPS message between DDS and MQTT. What the listener writes as JSON the publisher reads
back, field by field, whatever the sample (`message_survives`). Of other payloads the publisher
takes a time of 64 bits for a field of 32: the other integers are read with the type of their
fields, and one that does not fit is rejected. So a payload is taken unaltered or rejected
exactly when its time fits too, or something else is wrong with it (`notAltered_iff`). -/

namespace BddsBroker.Dds.Hop

open PropertyTree Program

variable {N : Numbers} {J : Json}

/-- A `long` of IDL has 32 bits. -/
def IsLong (i : Int) : Prop := -2 ^ 31 ≤ i ∧ i < 2 ^ 31

instance (i : Int) : Decidable (IsLong i) := inferInstanceAs (Decidable (_ ∧ _))

def IsLongLong (i : Int) : Prop := -2 ^ 63 ≤ i ∧ i < 2 ^ 63

theorem IsLong.isLongLong {i : Int} (h : IsLong i) : IsLongLong i := by
  obtain ⟨hlow, hhigh⟩ := h
  constructor <;> omega

/-- The integers of a message, with the names of their fields. -/
def integers (m : Message N) : List (String × Int) :=
  [("subject_id", m.subjectId), ("utc", m.utc), ("speed", m.speed), ("track", m.track),
    ("date", m.date), ("check", m.check)]

/-! ## The round trip -/

/-- The integers fit into their fields, and the characters are ASCII. -/
structure Fits (m : Message N) : Prop where
  long : ∀ p ∈ integers m, IsLong p.2
  ascii : ∀ c ∈ [m.posstatus, m.latDir, m.lonDir, m.magDir, m.mode], c < 128

/-- What is relied on: JSON is read back as it was written, integers stand in decimal, no
character is skipped, and other numbers are read as they were written. -/
structure Transmits (N : Numbers) (J : Json) : Prop where
  json : ∀ m : Message N, Fits m →
    ∃ text, J.writeJson (toTree m) = .ok text ∧ J.readJson text = .ok (toTree m)
  writeInt : ∀ i, IsLong i → N.int.write i = toString i
  readInt : ∀ i, IsLong i → N.int.read (toString i) = some i
  readLongLong : ∀ i, IsLongLong i → N.longLong.read (toString i) = some i
  char : ∀ c < 128, N.char.read (N.char.write c) = some c
  double : ∀ d, N.double.read (N.double.write d) = some d
  float : ∀ d, N.float.read (N.float.write d) = some d

/-- The values of such a message are read as they were written. -/
theorem Fits.readable (h : Transmits N J) {m : Message N} (hm : Fits m) : Readable m := by
  have hint := hm.long
  simp only [integers, List.forall_mem_cons, List.not_mem_nil, false_implies, implies_true,
    and_true] at hint
  obtain ⟨hsubject, hutc, hspeed, htrack, hdate, hcheck⟩ := hint
  have hread : ∀ i, IsLong i → N.int.read (N.int.write i) = some i := by
    intro i hi
    rw [h.writeInt i hi, h.readInt i hi]
  refine ⟨?_, ?_, hutc, ?_, ?_, h.float m.mag⟩
  · simp only [List.forall_mem_cons, List.not_mem_nil, false_implies, implies_true, and_true]
    exact ⟨hread _ hsubject, hread _ hspeed, hread _ htrack, hread _ hdate, hread _ hcheck⟩
  · rw [h.writeInt _ hutc, h.readLongLong _ hutc.isLongLong]
  · exact fun c hc => h.char c (hm.ascii c hc)
  · exact fun d _ => h.double d

/-- The texts of the integers. -/
theorem getString_toTree (m : Message N) :
    ∀ p ∈ integers m, (toTree m).getString (field p.1) = .ok (N.int.write p.2) := by
  simp [integers, toTree, getString_put_field, Tree.getString_put_self]

/-- **The hop.** Encoding and decoding raise nothing and give the message back, and its
integers stand in the text in decimal. -/
theorem message_survives (h : Transmits N J) {m : Message N} (hm : Fits m) :
    ∃ json tree, encode J m = .ok json ∧ decode J json = .ok m ∧ J.readJson json = .ok tree ∧
      ∀ p ∈ integers m, tree.getString (field p.1) = .ok (toString p.2) := by
  obtain ⟨json, hwrite, hread⟩ := h.json m hm
  have hround : J.RoundTrips (toTree m) := by
    intro text htext
    obtain rfl := Except.ok.inj (hwrite.symm.trans htext)
    exact hread
  refine ⟨json, toTree m, hwrite, decode_encode hround (hm.readable h) hwrite, hread, ?_⟩
  intro p hp
  rw [getString_toTree m p hp, h.writeInt p.2 (hm.long p hp)]

/-- Numbers without a fraction, of any size where a `double` or a `float` stands. -/
def decimals : Numbers where
  Double := Int
  Float := Int
  int := JsonText.intTranslator "int" 32
  longLong := JsonText.intTranslator "long long" 64
  char := JsonText.charTranslator
  double := ⟨"double", JsonText.readInt, toString⟩
  float := ⟨"float", JsonText.readInt, toString⟩

theorem transmits_decimals : Transmits decimals JsonText.json where
  json m _ := by
    have hwrite := JsonText.writeJson_eq (writable_toTree m)
    exact ⟨_, hwrite, JsonText.roundTrips _ _ hwrite⟩
  writeInt _ _ := rfl
  readInt _ hi := JsonText.intTranslator_read_write "int" hi
  readLongLong _ hi := JsonText.intTranslator_read_write "long long" hi
  char c _ := JsonText.charTranslator_read_write c
  double := JsonText.readInt_toString
  float := JsonText.readInt_toString

/-- The largest and the least integer, and a quote, a blank, a backslash and a line end. -/
def awkward : Message decimals :=
  ⟨2147483647, -2147483648, 34, (-4807 : Int), 32, (1131 : Int), 92, 0, -1, 230394, (3 : Int), 10,
    65, 106⟩

theorem fits_awkward : Fits awkward := by
  constructor
  · decide
  · simp only [List.forall_mem_cons, List.not_mem_nil, false_implies, implies_true, and_true]
    decide

theorem awkward_survives :
    ∃ json tree, encode JsonText.json awkward = .ok json ∧
      decode JsonText.json json = .ok awkward ∧ JsonText.json.readJson json = .ok tree ∧
      ∀ p ∈ integers awkward, tree.getString (field p.1) = .ok (toString p.2) :=
  message_survives transmits_decimals fits_awkward

/-! ## Other payloads -/

/-- The integer types are read exactly: the text denotes an integer in their range. -/
structure Exact (N : Numbers) (value : String → Option Int) : Prop where
  int : ∀ text i, N.int.read text = some i ↔ value text = some i ∧ IsLong i
  longLong : ∀ text i, N.longLong.read text = some i ↔ value text = some i ∧ IsLongLong i

/-- The payload has this integer in that field. -/
def Carries (J : Json) (value : String → Option Int) (payload name : String) (i : Int) : Prop :=
  ∃ tree text, J.readJson payload = .ok tree ∧ tree.getString (field name) = .ok text ∧
    value text = some i

/-- An accepted payload has the integers of the sample, and one with an integer that does not
fit is rejected. -/
structure NotAltered (N : Numbers) (J : Json) (value : String → Option Int) (payload : String) :
    Prop where
  accepted : ∀ m : Message N, decode J payload = .ok m →
    ∀ p ∈ integers m, Carries J value payload p.1 p.2
  rejected : ∀ name ∈ ["subject_id", "utc", "speed", "track", "date", "check"], ∀ i,
    Carries J value payload name i → ¬ IsLong i →
      ∃ what, (decode J payload : Except String (Message N)) = .error what

section Decode

variable {value : String → Option Int} {payload : String}

/-- What decoding reads: the integers that the payload carries, but the time is cut to the
size of its field. -/
theorem decode_carries (h : Exact N value) {m : Message N} (hm : decode J payload = .ok m) :
    (∀ p ∈ integers m, p.1 ≠ "utc" → Carries J value payload p.1 p.2 ∧ IsLong p.2) ∧
      ∃ i, Carries J value payload "utc" i ∧ m.utc = i.bmod (2 ^ 32) := by
  have hread : ∀ tree, J.readJson payload = .ok tree → ∀ name i,
      tree.get N.int (field name) = .ok i → Carries J value payload name i ∧ IsLong i := by
    intro tree htree name i hget
    obtain ⟨text, htext, hvalue⟩ := Tree.get_eq_ok.mp hget
    obtain ⟨hvalue, hlong⟩ := (h.int text i).mp hvalue
    exact ⟨⟨tree, text, htree, htext, hvalue⟩, hlong⟩
  unfold decode at hm
  simp only [bind_eq_ok] at hm
  obtain ⟨tree, htree, subjectId, hsubject, utc, hutc, posstatus, -, lat, -, latDir, -, lon, -,
    lonDir, -, speed, hspeed, track, htrack, date, hdate, mag, -, magDir, -, mode, -, check, hcheck,
    hm⟩ := hm
  obtain rfl := Except.ok.inj hm
  refine ⟨?_, utc, ?_, rfl⟩
  · simp only [integers, List.forall_mem_cons, List.not_mem_nil, false_implies, implies_true,
      and_true]
    exact ⟨fun _ => hread tree htree _ _ hsubject, fun hne => absurd rfl hne,
      fun _ => hread tree htree _ _ hspeed, fun _ => hread tree htree _ _ htrack,
      fun _ => hread tree htree _ _ hdate, fun _ => hread tree htree _ _ hcheck⟩
  · obtain ⟨text, htext, hvalue⟩ := Tree.get_eq_ok.mp hutc
    exact ⟨tree, text, htree, htext, ((h.longLong text utc).mp hvalue).1⟩

/-- A payload carries one integer in a field at most. -/
theorem Carries.unique {name : String} {i j : Int} (hi : Carries J value payload name i)
    (hj : Carries J value payload name j) : i = j := by
  obtain ⟨tree, text, htree, htext, hvalue⟩ := hi
  obtain ⟨tree', text', htree', htext', hvalue'⟩ := hj
  obtain rfl := Except.ok.inj (htree.symm.trans htree')
  obtain rfl := Except.ok.inj (htext.symm.trans htext')
  exact Option.some.inj (hvalue.symm.trans hvalue')

/-- **Accepted or rejected.** A payload is not altered exactly when its time fits, or it is
rejected. -/
theorem notAltered_iff (h : Exact N value) (payload : String) :
    NotAltered N J value payload ↔
      (WellFormed N J payload → ∀ i, Carries J value payload "utc" i → IsLong i) := by
  constructor
  · intro hsafe hwell i hcarries
    by_contra hlong
    obtain ⟨what, herror⟩ := hsafe.rejected "utc" (by simp) i hcarries hlong
    obtain ⟨m, hm⟩ := (decode_ok_iff J payload).mpr hwell
    rw [hm] at herror
    cases herror
  · intro hutc
    have haccepted : ∀ m : Message N, decode J payload = .ok m →
        ∀ p ∈ integers m, Carries J value payload p.1 p.2 ∧ IsLong p.2 := by
      intro m hm p hp
      obtain ⟨hothers, i, hi, hmod⟩ := decode_carries h hm
      by_cases hname : p.1 = "utc"
      · have hlong := hutc ((decode_ok_iff J payload).mp ⟨m, hm⟩) i hi
        rw [bmod_eq_self hlong] at hmod
        have hvalue : p.2 = m.utc := by
          simp only [integers, List.mem_cons, List.not_mem_nil, or_false] at hp
          rcases hp with rfl | rfl | rfl | rfl | rfl | rfl
          case inr.inl => rfl
          all_goals simp at hname
        rw [hname, hvalue, hmod]
        exact ⟨hi, hlong⟩
      · exact hothers p hp hname
    refine ⟨fun m hm p hp => (haccepted m hm p hp).1, ?_⟩
    intro name hname i hcarries hlong
    cases hdecode : (decode J payload : Except String (Message N)) with
    | error what => exact ⟨what, rfl⟩
    | ok m =>
      obtain ⟨p, hp, rfl⟩ : ∃ p ∈ integers m, p.1 = name := by
        simpa [integers, eq_comm] using hname
      obtain ⟨hpcarries, hplong⟩ := haccepted m hdecode p hp
      rw [hcarries.unique hpcarries] at hlong
      exact absurd hplong hlong

end Decode

theorem exact_decimals : Exact decimals JsonText.readInt where
  int text i := by
    show (JsonText.readInt text).filter _ = some i ↔ _
    rw [Option.filter_eq_some_iff, decide_eq_true_iff]
    rfl
  longLong text i := by
    show (JsonText.readInt text).filter _ = some i ↔ _
    rw [Option.filter_eq_some_iff, decide_eq_true_iff]
    rfl

/-- The text of a message, whatever its integers. -/
def textOf (m : Message decimals) : String := JsonText.textOfTree (toTree m)

theorem carries_textOf (m : Message decimals) :
    ∀ p ∈ integers m, Carries JsonText.json JsonText.readInt (textOf m) p.1 p.2 := by
  intro p hp
  exact ⟨toTree m, toString p.2,
    JsonText.roundTrips _ _ (JsonText.writeJson_eq (writable_toTree m)), getString_toTree m p hp,
    JsonText.readInt_toString p.2⟩

/-- The least time is taken as it is. -/
theorem awkward_notAltered :
    NotAltered decimals JsonText.json JsonText.readInt (textOf awkward) := by
  refine (notAltered_iff exact_decimals (textOf awkward)).mpr ?_
  intro _ i hi
  rw [hi.unique (carries_textOf awkward ("utc", -2147483648) (by decide))]
  decide

/-- A position whose time has 33 bits. -/
def late : Message decimals :=
  ⟨1, 4294967301, 65, (4807 : Int), 78, (1131 : Int), 69, 22, 84, 230394, (3 : Int), 87, 65, 106⟩

/-- It is accepted, and the sample has another time. -/
theorem late_altered :
    Carries JsonText.json JsonText.readInt (textOf late) "utc" 4294967301 ∧
      decode JsonText.json (textOf late) = .ok { late with utc := 5 } ∧
      ¬ NotAltered decimals JsonText.json JsonText.readInt (textOf late) := by
  have hwrite := JsonText.writeJson_eq (writable_toTree late)
  have hdecode : decode JsonText.json (textOf late) = .ok { late with utc := 5 } := by
    refine decode_encode_utc (JsonText.roundTrips _) ?_ ?_ ?_ ?_ ?_ hwrite
    · intro i hi
      refine JsonText.intTranslator_read_write "int" ?_
      revert i
      decide
    · exact JsonText.intTranslator_read_write "long long" (by decide)
    · exact fun c _ => JsonText.charTranslator_read_write c
    · exact fun d _ => JsonText.readInt_toString d
    · exact JsonText.readInt_toString (3 : Int)
  have hcarries := carries_textOf late ("utc", 4294967301) (by decide)
  refine ⟨hcarries, hdecode, ?_⟩
  intro h
  obtain ⟨what, herror⟩ := h.rejected "utc" (by simp) 4294967301 hcarries (by decide)
  rw [hdecode] at herror
  cases herror

end BddsBroker.Dds.Hop
