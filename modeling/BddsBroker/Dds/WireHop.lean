import BddsBroker.Dds.Wire

/-! A payload from broker to broker. On each way the publisher reads JSON, DDS carries the
sample as bytes, and the listener of the next broker writes JSON. The first way may change a
time that is too long for its field, and the form of the text; no later one changes anything. -/

namespace BddsBroker.Dds.TypeSupport

open Cdr Hop Program PropertyTree

variable {N : Numbers} {S : Serializer N} {J : Json} {C : Coding S} {m : Message N}

/-- DDS: one broker puts the sample into an empty stream, and the other gets one out of a stream
with these bytes. -/
def Transfers (C : Coding S) (m received : Message N) : Prop :=
  ∃ (st st' r r' : S.Stream) (tail : List UInt8),
    (C.view st).bytes = [] ∧ marshal S m st = some ((), st') ∧
      (C.view r).aligned = (C.view st).aligned ∧
      (C.view st).start % 8 = (C.view r).start % 8 ∧
      (C.view r).bytes = (C.view st').bytes ++ tail ∧ unmarshal S r = some (received, r')

/-- From the payload that one broker publishes to the payload that the next one makes. -/
def Hops (J : Json) (C : Coding S) (payload json : String) : Prop :=
  ∃ m received : Message N, decode J payload = .ok m ∧ Transfers C m received ∧
    encode J received = .ok json

theorem Transfers.eq (hC : C.IsCdr) (hm : Stored m) {received : Message N}
    (h : Transfers C m received) : received = m := by
  obtain ⟨st, st', r, r', tail, hempty, hput, haligned, hstart, hbytes, hget⟩ := h
  have hnil : Holds (C.view st).aligned (C.view st).start (C.view st).bytes [] := by
    rw [hempty]
    exact .nil _
  have hput' : marshalEach S [m] st = some ((), st') := by
    show (marshal S m st).bind _ = _
    rw [hput]
    rfl
  obtain ⟨-, -, hholds⟩ := marshalEach_holds hC hnil hput'
  have hr := hholds.congr (length_dvd_eight hC) hstart
  rw [← haligned, List.nil_append, List.flatMap_cons] at hr
  obtain ⟨st₁, -, hsame, -⟩ := unmarshal_of_holds hC hm hr hbytes
  exact congrArg Prod.fst (Option.some.inj (hget.symm.trans hsame))

/-- Where there is room the sample arrives. -/
theorem transfers_self (hC : C.IsCdr) (hm : Stored m) {st : S.Stream}
    (hempty : (C.view st).bytes = []) (hroom : (marshal S m st).isSome) : Transfers C m m := by
  obtain ⟨⟨⟨⟩, st'⟩, hput⟩ := Option.isSome_iff_exists.mp hroom
  have hnil : Holds (C.view st).aligned (C.view st).start (C.view st).bytes [] := by
    rw [hempty]
    exact .nil _
  have hvalues := hput
  rw [marshal_eq] at hvalues
  obtain ⟨haligned, hstart, hholds⟩ := putAll_holds hC hnil hvalues
  rw [← haligned, ← hstart, List.nil_append, ← List.append_nil (C.allBytes _ _)] at hholds
  obtain ⟨r', -, hget, -⟩ := unmarshal_of_holds hC hm hholds (List.append_nil _).symm
  exact ⟨st, st', st', r', [], hempty, hput, haligned, by rw [hstart], (List.append_nil _).symm,
    hget⟩

/-- What the publisher reads fits into the fields. -/
theorem stored_of_decode {value : String → Option Int} {payload : String} (hN : Exact N value)
    (hm : decode J payload = .ok m) : Stored m := by
  obtain ⟨hothers, i, -, hutc⟩ := decode_carries hN hm
  intro p hp
  by_cases hname : p.1 = "utc"
  · have hword : IsLong m.utc := by
      have hmod : ∀ n : Nat, n = 2 ^ 32 → IsLong (i.bmod n) := by
        rintro n rfl
        have hlow := Int.le_bmod (x := i) (m := 2 ^ 32) (by decide)
        have hhigh := Int.bmod_lt (x := i) (m := 2 ^ 32) (by decide)
        constructor <;> omega
      rw [hutc]
      exact hmod _ rfl
    simp only [integers, List.mem_cons, List.not_mem_nil, or_false] at hp
    rcases hp with rfl | rfl | rfl | rfl | rfl | rfl
    case inr.inl => exact hword
    all_goals simp at hname
  · exact (hothers p hp hname).2

/-- **Brokers in a row.** What the first hop makes of a payload every later hop leaves as it is,
and it decodes to the same sample. -/
theorem hops_settle {value : String → Option Int} (hC : C.IsCdr) (hJ : Transmits N J)
    (hN : Exact N value) {payload : String} (hm : decode J payload = .ok m)
    (hascii : ∀ c ∈ [m.posstatus, m.latDir, m.lonDir, m.magDir, m.mode], c < 128)
    {st : S.Stream} (hempty : (C.view st).bytes = []) (hroom : (marshal S m st).isSome) :
    ∃ json, Hops J C payload json ∧ decode J json = .ok m ∧ Hops J C json json ∧
      ∀ last, Relation.TransGen (Hops J C) payload last → last = json := by
  have hstored := stored_of_decode hN hm
  have hfits : Fits m := ⟨hstored, hascii⟩
  obtain ⟨json, hwrite, hread⟩ := hJ.json m hfits
  have hround : J.RoundTrips (toTree m) := by
    intro text htext
    obtain rfl := Except.ok.inj (hwrite.symm.trans htext)
    exact hread
  have hdecode : decode J json = .ok m := decode_encode hround (hfits.readable hJ) hwrite
  have htransfers := transfers_self hC hstored hempty hroom
  have honly : ∀ p j, decode J p = .ok m → Hops J C p j → j = json := by
    rintro p j hp ⟨m', received, hm', htransfer, hencode⟩
    obtain rfl := Except.ok.inj (hp.symm.trans hm')
    obtain rfl := htransfer.eq hC hstored
    exact (Except.ok.inj (hwrite.symm.trans hencode)).symm
  refine ⟨json, ⟨m, m, hm, htransfers, hwrite⟩, hdecode, ⟨m, m, hdecode, htransfers, hwrite⟩, ?_⟩
  intro last h
  induction h with
  | single hhop => exact honly payload _ hm hhop
  | tail _ hhop ih =>
    rw [ih] at hhop
    exact honly json _ hdecode hhop

theorem transmits_words : Transmits words JsonText.json where
  json m _ := by
    have hwrite := JsonText.writeJson_eq (writable_toTree m)
    exact ⟨_, hwrite, JsonText.roundTrips _ _ hwrite⟩
  writeInt _ _ := rfl
  readInt _ hi := JsonText.intTranslator_read_write "int" hi
  readLongLong _ hi := JsonText.intTranslator_read_write "long long" hi
  char c _ := JsonText.charTranslator_read_write c
  double d := by
    show (JsonText.readInt (toString ((UInt64.toNat d : Nat) : Int))).map _ = some d
    rw [JsonText.readInt_toString]
    exact congrArg some UInt64.ofNat_toNat
  float d := by
    show (JsonText.readInt (toString ((UInt32.toNat d : Nat) : Int))).map _ = some d
    rw [JsonText.readInt_toString]
    exact congrArg some UInt32.ofNat_toNat

theorem exact_words : Exact words JsonText.readInt := ⟨exact_decimals.int, exact_decimals.longLong⟩

/-- A position whose time has 33 bits. -/
def lateWord : Message words :=
  ⟨1, 4294967301, 65, (4807 : UInt64), 78, (1131 : UInt64), 69, 22, 84, 230394, (3 : UInt32), 87,
    65, 106⟩

theorem hops_settle_late : ∃ payload json,
    JsonText.json.writeJson (toTree lateWord) = .ok payload ∧
      Hops JsonText.json wordCoding payload json ∧
      decode JsonText.json json = .ok { lateWord with utc := 5 } ∧
      Hops JsonText.json wordCoding json json := by
  have hwrite := JsonText.writeJson_eq (writable_toTree lateWord)
  have hdecode : decode JsonText.json (JsonText.textOfTree (toTree lateWord)) =
      .ok { lateWord with utc := 5 } := by
    refine decode_encode_utc (JsonText.roundTrips _) ?_ ?_ ?_ ?_ ?_ hwrite
    · intro i hi
      refine JsonText.intTranslator_read_write "int" ?_
      revert i
      decide
    · exact JsonText.intTranslator_read_write "long long" (by decide)
    · exact fun c _ => JsonText.charTranslator_read_write c
    · exact fun d _ => transmits_words.double d
    · exact transmits_words.float (3 : UInt32)
  have hroom : (marshal wordSerializer { lateWord with utc := 5 }
      (⟨true, 4, [], 68⟩ : Cdr.Stream)).isSome := by decide +kernel
  have hascii : ∀ c ∈ [lateWord.posstatus, lateWord.latDir, lateWord.lonDir, lateWord.magDir,
      lateWord.mode], c < 128 := by
    simp only [List.forall_mem_cons, List.not_mem_nil, false_implies, implies_true, and_true]
    decide
  obtain ⟨json, hhop, hjson, hagain, -⟩ := hops_settle isCdr_wordCoding transmits_words exact_words
    hdecode hascii rfl hroom
  exact ⟨_, json, hwrite, hhop, hjson, hagain⟩

end BddsBroker.Dds.TypeSupport
