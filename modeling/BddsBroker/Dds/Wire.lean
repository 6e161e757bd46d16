import BddsBroker.Dds.TypeSupport

/-! Samples in a stream. The operators put the fields of a sample one after another and get
them in the same order, so any number of samples come out of a stream as they went in. The
functions that only count bytes agree with them, and so do those that look for one field. -/

namespace BddsBroker.Dds.TypeSupport

open Cdr PropertyTree

variable {N : Numbers} {S : Serializer N}

/-! ## The serializer -/

/-- The streams of a serializer as streams of bytes, and its values as bytes. -/
structure Coding (S : Serializer N) where
  view : S.Stream → Cdr.Stream
  bytes (k : Kind) : k.Val N → List UInt8
  value (k : Kind) : List UInt8 → k.Val N

/-- A `long` has its value in 32 bits. -/
def Storable : (k : Kind) → k.Val N → Prop
  | .long, i => Hop.IsLong i
  | _, _ => True

/-- What is relied on. -/
structure Coding.IsCdr (C : Coding S) : Prop where
  length_bytes (k : Kind) (v : k.Val N) : (C.bytes k v).length = k.size
  value_bytes (k : Kind) (v : k.Val N) : Storable k v → C.value k (C.bytes k v) = v
  put_isSome (k : Kind) (v : k.Val N) (st : S.Stream) : (S.put k v st).isSome ↔
    next (C.view st).aligned (C.view st).stop k.size ≤ (C.view st).stop + (C.view st).room
  put_view (k : Kind) (v : k.Val N) (st st' : S.Stream) : S.put k v st = some ((), st') →
    ∃ fill : List UInt8, fill.length = pad (C.view st).aligned k.size (C.view st).stop ∧
      C.view st' = (C.view st).write (fill ++ C.bytes k v)
  get_view (k : Kind) (st : S.Stream) : (S.get k st).map (Prod.map id C.view) =
    ((C.view st).read k.size).map (Prod.map (C.value k) id)
  skip_view (k : Kind) (st : S.Stream) : (S.skip 1 k.size st).map (fun p => C.view p.2) =
    ((C.view st).read k.size).map Prod.snd

namespace Coding.IsCdr

variable {C : Coding S} {k : Kind} {st st' : S.Stream}

theorem get_eq_some (h : C.IsCdr) {v : k.Val N} (hget : S.get k st = some (v, st')) :
    ∃ b, (C.view st).read k.size = some (b, C.view st') ∧ C.value k b = v := by
  have hview := h.get_view k st
  rw [hget, Option.map_some] at hview
  obtain ⟨p, hread, hp⟩ := Option.map_eq_some_iff.mp hview.symm
  obtain ⟨hvalue, hstream⟩ := Prod.mk.inj hp
  refine ⟨p.1, ?_, hvalue⟩
  rw [hread, ← show p.2 = C.view st' from hstream]

theorem get_of_read (h : C.IsCdr) {b : List UInt8} {s : Cdr.Stream}
    (hread : (C.view st).read k.size = some (b, s)) :
    ∃ st', S.get k st = some (C.value k b, st') ∧ C.view st' = s := by
  have hview := h.get_view k st
  rw [hread, Option.map_some] at hview
  obtain ⟨p, hget, hp⟩ := Option.map_eq_some_iff.mp hview
  obtain ⟨hvalue, hstream⟩ := Prod.mk.inj hp
  refine ⟨p.2, ?_, hstream⟩
  rw [hget, ← show p.1 = C.value k b from hvalue]

theorem get_eq_none (h : C.IsCdr) :
    S.get k st = none ↔ (C.view st).stop < next (C.view st).aligned (C.view st).start k.size := by
  have hview := congrArg Option.isSome (h.get_view k st)
  rw [Option.isSome_map, Option.isSome_map] at hview
  rw [← Option.not_isSome_iff_eq_none, hview, read_isSome_iff]
  omega

theorem skip_of_read (h : C.IsCdr) {b : List UInt8} {s : Cdr.Stream}
    (hread : (C.view st).read k.size = some (b, s)) :
    ∃ st', S.skip 1 k.size st = some ((), st') ∧ C.view st' = s := by
  have hview := h.skip_view k st
  rw [hread, Option.map_some] at hview
  obtain ⟨p, hskip, hp⟩ := Option.map_eq_some_iff.mp hview
  exact ⟨p.2, hskip, hp⟩

theorem skip_eq_none (h : C.IsCdr) :
    S.skip 1 k.size st = none ↔
      (C.view st).stop < next (C.view st).aligned (C.view st).start k.size := by
  have hview := congrArg Option.isSome (h.skip_view k st)
  rw [Option.isSome_map, Option.isSome_map] at hview
  rw [← Option.not_isSome_iff_eq_none, hview, read_isSome_iff]
  omega

theorem put_stop (h : C.IsCdr) {v : k.Val N} (hput : S.put k v st = some ((), st')) :
    (C.view st').aligned = (C.view st).aligned ∧
      (C.view st').stop = next (C.view st).aligned (C.view st).stop k.size ∧
      (C.view st').stop + (C.view st').room = (C.view st).stop + (C.view st).room := by
  obtain ⟨fill, hfill, hview⟩ := h.put_view k v st st' hput
  have hroom := (h.put_isSome k v st).mp (by rw [hput]; rfl)
  have hlength : (fill ++ C.bytes k v).length =
      pad (C.view st).aligned k.size (C.view st).stop + k.size := by
    rw [List.length_append, hfill, h.length_bytes]
  rw [hview, stop_write, hlength]
  refine ⟨rfl, rfl, ?_⟩
  simp only [Stream.write, hlength]
  simp only [next] at hroom
  omega

end Coding.IsCdr

/-! ## Values one after another -/

/-- Values of these types. -/
abbrev Values (N : Numbers) : List Kind → Type
  | [] => Unit
  | k :: ks => k.Val N × Values N ks

def putAll (S : Serializer N) : (ks : List Kind) → Values N ks → StateT S.Stream Option Unit
  | [], _ => pure ()
  | k :: ks, (v, vs) => do
      S.put k v
      putAll S ks vs

def getAll (S : Serializer N) : (ks : List Kind) → StateT S.Stream Option (Values N ks)
  | [] => pure ()
  | k :: ks => do
      let v ← S.get k
      let vs ← getAll S ks
      return (v, vs)

def Coding.allBytes (C : Coding S) : (ks : List Kind) → Values N ks → List (List UInt8)
  | [], _ => []
  | k :: ks, (v, vs) => C.bytes k v :: C.allBytes ks vs

def AllStorable : (ks : List Kind) → Values N ks → Prop
  | [], _ => True
  | k :: ks, (v, vs) => Storable k v ∧ AllStorable ks vs

section Sequences

variable {C : Coding S} {ks : List Kind} {vs : Values N ks} {st st' : S.Stream}

theorem putAll_cons {k : Kind} {v : k.Val N} :
    putAll S (k :: ks) (v, vs) st = (S.put k v st).bind fun p => putAll S ks vs p.2 := rfl

theorem getAll_cons {k : Kind} :
    getAll S (k :: ks) st =
      (S.get k st).bind fun p => (getAll S ks p.2).map fun q => ((p.1, q.1), q.2) := by
  show (S.get k st).bind _ = _
  congr 1
  funext p
  show (getAll S ks p.2).bind _ = _
  rw [Option.map_eq_bind]
  rfl

theorem map_length_allBytes (hC : C.IsCdr) :
    (C.allBytes ks vs).map List.length = ks.map Kind.size := by
  induction ks with
  | nil => rfl
  | cons k ks ih =>
    obtain ⟨v, vs⟩ := vs
    rw [Coding.allBytes, List.map_cons, List.map_cons, hC.length_bytes, ih]

/-- Putting values: whether there is room, and what the stream holds afterwards. -/
theorem putAll_isSome_iff (hC : C.IsCdr) : (putAll S ks vs st).isSome ↔
    finish (C.view st).aligned (C.view st).stop (ks.map Kind.size) ≤
      (C.view st).stop + (C.view st).room := by
  induction ks generalizing st with
  | nil =>
    refine iff_of_true rfl ?_
    exact Nat.le_add_right ..
  | cons k ks ih =>
    obtain ⟨v, vs⟩ := vs
    have hput := hC.put_isSome k v st
    rw [putAll_cons, List.map_cons, finish_cons]
    cases h : S.put k v st with
    | none =>
      rw [h] at hput
      have hle := le_finish (C.view st).aligned (next (C.view st).aligned (C.view st).stop k.size)
        (ks.map Kind.size)
      refine iff_of_false Bool.false_ne_true fun hfinish => ?_
      exact absurd (hput.mpr (Nat.le_trans hle hfinish)) Bool.false_ne_true
    | some p =>
      obtain ⟨⟨⟩, st₁⟩ := p
      obtain ⟨haligned, hstop, hsum⟩ := hC.put_stop h
      rw [Option.bind_some, ih, hsum, hstop, haligned]

theorem putAll_stop (hC : C.IsCdr) (hput : putAll S ks vs st = some ((), st')) :
    (C.view st').stop = finish (C.view st).aligned (C.view st).stop (ks.map Kind.size) := by
  induction ks generalizing st with
  | nil =>
    obtain rfl : st = st' := congrArg Prod.snd (Option.some.inj hput)
    rfl
  | cons k ks ih =>
    obtain ⟨v, vs⟩ := vs
    rw [putAll_cons] at hput
    obtain ⟨⟨⟨⟩, st₁⟩, hfirst, hrest⟩ := Option.bind_eq_some_iff.mp hput
    obtain ⟨haligned, hstop, -⟩ := hC.put_stop hfirst
    rw [ih hrest, haligned, hstop, List.map_cons, finish_cons]

theorem putAll_holds (hC : C.IsCdr) {values : List (List UInt8)}
    (h : Holds (C.view st).aligned (C.view st).start (C.view st).bytes values)
    (hput : putAll S ks vs st = some ((), st')) :
    (C.view st').aligned = (C.view st).aligned ∧ (C.view st').start = (C.view st).start ∧
      Holds (C.view st).aligned (C.view st).start (C.view st').bytes
        (values ++ C.allBytes ks vs) := by
  induction ks generalizing st values with
  | nil =>
    obtain rfl : st = st' := congrArg Prod.snd (Option.some.inj hput)
    rw [Coding.allBytes, List.append_nil]
    exact ⟨rfl, rfl, h⟩
  | cons k ks ih =>
    obtain ⟨v, vs⟩ := vs
    rw [putAll_cons] at hput
    obtain ⟨⟨⟨⟩, st₁⟩, hfirst, hrest⟩ := Option.bind_eq_some_iff.mp hput
    obtain ⟨fill, hfill, hview⟩ := hC.put_view k v st st₁ hfirst
    have h₁ : Holds (C.view st₁).aligned (C.view st₁).start (C.view st₁).bytes
        (values ++ [C.bytes k v]) := by
      rw [hview]
      refine h.snoc ?_
      rw [hfill, hC.length_bytes]
      rfl
    obtain ⟨haligned, hstart, hholds⟩ := ih h₁ hrest
    rw [List.append_assoc] at hholds
    rw [haligned, hstart, hview]
    rw [hview] at hholds
    exact ⟨rfl, rfl, hholds⟩

/-- Getting values that a stream holds. -/
theorem getAll_of_holds (hC : C.IsCdr) (hvs : AllStorable ks vs) {bytes tail : List UInt8}
    {more : List (List UInt8)}
    (h : Holds (C.view st).aligned (C.view st).start bytes (C.allBytes ks vs ++ more))
    (hbytes : (C.view st).bytes = bytes ++ tail) :
    ∃ st' rest, getAll S ks st = some (vs, st') ∧
      (C.view st').aligned = (C.view st).aligned ∧ (C.view st').bytes = rest ++ tail ∧
      Holds (C.view st').aligned (C.view st').start rest more := by
  induction ks generalizing st bytes with
  | nil => exact ⟨st, bytes, rfl, rfl, hbytes, h⟩
  | cons k ks ih =>
    obtain ⟨v, vs⟩ := vs
    obtain ⟨hv, hvs⟩ := hvs
    obtain ⟨s, rest, hread, haligned, -, hrest, hholds⟩ := Holds.read h hbytes
    rw [hC.length_bytes] at hread
    obtain ⟨st₁, hget, hview⟩ := hC.get_of_read hread
    rw [hC.value_bytes k v hv] at hget
    rw [← hview] at haligned hrest hholds
    rw [← haligned] at hholds
    obtain ⟨st', rest', hall, haligned', hbytes', hholds'⟩ := ih hvs hholds hrest
    refine ⟨st', rest', ?_, haligned'.trans haligned, hbytes', hholds'⟩
    rw [getAll_cons, hget, Option.bind_some, hall]
    rfl

end Sequences

/-! ## Samples -/

/-- The types of the fields. -/
abbrev kinds : List Kind :=
  [.long, .long, .char, .double, .char, .double, .char, .long, .long, .long, .float, .char, .char,
    .long]

def values (m : Message N) : Values N kinds :=
  (m.subjectId, m.utc, m.posstatus, m.lat, m.latDir, m.lon, m.lonDir, m.speed, m.track, m.date,
    m.mag, m.magDir, m.mode, m.check, ())

def ofValues : Values N kinds → Message N
  | (subjectId, utc, posstatus, lat, latDir, lon, lonDir, speed, track, date, mag, magDir, mode,
      check, _) =>
    ⟨subjectId, utc, posstatus, lat, latDir, lon, lonDir, speed, track, date, mag, magDir, mode,
      check⟩

theorem marshal_eq (m : Message N) : marshal S m = putAll S kinds (values m) := by
  simp only [marshal, values, putAll, bind_pure_unit]

theorem unmarshal_eq : unmarshal S = ofValues <$> getAll S kinds := by
  simp only [unmarshal, getAll, map_bind, map_pure, bind_assoc, pure_bind, ofValues]

/-- The integers of the sample have their values in 32 bits. -/
def Stored (m : Message N) : Prop := ∀ p ∈ Hop.integers m, Hop.IsLong p.2

theorem Stored.values {m : Message N} (h : Stored m) : AllStorable kinds (values m) := by
  simp only [Stored, Hop.integers, List.forall_mem_cons, List.not_mem_nil, false_implies,
    implies_true, and_true] at h
  obtain ⟨hsubject, hutc, hspeed, htrack, hdate, hcheck⟩ := h
  exact ⟨hsubject, hutc, trivial, trivial, trivial, trivial, trivial, hspeed, htrack, hdate,
    trivial, trivial, trivial, hcheck, trivial⟩

/-- One sample after another. -/
def marshalEach (S : Serializer N) : List (Message N) → StateT S.Stream Option Unit
  | [] => pure ()
  | m :: ms => do
      marshal S m
      marshalEach S ms

def unmarshalEach (S : Serializer N) : Nat → StateT S.Stream Option (List (Message N))
  | 0 => pure []
  | n + 1 => do
      let m ← unmarshal S
      let ms ← unmarshalEach S n
      return m :: ms

section Samples

variable {C : Coding S} {st st' : S.Stream} {m : Message N} {ms : List (Message N)}

def Coding.sampleBytes (C : Coding S) (m : Message N) : List (List UInt8) :=
  C.allBytes kinds (values m)

theorem marshalEach_holds (hC : C.IsCdr) {values : List (List UInt8)}
    (h : Holds (C.view st).aligned (C.view st).start (C.view st).bytes values)
    (hput : marshalEach S ms st = some ((), st')) :
    (C.view st').aligned = (C.view st).aligned ∧ (C.view st').start = (C.view st).start ∧
      Holds (C.view st).aligned (C.view st).start (C.view st').bytes
        (values ++ ms.flatMap C.sampleBytes) := by
  induction ms generalizing st values with
  | nil =>
    obtain rfl : st = st' := congrArg Prod.snd (Option.some.inj hput)
    rw [List.flatMap_nil, List.append_nil]
    exact ⟨rfl, rfl, h⟩
  | cons m ms ih =>
    obtain ⟨⟨⟨⟩, st₁⟩, hfirst, hrest⟩ := Option.bind_eq_some_iff.mp hput
    rw [marshal_eq] at hfirst
    obtain ⟨haligned₁, hstart₁, h₁⟩ := putAll_holds hC h hfirst
    rw [← haligned₁, ← hstart₁] at h₁
    obtain ⟨haligned, hstart, hholds⟩ := ih h₁ hrest
    rw [haligned₁, hstart₁, List.append_assoc] at hholds
    rw [List.flatMap_cons]
    exact ⟨haligned.trans haligned₁, hstart.trans hstart₁, hholds⟩

theorem unmarshal_of_holds (hC : C.IsCdr) (hm : Stored m) {bytes tail : List UInt8}
    {more : List (List UInt8)}
    (h : Holds (C.view st).aligned (C.view st).start bytes (C.sampleBytes m ++ more))
    (hbytes : (C.view st).bytes = bytes ++ tail) :
    ∃ st' rest, unmarshal S st = some (m, st') ∧
      (C.view st').aligned = (C.view st).aligned ∧ (C.view st').bytes = rest ++ tail ∧
      Holds (C.view st').aligned (C.view st').start rest more := by
  obtain ⟨st', rest, hget, hrest⟩ := getAll_of_holds hC hm.values h hbytes
  refine ⟨st', rest, ?_, hrest⟩
  rw [unmarshal_eq]
  show (getAll S kinds st).bind _ = _
  rw [hget]
  rfl

theorem unmarshalEach_of_holds (hC : C.IsCdr) (hms : ∀ m ∈ ms, Stored m) {bytes tail : List UInt8}
    (h : Holds (C.view st).aligned (C.view st).start bytes (ms.flatMap C.sampleBytes))
    (hbytes : (C.view st).bytes = bytes ++ tail) :
    ∃ st', unmarshalEach S ms.length st = some (ms, st') ∧ (C.view st').bytes = tail := by
  induction ms generalizing st bytes with
  | nil =>
    cases h
    exact ⟨st, rfl, hbytes⟩
  | cons m ms ih =>
    rw [List.flatMap_cons] at h
    obtain ⟨st₁, rest, hfirst, haligned, hrest, hholds⟩ :=
      unmarshal_of_holds hC (hms m List.mem_cons_self) h hbytes
    obtain ⟨st', hall, htail⟩ := ih (fun m' hm' => hms m' (List.mem_cons_of_mem m hm')) hholds hrest
    refine ⟨st', ?_, htail⟩
    show (unmarshal S st).bind _ = _
    rw [hfirst]
    show (unmarshalEach S ms.length st₁).bind _ = _
    rw [hall]
    rfl

end Samples

/-! ## A serializer -/

/-- Numbers by their bits. -/
def words : Numbers where
  Double := UInt64
  Float := UInt32
  int := JsonText.intTranslator "int" 32
  longLong := JsonText.intTranslator "long long" 64
  char := JsonText.charTranslator
  double := ⟨"double", fun text => (JsonText.readInt text).map fun i => UInt64.ofNat i.toNat,
    fun d => toString (d.toNat : Int)⟩
  float := ⟨"float", fun text => (JsonText.readInt text).map fun i => UInt32.ofNat i.toNat,
    fun d => toString (d.toNat : Int)⟩

def longBytes (i : Int) : List UInt8 := bytesOf 4 (i % 2 ^ 32).toNat

def longValue (b : List UInt8) : Int := (ofBytes b : Int).bmod (2 ^ 32)

/-- The bytes of a value, the least significant first. -/
def wordBytes : (k : Kind) → k.Val words → List UInt8
  | .long, i => longBytes i
  | .char, c => [c]
  | .double, d => bytesOf 8 (UInt64.toNat d)
  | .float, d => bytesOf 4 (UInt32.toNat d)

def wordValue : (k : Kind) → List UInt8 → k.Val words
  | .long, b => longValue b
  | .char, b => b.headD 0
  | .double, b => UInt64.ofNat (ofBytes b)
  | .float, b => UInt32.ofNat (ofBytes b)

def wordSerializer : Serializer words where
  Stream := Cdr.Stream
  put k v st := (st.put (wordBytes k v)).map fun st => ((), st)
  get k st := (st.read k.size).map (Prod.map (wordValue k) id)
  skip n size st := (st.skip size n).map fun st => ((), st)

def wordCoding : Coding wordSerializer where
  view := id
  bytes := wordBytes
  value := wordValue

theorem length_wordBytes (k : Kind) (v : k.Val words) : (wordBytes k v).length = k.size := by
  cases k with
  | char => rfl
  | _ => exact length_bytesOf _ _

theorem longValue_longBytes {i : Int} (hi : Hop.IsLong i) : longValue (longBytes i) = i := by
  obtain ⟨hlow, hhigh⟩ := hi
  have hx : (i % 2 ^ 32).toNat < 256 ^ 4 := by omega
  have hword : ∀ n : Nat, n = 2 ^ 32 → ((i % 2 ^ 32).toNat : Int).bmod n = i := by
    rintro n rfl
    rw [Int.bmod_def]
    split <;> omega
  have hbytes := ofBytes_bytesOf hx
  unfold longValue longBytes
  rw [hbytes]
  exact hword _ rfl

theorem ofNat_ofBytes_64 (d : UInt64) : UInt64.ofNat (ofBytes (bytesOf 8 d.toNat)) = d := by
  have hx : d.toNat < 256 ^ 8 := d.toNat_lt
  rw [ofBytes_bytesOf hx, UInt64.ofNat_toNat]

theorem ofNat_ofBytes_32 (d : UInt32) : UInt32.ofNat (ofBytes (bytesOf 4 d.toNat)) = d := by
  have hx : d.toNat < 256 ^ 4 := d.toNat_lt
  rw [ofBytes_bytesOf hx, UInt32.ofNat_toNat]

theorem wordValue_wordBytes (k : Kind) (v : k.Val words) (hv : Storable k v) :
    wordValue k (wordBytes k v) = v := by
  cases k with
  | long => exact longValue_longBytes hv
  | char => rfl
  | double => exact ofNat_ofBytes_64 v
  | float => exact ofNat_ofBytes_32 v

theorem isCdr_wordCoding : wordCoding.IsCdr where
  length_bytes := length_wordBytes
  value_bytes := wordValue_wordBytes
  put_isSome k v st := by
    simp only [wordSerializer, wordCoding, Option.isSome_map, Stream.put, length_wordBytes, id]
    split_ifs with h
    · exact iff_of_true rfl h
    · exact iff_of_false Bool.false_ne_true h
  put_view k v st st' h := by
    simp only [wordSerializer, Stream.put, length_wordBytes] at h
    split_ifs at h with hroom
    · obtain rfl := (Prod.mk.inj (Option.some.inj h)).2
      exact ⟨_, List.length_replicate, rfl⟩
    · cases h
  get_view k st := Option.map_map ..
  skip_view k st := by
    have hskip := skip_one st k.size
    show ((Stream.skip k.size 1 st).map fun st => ((), st)).map (fun p => p.2) =
      (Stream.read st k.size).map Prod.snd
    rw [hskip, Option.map_map, Option.map_map]
    rfl

/-! ## What comes out -/

theorem length_dvd_eight {C : Coding S} (hC : C.IsCdr) {ms : List (Message N)} :
    ∀ b ∈ ms.flatMap C.sampleBytes, b.length ∣ 8 := by
  intro b hb
  obtain ⟨m, -, hb⟩ := List.mem_flatMap.mp hb
  have hmem := List.mem_map_of_mem (f := List.length) hb
  rw [Coding.sampleBytes, map_length_allBytes hC] at hmem
  exact (show ∀ size ∈ kinds.map Kind.size, size ∣ 8 by decide) _ hmem

/-- **Round trip.** Samples that were put into an empty stream come out of every stream with
the same bytes and alignment, in their order, whatever follows them; and a reader of keys gets
the key of the first. -/
theorem samples_survive {C : Coding S} (hC : C.IsCdr) {ms : List (Message N)}
    (hms : ∀ m ∈ ms, Stored m) {st st' r : S.Stream} {tail : List UInt8}
    (hempty : (C.view st).bytes = []) (hput : marshalEach S ms st = some ((), st'))
    (haligned : (C.view r).aligned = (C.view st).aligned)
    (hstart : (C.view st).start % 8 = (C.view r).start % 8)
    (hbytes : (C.view r).bytes = (C.view st').bytes ++ tail) :
    (∃ r', unmarshalEach S ms.length r = some (ms, r') ∧ (C.view r').bytes = tail) ∧
      ∀ m ∈ ms.head?, ∀ stru, ∃ r', unmarshalKey S stru r =
        some ({ stru with subjectId := m.subjectId }, r') := by
  have hnil : Holds (C.view st).aligned (C.view st).start (C.view st).bytes [] := by
    rw [hempty]
    exact .nil _
  obtain ⟨-, -, hholds⟩ := marshalEach_holds hC hnil hput
  rw [List.nil_append] at hholds
  have hr := hholds.congr (length_dvd_eight hC) hstart
  rw [← haligned] at hr
  refine ⟨unmarshalEach_of_holds hC hms hr hbytes, fun m hm stru => ?_⟩
  cases ms with
  | nil => cases hm
  | cons first ms =>
    obtain rfl : first = m := Option.some.inj hm
    obtain ⟨hsubject, -⟩ := (hms first List.mem_cons_self).values
    obtain ⟨s, -, hread, -⟩ := Holds.read hr hbytes
    rw [hC.length_bytes] at hread
    obtain ⟨r', hget, -⟩ := hC.get_of_read hread
    rw [hC.value_bytes .long first.subjectId hsubject] at hget
    refine ⟨r', ?_⟩
    show (S.get .long r).bind _ = _
    rw [hget]
    rfl

/-- Two samples, the first with the extreme integers. -/
def twoSamples : List (Message words) :=
  [⟨2147483647, -2147483648, 34, (4807 : UInt64), 32, (1131 : UInt64), 92, 0, -1, 230394,
      (3 : UInt32), 10, 65, 106⟩,
    ⟨7, 123519, 65, (0xC0B2C70000000000 : UInt64), 78, (1131 : UInt64), 69, 22, 84, 230394,
      (0x40466666 : UInt32), 87, 65, 106⟩]

theorem samples_survive_two : ∃ st' : Cdr.Stream,
    marshalEach wordSerializer twoSamples (⟨true, 4, [], 200⟩ : Cdr.Stream) = some ((), st') ∧
      st'.bytes.length = 128 ∧
      ∃ r' : Cdr.Stream, unmarshalEach wordSerializer 2
        (⟨true, 12, st'.bytes ++ [7], 0⟩ : Cdr.Stream) = some (twoSamples, r') ∧
          r'.bytes = [7] := by
  have hrun : (marshalEach wordSerializer twoSamples (⟨true, 4, [], 200⟩ : Cdr.Stream)).map
      (fun p => (show Cdr.Stream from p.2).bytes.length) = some 128 := by decide +kernel
  obtain ⟨⟨⟨⟩, st'⟩, hst, hlength⟩ := Option.map_eq_some_iff.mp hrun
  have hstored : ∀ m ∈ twoSamples, Stored m := by
    simp only [twoSamples, Stored, Hop.integers]
    decide
  obtain ⟨r', hr, htail⟩ := (samples_survive isCdr_wordCoding hstored rfl hst
    (show (wordCoding.view (⟨true, 12, st'.bytes ++ [7], 0⟩ : Cdr.Stream)).aligned = true from rfl)
    (show 4 % 8 = 12 % 8 from rfl) (show st'.bytes ++ [7] = st'.bytes ++ [7] from rfl)).1
  exact ⟨st', hst, hlength, r', hr, htail⟩

/-! ## The sizes -/

theorem total_align_add {n : Nat} {z : Size} (hn : 0 < n) :
    ((z.align n).add n).total = next true z.total n := by
  have hlt := Nat.mod_lt z.total hn
  have htotal : (z.align n).total = z.total + pad true n z.total := by
    simp only [Size.align, pad, if_true]
    split_ifs with h
    · have hpad : n - z.total % n < n := by omega
      rw [Nat.mod_eq_of_lt hpad]
      exact (Nat.add_assoc ..).symm
    · rw [not_not.mp h, Nat.sub_zero, Nat.mod_self]
      rfl
  simp only [next, ← Nat.add_assoc, ← htotal]
  simp only [Size.total, Size.add]
  omega

theorem total_add_one {z : Size} : (z.add 1).total = next true z.total 1 := by
  simp only [Size.total, Size.add, next, pad, Nat.mod_one, if_true]
  omega

/-- `gen_find_size` counts what an aligned stream takes. -/
theorem total_genFindSize (z : Size) :
    (genFindSize z).total = finish true z.total (kinds.map Kind.size) := by
  simp only [genFindSize, Kind.size, total_align_add, total_add_one, Nat.zero_lt_succ]
  rfl

/-- Two samples are of one instance exactly when their keys are the same bytes. -/
theorem keys_eq_iff {C : Coding S} (hC : C.IsCdr) {v1 v2 : Message N}
    (h1 : Hop.IsLong v1.subjectId) (h2 : Hop.IsLong v2.subjectId) :
    (keyLessThan v1 v2 = false ∧ keyLessThan v2 v1 = false) ↔
      C.bytes .long v1.subjectId = C.bytes .long v2.subjectId := by
  have hless : ∀ a b : Message N, keyLessThan a b = false ↔ b.subjectId ≤ a.subjectId := by
    intro a b
    rw [keyLessThan]
    split_ifs with hlt hgt
    · exact iff_of_false (by simp) (by omega)
    · exact iff_of_true rfl (by omega)
    · exact iff_of_true rfl (by omega)
  rw [hless, hless]
  constructor
  · intro ⟨hle, hge⟩
    rw [show v1.subjectId = v2.subjectId by omega]
  · intro hbytes
    have hvalues := congrArg (C.value .long) hbytes
    rw [hC.value_bytes .long _ h1, hC.value_bytes .long _ h2] at hvalues
    have heq : v1.subjectId = v2.subjectId := hvalues
    omega

/-- How much longer than the least bound a sample gets depends on where it starts. -/
theorem total_le_iff {pos : Nat} : finish true pos (kinds.map Kind.size) ≤
    pos + genMaxMarshaledSize true ↔ pos % 8 ≤ 4 := by
  have hsizes : ∀ size ∈ kinds.map Kind.size, size ∣ 8 := by decide
  have hbelow : ∀ r < 8, finish true r (kinds.map Kind.size) ≤ r + genMaxMarshaledSize true ↔
      r ≤ 4 := by decide
  have hmod := hbelow (pos % 8) (Nat.mod_lt pos (by decide))
  rw [finish_mod hsizes, ← hmod]
  omega

/-- **Sizes.** A sample fits exactly where its size says. One of an unaligned stream always
has the same size; in an aligned stream a buffer as large as `gen_find_size` says is exactly
enough, and one as large as `gen_max_marshaled_size` says is enough for the samples that start
at most four bytes behind a multiple of eight. -/
theorem sizes_exact {C : Coding S} (hC : C.IsCdr) (m : Message N) (st : S.Stream) {z : Size}
    (hz : z.total = (C.view st).stop) :
    ((C.view st).aligned = false →
      ((marshal S m st).isSome ↔ genMaxMarshaledSize false ≤ (C.view st).room) ∧
      ∀ st', marshal S m st = some ((), st') →
        (C.view st').stop = (C.view st).stop + genMaxMarshaledSize false) ∧
    ((C.view st).aligned = true →
      ((marshal S m st).isSome ↔
        (genFindSize z).total ≤ (C.view st).stop + (C.view st).room) ∧
      (∀ st', marshal S m st = some ((), st') → (C.view st').stop = (genFindSize z).total) ∧
      ((genFindSize z).total ≤ (C.view st).stop + genMaxMarshaledSize true ↔
        (C.view st).stop % 8 ≤ 4)) := by
  have hfits : (putAll S kinds (values m) st).isSome ↔
      finish (C.view st).aligned (C.view st).stop (kinds.map Kind.size) ≤
        (C.view st).stop + (C.view st).room := putAll_isSome_iff hC
  rw [marshal_eq]
  constructor
  · intro hunaligned
    have hsum : (kinds.map Kind.size).sum = genMaxMarshaledSize false := rfl
    rw [hunaligned, finish_false, hsum] at hfits
    refine ⟨hfits.trans (by omega), fun st' hput => ?_⟩
    rw [putAll_stop hC hput, hunaligned, finish_false, hsum]
  · intro haligned
    rw [haligned] at hfits
    rw [total_genFindSize, hz]
    refine ⟨hfits, fun st' hput => ?_, total_le_iff⟩
    rw [putAll_stop hC hput, haligned]

/-- Behind a header of four bytes a buffer of 68 bytes is enough, and behind five it is not. -/
theorem sizes_exact_late : ∃ m : Message words, (genFindSize ⟨5, 0⟩).total = 76 ∧
    (marshal wordSerializer m (⟨true, 4, [], 68⟩ : Cdr.Stream)).isSome = true ∧
    (marshal wordSerializer m (⟨true, 5, [], 68⟩ : Cdr.Stream)).isSome = false := by
  let m : Message words :=
    ⟨7, 123519, 65, (4807 : UInt64), 78, (1131 : UInt64), 69, 22, 84, 230394, (3 : UInt32), 87, 65,
      106⟩
  have hearly := ((sizes_exact isCdr_wordCoding m (⟨true, 4, [], 68⟩ : Cdr.Stream)
    (z := ⟨4, 0⟩) rfl).2 rfl).1
  have hlate := ((sizes_exact isCdr_wordCoding m (⟨true, 5, [], 68⟩ : Cdr.Stream)
    (z := ⟨5, 0⟩) rfl).2 rfl).1
  refine ⟨m, rfl, hearly.mpr (by decide), ?_⟩
  rw [Bool.eq_false_iff]
  exact fun h => absurd (hlate.mp h) (by decide)

end BddsBroker.Dds.TypeSupport
