import BddsBroker.Lib.Program
import BddsBroker.Lib.JsonText

/-! A GPS sample, `Messenger::Message`, and its two ways through JSON: the listener writes
the samples of vehicles, and the publisher reads the payloads of MQTT clients. -/

namespace BddsBroker.Dds

open PropertyTree Program

/-- The number types of a sample, and how Boost's property trees read and write them. -/
structure Numbers where
  Double : Type
  Float : Type
  int : Translator Int
  longLong : Translator Int
  char : Translator UInt8
  double : Translator Double
  float : Translator Float

structure Message (N : Numbers) where
  subjectId : Int
  utc : Int
  posstatus : UInt8
  lat : N.Double
  latDir : UInt8
  lon : N.Double
  lonDir : UInt8
  speed : Int
  track : Int
  date : Int
  mag : N.Float
  magDir : UInt8
  mode : UInt8
  check : Int

/-- The path "Vehicle_GPS.name". -/
def field (name : String) : List String := ["Vehicle_GPS", name]

variable {N : Numbers}

/-- The `put`s of `on_data_available`. -/
def toTree (m : Message N) : Tree :=
  Tree.empty
    |>.put N.int (field "subject_id") m.subjectId
    |>.put N.int (field "utc") m.utc
    |>.put N.char (field "posstatus") m.posstatus
    |>.put N.double (field "lat") m.lat
    |>.put N.char (field "lat_dir") m.latDir
    |>.put N.double (field "lon") m.lon
    |>.put N.char (field "lon_dir") m.lonDir
    |>.put N.int (field "speed") m.speed
    |>.put N.int (field "track") m.track
    |>.put N.int (field "date") m.date
    |>.put N.float (field "mag") m.mag
    |>.put N.char (field "mag_dir") m.magDir
    |>.put N.char (field "mode") m.mode
    |>.put N.int (field "check") m.check

def encode (J : Json) (m : Message N) : Except String String := J.writeJson (toTree m)

/-- The decoding in the loop of `Broker_Publisher::work`. The time is read as a
`long long` and stored in a `long` of 32 bits. -/
def decode (J : Json) (payload : String) : Except String (Message N) := do
  let tree ← J.readJson payload
  let subjectId ← tree.get N.int (field "subject_id")
  let utc ← tree.get N.longLong (field "utc")
  let posstatus ← tree.get N.char (field "posstatus")
  let lat ← tree.get N.double (field "lat")
  let latDir ← tree.get N.char (field "lat_dir")
  let lon ← tree.get N.double (field "lon")
  let lonDir ← tree.get N.char (field "lon_dir")
  let speed ← tree.get N.int (field "speed")
  let track ← tree.get N.int (field "track")
  let date ← tree.get N.int (field "date")
  let mag ← tree.get N.float (field "mag")
  let magDir ← tree.get N.char (field "mag_dir")
  let mode ← tree.get N.char (field "mode")
  let check ← tree.get N.int (field "check")
  return ⟨subjectId, utc.bmod (2 ^ 32), posstatus, lat, latDir, lon, lonDir, speed, track, date,
    mag, magDir, mode, check⟩

/-! ## What is read -/

/-- The tree has the field, and its text reads as a value of the type. -/
def HasField {α : Type} (tree : Tree) (tr : Translator α) (name : String) : Prop :=
  ∃ a, tree.get tr (field name) = .ok a

/-- The payload is JSON and has every field of a sample. -/
def WellFormed (N : Numbers) (J : Json) (payload : String) : Prop :=
  ∃ tree, J.readJson payload = .ok tree ∧
    (∀ name ∈ ["subject_id", "speed", "track", "date", "check"], HasField tree N.int name) ∧
    HasField tree N.longLong "utc" ∧
    (∀ name ∈ ["posstatus", "lat_dir", "lon_dir", "mag_dir", "mode"], HasField tree N.char name) ∧
    (∀ name ∈ ["lat", "lon"], HasField tree N.double name) ∧ HasField tree N.float "mag"

/-- Decoding gives a sample exactly when no call throws. -/
theorem decode_ok_iff (J : Json) (payload : String) :
    (∃ m : Message N, decode J payload = .ok m) ↔ WellFormed N J payload := by
  unfold decode WellFormed HasField
  simp only [bind_eq_ok, List.forall_mem_cons, List.not_mem_nil, false_implies, implies_true,
    and_true]
  constructor
  · rintro ⟨m, tree, htree, a₁, h₁, a₂, h₂, a₃, h₃, a₄, h₄, a₅, h₅, a₆, h₆, a₇, h₇, a₈, h₈, a₉, h₉,
      a₁₀, h₁₀, a₁₁, h₁₁, a₁₂, h₁₂, a₁₃, h₁₃, a₁₄, h₁₄, -⟩
    exact ⟨tree, htree, ⟨⟨a₁, h₁⟩, ⟨a₈, h₈⟩, ⟨a₉, h₉⟩, ⟨a₁₀, h₁₀⟩, ⟨a₁₄, h₁₄⟩⟩, ⟨a₂, h₂⟩,
      ⟨⟨a₃, h₃⟩, ⟨a₅, h₅⟩, ⟨a₇, h₇⟩, ⟨a₁₂, h₁₂⟩, ⟨a₁₃, h₁₃⟩⟩, ⟨⟨a₄, h₄⟩, ⟨a₆, h₆⟩⟩, ⟨a₁₁, h₁₁⟩⟩
  · rintro ⟨tree, htree, ⟨⟨a₁, h₁⟩, ⟨a₈, h₈⟩, ⟨a₉, h₉⟩, ⟨a₁₀, h₁₀⟩, ⟨a₁₄, h₁₄⟩⟩, ⟨a₂, h₂⟩,
      ⟨⟨a₃, h₃⟩, ⟨a₅, h₅⟩, ⟨a₇, h₇⟩, ⟨a₁₂, h₁₂⟩, ⟨a₁₃, h₁₃⟩⟩, ⟨⟨a₄, h₄⟩, ⟨a₆, h₆⟩⟩, ⟨a₁₁, h₁₁⟩⟩
    exact ⟨_, tree, htree, a₁, h₁, a₂, h₂, a₃, h₃, a₄, h₄, a₅, h₅, a₆, h₆, a₇, h₇, a₈, h₈, a₉, h₉,
      a₁₀, h₁₀, a₁₁, h₁₁, a₁₂, h₁₂, a₁₃, h₁₃, a₁₄, h₁₄, rfl⟩

/-! ## What is written -/

/-- The tree of a sample with these fields. -/
def gps (fields : List (String × Tree)) : Tree := .node "" [("Vehicle_GPS", .node "" fields)]

theorem put_gps {α : Type} (tr : Translator α) {name : String} (a : α)
    {fields : List (String × Tree)} (h : name ∉ fields.map Prod.fst) :
    (gps fields).put tr (field name) a = gps (fields ++ [(name, .node (tr.write a) [])]) := by
  rw [Tree.put, Tree.putString, field, gps, Tree.modify, Tree.child?]
  simp [Tree.children, Tree.modify, Tree.child?_new h, Tree.setChild, Tree.replaceIn, Tree.data,
    Tree.replaceIn_new h, gps, Tree.withData, Tree.empty]

/-- The fields stand in the order of the `put`s. -/
theorem toTree_eq (m : Message N) : toTree m = gps
    [("subject_id", .node (N.int.write m.subjectId) []), ("utc", .node (N.int.write m.utc) []),
      ("posstatus", .node (N.char.write m.posstatus) []), ("lat", .node (N.double.write m.lat) []),
      ("lat_dir", .node (N.char.write m.latDir) []), ("lon", .node (N.double.write m.lon) []),
      ("lon_dir", .node (N.char.write m.lonDir) []), ("speed", .node (N.int.write m.speed) []),
      ("track", .node (N.int.write m.track) []), ("date", .node (N.int.write m.date) []),
      ("mag", .node (N.float.write m.mag) []), ("mag_dir", .node (N.char.write m.magDir) []),
      ("mode", .node (N.char.write m.mode) []), ("check", .node (N.int.write m.check) [])] := by
  have hfirst : Tree.empty.put N.int (field "subject_id") m.subjectId =
      gps [("subject_id", .node (N.int.write m.subjectId) [])] := rfl
  simp [toTree, hfirst, put_gps]

theorem writable_toTree (m : Message N) : JsonText.writable 16 0 (toTree m) = true := by
  rw [toTree_eq]
  simp [gps, JsonText.writable]

/-! ## Round trip -/

/-- The values of the sample are read as they were written, and its time fits. -/
structure Readable (m : Message N) : Prop where
  int : ∀ i ∈ [m.subjectId, m.speed, m.track, m.date, m.check],
    N.int.read (N.int.write i) = some i
  utc : N.longLong.read (N.int.write m.utc) = some m.utc
  word : -2 ^ 31 ≤ m.utc ∧ m.utc < 2 ^ 31
  char : ∀ c ∈ [m.posstatus, m.latDir, m.lonDir, m.magDir, m.mode],
    N.char.read (N.char.write c) = some c
  double : ∀ d ∈ [m.lat, m.lon], N.double.read (N.double.write d) = some d
  float : N.float.read (N.float.write m.mag) = some m.mag

theorem not_prefix_field {name other : String} (h : other ≠ name) :
    ¬ field other <+: field name := by
  intro hp
  obtain ⟨-, hp⟩ := List.cons_prefix_cons.mp hp
  exact h (List.cons_prefix_cons.mp hp).1

/-- A field that was put is not changed by the other ones. -/
theorem get_put_field {α β : Type} {name other : String} (h : other ≠ name) (tr : Translator α)
    (tr' : Translator β) (a : α) (t : Tree) :
    (t.put tr (field name) a).get tr' (field other) = t.get tr' (field other) :=
  Tree.get_put_of_not_prefix (not_prefix_field h) tr tr' a t

theorem getString_put_field {α : Type} {name other : String} (h : other ≠ name)
    (tr : Translator α) (a : α) (t : Tree) :
    (t.put tr (field name) a).getString (field other) = t.getString (field other) :=
  Tree.getString_put_of_not_prefix (not_prefix_field h) tr a t

/-- What was written is read, and the time is cut to the size of its field. -/
theorem decode_encode_utc {J : Json} {m : Message N} {json : String}
    (hJ : J.RoundTrips (toTree m))
    (hint : ∀ i ∈ [m.subjectId, m.speed, m.track, m.date, m.check],
      N.int.read (N.int.write i) = some i)
    (hutc : N.longLong.read (N.int.write m.utc) = some m.utc)
    (hchar : ∀ c ∈ [m.posstatus, m.latDir, m.lonDir, m.magDir, m.mode],
      N.char.read (N.char.write c) = some c)
    (hdouble : ∀ d ∈ [m.lat, m.lon], N.double.read (N.double.write d) = some d)
    (hfloat : N.float.read (N.float.write m.mag) = some m.mag) (h : encode J m = .ok json) :
    decode J json = .ok { m with utc := m.utc.bmod (2 ^ 32) } := by
  simp only [List.forall_mem_cons, List.not_mem_nil, false_implies, implies_true, and_true]
    at hint hchar hdouble
  unfold decode
  rw [hJ json h, ok_bind]
  simp [toTree, get_put_field, Tree.get_put_self, hint, hutc, hchar, hdouble, hfloat, ok_bind,
    except_pure]

theorem bmod_eq_self {i : Int} (h : -2 ^ 31 ≤ i ∧ i < 2 ^ 31) : i.bmod (2 ^ 32) = i := by
  have hword : ∀ n : Nat, n = 2 ^ 32 → i.bmod n = i := by
    rintro n rfl
    rw [Int.bmod_def]
    split <;> omega
  exact hword _ rfl

/-- **Round trip.** A sample that was written is read back. -/
theorem decode_encode {J : Json} {m : Message N} {json : String} (hJ : J.RoundTrips (toTree m))
    (hm : Readable m) (h : encode J m = .ok json) : decode J json = .ok m := by
  rw [decode_encode_utc hJ hm.int hm.utc hm.char hm.double hm.float h, bmod_eq_self hm.word]

/-! ## Whole numbers

A library whose numbers are whole, and a sample of a moving vehicle. -/

def wholeNumbers : Numbers where
  Double := Int
  Float := Int
  int := JsonText.intTranslator "int" 32
  longLong := JsonText.intTranslator "long long" 64
  char := JsonText.charTranslator
  double := JsonText.intTranslator "double" 54
  float := JsonText.intTranslator "float" 25

def vehicle : Message wholeNumbers :=
  ⟨1, 123519, 65, (4807 : Int), 78, (1131 : Int), 69, 22, 84, 230394, (3 : Int), 87, 65, 106⟩

theorem readable_vehicle : Readable vehicle where
  int i hi := by
    refine JsonText.intTranslator_read_write "int" ?_
    revert i
    decide
  utc := JsonText.intTranslator_read_write "long long" (by decide)
  word := by decide
  char c _ := JsonText.charTranslator_read_write c
  double := by
    have hread : ∀ d ∈ [(4807 : Int), 1131],
        (JsonText.intTranslator "double" 54).read (toString d) = some d :=
      fun d hd => JsonText.intTranslator_read_write "double" (by revert d; decide)
    exact hread
  float := JsonText.intTranslator_read_write "float" (i := 3) (by decide)

def vehicleJson : String := JsonText.textOfTree (toTree vehicle)

theorem encode_vehicle : encode JsonText.json vehicle = .ok vehicleJson :=
  JsonText.writeJson_eq (writable_toTree vehicle)

theorem decode_vehicle : decode JsonText.json vehicleJson = .ok vehicle :=
  decode_encode (JsonText.roundTrips _) readable_vehicle encode_vehicle

end BddsBroker.Dds
