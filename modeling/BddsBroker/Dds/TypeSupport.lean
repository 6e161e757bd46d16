import BddsBroker.Lib.Cdr
import BddsBroker.Dds.Hop

/-! The type support of `Messenger::Message`: a sample as bytes. The `Serializer` is OpenDDS's
and a parameter here; what is relied on is that it puts values into a stream of bytes and gets
them out of it as CDR says, each at a multiple of its size or one right behind the other. -/

namespace BddsBroker.Dds

open Cdr

/-! ## The types of the fields -/

inductive Kind
  | long
  | char
  | double
  | float
  deriving DecidableEq, Repr

/-- `gen_max_marshaled_size` of a value. -/
def Kind.size : Kind → Nat
  | .long => 4
  | .char => 1
  | .double => 8
  | .float => 4

abbrev Kind.Val (N : Numbers) : Kind → Type
  | .long => Int
  | .char => UInt8
  | .double => N.Double
  | .float => N.Float

abbrev Value (N : Numbers) := (k : Kind) × k.Val N

structure Serializer (N : Numbers) where
  Stream : Type
  put (k : Kind) : k.Val N → StateT Stream Option Unit
  get (k : Kind) : StateT Stream Option (k.Val N)
  skip (n size : Nat) : StateT Stream Option Unit

namespace TypeSupport

variable {N : Numbers}

/-! ## The sample -/

/-- `operator<<`. -/
def marshal (strm : Serializer N) (stru : Message N) : StateT strm.Stream Option Unit := do
  strm.put .long stru.subjectId
  strm.put .long stru.utc
  strm.put .char stru.posstatus
  strm.put .double stru.lat
  strm.put .char stru.latDir
  strm.put .double stru.lon
  strm.put .char stru.lonDir
  strm.put .long stru.speed
  strm.put .long stru.track
  strm.put .long stru.date
  strm.put .float stru.mag
  strm.put .char stru.magDir
  strm.put .char stru.mode
  strm.put .long stru.check

/-- `operator>>`. -/
def unmarshal (strm : Serializer N) : StateT strm.Stream Option (Message N) := do
  let subjectId ← strm.get .long
  let utc ← strm.get .long
  let posstatus ← strm.get .char
  let lat ← strm.get .double
  let latDir ← strm.get .char
  let lon ← strm.get .double
  let lonDir ← strm.get .char
  let speed ← strm.get .long
  let track ← strm.get .long
  let date ← strm.get .long
  let mag ← strm.get .float
  let magDir ← strm.get .char
  let mode ← strm.get .char
  let check ← strm.get .long
  return ⟨subjectId, utc, posstatus, lat, latDir, lon, lonDir, speed, track, date, mag, magDir,
    mode, check⟩

/-- `operator<<` of `KeyOnly`. -/
def marshalKey (strm : Serializer N) (stru : Message N) : StateT strm.Stream Option Unit :=
  strm.put .long stru.subjectId

/-- `operator>>` of `KeyOnly`, which leaves the other fields as they are. -/
def unmarshalKey (strm : Serializer N) (stru : Message N) :
    StateT strm.Stream Option (Message N) := do
  let subjectId ← strm.get .long
  return { stru with subjectId := subjectId }

/-- `Message_OpenDDS_KeyLessThan`. -/
def keyLessThan (v1 v2 : Message N) : Bool :=
  if v1.subjectId < v2.subjectId then true
  else if v2.subjectId < v1.subjectId then false
  else false

/-! ## Its size -/

structure Size where
  size : Nat
  padding : Nat
  deriving DecidableEq, Repr

def Size.total (z : Size) : Nat := z.size + z.padding

/-- `if ((size + padding) % n) padding += n - ((size + padding) % n)`. -/
def Size.align (n : Nat) (z : Size) : Size :=
  if z.total % n ≠ 0 then { z with padding := z.padding + (n - z.total % n) } else z

def Size.add (n : Nat) (z : Size) : Size := { z with size := z.size + n }

def genFindSize (z : Size) : Size :=
  z |>.align 4 |>.add Kind.long.size
    |>.align 4 |>.add Kind.long.size
    |>.add Kind.char.size
    |>.align 8 |>.add Kind.double.size
    |>.add Kind.char.size
    |>.align 8 |>.add Kind.double.size
    |>.add Kind.char.size
    |>.align 4 |>.add Kind.long.size
    |>.align 4 |>.add Kind.long.size
    |>.align 4 |>.add Kind.long.size
    |>.align 4 |>.add Kind.float.size
    |>.add Kind.char.size
    |>.add Kind.char.size
    |>.align 4 |>.add Kind.long.size

def genMaxMarshaledSize (align : Bool) : Nat := if align then 68 else 49

/-- `gen_find_size` of `KeyOnly`. -/
def genFindKeySize (z : Size) : Size := z |>.align 4 |>.add Kind.long.size

/-! ## Its fields by name -/

/-- `getFieldNames`, with the types of the fields. -/
def layout : List (String × Kind) :=
  [("subject_id", .long), ("utc", .long), ("posstatus", .char), ("lat", .double),
    ("lat_dir", .char), ("lon", .double), ("lon_dir", .char), ("speed", .long), ("track", .long),
    ("date", .long), ("mag", .float), ("mag_dir", .char), ("mode", .char), ("check", .long)]

def fields (m : Message N) : List (String × Value N) :=
  [("subject_id", ⟨.long, m.subjectId⟩), ("utc", ⟨.long, m.utc⟩),
    ("posstatus", ⟨.char, m.posstatus⟩), ("lat", ⟨.double, m.lat⟩), ("lat_dir", ⟨.char, m.latDir⟩),
    ("lon", ⟨.double, m.lon⟩), ("lon_dir", ⟨.char, m.lonDir⟩), ("speed", ⟨.long, m.speed⟩),
    ("track", ⟨.long, m.track⟩), ("date", ⟨.long, m.date⟩), ("mag", ⟨.float, m.mag⟩),
    ("mag_dir", ⟨.char, m.magDir⟩), ("mode", ⟨.char, m.mode⟩), ("check", ⟨.long, m.check⟩)]

/-- `MetaStruct::getValue` of a sample. -/
def getValue (stru : Message N) (field : String) : Except String (Value N) :=
  match (fields stru).lookup field with
  | some value => .ok value
  | none => .error ("Field " ++ field ++
      " not found or its type is not supported (in struct Messenger::Message)")

/-- The tests of `MetaStruct::getValue` of a stream, one field after another. -/
def getValueFrom (ser : Serializer N) (field : String) :
    List (String × Kind) → ser.Stream → Except String (Value N × ser.Stream)
  | [], strm =>
      if field = "" then .ok (⟨.long, (0 : Int)⟩, strm)
      else .error ("Field " ++ field ++ " not valid for struct Messenger::Message")
  | (name, kind) :: rest, strm =>
      if field = name then
        match ser.get kind strm with
        | some (val, strm) => .ok (⟨kind, val⟩, strm)
        | none => .error ("Field '" ++ name ++ "' could not be deserialized")
      else
        match ser.skip 1 kind.size strm with
        | some (_, strm) => getValueFrom ser field rest strm
        | none => .error ("Field '" ++ name ++ "' could not be skipped")

/-- `MetaStruct::getValue` of a stream. -/
def getValueSer (ser : Serializer N) (field : String) (strm : ser.Stream) :
    Except String (Value N × ser.Stream) := getValueFrom ser field layout strm

def genSkipOver (ser : Serializer N) (strm : ser.Stream) : Except String ser.Stream :=
  (getValueSer ser "" strm).map Prod.snd

end TypeSupport

end BddsBroker.Dds
