import Mathlib.Data.List.Basic
import Mathlib.Data.Nat.ModEq
import Mathlib.Algebra.BigOperators.Group.List.Basic

/-! Streams of values of fixed sizes. In an aligned stream each value stands at a multiple of
its size, and bytes of any content fill the space before it. How long a list of values becomes
depends only on where it starts, modulo any common multiple of the sizes. What is put into a
stream comes out of it again in the same order. -/

namespace Cdr

/-! ## Positions -/

/-- How many bytes stand before a value of that size. -/
def pad (aligned : Bool) (size pos : Nat) : Nat :=
  if aligned then (size - pos % size) % size else 0

/-- The position behind one more value. -/
def next (aligned : Bool) (pos size : Nat) : Nat := pos + (pad aligned size pos + size)

/-- The position behind values of these sizes. -/
def finish (aligned : Bool) (pos : Nat) (sizes : List Nat) : Nat := sizes.foldl (next aligned) pos

variable {aligned : Bool} {pos size : Nat} {sizes : List Nat}

@[simp] theorem pad_false : pad false size pos = 0 := rfl

theorem pad_congr {m p q : Nat} (h : size ∣ m) (hpq : p % m = q % m) :
    pad aligned size p = pad aligned size q := by
  have hmod : p % size = q % size := by
    rw [← Nat.mod_mod_of_dvd p h, hpq, Nat.mod_mod_of_dvd q h]
  simp only [pad, hmod]

theorem pad_add_multiple {m : Nat} (h : size ∣ m) :
    pad aligned size (pos + m) = pad aligned size pos :=
  pad_congr h (Nat.add_mod_right pos m)

theorem finish_cons :
    finish aligned pos (size :: sizes) = finish aligned (next aligned pos size) sizes := rfl

theorem le_finish (aligned : Bool) (pos : Nat) (sizes : List Nat) :
    pos ≤ finish aligned pos sizes := by
  induction sizes generalizing pos with
  | nil => exact Nat.le_refl pos
  | cons size sizes ih =>
    rw [finish_cons]
    have h := ih (next aligned pos size)
    simp only [next] at h ⊢
    omega

theorem finish_add_multiple {m : Nat} (h : ∀ size ∈ sizes, size ∣ m) :
    finish aligned (pos + m) sizes = finish aligned pos sizes + m := by
  induction sizes generalizing pos with
  | nil => rfl
  | cons size sizes ih =>
    have hnext : next aligned (pos + m) size = next aligned pos size + m := by
      simp only [next, pad_add_multiple (h size List.mem_cons_self)]
      omega
    rw [finish_cons, finish_cons, hnext, ih fun z hz => h z (List.mem_cons_of_mem size hz)]

/-- The length of the values is known for every start when it is known below a common multiple
of their sizes. -/
theorem finish_mod {m : Nat} (h : ∀ size ∈ sizes, size ∣ m) :
    finish aligned pos sizes = finish aligned (pos % m) sizes + m * (pos / m) := by
  conv_lhs => rw [← Nat.mod_add_div pos m]
  exact finish_add_multiple fun size hsize => (h size hsize).mul_right _

theorem finish_false : finish false pos sizes = pos + sizes.sum := by
  induction sizes generalizing pos with
  | nil => rfl
  | cons size sizes ih =>
    rw [finish_cons, ih, List.sum_cons]
    simp only [next, pad_false]
    omega

/-! ## Streams -/

/-- The bytes between where a stream is read and where it is written. -/
structure Stream where
  aligned : Bool
  /-- Where the next byte to read stands. -/
  start : Nat
  bytes : List UInt8
  /-- How many bytes may still be written. -/
  room : Nat

namespace Stream

/-- Where the next byte that is written stands. -/
def stop (s : Stream) : Nat := s.start + s.bytes.length

def write (s : Stream) (bytes : List UInt8) : Stream :=
  { s with bytes := s.bytes ++ bytes, room := s.room - bytes.length }

/-- A value at its place, behind zeros. -/
def put (s : Stream) (value : List UInt8) : Option Stream :=
  let fill := List.replicate (pad s.aligned value.length s.stop) 0
  if next s.aligned s.stop value.length ≤ s.stop + s.room then some (s.write (fill ++ value))
  else none

def read (s : Stream) (size : Nat) : Option (List UInt8 × Stream) :=
  let skipped := pad s.aligned size s.start
  if skipped + size ≤ s.bytes.length then
    some ((s.bytes.drop skipped).take size,
      { s with start := s.start + (skipped + size), bytes := s.bytes.drop (skipped + size) })
  else none

/-- Reading values of that size and dropping them. -/
def skip (size : Nat) : Nat → Stream → Option Stream
  | 0, s => some s
  | n + 1, s => (s.read size).bind fun p => skip size n p.2

end Stream

variable {s s' : Stream}

theorem stop_write (bytes : List UInt8) : (s.write bytes).stop = s.stop + bytes.length := by
  simp only [Stream.stop, Stream.write, List.length_append]
  omega

/-- A value is read exactly when the stream does not end before it does. -/
theorem read_isSome_iff : (s.read size).isSome ↔ next s.aligned s.start size ≤ s.stop := by
  simp only [Stream.read, next, Stream.stop]
  split_ifs with h
  · simp only [Option.isSome_some, true_iff]
    omega
  · simp only [Option.isSome_none, Bool.false_eq_true, false_iff]
    omega

theorem skip_one (s : Stream) (size : Nat) : s.skip size 1 = (s.read size).map Prod.snd :=
  Option.map_eq_bind.symm

theorem read_eq_some {b : List UInt8} (h : s.read size = some (b, s')) :
    b.length = size ∧ s'.aligned = s.aligned ∧ s'.start = next s.aligned s.start size ∧
      s'.stop = s.stop := by
  simp only [Stream.read] at h
  split_ifs at h with hle
  obtain ⟨rfl, rfl⟩ := Prod.mk.inj (Option.some.inj h)
  refine ⟨?_, rfl, rfl, ?_⟩
  · rw [List.length_take, List.length_drop]
    omega
  · simp only [Stream.stop, List.length_drop]
    omega

/-! ## What a stream holds -/

/-- From that position on, the bytes are these values, each with what fills the space before
it. -/
inductive Holds (aligned : Bool) : Nat → List UInt8 → List (List UInt8) → Prop
  | nil (pos : Nat) : Holds aligned pos [] []
  | cons {pos : Nat} {fill value bytes : List UInt8} {values : List (List UInt8)}
      (hfill : fill.length = pad aligned value.length pos)
      (hrest : Holds aligned (next aligned pos value.length) bytes values) :
      Holds aligned pos (fill ++ value ++ bytes) (value :: values)

variable {bytes : List UInt8} {values : List (List UInt8)}

theorem Holds.length (h : Holds aligned pos bytes values) :
    pos + bytes.length = finish aligned pos (values.map List.length) := by
  induction h with
  | nil pos => rfl
  | cons hfill _ ih =>
    rw [List.map_cons, finish_cons, ← ih]
    simp only [next, List.length_append]
    omega

/-- Writing one more value. -/
theorem Holds.snoc {fill value : List UInt8} (h : Holds aligned pos bytes values)
    (hfill : fill.length = pad aligned value.length (pos + bytes.length)) :
    Holds aligned pos (bytes ++ (fill ++ value)) (values ++ [value]) := by
  induction h with
  | nil pos =>
    have := Holds.cons hfill (Holds.nil (next aligned pos value.length))
    rwa [List.append_nil] at this
  | @cons pos first head rest values hfirst _ ih =>
    rw [List.append_assoc, List.cons_append]
    refine .cons hfirst (ih ?_)
    rw [hfill]
    congr 1
    simp only [next, List.length_append]
    omega

/-- The same bytes are the same values at every start that is the same modulo a common multiple
of the sizes. -/
theorem Holds.congr {m q : Nat} (h : Holds aligned pos bytes values)
    (hm : ∀ value ∈ values, value.length ∣ m) (hq : pos % m = q % m) :
    Holds aligned q bytes values := by
  induction h generalizing q with
  | nil pos => exact .nil q
  | @cons pos fill value bytes values hfill _ ih =>
    have hdvd := hm value List.mem_cons_self
    have hpad : pad aligned value.length pos = pad aligned value.length q := pad_congr hdvd hq
    refine .cons (hfill.trans hpad) (ih (fun v hv => hm v (List.mem_cons_of_mem value hv)) ?_)
    rw [next, next, hpad]
    exact Nat.ModEq.add_right _ hq

/-- Reading the first value, whatever stands behind the values. -/
theorem Holds.read {value tail : List UInt8}
    (h : Holds s.aligned s.start bytes (value :: values)) (hbytes : s.bytes = bytes ++ tail) :
    ∃ s' rest, s.read value.length = some (value, s') ∧ s'.aligned = s.aligned ∧
      s'.start = next s.aligned s.start value.length ∧ s'.bytes = rest ++ tail ∧
      Holds s.aligned s'.start rest values := by
  obtain ⟨sa, start, sbytes, room⟩ := s
  cases h with
  | @cons _ fill _ rest _ hfill hrest =>
    simp only at hfill hrest hbytes
    subst hbytes
    refine ⟨⟨sa, next sa start value.length, rest ++ tail, room⟩, rest, ?_, rfl, rfl, rfl, hrest⟩
    have hlength : pad sa value.length start + value.length = (fill ++ value).length := by
      rw [List.length_append, hfill]
    have hassoc : fill ++ value ++ rest ++ tail = fill ++ value ++ (rest ++ tail) :=
      List.append_assoc ..
    have hdrop : (fill ++ value ++ (rest ++ tail)).drop (pad sa value.length start) =
        value ++ (rest ++ tail) := by
      rw [← hfill, List.append_assoc, List.drop_left]
    simp only [Stream.read, hassoc, hdrop, hlength, List.take_left, List.drop_left]
    rw [if_pos (by simp only [List.length_append]; omega)]
    simp only [next, hlength]

/-! ## Numbers as bytes -/

/-- The last `n` bytes of a number, the least significant first. -/
def bytesOf : Nat → Nat → List UInt8
  | 0, _ => []
  | n + 1, x => UInt8.ofNat x :: bytesOf n (x / 256)

def ofBytes : List UInt8 → Nat
  | [] => 0
  | b :: bs => b.toNat + 256 * ofBytes bs

@[simp] theorem length_bytesOf (n x : Nat) : (bytesOf n x).length = n := by
  induction n generalizing x with
  | zero => rfl
  | succ n ih => rw [bytesOf, List.length_cons, ih]

theorem ofBytes_bytesOf {n x : Nat} (h : x < 256 ^ n) : ofBytes (bytesOf n x) = x := by
  induction n generalizing x with
  | zero =>
    rw [Nat.pow_zero] at h
    simp only [bytesOf, ofBytes]
    omega
  | succ n ih =>
    have hdiv : x / 256 < 256 ^ n := by
      rw [Nat.pow_succ] at h
      omega
    have hbyte : (UInt8.ofNat x).toNat = x % 256 := UInt8.toNat_ofNat'
    rw [bytesOf, ofBytes, ih hdiv, hbyte]
    omega

end Cdr
