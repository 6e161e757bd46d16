import BddsBroker.Lib.FixedBuffer
import BddsBroker.Sbdp.Reader

/-! `data_`, the buffer of the reader. Both calls of `async_receive_from` offer all of its
`max_length` characters, and the handler writes a zero behind what has arrived. A datagram
that fills the buffer puts that zero outside. For shorter ones the buffer shows what has
arrived and nothing older, so the handler is the one of `Reader`. -/

namespace BddsBroker.Sbdp

open PropertyTree Program

structure Receiver where
  data : FixedBuffer UInt8 maxLength
  reader : Reader

/-- What completes a receive. A datagram may be of any length. -/
inductive Arrival
  | failed
  | datagram (bytes : List UInt8)
  deriving DecidableEq, Repr

namespace Arrival

/-- What is written to `data_`: as much as `async_receive_from` was offered. -/
def received : Arrival → List UInt8
  | failed => []
  | datagram bytes => bytes.take maxLength

/-- The arguments of the handler. -/
def completion : Arrival → Completion
  | failed => ⟨true, []⟩
  | datagram bytes => ⟨false, bytes.take maxLength⟩

/-- The datagram leaves a character of the buffer free. -/
def Short : Arrival → Prop
  | failed => True
  | datagram bytes => bytes.length < maxLength

end Arrival

/-- `handle_receive_from` from `str_stream << data_` on. -/
def handleData (J : Json) (data : FixedBuffer UInt8 maxLength) : EStateM Stop Reader Unit := do
  let pt ← ofExcept id (call (J.readJson (dataText data.cells)))
  let brokerId ← ofExcept id (call (pt.getString ["BROKER", "BrokerID"]))
  store brokerId pt
  modify Reader.asyncReceiveFrom

/-- `data_[bytes_recvd] = '\0'`. -/
def terminate (data : FixedBuffer UInt8 maxLength) (a : Arrival) :
    Option (FixedBuffer UInt8 maxLength) :=
  data.set? a.received.length 0

/-- A receive completes and the handler runs. The step is refused as in `step`, and when the
zero is written outside the buffer. -/
def receive (J : Json) (s : Receiver) (a : Arrival) : Option Receiver :=
  match s.reader.outstanding with
  | 0 => none
  | n + 1 =>
      let reader := { s.reader with outstanding := n }
      let data := s.data.fill a.received
      match a with
      | .failed => some ⟨data, reader⟩
      | .datagram _ =>
          match terminate data a with
          | none => none
          | some data =>
              match handleData J data reader with
              | .ok _ reader => some ⟨data, reader⟩
              | .error _ _ => none

/-- The zero is written to the buffer, and the text that is parsed is what has arrived, up
to its first zero. -/
def Contained (s : Receiver) : Arrival → Prop
  | .failed => True
  | .datagram bytes => ∃ data, terminate (s.data.fill (bytes.take maxLength)) (.datagram bytes) =
      some data ∧ data.before 0 = (bytes.take maxLength).takeWhile fun byte => byte ≠ 0

theorem terminate_eq_none_iff {data : FixedBuffer UInt8 maxLength} {bytes : List UInt8} :
    terminate data (.datagram bytes) = none ↔ ¬ (Arrival.datagram bytes).Short := by
  unfold terminate Arrival.received Arrival.Short
  rw [FixedBuffer.set?_eq_none, List.length_take]
  omega

theorem contained_iff (s : Receiver) (a : Arrival) : Contained s a ↔ a.Short := by
  cases a with
  | failed => exact Iff.rfl
  | datagram bytes =>
    constructor
    · rintro ⟨data, hdata, -⟩
      by_contra hlong
      rw [terminate_eq_none_iff.mpr hlong] at hdata
      cases hdata
    · intro hshort
      have hall : bytes.take maxLength = bytes := List.take_of_length_le (le_of_lt hshort)
      show ∃ data, terminate (s.data.fill (bytes.take maxLength)) (.datagram bytes) = some data ∧
        data.before 0 = (bytes.take maxLength).takeWhile fun byte => byte ≠ 0
      rw [hall]
      cases hdata : terminate (s.data.fill bytes) (.datagram bytes) with
      | none => exact absurd hshort (terminate_eq_none_iff.mp hdata)
      | some data =>
        refine ⟨data, rfl, ?_⟩
        rw [terminate, Arrival.received, hall] at hdata
        exact FixedBuffer.before_fill_set hshort hdata

/-- **The buffer.** In every sequence of arrivals the handler stays inside `data_` and parses
only what has arrived just when every datagram leaves a character free. -/
theorem buffer_contained_iff (J : Json) (s : Receiver) (as : List Arrival) :
    Machine.Along (receive J) Contained s as ↔
      Machine.Along (receive J) (fun _ a => a.Short) s as :=
  Machine.along_iff (I := fun _ => True) (fun s a _ => contained_iff s a)
    (fun _ _ _ _ _ _ => trivial) trivial as

/-! ## The handler of `Reader` -/

/-- The text depends on the buffer up to its first zero. -/
theorem handleReceiveFrom_eq {J : Json} {data : FixedBuffer UInt8 maxLength}
    {received : List UInt8} (hlen : received.length < maxLength)
    (h : data.before 0 = received.takeWhile fun byte => byte ≠ 0) :
    handleReceiveFrom J ⟨false, received⟩ = handleData J data := by
  have htext : dataText data.cells = dataText received := by
    unfold dataText
    rw [← h, FixedBuffer.before]
  simp only [handleReceiveFrom, Bool.false_eq_true, if_false, not_le_of_gt hlen, handleData, htext]

/-- **Refinement.** Seen without its buffer, the receiver is the reader. -/
theorem receive_reader (J : Json) (s : Receiver) (a : Arrival) :
    (receive J s a).map Receiver.reader = step J s.reader a.completion := by
  unfold receive step
  cases s.reader.outstanding with
  | zero => rfl
  | succ n =>
    cases a with
    | failed => rfl
    | datagram bytes =>
      by_cases hshort : (Arrival.datagram bytes).Short
      · obtain ⟨data, hdata, htext⟩ := (contained_iff s _).mpr hshort
        have hlen : (bytes.take maxLength).length < maxLength := by
          simp only [Arrival.Short] at hshort
          simp only [List.length_take]
          omega
        simp only [Arrival.received, Arrival.completion, hdata, handleReceiveFrom_eq hlen htext]
        generalize handleData J data _ = result
        cases result <;> rfl
      · have hnone : terminate (s.data.fill (bytes.take maxLength)) (.datagram bytes) = none :=
          terminate_eq_none_iff.mpr hshort
        have hlong : maxLength ≤ (bytes.take maxLength).length := by
          simp only [Arrival.Short] at hshort
          simp only [List.length_take]
          omega
        simp only [Arrival.received, Arrival.completion, hnone, handleReceiveFrom, hlong,
          Bool.false_eq_true, if_true]
        rfl

/-- A buffer of zeros, and the reader of a broker. -/
def Receiver.start (brokerId : String) : Receiver :=
  ⟨⟨List.replicate maxLength 0, List.length_replicate⟩, .start brokerId⟩

/-- A datagram of `max_length` bytes. -/
def filling : Arrival := .datagram (List.replicate maxLength 65)

theorem filling_not_contained :
    ¬ Machine.Along (receive JsonText.json) Contained (.start BrokerAltConfig.brokerId)
      [filling] := by
  intro halong
  have hshort := (contained_iff _ _).mp halong.1
  simp [filling, Arrival.Short] at hshort

end BddsBroker.Sbdp
