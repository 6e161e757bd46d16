import Mathlib.Data.List.GetD
import BddsBroker.Mqtt.Dispatch
import BddsBroker.Mqtt.Framing

/-! The bytes of a frame. `send` refuses packets of more than 1024 bytes and hands 1024
bytes from `message.data()` on to `async_write`, however short the packet is. What stands
behind the packet in memory goes to the client with it. The overload for `std::string`
hands over `buffer(message, MAX_PACKET_SIZE)`, which ends with the string. -/

namespace BddsBroker.Frames

open Framing (maxPacketSize)

variable {L : Libraries}

/-- `buffer(message.data(), MAX_PACKET_SIZE)`, where `behind` is the memory at these offsets
from `message.data()`. -/
def dataBuffer (behind : Nat → UInt8) (message : List UInt8) : List UInt8 :=
  (List.range maxPacketSize).map fun i => message.getD i (behind i)

/-- `MQTTSession::send` with the bytes that it hands to `async_write`. -/
def send (behind : Nat → UInt8) (message : List UInt8) : Int × Option (List UInt8) :=
  if message.length > 1024 then (-1, none) else (0, some (dataBuffer behind message))

theorem send_result (behind : Nat → UInt8) (message : List UInt8) :
    (send behind message).1 = MqttSession.send message := by
  unfold send MqttSession.send
  split <;> rfl

/-- The byte at this position is the same whatever stands behind the packet. -/
def Padding (message : List UInt8) (i : Nat) : Prop :=
  ∃ byte, ∀ behind, (dataBuffer behind message)[i]? = some byte

/-- Every position is one of the packet or fixed padding. -/
def WithinPacket (message : List UInt8) : Prop :=
  ∀ i, i < maxPacketSize → i < message.length ∨ Padding message i

/-- Two runs that agree on the packet write the same. -/
def Uniform (message : List UInt8) : Prop :=
  ∀ behind behind', send behind message = send behind' message

theorem getElem?_dataBuffer {behind : Nat → UInt8} {message : List UInt8} {i : Nat}
    (hi : i < maxPacketSize) :
    (dataBuffer behind message)[i]? = some (message.getD i (behind i)) := by
  simp [dataBuffer, hi]

/-- A position behind the packet is read from memory. -/
theorem not_padding {message : List UInt8} {i : Nat} (hi : i < maxPacketSize)
    (hbehind : message.length ≤ i) : ¬ Padding message i := by
  rintro ⟨byte, hbyte⟩
  have hzero := (hbyte fun _ => 0).symm.trans (getElem?_dataBuffer hi)
  have hone := (hbyte fun _ => 1).symm.trans (getElem?_dataBuffer hi)
  rw [List.getD_eq_default _ _ hbehind] at hzero hone
  have heq : (0 : UInt8) = 1 := Option.some.inj (hzero.symm.trans hone)
  exact absurd heq (by decide)

/-- A packet that fills the frame covers every position. -/
theorem dataBuffer_full {message : List UInt8} (hfull : maxPacketSize ≤ message.length)
    (behind behind' : Nat → UInt8) : dataBuffer behind message = dataBuffer behind' message := by
  unfold dataBuffer
  refine List.map_congr_left fun i hi => ?_
  have hlt : i < message.length := lt_of_lt_of_le (List.mem_range.mp hi) hfull
  rw [List.getD_eq_getElem _ _ hlt, List.getD_eq_getElem _ _ hlt]

theorem full_of_dataBuffer {message : List UInt8}
    (h : dataBuffer (fun _ => 0) message = dataBuffer (fun _ => 1) message) :
    maxPacketSize ≤ message.length := by
  by_contra hshort
  have hi : message.length < maxPacketSize := not_le.mp hshort
  have hbyte := congrArg (fun bytes => bytes[message.length]?) h
  simp only [getElem?_dataBuffer hi, List.getD_eq_default _ _ (le_refl message.length),
    Option.some.injEq] at hbyte
  exact absurd hbyte (by decide)

theorem withinPacket_iff {message : List UInt8} :
    WithinPacket message ↔ maxPacketSize ≤ message.length := by
  constructor
  · intro h
    by_contra hshort
    have hi : message.length < maxPacketSize := not_le.mp hshort
    rcases h message.length hi with hin | hpad
    · exact absurd hin (lt_irrefl _)
    · exact not_padding hi (le_refl _) hpad
  · intro hfull i hi
    exact .inl (lt_of_lt_of_le hi hfull)

theorem length_le_of_accepted {message : List UInt8} (h : MqttSession.send message = 0) :
    message.length ≤ maxPacketSize := by
  unfold MqttSession.send at h
  split at h
  · cases h
  · rename_i hlen
    exact not_lt.mp hlen

theorem uniform_iff {message : List UInt8} (h : MqttSession.send message = 0) :
    Uniform message ↔ message.length = maxPacketSize := by
  have hle := length_le_of_accepted h
  have hlen : ¬ message.length > 1024 := not_lt.mpr hle
  unfold Uniform send
  simp only [if_neg hlen, Prod.mk.injEq, true_and, Option.some.injEq]
  constructor
  · intro hsame
    exact le_antisymm hle (full_of_dataBuffer (hsame _ _))
  · intro hfull behind behind'
    exact dataBuffer_full (ge_of_eq hfull) behind behind'

/-- A refused packet is not written at all. -/
theorem uniform_of_refused {message : List UInt8} (h : MqttSession.send message ≠ 0) :
    Uniform message := by
  have hlong : message.length > 1024 := by
    by_contra hshort
    exact h (if_neg hshort)
  intro behind behind'
  rw [send, if_pos hlong, send, if_pos hlong]

/-- **Frames.** An accepted packet is all that its frame reveals, in either sense, just when
it fills the frame. -/
theorem reveals_only_packet_iff {message : List UInt8} (h : MqttSession.send message = 0) :
    (WithinPacket message ↔ message.length = maxPacketSize) ∧
      (Uniform message ↔ message.length = maxPacketSize) := by
  have hle := length_le_of_accepted h
  refine ⟨?_, uniform_iff h⟩
  rw [withinPacket_iff]
  omega

/-- A packet of 1024 bytes. -/
def full : List UInt8 := List.replicate maxPacketSize 0

theorem full_reveals_only_packet : WithinPacket full ∧ Uniform full := by
  have hlen : full.length = maxPacketSize := List.length_replicate
  have haccepted : MqttSession.send full = 0 := by simp [MqttSession.send, hlen, maxPacketSize]
  obtain ⟨hwithin, huniform⟩ := reveals_only_packet_iff haccepted
  exact ⟨hwithin.mpr hlen, huniform.mpr hlen⟩

/-- The four bytes of a PUBACK. -/
def puback : List UInt8 := [0x40, 2, 0, 7]

theorem puback_reveals_more :
    MqttSession.send puback = 0 ∧ ¬ WithinPacket puback ∧ ¬ Uniform puback := by
  have haccepted : MqttSession.send puback = 0 := by decide
  refine ⟨haccepted, ?_, ?_⟩
  · rw [withinPacket_iff]
    decide
  · rw [uniform_iff haccepted]
    decide

/-! ## The frames of a dispatch -/

/-- The frames of these sends. Each has a vector of its own: `behind k` is the memory behind
the one that `k` more sends follow. -/
def frames (behind : Nat → Nat → UInt8) : List SendCall → List (List UInt8)
  | [] => []
  | call :: calls =>
      ((send (behind calls.length) call.data).2.toList) ++ frames behind calls

/-- A send returns what `MQTTSession::send` does on its data. -/
def Returned (calls : List SendCall) : Prop :=
  ∀ call ∈ calls, call.result = MqttSession.send call.data

theorem returned_sendMessage {clientId : String} {task : MqttTask} {b b' : Broker L}
    {sends : List SendCall} (h : sendMessage clientId task b = some (b', sends)) :
    Returned sends := by
  unfold sendMessage at h
  split at h
  · cases h
  · split at h
    · simp only [Option.some.injEq, Prod.mk.injEq] at h
      obtain ⟨-, rfl⟩ := h
      intro call hcall
      cases hcall
    · simp only [sendTo, Option.some.injEq, Prod.mk.injEq] at h
      obtain ⟨-, rfl⟩ := h
      intro call hcall
      rw [List.mem_singleton.mp hcall]

theorem returned_fanOut {task : MqttTask} {clients : List SessionPtr} {b : Broker L}
    {r : Dispatched L} (h : fanOut task clients b = some r) : Returned r.sends := by
  induction clients generalizing b r with
  | nil =>
    obtain rfl := Option.some.inj h
    intro call hcall
    cases hcall
  | cons client clients ih =>
    obtain ⟨b₁, first, rest, hfirst, hrest, rfl⟩ := fanOut_cons h
    intro call hcall
    rcases List.mem_append.mp hcall with hcall | hcall
    · exact returned_sendMessage hfirst call hcall
    · exact ih hrest call hcall

theorem returned_mqttEndPointWriter {task : MqttTask} {b : Broker L} {r : Dispatched L}
    (h : mqttEndPointWriter task b = some r) : Returned r.sends := by
  unfold mqttEndPointWriter at h
  split at h
  · obtain rfl := Option.some.inj h
    intro call hcall
    cases hcall
  · split at h
    · exact returned_fanOut h
    · obtain ⟨⟨b', sends⟩, hf, rfl⟩ := Option.map_eq_some_iff.mp h
      exact returned_sendMessage hf

/-- Whether there is a frame does not depend on the memory. -/
theorem length_frame (behind : Nat → UInt8) (message : List UInt8) :
    (send behind message).2.toList.length = if message.length > 1024 then 0 else 1 := by
  unfold send
  split <;> rfl

theorem send_eq_of_toList {behind behind' : Nat → UInt8} {message : List UInt8}
    (h : (send behind message).2.toList = (send behind' message).2.toList) :
    send behind message = send behind' message := by
  unfold send at h ⊢
  split
  · rfl
  · rename_i hlen
    simp only [if_neg hlen, Option.toList_some, List.cons.injEq, and_true] at h
    rw [h]

/-- The frames of several sends are uniform when that of each is. -/
theorem frames_uniform_iff {calls : List SendCall} :
    (∀ behind behind', frames behind calls = frames behind' calls) ↔
      ∀ call ∈ calls, Uniform call.data := by
  induction calls with
  | nil => simp [frames]
  | cons call calls ih =>
    simp only [List.forall_mem_cons]
    rw [← ih]
    constructor
    · intro h
      have hsplit : ∀ behind behind', _ := fun behind behind' =>
        List.append_inj (h behind behind') (by simp only [length_frame])
      refine ⟨fun behind behind' => ?_, fun behind behind' => (hsplit behind behind').2⟩
      exact send_eq_of_toList (hsplit (fun _ => behind) fun _ => behind').1
    · rintro ⟨hcall, hcalls⟩ behind behind'
      simp only [frames]
      rw [hcall (behind calls.length) (behind' calls.length), hcalls behind behind']

/-- **Dispatches.** The frames of a dispatch reveal nothing else just when each packet that
it sends fills its frame. -/
theorem dispatch_uniform_iff {task : MqttTask} {b : Broker L} {r : Dispatched L}
    (h : mqttEndPointWriter task b = some r) :
    (∀ behind behind', frames behind r.sends = frames behind' r.sends) ↔
      ∀ call ∈ r.sends, call.result = 0 → call.data.length = maxPacketSize := by
  rw [frames_uniform_iff]
  refine forall₂_congr fun call hcall => ?_
  rw [returned_mqttEndPointWriter h call hcall]
  constructor
  · intro huniform haccepted
    exact (uniform_iff haccepted).mp huniform
  · intro hfull
    by_cases haccepted : MqttSession.send call.data = 0
    · exact (uniform_iff haccepted).mpr (hfull haccepted)
    · exact uniform_of_refused haccepted

end BddsBroker.Frames
