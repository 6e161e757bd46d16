import BddsBroker.Mqtt.Effects
import BddsBroker.Mqtt.Run
import BddsBroker.Mqtt.Wire

/-! A PUBREL whose identifier has no stored message, as after a retransmission. The code
enqueues the PUBCOMP and then reads `MQTT_publish_map.find(packet_id)->second` without
a test. It stays within the map exactly when the identifier is a key of it, or when a
call before the lookup throws (`pubrel_safe_iff`). -/

namespace BddsBroker.Pubrel

open MqttSession

variable {L : Libraries}

/-- The PUBREL is processed without a read through the end, and when it names no stored
message it leads to at most one reply and leaves the stored messages alone. -/
def Safe (L : Libraries) (s : SessionPtr) (recvData : List UInt8) (b : Broker L) : Prop :=
  ∃ b', messageProcess L s recvData b = some b' ∧
    ((∀ m, L.interpretPubrelPacket recvData = .ok m → L.pubrelIdentifier m ∉ b.publishMap s) →
      (b'.mqttTaskQueue = b.mqttTaskQueue ∨
          ∃ packet, b'.mqttTaskQueue =
            b.mqttTaskQueue ++ [⟨b.taskCount, 5, packet, b.clientId s⟩]) ∧
        b'.ddsTaskQueue = b.ddsTaskQueue ∧ b'.publishMap s = b.publishMap s)

/-- The identifier of the PUBREL is a key of the session's stored messages. -/
def Known (L : Libraries) (s : SessionPtr) (recvData : List UInt8) (b : Broker L) : Prop :=
  ∃ m, L.interpretPubrelPacket recvData = .ok m ∧ L.pubrelIdentifier m ∈ b.publishMap s

/-- One of the calls that `message_process` makes before the lookup throws. -/
def ThrowsEarly (L : Libraries) (recvData : List UInt8) : Prop :=
  ∃ what, pubrelAnswer L recvData = .error what

/-- A call that throws before the lookup is caught and changes neither queue. -/
theorem safe_of_throwsEarly {s : SessionPtr} {recvData : List UInt8} {b : Broker L}
    (hrel : IsPubrel recvData) (h : ThrowsEarly L recvData) : Safe L s recvData b := by
  obtain ⟨what, hans⟩ := h
  exact ⟨_, messageProcess_pubrel_thrown hrel hans, fun _ => ⟨.inl rfl, rfl, rfl⟩⟩

/-- **PUBREL safety**, for every session and in every state of the broker. -/
theorem pubrel_safe_iff (hcomp : L.PubcompKeepsIdentifier) (b : Broker L) (s : SessionPtr)
    {recvData : List UInt8} (hrel : IsPubrel recvData) :
    Safe L s recvData b ↔ Known L s recvData b ∨ ThrowsEarly L recvData := by
  cases hans : pubrelAnswer L recvData with
  | error what =>
    have hthrows : ThrowsEarly L recvData := ⟨what, hans⟩
    exact iff_of_true (safe_of_throwsEarly hrel hthrows) (.inr hthrows)
  | ok answer =>
    obtain ⟨packetId, reply⟩ := answer
    obtain ⟨m, hm, rfl⟩ := pubrelAnswer_identifier hcomp hans
    have hquiet : ¬ ThrowsEarly L recvData := by
      rintro ⟨what, herr⟩
      rw [hans] at herr
      cases herr
    constructor
    · rintro ⟨b', hproc, -⟩
      cases hlook : (b.publishMap s).lookup (L.pubrelIdentifier m) with
      | none =>
        rw [messageProcess_unknown hrel hans hlook] at hproc
        cases hproc
      | some target => exact .inl ⟨m, hm, Finmap.mem_iff.mpr ⟨target, hlook⟩⟩
    · rintro (⟨m', hm', hmem⟩ | hthrows)
      · obtain rfl : m = m' := by
          rw [hm] at hm'
          exact Except.ok.inj hm'
        obtain ⟨target, htarget⟩ := Finmap.mem_iff.mp hmem
        obtain ⟨b', hproc⟩ := messageProcess_known hrel hans htarget
        exact ⟨b', hproc, fun hunknown => absurd hmem (hunknown m hm)⟩
      · exact absurd hthrows hquiet

/-- A session that has stored nothing. -/
def accepted : Broker Wire.libraries := Run.accept 1 .init

/-- PUBREL of the identifier 7. -/
def pubrelSeven : List UInt8 := [0x62, 2, 0, 7]

theorem pubrelSeven_safe_iff :
    Safe Wire.libraries 1 pubrelSeven accepted ↔
      Known Wire.libraries 1 pubrelSeven accepted ∨ ThrowsEarly Wire.libraries pubrelSeven :=
  pubrel_safe_iff Wire.pubcompKeepsIdentifier accepted 1 rfl

/-- The session reads through the end of its empty map. -/
theorem pubrelSeven_reads_end :
    Run.Reachable accepted ∧ IsPubrel pubrelSeven ∧
      messageProcess Wire.libraries 1 pubrelSeven accepted = none ∧
      ¬ Safe Wire.libraries 1 pubrelSeven accepted := by
  refine ⟨⟨[.accept 1], rfl⟩, rfl, rfl, ?_⟩
  rintro ⟨b', hproc, -⟩
  cases hproc

end BddsBroker.Pubrel
