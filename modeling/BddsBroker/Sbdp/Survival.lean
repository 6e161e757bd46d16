import BddsBroker.Sbdp.Discovery

/-! What datagrams from anywhere do to the reader. An error of the receive leaves it
unarmed, and an exception ends the process, since the handler has no `try` block; a number
that is followed by something else is stored. -/

namespace BddsBroker.Sbdp

open PropertyTree Program

variable {J : Json}

/-- The handler returns with one receive outstanding, and a datagram that is not a
complete announcement changes nothing. -/
def Handles (J : Json) (r : Reader) (c : Completion) : Prop :=
  Ends (handleReceiveFrom J c) { r with outstanding := 0 }
    (fun _ r' => r'.outstanding = 1 ∧ ((¬ ∃ d, Carries J c d) → SameLists r r'))
    fun _ _ => False

/-- The datagram is shorter than the buffer, it is JSON with an id, and the id is ignored
or the announcement is complete. -/
def Survivable (J : Json) (r : Reader) (c : Completion) : Prop :=
  c.error = false ∧ c.received.length < maxLength ∧ ∃ pt brokerId,
    J.readJson (dataText c.received) = .ok pt ∧
      pt.getString ["BROKER", "BrokerID"] = .ok brokerId ∧
        (r.Ignores brokerId ∨ ∃ d, Announces pt d)

/-- However the handler ends on a datagram that it cannot store, the lists stay. -/
theorem thrown_sameLists (J : Json) (c : Completion) (r : Reader) :
    Ends (handleReceiveFrom J c) r (fun _ _ => True) fun _ r' => SameLists r r' := by
  cases hannounced : announced J c with
  | none => exact (ends_of_not_announced hannounced r).imp (fun _ _ _ => trivial) fun _ _ h => h
  | some d =>
    rw [ends_announced hannounced]
    split <;> trivial

theorem handles_iff (J : Json) (r : Reader) (c : Completion) :
    Handles J r c ↔ Survivable J r c := by
  unfold Handles
  rw [ends_handleReceiveFrom]
  constructor
  · intro h
    split at h
    · exact absurd h.1 (by simp)
    · rename_i herror
      split at h
      · exact h.elim
      · rename_i hlen
        split at h
        · exact h.elim
        · rename_i pt hpt
          split at h
          · exact h.elim
          · rename_i brokerId hid
            refine ⟨by simpa using herror, by omega, pt, brokerId, hpt, hid, ?_⟩
            split at h
            · rename_i hignores
              exact .inl hignores
            · split at h
              · exact h.elim
              · rename_i d _
                by_cases hcarries : ∃ d, Carries J c d
                · obtain ⟨d, -, -, pt', hpt', hannounces⟩ := hcarries
                  obtain rfl := Except.ok.inj (hpt.symm.trans hpt')
                  exact .inr ⟨d, hannounces⟩
                · have hlist : r.localStorage ++ [d] = r.localStorage := (h.2 hcarries).1
                  simp at hlist
  · rintro ⟨herror, hlen, pt, brokerId, hpt, hid, hstore⟩
    rw [if_neg (by simp [herror]), if_neg (by omega), hpt]
    simp only [hid]
    by_cases hignores : r.Ignores brokerId
    · have hignores' : Reader.Ignores { r with outstanding := 0 } brokerId := hignores
      rw [if_pos hignores']
      exact ⟨rfl, fun _ => ⟨rfl, rfl⟩⟩
    · have hignores' : ¬ Reader.Ignores { r with outstanding := 0 } brokerId := hignores
      obtain ⟨d, hannounces⟩ := hstore.resolve_left hignores
      obtain rfl := Except.ok.inj ((announces_id hannounces).symm.trans hid)
      rw [if_neg hignores', receivedBroker_eq (hannounces.mono fun _ _ => Reads.begins)]
      exact ⟨rfl, fun hnot => absurd ⟨d, herror, hlen, pt, hpt, hannounces⟩ hnot⟩

/-- A handled completion leaves one receive outstanding. -/
theorem outstanding_of_handles {r r' : Reader} {c : Completion} (hr : r.outstanding = 1)
    (h : Handles J r c) (hs : step J r c = some r') : r'.outstanding = 1 := by
  obtain ⟨b, l, a, n⟩ := r
  obtain rfl : n = 1 := hr
  unfold Handles Ends at h
  rw [step_eq_some_iff] at hs
  unfold Ends at hs
  cases hrun : handleReceiveFrom J c ⟨b, l, a, 0⟩ with
  | ok _ r'' =>
    simp only [hrun] at h hs
    exact hs ▸ h.1
  | error e r'' =>
    simp only [hrun] at hs

/-- The reader survives exactly the sequences whose completions are all survivable when
they come. -/
theorem survives_iff (J : Json) (b : String) (cs : List Completion) :
    Machine.Along (step J) (Handles J) (.start b) cs ↔
      Machine.Along (step J) (Survivable J) (.start b) cs :=
  Machine.along_iff (I := fun r : Reader => r.outstanding = 1) (fun r c _ => handles_iff J r c)
    (fun _ _ _ hr h hs => outstanding_of_handles hr h hs) rfl cs

/-- A datagram that is not JSON. -/
def chat : Completion := datagram "HI"

/-- The exception of the parser leaves the handler before the next receive is armed. -/
theorem chat_not_survived :
    handleReceiveFrom JsonText.json chat { Reader.start BrokerConfig.brokerId with
        outstanding := 0 } =
      .error (.thrown "expected value") { Reader.start BrokerConfig.brokerId with
        outstanding := 0 } ∧
      ¬ Machine.Along (step JsonText.json) (Handles JsonText.json)
        (.start BrokerConfig.brokerId) [chat] := by
  have hthrows : handleReceiveFrom JsonText.json chat { Reader.start BrokerConfig.brokerId with
      outstanding := 0 } = .error (.thrown "expected value") _ := rfl
  refine ⟨hthrows, ?_⟩
  intro halong
  have hhandles := halong.1
  rw [Handles, Ends, hthrows] at hhandles
  exact hhandles

end BddsBroker.Sbdp
