import BddsBroker.Sbdp.Reader

/-! `AlternativeServerInfo`: the list of the other brokers. `remove_broker` erases at the
position that `find_broker` returns. That is the position before the first one when no
entry has the id, which `handle_receive_from` tests for and `remove_broker` does not. -/

namespace BddsBroker.Sbdp

/-- `erase(begin() + i)`. Where `begin() + i` is not an element of the vector, the call has
no meaning. -/
def eraseAt (i : Int) (brokers : List AltDiscoveredBrokerData) :
    Option (List AltDiscoveredBrokerData) :=
  if 0 ≤ i ∧ i < brokers.length then some (brokers.eraseIdx i.toNat) else none

namespace AlternativeServerInfo

/-- The loop is the one of `SBDPBuiltinEndpointDataReader::find_broker`. -/
def findBroker (brokerId : String) (altBrokerList : List AltDiscoveredBrokerData) : Int :=
  findBrokerFrom brokerId 0 altBrokerList

def addBroker (broker : AltDiscoveredBrokerData) (altBrokerList : List AltDiscoveredBrokerData) :
    List AltDiscoveredBrokerData :=
  altBrokerList ++ [broker]

def removeBroker (broker : AltDiscoveredBrokerData)
    (altBrokerList : List AltDiscoveredBrokerData) : Option (List AltDiscoveredBrokerData) :=
  eraseAt (findBroker broker.brokerId altBrokerList) altBrokerList

end AlternativeServerInfo

open AlternativeServerInfo (addBroker removeBroker)

/-- The removal of `b` from `brokers` is exact. -/
structure RemovesExactly (b : AltDiscoveredBrokerData)
    (brokers : List AltDiscoveredBrokerData) : Prop where
  inside : removeBroker b brokers ≠ none
  first : ∀ before e after, brokers = before ++ e :: after → e.brokerId = b.brokerId →
    b.brokerId ∉ ids before → removeBroker b brokers = some (before ++ after)
  absent : b.brokerId ∉ ids brokers → removeBroker b brokers = some brokers

/-- The loop stops at the first entry of the id. -/
theorem findBrokerFrom_append {bId : String} {before : List AltDiscoveredBrokerData}
    (hbefore : bId ∉ ids before) {e : AltDiscoveredBrokerData} (he : e.brokerId = bId)
    (after : List AltDiscoveredBrokerData) (i : Int) :
    findBrokerFrom bId i (before ++ e :: after) = i + before.length := by
  induction before generalizing i with
  | nil => simp [findBrokerFrom, he]
  | cons temp rest ih =>
    simp only [ids, List.map_cons, List.mem_cons, not_or] at hbefore
    rw [List.cons_append, findBrokerFrom, if_neg hbefore.1, ih hbefore.2]
    simp only [List.length_cons]
    omega

theorem removeBroker_append {b e : AltDiscoveredBrokerData}
    {before : List AltDiscoveredBrokerData} (hbefore : b.brokerId ∉ ids before)
    (he : e.brokerId = b.brokerId) (after : List AltDiscoveredBrokerData) :
    removeBroker b (before ++ e :: after) = some (before ++ after) := by
  have hfound : AlternativeServerInfo.findBroker b.brokerId (before ++ e :: after) =
      before.length := by
    rw [AlternativeServerInfo.findBroker, findBrokerFrom_append hbefore he after 0]
    omega
  unfold removeBroker eraseAt
  rw [hfound, if_pos (by simp only [List.length_append, List.length_cons]; omega)]
  simp [List.eraseIdx_append_of_length_le]

/-- The position before the first entry is not a position of the list. -/
theorem removeBroker_absent {b : AltDiscoveredBrokerData}
    {brokers : List AltDiscoveredBrokerData} (h : b.brokerId ∉ ids brokers) :
    removeBroker b brokers = none := by
  have hfound : AlternativeServerInfo.findBroker b.brokerId brokers = -1 :=
    (findBrokerFrom_eq _ (Int.le_refl 0) _).mpr h
  unfold removeBroker eraseAt
  rw [hfound]
  rfl

/-- Every entry of an id has a first one. -/
theorem exists_first {bId : String} {brokers : List AltDiscoveredBrokerData}
    (h : bId ∈ ids brokers) :
    ∃ before e after, brokers = before ++ e :: after ∧ e.brokerId = bId ∧ bId ∉ ids before := by
  induction brokers with
  | nil => cases h
  | cons temp rest ih =>
    by_cases htemp : temp.brokerId = bId
    · exact ⟨[], temp, rest, rfl, htemp, by simp [ids]⟩
    · have hrest : bId ∈ ids rest := by
        simpa [ids, Ne.symm htemp] using h
      obtain ⟨before, e, after, rfl, he, hbefore⟩ := ih hrest
      refine ⟨temp :: before, e, after, rfl, he, ?_⟩
      simp only [ids, List.map_cons, List.mem_cons, not_or]
      exact ⟨Ne.symm htemp, hbefore⟩

/-- What was added to a list without its id is removed again. -/
theorem removeBroker_addBroker {b : AltDiscoveredBrokerData}
    {brokers : List AltDiscoveredBrokerData} (h : b.brokerId ∉ ids brokers) :
    removeBroker b (addBroker b brokers) = some brokers := by
  have hremoved := removeBroker_append h rfl []
  rwa [List.append_nil] at hremoved

theorem removesExactly_iff_mem {b : AltDiscoveredBrokerData}
    {brokers : List AltDiscoveredBrokerData} :
    RemovesExactly b brokers ↔ b.brokerId ∈ ids brokers := by
  constructor
  · intro h
    by_contra habsent
    exact h.inside (removeBroker_absent habsent)
  · intro h
    constructor
    · obtain ⟨before, e, after, rfl, he, hbefore⟩ := exists_first h
      simp [removeBroker_append hbefore he]
    · rintro before e after rfl he hbefore
      exact removeBroker_append hbefore he after
    · exact fun habsent => absurd h habsent

/-- **Removal.** It is exact just when some entry has the id, as after `add_broker`. -/
theorem remove_broker_exact (b : AltDiscoveredBrokerData)
    (brokers : List AltDiscoveredBrokerData) :
    (RemovesExactly b brokers ↔ b.brokerId ∈ ids brokers) ∧
      (b.brokerId ∉ ids brokers → removeBroker b (addBroker b brokers) = some brokers) :=
  ⟨removesExactly_iff_mem, removeBroker_addBroker⟩

/-- A broker that the list does not have. -/
def unlisted : AltDiscoveredBrokerData := ⟨BrokerAltConfig.brokerId, 0, 0, 0, [], []⟩

theorem unlisted_removed_outside :
    unlisted.brokerId ∉ ids [] ∧ removeBroker unlisted [] = none ∧
      ¬ RemovesExactly unlisted [] := by
  refine ⟨by decide, by decide, ?_⟩
  intro h
  exact h.inside (by decide)

end BddsBroker.Sbdp
