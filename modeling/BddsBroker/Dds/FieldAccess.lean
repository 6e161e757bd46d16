import BddsBroker.Dds.Wire

/-! One field of a sample that is still bytes. `getValue` of a stream skips the fields before it;
what it returns is what `getValue` of the sample read from there returns, and when the stream
ends too early it names the field where it ends. -/

namespace BddsBroker.Dds.TypeSupport

open Cdr

variable {N : Numbers} {S : Serializer N}

/-- The values of a list of fields, with the names. -/
def named : (fs : List (String × Kind)) → Values N (fs.map Prod.snd) → List (String × Value N)
  | [], _ => []
  | (name, k) :: fs, (v, vs) => (name, ⟨k, v⟩) :: named fs vs

section Scan

variable {C : Coding S} {fs : List (String × Kind)} {st st₁ st' : S.Stream}

/-- The first field is skipped: it is where it is when it is read. -/
theorem getValueFrom_cons_of_get (hC : C.IsCdr) (fs : List (String × Kind)) (field : String)
    {name : String} {k : Kind} {v : k.Val N}
    (hview : C.view st₁ = C.view st) (hget : S.get k st = some (v, st')) :
    (field = name → ∃ st₂,
      getValueFrom S field ((name, k) :: fs) st₁ = .ok (⟨k, v⟩, st₂)) ∧
    (field ≠ name → ∃ st₂, C.view st₂ = C.view st' ∧
      getValueFrom S field ((name, k) :: fs) st₁ = getValueFrom S field fs st₂) := by
  obtain ⟨b, hread, hvalue⟩ := hC.get_eq_some hget
  rw [← hview] at hread
  constructor
  · intro hname
    obtain ⟨st₂, hget₁, -⟩ := hC.get_of_read hread
    refine ⟨st₂, ?_⟩
    rw [getValueFrom, if_pos hname, hget₁, hvalue]
  · intro hname
    obtain ⟨st₂, hskip, hview₂⟩ := hC.skip_of_read hread
    refine ⟨st₂, hview₂, ?_⟩
    rw [getValueFrom, if_neg hname, hskip]

/-- The first field does not fit. -/
theorem getValueFrom_cons_of_none (hC : C.IsCdr) (field : String) {name : String} {k : Kind}
    (hview : C.view st₁ = C.view st) (hget : S.get k st = none) :
    getValueFrom S field ((name, k) :: fs) st₁ =
      if field = name then .error ("Field '" ++ name ++ "' could not be deserialized")
      else .error ("Field '" ++ name ++ "' could not be skipped") := by
  have hshort := hC.get_eq_none.mp hget
  rw [← hview] at hshort
  rw [getValueFrom, hC.get_eq_none.mpr hshort, hC.skip_eq_none.mpr hshort]

/-- Where all fields can be read, one of them is. -/
theorem getValueFrom_of_getAll (hC : C.IsCdr) (field : String) {vs : Values N (fs.map Prod.snd)}
    (hview : C.view st₁ = C.view st) (hall : getAll S (fs.map Prod.snd) st = some (vs, st')) :
    (∀ value, (named fs vs).lookup field = some value →
      ∃ st₂, getValueFrom S field fs st₁ = .ok (value, st₂)) ∧
    ((named fs vs).lookup field = none → ∃ st₂, C.view st₂ = C.view st' ∧
      getValueFrom S field fs st₁ = getValueFrom S field [] st₂) := by
  induction fs generalizing st st₁ with
  | nil =>
    obtain rfl : st = st' := congrArg Prod.snd (Option.some.inj hall)
    refine ⟨fun value h => ?_, fun _ => ⟨st₁, hview, rfl⟩⟩
    rw [named, List.lookup_nil] at h
    cases h
  | cons f fs ih =>
    obtain ⟨name, k⟩ := f
    obtain ⟨v, vs⟩ := vs
    have hboth : getAll S (k :: fs.map Prod.snd) st = some ((v, vs), st') := hall
    rw [getAll_cons] at hboth
    obtain ⟨⟨v', st₂⟩, hget, hrest⟩ := Option.bind_eq_some_iff.mp hboth
    obtain ⟨⟨vs', st₃⟩, htail, heq⟩ := Option.map_eq_some_iff.mp hrest
    obtain ⟨hvalues, rfl⟩ := Prod.mk.inj heq
    obtain ⟨rfl, rfl⟩ := Prod.mk.inj hvalues
    obtain ⟨hfound, hpast⟩ := getValueFrom_cons_of_get hC fs field hview hget
    rw [named, List.lookup_cons]
    by_cases hname : field = name
    · obtain ⟨st₄, hst₄⟩ := hfound hname
      rw [beq_iff_eq.mpr hname]
      refine ⟨fun value h => ?_, fun h => ?_⟩
      · obtain rfl := Option.some.inj h
        exact ⟨st₄, hst₄⟩
      · cases h
    · obtain ⟨st₄, hview₄, hst₄⟩ := hpast hname
      rw [beq_false_of_ne hname, hst₄]
      exact ih hview₄ htail

/-- Where not all fields can be read, one is the first that ends behind the stream. -/
theorem getValueFrom_of_none (hC : C.IsCdr) (hnone : getAll S (fs.map Prod.snd) st = none) :
    ∃ before name k after, fs = before ++ (name, k) :: after ∧
      (getAll S (before.map Prod.snd) st).isSome ∧
      (C.view st).stop < finish (C.view st).aligned (C.view st).start
        ((before.map Prod.snd ++ [k]).map Kind.size) ∧
      ∀ st₁, C.view st₁ = C.view st → ∀ field,
        (field ∈ before.map Prod.fst → ∃ p, getValueFrom S field fs st₁ = .ok p) ∧
        (field ∉ before.map Prod.fst → getValueFrom S field fs st₁ =
          if field = name then .error ("Field '" ++ name ++ "' could not be deserialized")
          else .error ("Field '" ++ name ++ "' could not be skipped")) := by
  induction fs generalizing st with
  | nil => cases hnone
  | cons f fs ih =>
    obtain ⟨name, k⟩ := f
    have hboth : getAll S (k :: fs.map Prod.snd) st = none := hnone
    rw [getAll_cons] at hboth
    cases hget : S.get k st with
    | none =>
      refine ⟨[], name, k, fs, rfl, rfl, hC.get_eq_none.mp hget, fun st₁ hview field => ?_⟩
      refine ⟨fun h => ?_, fun _ => getValueFrom_cons_of_none hC field hview hget⟩
      cases h
    | some p =>
      obtain ⟨v, st₂⟩ := p
      rw [hget, Option.bind_some, Option.map_eq_none_iff] at hboth
      obtain ⟨before, name', k', after, hfs, hsome, hstop, hfields⟩ := ih hboth
      obtain ⟨b, hread, -⟩ := hC.get_eq_some hget
      obtain ⟨-, haligned, hstart, hsame⟩ := read_eq_some hread
      rw [haligned, hstart, hsame] at hstop
      refine ⟨(name, k) :: before, name', k', after, by rw [hfs, List.cons_append], ?_, hstop,
        fun st₁ hview field => ?_⟩
      · show (getAll S (k :: before.map Prod.snd) st).isSome
        rw [getAll_cons, hget, Option.bind_some, Option.isSome_map]
        exact hsome
      · obtain ⟨hfound, hpast⟩ := getValueFrom_cons_of_get hC fs field hview hget
        rw [List.map_cons, List.mem_cons]
        by_cases hname : field = name
        · obtain ⟨st₃, hst₃⟩ := hfound hname
          exact ⟨fun _ => ⟨_, hst₃⟩, fun h => absurd (.inl hname) h⟩
        · obtain ⟨st₃, hview₃, hst₃⟩ := hpast hname
          obtain ⟨hbefore, hbehind⟩ := hfields st₃ hview₃ field
          rw [hst₃]
          refine ⟨fun h => hbefore (h.resolve_left hname), fun h => hbehind fun hmem => ?_⟩
          exact h (.inr hmem)

end Scan

/-- **One field.** Where a whole sample can be read, `getValue` of the stream gives for every
name the value of the sample, `gen_skip_over` leaves the stream where the sample ends, and a
name that the sample has not is reported. Where it cannot, the stream ends in one of the
fields: those before it are found, and every other name, the empty one included, is reported
with the name of that field. -/
theorem getValue_agrees {C : Coding S} (hC : C.IsCdr) (strm : S.Stream) :
    (∀ stru strm', unmarshal S strm = some (stru, strm') →
      (∀ field value, getValue stru field = .ok value →
        ∃ strm'', getValueSer S field strm = .ok (value, strm'')) ∧
      (∀ field e, getValue stru field = .error e → field ≠ "" → getValueSer S field strm =
        .error ("Field " ++ field ++ " not valid for struct Messenger::Message")) ∧
      ∃ strm'', genSkipOver S strm = .ok strm'' ∧ C.view strm'' = C.view strm') ∧
    (unmarshal S strm = none →
      ∃ before name kind after, layout = before ++ (name, kind) :: after ∧
        (C.view strm).stop < finish (C.view strm).aligned (C.view strm).start
          ((before.map Prod.snd ++ [kind]).map Kind.size) ∧
        (∀ field ∈ before.map Prod.fst, ∃ p, getValueSer S field strm = .ok p) ∧
        getValueSer S name strm =
          .error ("Field '" ++ name ++ "' could not be deserialized") ∧
        (∀ field ∉ before.map Prod.fst, field ≠ name → getValueSer S field strm =
          .error ("Field '" ++ name ++ "' could not be skipped")) ∧
        genSkipOver S strm = .error ("Field '" ++ name ++ "' could not be skipped")) := by
  have hread : unmarshal S strm = (getAll S (layout.map Prod.snd) strm).map
      fun p => (ofValues p.1, p.2) := by
    rw [unmarshal_eq, Option.map_eq_bind]
    rfl
  constructor
  · intro stru strm' h
    rw [hread] at h
    obtain ⟨⟨vs, st'⟩, hall, heq⟩ := Option.map_eq_some_iff.mp h
    obtain ⟨rfl, rfl⟩ := Prod.mk.inj heq
    have hfields : fields (ofValues vs) = named layout vs := rfl
    refine ⟨fun field value hvalue => ?_, fun field e he hempty => ?_, ?_⟩
    · obtain ⟨hfound, -⟩ := getValueFrom_of_getAll hC field rfl hall
      rw [getValue, hfields] at hvalue
      split at hvalue
      · obtain rfl := Except.ok.inj hvalue
        exact hfound _ ‹_›
      · cases hvalue
    · obtain ⟨-, hpast⟩ := getValueFrom_of_getAll hC field rfl hall
      rw [getValue, hfields] at he
      split at he
      · cases he
      · obtain ⟨st₂, -, hst₂⟩ := hpast ‹_›
        rw [getValueSer, hst₂, getValueFrom, if_neg hempty]
    · obtain ⟨-, hpast⟩ := getValueFrom_of_getAll hC "" rfl hall
      obtain ⟨st₂, hview, hst₂⟩ := hpast rfl
      refine ⟨st₂, ?_, hview⟩
      rw [genSkipOver, getValueSer, hst₂, getValueFrom, if_pos rfl]
      rfl
  · intro h
    rw [hread, Option.map_eq_none_iff] at h
    obtain ⟨before, name, kind, after, hlayout, -, hstop, hfields⟩ := getValueFrom_of_none hC h
    have hnames : layout.map Prod.fst = before.map Prod.fst ++ name :: after.map Prod.fst := by
      rw [hlayout, List.map_append, List.map_cons]
    have hnodup : (layout.map Prod.fst).Nodup := by decide
    have hempty : "" ∉ layout.map Prod.fst := by decide
    rw [hnames] at hnodup hempty
    have hname : name ∉ before.map Prod.fst :=
      fun hmem => (List.nodup_append.mp hnodup).2.2 name hmem name List.mem_cons_self rfl
    have hbefore : "" ∉ before.map Prod.fst := fun hmem => hempty (List.mem_append_left _ hmem)
    have hdiffers : "" ≠ name := fun heq =>
      hempty (heq ▸ List.mem_append_right _ List.mem_cons_self)
    refine ⟨before, name, kind, after, hlayout, hstop, fun field hmem => ?_, ?_, ?_, ?_⟩
    · exact (hfields strm rfl field).1 hmem
    · rw [getValueSer, (hfields strm rfl name).2 hname, if_pos rfl]
    · intro field hmem hne
      rw [getValueSer, (hfields strm rfl field).2 hmem, if_neg hne]
    · rw [genSkipOver, getValueSer, (hfields strm rfl "").2 hbefore, if_neg hdiffers]
      rfl

/-- A stream of seventy different bytes. -/
def counting : Cdr.Stream := ⟨true, 0, (List.range 70).map UInt8.ofNat, 0⟩

/-- The seventy bytes hold a whole sample, and a stream of thirty ends in the second
`double`. -/
theorem getValue_agrees_short :
    (∃ stru strm', unmarshal wordSerializer counting = some (stru, strm') ∧
      (∃ strm'', getValueSer wordSerializer "speed" counting =
        .ok (⟨.long, stru.speed⟩, strm'')) ∧
      getValueSer wordSerializer "height" counting =
        .error "Field height not valid for struct Messenger::Message") ∧
    ∃ name, genSkipOver wordSerializer (⟨true, 0, List.replicate 30 0, 0⟩ : Cdr.Stream) =
        .error ("Field '" ++ name ++ "' could not be skipped") ∧
      getValueSer wordSerializer name (⟨true, 0, List.replicate 30 0, 0⟩ : Cdr.Stream) =
        .error ("Field '" ++ name ++ "' could not be deserialized") := by
  constructor
  · have hsome : (unmarshal wordSerializer counting).isSome = true := by decide +kernel
    obtain ⟨⟨stru, strm'⟩, hwhole⟩ := Option.isSome_iff_exists.mp hsome
    obtain ⟨hfound, hunknown, -⟩ :=
      (getValue_agrees isCdr_wordCoding counting).1 stru strm' hwhole
    exact ⟨stru, strm', hwhole, hfound "speed" _ rfl, hunknown "height" _ rfl (by decide)⟩
  · have hnone : unmarshal wordSerializer (⟨true, 0, List.replicate 30 0, 0⟩ : Cdr.Stream) =
        none := Option.isNone_iff_eq_none.mp (by decide +kernel)
    obtain ⟨-, name, -, -, -, -, -, hname, -, hskip⟩ :=
      (getValue_agrees isCdr_wordCoding (⟨true, 0, List.replicate 30 0, 0⟩ : Cdr.Stream)).2 hnone
    exact ⟨name, hskip, hname⟩

end BddsBroker.Dds.TypeSupport
