import BddsBroker.Lib.Links
import BddsBroker.Lib.Machine
import BddsBroker.Lib.Tally
import BddsBroker.Queue.FreeList

/-! Who has the nodes of a free list. A node belongs to the users, is on the list, is in the
hands of one thread that moves it, or is marked and waits for its references to go. Each
reference is counted, so a link that a thread relies on does not change under it. -/

namespace BddsBroker.Moodycamel.FreeList

open Links Tally

variable {N T : Type*}

/-! ## What the threads have of the nodes -/

/-- What a thread has of a node: references, the node itself, and the task of putting it on the
list. -/
structure Stake where
  refs : Nat
  owns : Nat
  adding : Nat
  /-- Besides the list's reference, which the owner of the node may have, it is only one. -/
  le : refs ≤ 1 + owns
  deriving DecidableEq

namespace Stake

def nothing : Stake := ⟨0, 0, 0, by decide⟩

/-- The node itself. -/
def property : Stake := ⟨0, 1, 0, by decide⟩

/-- The task of putting the node on the list. -/
def task : Stake := ⟨0, 0, 1, by decide⟩

/-- The node with the list's reference, as long as it is about to be on the list. -/
def entry : Stake := ⟨1, 1, 0, by decide⟩

def reference : Stake := ⟨1, 0, 0, by decide⟩

/-- The node with the list's reference and the thread's own, as it came off the list. -/
def taken : Stake := ⟨2, 1, 0, by decide⟩

end Stake

def Pc.node : Pc N → Option (N × Stake)
  | .adds node => some (node, .property)
  | .loadsHead _ node | .storesNext _ node _ | .storesRefs _ node _ => some (node, .task)
  | .pushes _ node _ | .postpones _ node _ => some (node, .entry)
  | .loadsNext head | .pops head _ | .lowers head _ => some (head, .reference)
  | .lowersTwice head => some (head, .taken)
  | _ => none

/-- A link that the thread relies on. -/
def Pc.link : Pc N → Option (N × Option N)
  | .storesRefs _ node head | .pushes _ node head => some (node, head)
  | .pops head next => some (head, next)
  | _ => none

theorem node_loop (head : Option N) : (loop head).node = none := by
  cases head <;> rfl

theorem node_goBack (back : Option (Option N)) : (goBack back).node = none := by
  cases back with
  | none => rfl
  | some head => exact node_loop head

theorem link_loop (head : Option N) : (loop head).link = none := by
  cases head <;> rfl

theorem link_goBack (back : Option (Option N)) : (goBack back).link = none := by
  cases back with
  | none => rfl
  | some head => exact link_loop head

section Threads

variable [DecidableEq N] [DecidableEq T]

/-- What the thread has of the node `n`. -/
def Pc.stake (p : Pc N) (n : N) : Stake :=
  match p.node with
  | some (m, k) => if m = n then k else .nothing
  | none => .nothing

def Pc.refs (n : N) (p : Pc N) : Nat := (p.stake n).refs
def Pc.owns (n : N) (p : Pc N) : Nat := (p.stake n).owns
def Pc.adding (n : N) (p : Pc N) : Nat := (p.stake n).adding

/-- What the thread has of the node `x`, and that it has nothing else. -/
structure Pc.Has (p : Pc N) (x : N) (refs owns adding : Nat) : Prop where
  refs : ∀ n, Pc.refs n p = if x = n then refs else 0
  owns : ∀ n, Pc.owns n p = if x = n then owns else 0
  adding : ∀ n, Pc.adding n p = if x = n then adding else 0

omit [DecidableEq T] in
theorem has_node {p : Pc N} {x : N} {refs owns adding : Nat} {hle : refs ≤ 1 + owns}
    (h : p.node = some (x, ⟨refs, owns, adding, hle⟩)) : p.Has x refs owns adding := by
  have hstake : ∀ n, p.stake n = if x = n then ⟨refs, owns, adding, hle⟩ else .nothing := by
    intro n
    simp only [Pc.stake, h]
  constructor
  · intro n
    rw [Pc.refs, hstake, apply_ite Stake.refs]
    rfl
  · intro n
    rw [Pc.owns, hstake, apply_ite Stake.owns]
    rfl
  · intro n
    rw [Pc.adding, hstake, apply_ite Stake.adding]
    rfl

omit [DecidableEq T] in
theorem has_nothing {p : Pc N} (h : p.node = none) (x : N) : p.Has x 0 0 0 := by
  have hstake : ∀ n, p.stake n = .nothing := by
    intro n
    simp only [Pc.stake, h]
  constructor
  · intro n
    rw [Pc.refs, hstake, ite_self]
    rfl
  · intro n
    rw [Pc.owns, hstake, ite_self]
    rfl
  · intro n
    rw [Pc.adding, hstake, ite_self]
    rfl

omit [DecidableEq T] in
theorem of_link {p : Pc N} {x : N} {next : Option N} (h : p.link = some (x, next)) :
    1 ≤ Pc.refs x p ∨ 1 ≤ Pc.adding x p := by
  cases p <;> simp_all [Pc.link, Pc.refs, Pc.adding, Pc.stake, Pc.node, Stake.task, Stake.entry,
    Stake.reference]

/-- The mark is set and nobody has a reference: the node waits to be put on the list. -/
def due (r : Refs) : Nat := if mark r = 1 ∧ count r = 0 then 1 else 0

theorem due_unmarked {r : Refs} (h : mark r = 0) : due r = 0 := by
  simp [due, h]

theorem due_referred {r : Refs} (h : 0 < count r) : due r = 0 := by
  have hne : ¬ (mark r = 1 ∧ count r = 0) := by omega
  rw [due, if_neg hne]

theorem due_marked {r : Refs} (hmark : mark r = 1) (hcount : count r = 0) : due r = 1 := by
  rw [due, if_pos ⟨hmark, hcount⟩]

variable [Fintype T]

/-- The nodes of `l` are on the list. Each reference is counted, each node is in one place, and
a node that is due has one thread that puts it on the list. -/
structure Holds (s : State N T) (l : List N) : Prop where
  linked : Linked s.freeListNext s.freeListHead l
  count : ∀ n, count (s.freeListRefs n) = tally (Pc.refs n) s.pc + l.count n
  place : ∀ n, (s.out n).toNat + tally (Pc.owns n) s.pc + mark (s.freeListRefs n) +
    l.count n = 1
  adding : ∀ n, tally (Pc.adding n) s.pc = due (s.freeListRefs n)
  link : ∀ t n next, (s.pc t).link = some (n, next) → s.freeListNext n = next

namespace Holds

variable {s m s' : State N T} {l l' : List N} {t : T} {q : Pc N} {x : N}
  {refs owns adding refs' owns' adding' : Nat}

/-- A statement that changes one node and what its thread has of it. -/
theorem move (h : Holds s l) (hpc : m.pc = s.pc) (hp : (s.pc t).Has x refs owns adding)
    (hq : q.Has x refs' owns' adding')
    (hrefs : ∀ n, n ≠ x → m.freeListRefs n = s.freeListRefs n)
    (hout : ∀ n, n ≠ x → m.out n = s.out n) (hl : ∀ n, n ≠ x → l'.count n = l.count n)
    (hcount : FreeList.count (m.freeListRefs x) + refs + l.count x =
      FreeList.count (s.freeListRefs x) + refs' + l'.count x)
    (hplace : (m.out x).toNat + owns' + mark (m.freeListRefs x) + l'.count x =
      (s.out x).toNat + owns + mark (s.freeListRefs x) + l.count x)
    (hadding : adding' + due (s.freeListRefs x) = adding + due (m.freeListRefs x))
    (hlinked : Linked m.freeListNext m.freeListHead l')
    (hlink : ∀ u n next, ((m.goto t q).pc u).link = some (n, next) →
      m.freeListNext n = next) :
    Holds (m.goto t q) l' := by
  have hgoto : (m.goto t q).pc = Function.update s.pc t q := by rw [← hpc]; rfl
  refine ⟨hlinked, fun n => ?_, fun n => ?_, fun n => ?_, hlink⟩
  · have htally := tally_update (Pc.refs n) s.pc t q
    have hbefore := h.count n
    rw [hp.refs, hq.refs] at htally
    rw [hgoto]
    show FreeList.count (m.freeListRefs n) = _
    by_cases hn : x = n
    · subst hn
      simp only [if_true] at htally
      omega
    · simp only [if_neg hn] at htally
      rw [hrefs n (Ne.symm hn), hl n (Ne.symm hn), hbefore]
      omega
  · have htally := tally_update (Pc.owns n) s.pc t q
    have hbefore := h.place n
    rw [hp.owns, hq.owns] at htally
    rw [hgoto]
    show (m.out n).toNat + _ + mark (m.freeListRefs n) + _ = 1
    by_cases hn : x = n
    · subst hn
      simp only [if_true] at htally
      omega
    · simp only [if_neg hn] at htally
      rw [hrefs n (Ne.symm hn), hl n (Ne.symm hn), hout n (Ne.symm hn)]
      omega
  · have htally := tally_update (Pc.adding n) s.pc t q
    have hbefore := h.adding n
    rw [hp.adding, hq.adding] at htally
    rw [hgoto]
    show _ = due (m.freeListRefs n)
    by_cases hn : x = n
    · subst hn
      simp only [if_true] at htally
      omega
    · simp only [if_neg hn] at htally
      rw [hrefs n (Ne.symm hn)]
      omega

theorem keep_links (h : Holds s l) (hpc : m.pc = s.pc) (hnext : m.freeListNext = s.freeListNext)
    (hq : ∀ n next, q.link = some (n, next) → s.freeListNext n = next) :
    ∀ u n next, ((m.goto t q).pc u).link = some (n, next) → m.freeListNext n = next := by
  intro u n next hlink
  rw [hnext]
  simp only [State.goto, hpc] at hlink
  by_cases hu : u = t
  · subst hu
    rw [Function.update_self] at hlink
    exact hq n next hlink
  · rw [Function.update_of_ne hu] at hlink
    exact h.link u n next hlink

/-- A load, an exchange that fails, or a return. -/
theorem stay (h : Holds s l) (hnode : q.node = (s.pc t).node)
    (hlink : ∀ n next, q.link = some (n, next) → s.freeListNext n = next) :
    Holds (s.goto t q) l := by
  have hstake : ∀ n, q.stake n = (s.pc t).stake n := by
    intro n
    simp only [Pc.stake, hnode]
  refine ⟨h.linked, fun n => ?_, fun n => ?_, fun n => ?_, h.keep_links rfl rfl hlink⟩
  · have htally := tally_update (Pc.refs n) s.pc t q
    have hcount := h.count n
    simp only [Pc.refs, hstake] at htally
    show FreeList.count (s.freeListRefs n) = tally (Pc.refs n) (Function.update s.pc t q) + _
    omega
  · have htally := tally_update (Pc.owns n) s.pc t q
    have hplace := h.place n
    simp only [Pc.owns, hstake] at htally
    show (s.out n).toNat + tally (Pc.owns n) (Function.update s.pc t q) +
      mark (s.freeListRefs n) + _ = 1
    omega
  · have htally := tally_update (Pc.adding n) s.pc t q
    have hadding := h.adding n
    simp only [Pc.adding, hstake] at htally
    show tally (Pc.adding n) (Function.update s.pc t q) = due (s.freeListRefs n)
    omega

/-- A change of the references of one node. -/
theorem refer (h : Holds s l) (hp : (s.pc t).Has x refs owns adding)
    (hq : q.Has x refs' owns' adding') {r : Refs}
    (hcount : FreeList.count r + refs = FreeList.count (s.freeListRefs x) + refs')
    (hplace : owns' + mark r = owns + mark (s.freeListRefs x))
    (hadding : adding' + due (s.freeListRefs x) = adding + due r)
    (hlink : ∀ n next, q.link = some (n, next) → s.freeListNext n = next) :
    Holds ((s.setRefs x r).goto t q) l := by
  have hself : (s.setRefs x r).freeListRefs x = r := Function.update_self ..
  refine h.move rfl hp hq (fun n hn => Function.update_of_ne hn ..) (fun _ _ => rfl)
    (fun _ _ => rfl) ?_ ?_ ?_ h.linked (h.keep_links rfl rfl hlink)
  · rw [hself]
    omega
  · rw [hself]
    show (s.out x).toNat + _ + _ + _ = _
    omega
  · rw [hself, hadding]

omit [DecidableEq T] in
theorem refs_le (h : Holds s l) (hp : (s.pc t).Has x refs owns adding) :
    refs + l.count x ≤ FreeList.count (s.freeListRefs x) := by
  have hle := le_tally (Pc.refs x) s.pc t
  rw [hp.refs, if_pos rfl] at hle
  have hcount := h.count x
  omega

omit [DecidableEq T] in
theorem owned (h : Holds s l) (hp : (s.pc t).Has x refs 1 adding) :
    s.out x = false ∧ mark (s.freeListRefs x) = 0 ∧ l.count x = 0 ∧
      tally (Pc.owns x) s.pc = 1 := by
  have hle := le_tally (Pc.owns x) s.pc t
  rw [hp.owns, if_pos rfl] at hle
  have hplace := h.place x
  refine ⟨?_, by omega, by omega, by omega⟩
  cases hout : s.out x with
  | false => rfl
  | true =>
    rw [hout, Bool.toNat_true] at hplace
    omega

omit [DecidableEq T] in
theorem adder (h : Holds s l) (hp : (s.pc t).Has x refs owns 1) :
    mark (s.freeListRefs x) = 1 ∧ FreeList.count (s.freeListRefs x) = 0 := by
  have hle := le_tally (Pc.adding x) s.pc t
  rw [hp.adding, if_pos rfl, h.adding x] at hle
  unfold due at hle
  split_ifs at hle with hdue
  · exact hdue
  · omega

omit [DecidableEq T] in
/-- Besides what the list counts, a thread has one reference, or two when it owns the node. -/
theorem count_le (h : Holds s l) (x : N) :
    FreeList.count (s.freeListRefs x) ≤ Fintype.card T + 1 := by
  have hone : ∀ p : Pc N, Pc.refs x p ≤ 1 + Pc.owns x p := fun p => (p.stake x).le
  have hsum : tally (Pc.refs x) s.pc ≤ Fintype.card T + tally (Pc.owns x) s.pc := by
    have hmono := tally_mono hone s.pc
    have hsplit : tally (fun p => 1 + Pc.owns x p) s.pc =
        Fintype.card T + tally (Pc.owns x) s.pc := by
      simp [tally, Finset.sum_add_distrib]
    omega
  have hcount := h.count x
  have hplace := h.place x
  omega

/-! ## The statements -/

theorem add (h : Holds s l) (hs : add s t x = some s') : Holds s' l := by
  simp only [FreeList.add, Option.ite_none_right_eq_some, Option.some.injEq] at hs
  obtain ⟨⟨hpc, hout⟩, rfl⟩ := hs
  have hnode : (s.pc t).node = none := by
    cases hp : s.pc t <;> simp_all [Pc.outside, Pc.node]
  have hself : Function.update s.out x false x = false := Function.update_self ..
  refine h.move rfl (has_nothing hnode x) (has_node rfl : (Pc.adds x).Has x 0 1 0)
    (fun _ _ => rfl) (fun n hn => Function.update_of_ne hn ..) (fun _ _ => rfl) rfl ?_ rfl
    h.linked (h.keep_links rfl rfl fun n next hlink => ?_)
  · show (Function.update s.out x false x).toNat + 1 + _ + _ = _
    rw [hself, hout, Bool.toNat_false, Bool.toNat_true]
  · cases hlink

theorem adds (h : Holds s l) (hpc : s.pc t = .adds x) :
    Holds ((s.setRefs x (s.freeListRefs x + shouldBeOnFreelist)).goto t
      (if s.freeListRefs x = 0 then .loadsHead none x else .idle)) l := by
  have hp : (s.pc t).Has x 0 1 0 := by
    rw [hpc]
    exact has_node rfl
  obtain ⟨-, hmark, -, -⟩ := h.owned hp
  obtain ⟨hmark', hcount'⟩ := mark_add hmark
  have hold := due_unmarked hmark
  have hzero : s.freeListRefs x = 0 ↔ FreeList.count (s.freeListRefs x) = 0 := by
    rw [refs_eq_iff, hmark]
    exact ⟨fun h => h.2, fun h => ⟨rfl, h⟩⟩
  split_ifs with hrefs
  · have hnew := due_marked hmark' (hcount'.trans (hzero.mp hrefs))
    refine h.refer hp (has_node rfl : (Pc.loadsHead none x).Has x 0 0 1) ?_ ?_ ?_ ?_
    · rw [hcount']
    · rw [hmark', hmark]
    · rw [hold, hnew]
    · intro n next hlink
      cases hlink
  · have hpos : 0 < FreeList.count (s.freeListRefs x) := Nat.pos_of_ne_zero (mt hzero.mpr hrefs)
    have hnew := due_referred (r := s.freeListRefs x + shouldBeOnFreelist) (by omega)
    refine h.refer hp (has_nothing rfl x : (Pc.idle : Pc N).Has x 0 0 0) ?_ ?_ ?_ ?_
    · rw [hcount']
    · rw [hmark', hmark]
    · rw [hold, hnew]
    · intro n next hlink
      cases hlink

theorem storesNext (h : Holds s l) {back : Option (Option N)} {head : Option N}
    (hpc : s.pc t = .storesNext back x head) :
    Holds ({ s with freeListNext := Function.update s.freeListNext x head }.goto t
      (.storesRefs back x head)) l := by
  have hp : (s.pc t).Has x 0 0 1 := by
    rw [hpc]
    exact has_node rfl
  obtain ⟨hmark, hzero⟩ := h.adder hp
  have hcount := h.count x
  refine h.move rfl hp (has_node rfl : (Pc.storesRefs back x head).Has x 0 0 1) (fun _ _ => rfl)
    (fun _ _ => rfl) (fun _ _ => rfl) rfl rfl rfl ?_ fun u n next hlink => ?_
  · refine h.linked.congr fun n hn => Function.update_of_ne ?_ ..
    rintro rfl
    have hpos := List.count_pos_iff.mpr hn
    omega
  · simp only [State.goto] at hlink
    show Function.update s.freeListNext x head n = next
    by_cases hu : u = t
    · subst hu
      rw [Function.update_self] at hlink
      obtain ⟨rfl, rfl⟩ := Prod.mk.inj (Option.some.inj hlink)
      exact Function.update_self ..
    · rw [Function.update_of_ne hu] at hlink
      -- nobody else relies on the link: there is no reference, and one thread has the task
      have hne : n ≠ x := by
        rintro rfl
        rcases of_link hlink with hrefs | hadding
        · have hle := le_tally (Pc.refs n) s.pc u
          omega
        · have hle := add_le_tally (Pc.adding n) s.pc hu
          rw [hp.adding, if_pos rfl, h.adding n, due_marked hmark hzero] at hle
          omega
      rw [Function.update_of_ne hne]
      exact h.link u n next hlink

theorem storesRefs (h : Holds s l) {back : Option (Option N)} {head : Option N}
    (hpc : s.pc t = .storesRefs back x head) :
    Holds ((s.setRefs x 1).goto t (.pushes back x head)) l := by
  have hp : (s.pc t).Has x 0 0 1 := by
    rw [hpc]
    exact has_node rfl
  obtain ⟨hmark, hzero⟩ := h.adder hp
  refine h.refer hp (has_node rfl : (Pc.pushes back x head).Has x 1 1 0) ?_ ?_ ?_ ?_
  · rw [hzero]
    rfl
  · rw [hmark]
    rfl
  · rw [due_marked hmark hzero]
    rfl
  · intro n next hlink
    exact h.link t n next (by rw [hpc]; exact hlink)

theorem pushes (h : Holds s l) {back : Option (Option N)} {head : Option N}
    (hpc : s.pc t = .pushes back x head) (hhead : s.freeListHead = head) :
    Holds ({ s with freeListHead := some x }.goto t (goBack back)) (x :: l) := by
  have hp : (s.pc t).Has x 1 1 0 := by
    rw [hpc]
    exact has_node rfl
  have hnext : s.freeListNext x = head := h.link t x head (by rw [hpc]; rfl)
  refine h.move rfl hp (has_nothing (node_goBack back) x) (fun _ _ => rfl) (fun _ _ => rfl)
    (fun n hn => List.count_cons_of_ne (Ne.symm hn)) ?_ ?_ rfl
    (h.linked.push (hnext.trans hhead.symm)) (h.keep_links rfl rfl fun n next hlink => ?_)
  · show FreeList.count (s.freeListRefs x) + _ + _ = _
    rw [List.count_cons_self]
    omega
  · show (s.out x).toNat + _ + mark (s.freeListRefs x) + _ = _
    rw [List.count_cons_self]
    omega
  · rw [link_goBack] at hlink
    cases hlink

theorem postpones (h : Holds s l) {back : Option (Option N)} {head : Option N}
    (hpc : s.pc t = .postpones back x head) :
    Holds ((s.setRefs x (s.freeListRefs x + (shouldBeOnFreelist - 1))).goto t
      (if s.freeListRefs x = 1 then .storesNext back x head else goBack back)) l := by
  have hp : (s.pc t).Has x 1 1 0 := by
    rw [hpc]
    exact has_node rfl
  obtain ⟨-, hmark, -, -⟩ := h.owned hp
  have hpos := h.refs_le hp
  obtain ⟨hmark', hcount'⟩ := mark_postponed hmark (by omega)
  have hold := due_unmarked hmark
  have hone : s.freeListRefs x = 1 ↔ FreeList.count (s.freeListRefs x) = 1 := by
    rw [refs_eq_iff, hmark]
    exact ⟨fun h => h.2, fun h => ⟨rfl, h⟩⟩
  split_ifs with hrefs
  · have hcount := hone.mp hrefs
    have hnew := due_marked hmark' (by omega)
    refine h.refer hp (has_node rfl : (Pc.storesNext back x head).Has x 0 0 1) ?_ ?_ ?_ ?_
    · omega
    · rw [hmark', hmark]
    · rw [hold, hnew]
    · intro n next hlink
      cases hlink
  · have hcount := mt hone.mpr hrefs
    have hnew := due_referred (r := s.freeListRefs x + (shouldBeOnFreelist - 1)) (by omega)
    refine h.refer hp (has_nothing (node_goBack back) x) ?_ ?_ ?_ ?_
    · omega
    · rw [hmark', hmark]
    · rw [hold, hnew]
    · intro n next hlink
      rw [link_goBack] at hlink
      cases hlink

theorem raises (h : Holds s l) (hthreads : Fintype.card T + 2 < 2 ^ 31)
    (hnode : (s.pc t).node = none) (hrefs : s.freeListRefs x &&& refsMask ≠ 0) :
    Holds ((s.setRefs x (s.freeListRefs x + 1)).goto t (.loadsNext x)) l := by
  have hpos : 0 < FreeList.count (s.freeListRefs x) :=
    Nat.pos_of_ne_zero (mt (mask_eq_zero_iff _).mpr hrefs)
  have hle := h.count_le x
  obtain ⟨hmark', hcount'⟩ := count_add_one (r := s.freeListRefs x) (by omega)
  refine h.refer (has_nothing hnode x) (has_node rfl : (Pc.loadsNext x).Has x 1 0 0) ?_ ?_ ?_ ?_
  · omega
  · rw [hmark']
  · rw [due_referred hpos, due_referred (by omega)]
  · intro n next hlink
    cases hlink

theorem pops (h : Holds s l) {next : Option N} (hpc : s.pc t = .pops x next)
    (hhead : s.freeListHead = some x) :
    ∃ rest, Holds ({ s with freeListHead := next }.goto t (.lowersTwice x)) rest := by
  have hp : (s.pc t).Has x 1 0 0 := by
    rw [hpc]
    exact has_node rfl
  have hnext : s.freeListNext x = next := h.link t x next (by rw [hpc]; rfl)
  have hlinked := h.linked
  rw [hhead] at hlinked
  obtain ⟨rest, rfl, hrest⟩ := hlinked.pop
  rw [hnext] at hrest
  refine ⟨rest, h.move rfl hp (has_node rfl : (Pc.lowersTwice x).Has x 2 1 0) (fun _ _ => rfl)
    (fun _ _ => rfl) (fun n hn => (List.count_cons_of_ne (Ne.symm hn)).symm) ?_ ?_ rfl hrest
    (h.keep_links rfl rfl fun n next hlink => ?_)⟩
  · show FreeList.count (s.freeListRefs x) + _ + _ = _
    rw [List.count_cons_self]
    omega
  · show (s.out x).toNat + _ + mark (s.freeListRefs x) + _ = _
    rw [List.count_cons_self]
    omega
  · cases hlink

theorem lowersTwice (h : Holds s l) (hpc : s.pc t = .lowersTwice x) :
    Holds ({ s.setRefs x (s.freeListRefs x - 2) with
      out := Function.update s.out x true }.goto t (.returned (some x))) l := by
  have hp : (s.pc t).Has x 2 1 0 := by
    rw [hpc]
    exact has_node rfl
  obtain ⟨hout, hmark, -, -⟩ := h.owned hp
  have hpos := h.refs_le hp
  have htwo : (2 : Refs).toNat = 2 := rfl
  obtain ⟨hmark', hcount'⟩ := count_sub (r := s.freeListRefs x) (d := 2) (by omega)
  have hself : Function.update s.freeListRefs x (s.freeListRefs x - 2) x =
      s.freeListRefs x - 2 := Function.update_self ..
  have houtself : Function.update s.out x true x = true := Function.update_self ..
  refine h.move rfl hp (has_nothing rfl x) (fun n hn => Function.update_of_ne hn ..)
    (fun n hn => Function.update_of_ne hn ..) (fun _ _ => rfl) ?_ ?_ ?_ h.linked
    (h.keep_links rfl rfl fun n next hlink => ?_)
  · show FreeList.count (Function.update s.freeListRefs x (s.freeListRefs x - 2) x) + _ + _ = _
    rw [hself]
    omega
  · show (Function.update s.out x true x).toNat + _ +
      mark (Function.update s.freeListRefs x (s.freeListRefs x - 2) x) + _ = _
    rw [hself, houtself, hout, hmark', hmark, Bool.toNat_false, Bool.toNat_true]
  · show _ = _ + due (Function.update s.freeListRefs x (s.freeListRefs x - 2) x)
    rw [hself, due_unmarked hmark, due_unmarked (hmark'.trans hmark)]
  · cases hlink

theorem lowers (h : Holds s l) {head : Option N} (hpc : s.pc t = .lowers x head) :
    Holds ((s.setRefs x (s.freeListRefs x - 1)).goto t
      (if s.freeListRefs x = shouldBeOnFreelist + 1 then .loadsHead (some head) x
        else loop head)) l := by
  have hp : (s.pc t).Has x 1 0 0 := by
    rw [hpc]
    exact has_node rfl
  have hpos := h.refs_le hp
  have hone : (1 : Refs).toNat = 1 := rfl
  obtain ⟨hmark', hcount'⟩ := count_sub (r := s.freeListRefs x) (d := 1) (by omega)
  have hold := due_referred (r := s.freeListRefs x) (by omega)
  have hlast : s.freeListRefs x = shouldBeOnFreelist + 1 ↔
      mark (s.freeListRefs x) = 1 ∧ FreeList.count (s.freeListRefs x) = 1 := refs_eq_iff
  split_ifs with hrefs
  · obtain ⟨hmark, hcount⟩ := hlast.mp hrefs
    have hnew := due_marked (hmark'.trans hmark) (by omega)
    refine h.refer hp (has_node rfl : (Pc.loadsHead (some head) x).Has x 0 0 1) ?_ ?_ ?_ ?_
    · omega
    · rw [hmark']
    · rw [hold, hnew]
    · intro n next hlink
      cases hlink
  · have hnot := mt hlast.mpr hrefs
    have hnew : due (s.freeListRefs x - 1) = 0 := by
      unfold due
      rw [if_neg (by omega)]
    refine h.refer hp (has_nothing (node_loop head) x) ?_ ?_ ?_ ?_
    · omega
    · rw [hmark']
    · rw [hold, hnew]
    · intro n next hlink
      rw [link_loop] at hlink
      cases hlink

/-- **Step lemma.** -/
theorem next (h : Holds s l) (hthreads : Fintype.card T + 2 < 2 ^ 31) {seen : Option N}
    {seenRefs : Refs} (hs : next s t seen seenRefs = some s') : ∃ l', Holds s' l' := by
  unfold FreeList.next at hs
  cases hpc : s.pc t with
  | idle => simp [hpc] at hs
  | returned node => simp [hpc] at hs
  | adds node =>
    simp only [hpc, Option.some.injEq] at hs
    exact ⟨l, hs ▸ h.adds hpc⟩
  | loadsHead back node =>
    simp only [hpc, Option.some.injEq] at hs
    refine ⟨l, hs ▸ h.stay (by rw [hpc]; rfl) fun n next hlink => ?_⟩
    cases hlink
  | storesNext back node head =>
    simp only [hpc, Option.some.injEq] at hs
    exact ⟨l, hs ▸ h.storesNext hpc⟩
  | storesRefs back node head =>
    simp only [hpc, Option.some.injEq] at hs
    exact ⟨l, hs ▸ h.storesRefs hpc⟩
  | pushes back node head =>
    simp only [hpc] at hs
    split_ifs at hs with hseen hhead
    · exact ⟨_, Option.some.inj hs ▸ h.pushes hpc hhead⟩
    · refine ⟨l, Option.some.inj hs ▸ h.stay (by rw [hpc]; rfl) fun n next hlink => ?_⟩
      cases hlink
  | postpones back node head =>
    simp only [hpc, Option.some.injEq] at hs
    exact ⟨l, hs ▸ h.postpones hpc⟩
  | getsHead =>
    simp only [hpc, Option.some.injEq] at hs
    refine ⟨l, hs ▸ h.stay (by rw [hpc, node_loop]; rfl) fun n next hlink => ?_⟩
    rw [link_loop] at hlink
    cases hlink
  | loadsRefs head =>
    simp only [hpc] at hs
    split_ifs at hs with hmask
    · refine ⟨l, Option.some.inj hs ▸ h.stay (by rw [hpc]; rfl) fun n next hlink => ?_⟩
      cases hlink
    · refine ⟨l, Option.some.inj hs ▸ h.stay (by rw [hpc]; rfl) fun n next hlink => ?_⟩
      cases hlink
  | raises head refs hrefs =>
    simp only [hpc] at hs
    split_ifs at hs with hseen hlatest
    · subst hlatest
      exact ⟨l, Option.some.inj hs ▸ h.raises hthreads (by rw [hpc]; rfl) hrefs⟩
    · refine ⟨l, Option.some.inj hs ▸ h.stay (by rw [hpc]; rfl) fun n next hlink => ?_⟩
      cases hlink
  | loadsNext head =>
    simp only [hpc, Option.some.injEq] at hs
    refine ⟨l, hs ▸ h.stay (by rw [hpc]; rfl) fun n next hlink => ?_⟩
    obtain ⟨rfl, rfl⟩ := Prod.mk.inj (Option.some.inj hlink)
    rfl
  | pops head next =>
    simp only [hpc] at hs
    split_ifs at hs with hseen hhead
    · obtain ⟨rest, hrest⟩ := h.pops hpc hhead
      exact ⟨rest, Option.some.inj hs ▸ hrest⟩
    · refine ⟨l, Option.some.inj hs ▸ h.stay (by rw [hpc]; rfl) fun n next hlink => ?_⟩
      cases hlink
  | lowersTwice head =>
    simp only [hpc, Option.some.injEq] at hs
    exact ⟨l, hs ▸ h.lowersTwice hpc⟩
  | lowers prevHead head =>
    simp only [hpc, Option.some.injEq] at hs
    exact ⟨l, hs ▸ h.lowers hpc⟩

theorem step (h : Holds s l) (hthreads : Fintype.card T + 2 < 2 ^ 31) {e : Event N T}
    (hs : step s e = some s') : ∃ l', Holds s' l' := by
  cases e with
  | add t node => exact ⟨l, h.add hs⟩
  | tryGet t =>
    simp only [FreeList.step, tryGet, Option.ite_none_right_eq_some, Option.some.injEq] at hs
    obtain ⟨hpc, rfl⟩ := hs
    refine ⟨l, h.stay ?_ fun n next hlink => ?_⟩
    · cases hp : s.pc t <;> simp_all [Pc.outside, Pc.node]
    · cases hlink
  | next t seen seenRefs => exact h.next hthreads hs

end Holds

omit [DecidableEq T] in
theorem holds_init : Holds (init : State N T) [] := by
  have hrefs : ∀ n, tally (Pc.refs n) (init : State N T).pc = 0 := fun n =>
    tally_eq_zero.mpr fun _ => rfl
  have howns : ∀ n, tally (Pc.owns n) (init : State N T).pc = 0 := fun n =>
    tally_eq_zero.mpr fun _ => rfl
  have hadding : ∀ n, tally (Pc.adding n) (init : State N T).pc = 0 := fun n =>
    tally_eq_zero.mpr fun _ => rfl
  have hmark : mark 0 = 0 := rfl
  have hcount : count 0 = 0 := rfl
  refine ⟨rfl, fun n => ?_, fun n => ?_, fun n => ?_, fun t n next hlink => ?_⟩
  · rw [hrefs]
    exact hcount
  · rw [howns]
    show true.toNat + 0 + mark 0 + 0 = 1
    rw [hmark, Bool.toNat_true]
  · rw [hadding]
    exact (due_unmarked hmark).symm
  · cases hlink

theorem holds_run {es : List (Event N T)} {s : State N T}
    (hthreads : Fintype.card T + 2 < 2 ^ 31) (hr : Machine.run step init es = some s) :
    ∃ l, Holds s l :=
  Machine.run_invariant (I := fun s => ∃ l, Holds s l)
    (fun _ _ _ ⟨_, h⟩ _ he => h.step hthreads he) ⟨[], holds_init⟩
    (Machine.along_true _ es) hr

/-! ## The nodes -/

/-- No thread is in a call. -/
def AtRest (s : State N T) : Prop := ∀ t, (s.pc t).outside = true

namespace Holds

variable {s : State N T} {l : List N} {n : N}

omit [DecidableEq T] in
theorem out_of_mem (h : Holds s l) (hn : n ∈ l) : s.out n = false := by
  have hpos := List.count_pos_iff.mpr hn
  have hplace := h.place n
  cases hout : s.out n with
  | false => rfl
  | true =>
    rw [hout, Bool.toNat_true] at hplace
    omega

omit [DecidableEq T] in
/-- Marks do not outlive the calls: there would be nobody to put the node on the list. -/
theorem mem_iff (h : Holds s l) (hrest : AtRest s) : n ∈ l ↔ s.out n = false := by
  have hhas : ∀ t, (s.pc t).Has n 0 0 0 := by
    intro t
    have hout := hrest t
    refine has_nothing ?_ n
    cases hp : s.pc t <;> simp_all [Pc.outside, Pc.node]
  have howns : tally (Pc.owns n) s.pc = 0 :=
    tally_eq_zero.mpr fun t => ((hhas t).owns n).trans (ite_self _)
  have hrefs : tally (Pc.refs n) s.pc = 0 :=
    tally_eq_zero.mpr fun t => ((hhas t).refs n).trans (ite_self _)
  have hadding : tally (Pc.adding n) s.pc = 0 :=
    tally_eq_zero.mpr fun t => ((hhas t).adding n).trans (ite_self _)
  have hcount := h.count n
  have hplace := h.place n
  have hdue := h.adding n
  have hmark : mark (s.freeListRefs n) = 0 := by
    by_contra hmark
    have hle := mark_le (s.freeListRefs n)
    rw [due_marked (by omega) (by omega)] at hdue
    omega
  refine ⟨h.out_of_mem, fun hout => ?_⟩
  rw [hout, Bool.toNat_false] at hplace
  exact List.count_pos_iff.mp (by omega)

end Holds

/-- **No node twice, and none lost.** A node that comes off the list belongs to nobody else and
is not marked. The list is linked without a cycle, and what is on it is free; when no thread is
in a call, every node is on the list or belongs to the users. -/
theorem nodes_kept {es : List (Event N T)} {s : State N T}
    (hthreads : Fintype.card T + 2 < 2 ^ 31) (hr : Machine.run step init es = some s) :
    (∀ t n, s.pc t = .lowersTwice n → s.out n = false ∧
        s.freeListRefs n &&& shouldBeOnFreelist = 0 ∧
        ∀ u, s.pc u = .lowersTwice n → u = t) ∧
      ∃ l, Linked s.freeListNext s.freeListHead l ∧ l.Nodup ∧
        (∀ n ∈ l, s.out n = false ∧ ∀ t, s.pc t ≠ .lowersTwice n) ∧
        (AtRest s → ∀ n, n ∈ l ↔ s.out n = false) := by
  obtain ⟨l, h⟩ := holds_run hthreads hr
  have htaken : ∀ t n, s.pc t = .lowersTwice n → (s.pc t).Has n 2 1 0 := by
    intro t n hpc
    rw [hpc]
    exact has_node rfl
  refine ⟨fun t n hpc => ?_, l, h.linked, h.linked.nodup, fun n hn => ⟨h.out_of_mem hn, ?_⟩,
    fun hrest n => h.mem_iff hrest⟩
  · obtain ⟨hout, hmark, -, howns⟩ := h.owned (htaken t n hpc)
    refine ⟨hout, (shouldBe_eq_zero_iff _).mpr hmark, fun u hu => ?_⟩
    by_contra hne
    have hle := add_le_tally (Pc.owns n) s.pc hne
    rw [(htaken t n hpc).owns, (htaken u n hu).owns, if_pos rfl, howns] at hle
    omega
  · intro t hpc
    obtain ⟨-, -, hzero, -⟩ := h.owned (htaken t n hpc)
    have hpos := List.count_pos_iff.mpr hn
    omega

end Threads

/-- The thread `true` takes the node and gives it back while the other one still has a reference,
and it is the other one that puts it on the list. -/
def handedBack : List (Event Unit Bool) :=
  [.add true (), .next true none 0, .next true none 0, .next true none 0, .next true none 0,
    .next true none 0, .tryGet false, .next false (some ()) 0, .next false none 1,
    .next false none 1, .tryGet true, .next true (some ()) 0, .next true none 2,
    .next true none 2, .next true none 0, .next true (some ()) 0, .next true none 0,
    .add true (), .next true none 0, .next false none 0, .next false none 0, .next false none 0,
    .next false none 0, .next false none 0, .next false none 0, .next false none 0]

theorem nodes_kept_handedBack : ∃ s l, Machine.run step init handedBack = some s ∧
    s.pc true = .idle ∧ s.pc false = .returned none ∧
      Linked s.freeListNext s.freeListHead l ∧ () ∈ l := by
  obtain ⟨s, hs, htrue, hfalse, hout⟩ : ∃ s, Machine.run step init handedBack = some s ∧
      s.pc true = .idle ∧ s.pc false = .returned none ∧ s.out () = false :=
    ⟨_, rfl, rfl, rfl, rfl⟩
  obtain ⟨-, l, hlinked, -, -, hlist⟩ := nodes_kept (by decide) hs
  have hrest : AtRest s := by
    rintro (_ | _)
    · rw [hfalse]
      rfl
    · rw [htrue]
      rfl
  exact ⟨s, l, hs, htrue, hfalse, hlinked, (hlist hrest ()).mpr hout⟩

end BddsBroker.Moodycamel.FreeList
