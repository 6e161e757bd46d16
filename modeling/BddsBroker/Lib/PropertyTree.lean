import Mathlib.Data.List.Basic

/-! Property trees: a node holds a text and an ordered list of named children, in which
a name may occur more than once. A path of names leads to the first child of each name.
Typed values are read and written through translators. Reading may throw; the error is
the text of `what()`. -/

namespace PropertyTree

inductive Tree
  | node (data : String) (children : List (String × Tree))

/-- How the values of a type stand in a tree. -/
structure Translator (α : Type) where
  typeName : String
  read : String → Option α
  write : α → String

/-- Reading and writing whole trees as JSON. -/
structure Json where
  readJson : String → Except String Tree
  writeJson : Tree → Except String String

/-- What was written is read back. -/
def Json.RoundTrips (J : Json) (t : Tree) : Prop :=
  ∀ text, J.writeJson t = .ok text → J.readJson text = .ok t

namespace Tree

def data : Tree → String
  | node data _ => data

def children : Tree → List (String × Tree)
  | node _ children => children

def empty : Tree := node "" []

def withData (t : Tree) (data : String) : Tree := node data t.children

/-- The first child of that name. -/
def child? (key : String) (t : Tree) : Option Tree :=
  (t.children.find? fun c => c.1 == key).map Prod.snd

/-- Put a tree in the place of the first child of that name. -/
def replaceIn (key : String) (sub : Tree) : List (String × Tree) → List (String × Tree)
  | [] => [(key, sub)]
  | c :: children => if c.1 = key then (key, sub) :: children else c :: replaceIn key sub children

def setChild (t : Tree) (key : String) (sub : Tree) : Tree :=
  node t.data (replaceIn key sub t.children)

/-- `push_back`. -/
def pushBack (t : Tree) (key : String) (sub : Tree) : Tree :=
  node t.data (t.children ++ [(key, sub)])

/-- Change the tree at the end of a path, which is made where it is missing. -/
def modify (f : Tree → Tree) : List String → Tree → Tree
  | [], t => f t
  | key :: path, t => t.setChild key (modify f path ((t.child? key).getD empty))

def find? : List String → Tree → Option Tree
  | [], t => some t
  | key :: path, t => (t.child? key).bind (find? path)

/-! ## The operations -/

section Operations

variable {α : Type}

def dotted (path : List String) : String := ".".intercalate path

def getChild (path : List String) (t : Tree) : Except String Tree :=
  match t.find? path with
  | some sub => .ok sub
  | none => .error ("No such node (" ++ dotted path ++ ")")

/-- `get<std::string>`. -/
def getString (path : List String) (t : Tree) : Except String String :=
  (t.getChild path).map data

def get (tr : Translator α) (path : List String) (t : Tree) : Except String α := do
  let text ← t.getString path
  match tr.read text with
  | some a => .ok a
  | none => .error ("conversion of data to type \"" ++ tr.typeName ++ "\" failed")

def putString (path : List String) (text : String) (t : Tree) : Tree :=
  modify (fun sub => sub.withData text) path t

def put (tr : Translator α) (path : List String) (a : α) (t : Tree) : Tree :=
  t.putString path (tr.write a)

/-- `add_child`: another child for the last name of the path. -/
def addChild (t : Tree) (path : List String) (key : String) (sub : Tree) : Tree :=
  modify (fun parent => parent.pushBack key sub) path t

end Operations

/-! ## Reading what was put -/

theorem child?_setChild_self (t : Tree) (key : String) (sub : Tree) :
    (t.setChild key sub).child? key = some sub := by
  obtain ⟨text, children⟩ := t
  simp only [setChild, child?, Tree.data, Tree.children]
  induction children with
  | nil => simp [replaceIn]
  | cons c children ih =>
    by_cases hc : c.1 = key
    · simp [replaceIn, hc]
    · simpa [replaceIn, hc] using ih

theorem child?_setChild_of_ne {key other : String} (h : other ≠ key) (t sub : Tree) :
    (t.setChild key sub).child? other = t.child? other := by
  obtain ⟨text, children⟩ := t
  simp only [setChild, child?, Tree.data, Tree.children]
  induction children with
  | nil => simp [replaceIn, Ne.symm h]
  | cons c children ih =>
    by_cases hc : c.1 = key
    · simp [replaceIn, hc, Ne.symm h]
    · by_cases ho : c.1 = other
      · simp [replaceIn, ho, h]
      · simpa [replaceIn, hc, ho] using ih

/-- A new name comes behind the others. -/
theorem replaceIn_new {key : String} {sub : Tree} {children : List (String × Tree)}
    (h : key ∉ children.map Prod.fst) : replaceIn key sub children = children ++ [(key, sub)] := by
  induction children with
  | nil => rfl
  | cons c children ih =>
    simp only [List.map_cons, List.mem_cons, not_or] at h
    rw [replaceIn, if_neg (Ne.symm h.1), ih h.2, List.cons_append]

theorem child?_new {key text : String} {children : List (String × Tree)}
    (h : key ∉ children.map Prod.fst) : (node text children).child? key = none := by
  rw [child?, Option.map_eq_none_iff, List.find?_eq_none]
  intro c hc hkey
  exact h (List.mem_map.mpr ⟨c, hc, by simpa using hkey⟩)

/-- The node at the end of the path is there, and it is the changed one. -/
theorem find?_modify (f : Tree → Tree) (path : List String) (t : Tree) :
    (modify f path t).find? path = some (f ((t.find? path).getD empty)) := by
  induction path generalizing t with
  | nil => rfl
  | cons key path ih =>
    rw [modify, find?, child?_setChild_self, Option.bind_some, ih, find?]
    cases t.child? key with
    | none => cases path <;> rfl
    | some sub => rfl

/-- The text of the node at the end of a path. -/
def text? (path : List String) (t : Tree) : Option String := (t.find? path).map data

theorem text?_withData (t : Tree) (text key : String) (path : List String) :
    (t.withData text).text? (key :: path) = t.text? (key :: path) := rfl

theorem text?_empty {path : List String} (h : path ≠ []) : empty.text? path = none := by
  obtain ⟨key, rest, rfl⟩ := List.exists_cons_of_ne_nil h
  rfl

theorem text?_putString_self (path : List String) (text : String) (t : Tree) :
    (t.putString path text).text? path = some text := by
  rw [text?, putString, find?_modify]
  rfl

/-- A text stands in one place: only the paths on the way to it notice. -/
theorem text?_putString_of_not_prefix {path other : List String} (h : ¬ other <+: path)
    (text : String) (t : Tree) : (t.putString path text).text? other = t.text? other := by
  induction path generalizing other t with
  | nil =>
    obtain ⟨key, rest, rfl⟩ := List.exists_cons_of_ne_nil (l := other) (by rintro rfl; simp at h)
    exact text?_withData t text key rest
  | cons key path ih =>
    obtain ⟨first, rest, rfl⟩ :=
      List.exists_cons_of_ne_nil (l := other) (by rintro rfl; simp at h)
    by_cases hfirst : first = key
    · subst hfirst
      have hrest : ¬ rest <+: path := fun hp => h (List.cons_prefix_cons.mpr ⟨rfl, hp⟩)
      have hne : rest ≠ [] := by
        rintro rfl
        simp at hrest
      have hsub := ih hrest ((t.child? first).getD empty)
      unfold text? at hsub ⊢
      rw [putString, modify, find?, child?_setChild_self, Option.bind_some, find?]
      rw [putString] at hsub
      rw [hsub]
      cases t.child? first with
      | none => exact text?_empty hne
      | some sub => rfl
    · unfold text?
      rw [putString, modify, find?, child?_setChild_of_ne hfirst, find?]

theorem getString_eq (path : List String) (t : Tree) :
    t.getString path = match t.text? path with
      | some text => .ok text
      | none => .error ("No such node (" ++ dotted path ++ ")") := by
  unfold getString getChild text?
  cases t.find? path <;> rfl

section Typed

variable {α β : Type}

theorem getString_put_self (tr : Translator α) (path : List String) (a : α) (t : Tree) :
    (t.put tr path a).getString path = .ok (tr.write a) := by
  rw [put, getString_eq, text?_putString_self]

theorem getString_put_of_not_prefix {path other : List String} (h : ¬ other <+: path)
    (tr : Translator α) (a : α) (t : Tree) :
    (t.put tr path a).getString other = t.getString other := by
  rw [put, getString_eq, getString_eq, text?_putString_of_not_prefix h]

theorem get_put_self {tr : Translator α} {tr' : Translator β} {a : α} {b : β}
    (h : tr'.read (tr.write a) = some b) (path : List String) (t : Tree) :
    (t.put tr path a).get tr' path = .ok b := by
  rw [get, getString_put_self]
  show (match tr'.read (tr.write a) with | some b => _ | none => _) = _
  rw [h]

theorem get_put_of_not_prefix {path other : List String} (h : ¬ other <+: path)
    (tr : Translator α) (tr' : Translator β) (a : α) (t : Tree) :
    (t.put tr path a).get tr' other = t.get tr' other := by
  rw [get, get, getString_put_of_not_prefix h]

/-- What is read is what the text at the path denotes. -/
theorem get_eq_ok {tr : Translator α} {path : List String} {t : Tree} {a : α} :
    t.get tr path = .ok a ↔ ∃ text, t.getString path = .ok text ∧ tr.read text = some a := by
  unfold get
  cases t.getString path with
  | error what => simp [bind, Except.bind]
  | ok text => cases h : tr.read text <;> simp [bind, Except.bind, h]

end Typed

end Tree

end PropertyTree
