import Mathlib.Algebra.Group.Int.Defs
import Mathlib.Algebra.Group.Nat.Defs
import BddsBroker.Lib.PropertyTree

/-! JSON texts of property trees, as Boost writes them: every value is a string, the
children stand on lines of their own and are indented by four blanks for each level. The
reader takes objects, arrays, strings with simple escapes, the three names and numbers,
which are kept as text. With translators for whole numbers and for characters. -/

namespace PropertyTree.JsonText

/-! ## Reading -/

inductive Token
  | openObject
  | closeObject
  | openArray
  | closeArray
  | colon
  | comma
  | string (text : String)
  | bare (text : String)
  deriving DecidableEq, Repr

def punctuation : Char → Option Token
  | '\x7b' => some .openObject
  | '\x7d' => some .closeObject
  | '[' => some .openArray
  | ']' => some .closeArray
  | ':' => some .colon
  | ',' => some .comma
  | _ => none

/-- Where the lexer stands: between tokens, in a string, behind a backslash in a string,
or in a bare word. The characters read are kept in reverse. -/
inductive Mode
  | between
  | inString (read : List Char)
  | escaped (read : List Char)
  | inBare (read : List Char)

def textOf (read : List Char) : String := String.ofList read.reverse

def isBlank (c : Char) : Bool := c == ' ' || c == '\n' || c == '\r' || c == '\t'

def lex : Mode → List Char → Option (List Token)
  | .between, [] => some []
  | .inBare read, [] => some [.bare (textOf read)]
  | .inString _, [] | .escaped _, [] => none
  | .inString read, c :: cs =>
      if c = '"' then (lex .between cs).map (.string (textOf read) :: ·)
      else if c = '\\' then lex (.escaped read) cs
      else lex (.inString (c :: read)) cs
  | .escaped read, c :: cs =>
      if c = 'n' then lex (.inString ('\n' :: read)) cs
      else if c = '"' ∨ c = '\\' ∨ c = '/' then lex (.inString (c :: read)) cs
      else none
  | .between, c :: cs =>
      if c = '"' then lex (.inString []) cs
      else if isBlank c then lex .between cs
      else
        match punctuation c with
        | some token => (lex .between cs).map (token :: ·)
        | none => lex (.inBare [c]) cs
  | .inBare read, c :: cs =>
      if isBlank c then (lex .between cs).map (.bare (textOf read) :: ·)
      else
        match punctuation c with
        | some token => (lex .between cs).map fun tokens => .bare (textOf read) :: token :: tokens
        | none => lex (.inBare (c :: read)) cs

/-- A name of JSON, or a number, whose form is checked roughly. -/
def isBare (text : String) : Bool :=
  text == "true" || text == "false" || text == "null" ||
    (text.toList.any (·.isDigit) && text.toList.all fun c => c.isDigit || "+-.eE".toList.contains c)

/-- What the parser expects next. -/
inductive Expected
  | value
  | members
  | elements

/-- The parser of one value, or of the members of an object or the elements of an array
behind its bracket. A value is returned as a single child without a name. -/
def parse : Nat → Expected → List Token → Option (List (String × Tree) × List Token)
  | _ + 1, .value, .string text :: rest => some ([("", .node text [])], rest)
  | _ + 1, .value, .bare text :: rest =>
      if isBare text then some ([("", .node text [])], rest) else none
  | _ + 1, .value, .openObject :: .closeObject :: rest => some ([("", .empty)], rest)
  | _ + 1, .value, .openArray :: .closeArray :: rest => some ([("", .empty)], rest)
  | n + 1, .value, .openObject :: rest => do
      let (children, rest) ← parse n .members rest
      return ([("", .node "" children)], rest)
  | n + 1, .value, .openArray :: rest => do
      let (children, rest) ← parse n .elements rest
      return ([("", .node "" children)], rest)
  | n + 1, .members, .string key :: .colon :: rest => do
      let (sub, rest) ← parse n .value rest
      let named := sub.map fun child => (key, child.2)
      match rest with
      | .closeObject :: rest => return (named, rest)
      | .comma :: rest =>
          let (children, rest) ← parse n .members rest
          return (named ++ children, rest)
      | _ => none
  | n + 1, .elements, tokens => do
      let (sub, rest) ← parse n .value tokens
      match rest with
      | .closeArray :: rest => return (sub, rest)
      | .comma :: rest =>
          let (children, rest) ← parse n .elements rest
          return (sub ++ children, rest)
      | _ => none
  | _, _, _ => none

def readChars (cs : List Char) : Option Tree := do
  let tokens ← lex .between cs
  match ← parse tokens.length .value tokens with
  | ([(_, t)], []) => some t
  | _ => none

/-! ## Writing -/

/-- A token, or layout: a new line with its indentation, or a blank. -/
inductive Piece
  | token (token : Token)
  | newLine (level : Nat)
  | blank

def separate : List (List Piece) → List Piece
  | [] => []
  | [piece] => piece
  | piece :: next :: rest => piece ++ .token .comma :: separate (next :: rest)

def enclose (level : Nat) (first last : Token) (items : List (List Piece)) : List Piece :=
  .token first :: separate (items.map (.newLine (level + 1) :: ·)) ++ [.newLine level, .token last]

def named (key : String) (pieces : List Piece) : List Piece :=
  .token (.string key) :: .token .colon :: .blank :: pieces

/-- The pieces of a tree of at most that depth. The root is an object; below it a tree
without children is a string, and one whose children have no names is an array. -/
def pieces : Nat → Nat → Tree → List Piece
  | 0, _, _ => []
  | n + 1, level, .node text children =>
      if children = [] ∧ 0 < level then [.token (.string text)]
      else if 0 < level ∧ ∀ child ∈ children, child.1 = "" then
        enclose level .openArray .closeArray
          (children.map fun child => pieces n (level + 1) child.2)
      else
        enclose level .openObject .closeObject
          (children.map fun child => named child.1 (pieces n (level + 1) child.2))

def escape (c : Char) : List Char :=
  if c = '\n' then ['\\', 'n']
  else if c = '"' ∨ c = '\\' ∨ c = '/' then ['\\', c]
  else [c]

def renderToken : Token → List Char
  | .openObject => ['\x7b']
  | .closeObject => ['\x7d']
  | .openArray => ['[']
  | .closeArray => [']']
  | .colon => [':']
  | .comma => [',']
  | .string text => '"' :: text.toList.flatMap escape ++ ['"']
  | .bare text => text.toList

def render : Piece → List Char
  | .token token => renderToken token
  | .newLine level => '\n' :: List.replicate (4 * level) ' '
  | .blank => [' ']

/-- The tree is not deeper, the root has no text, and no other tree has both a text and
children. -/
def writable : Nat → Nat → Tree → Bool
  | 0, _, _ => false
  | n + 1, level, .node text children =>
      ((children.isEmpty && 0 < level) || text == "") &&
        children.all fun child => writable n (level + 1) child.2

def textOfTree (t : Tree) : String := String.ofList ((pieces 16 0 t).flatMap render ++ ['\n'])

def json : Json where
  readJson text :=
    match readChars text.toList with
    | some t => .ok t
    | none => .error "expected value"
  writeJson t :=
    if writable 16 0 t then .ok (textOfTree t)
    else .error "ptree contains data that cannot be represented in JSON"

/-! ## Round trip -/

/-- The token of a piece, if it is not layout. -/
def Piece.token? : Piece → Option Token
  | .token t => some t
  | _ => none

def strip (ps : List Piece) : List Token := ps.filterMap Piece.token?

@[simp] theorem strip_nil : strip [] = [] := rfl

@[simp] theorem strip_token (t : Token) (ps : List Piece) :
    strip (.token t :: ps) = t :: strip ps := rfl

@[simp] theorem strip_newLine (level : Nat) (ps : List Piece) :
    strip (.newLine level :: ps) = strip ps := rfl

@[simp] theorem strip_blank (ps : List Piece) : strip (.blank :: ps) = strip ps := rfl

@[simp] theorem strip_append (ps qs : List Piece) : strip (ps ++ qs) = strip ps ++ strip qs :=
  List.filterMap_append

theorem lex_escape (c : Char) (read rest : List Char) :
    lex (.inString read) (escape c ++ rest) = lex (.inString (c :: read)) rest := by
  unfold escape
  split
  · rename_i hc
    subst hc
    simp [lex]
  · split
    · rename_i hc
      rcases hc with rfl | rfl | rfl <;> simp [lex]
    · rename_i hnl hesc
      simp only [not_or] at hesc
      simp [lex, hesc.1, hesc.2.1]

theorem lex_escaped (cs read rest : List Char) :
    lex (.inString read) (cs.flatMap escape ++ '"' :: rest) =
      (lex .between rest).map (.string (textOf (cs.reverse ++ read)) :: ·) := by
  induction cs generalizing read with
  | nil => simp [lex]
  | cons c cs ih =>
    rw [List.flatMap_cons, List.append_assoc, lex_escape, ih, List.reverse_cons,
      List.append_assoc, List.singleton_append]

theorem lex_blanks (n : Nat) (rest : List Char) :
    lex .between (List.replicate n ' ' ++ rest) = lex .between rest := by
  induction n with
  | zero => rfl
  | succ n ih =>
    rw [List.replicate_succ, List.cons_append, ← ih]
    rfl

/-- The lexer finds the tokens of what was rendered, when there are no bare words. -/
theorem lex_render {ps : List Piece} (h : ∀ text, Piece.token (.bare text) ∉ ps)
    (rest : List Char) :
    lex .between (ps.flatMap render ++ rest) = (lex .between rest).map (strip ps ++ ·) := by
  induction ps with
  | nil => simp
  | cons p ps ih =>
    have hps := ih fun text hmem => h text (List.mem_cons_of_mem p hmem)
    rw [List.flatMap_cons, List.append_assoc]
    cases p with
    | token t =>
      have hmap : ∀ t : Token, (lex .between (ps.flatMap render ++ rest)).map (t :: ·) =
          (lex .between rest).map (strip (.token t :: ps) ++ ·) := by
        intro t
        rw [hps, Option.map_map]
        congr 1
      cases t with
      | string text =>
        have hstring := lex_escaped text.toList [] (ps.flatMap render ++ rest)
        rw [List.append_nil, textOf, List.reverse_reverse, String.ofList_toList, hmap] at hstring
        simpa [render, renderToken, lex] using hstring
      | bare text => exact absurd List.mem_cons_self (h text)
      | _ => exact hmap _
    | newLine level =>
      rw [strip_newLine, ← hps]
      exact lex_blanks (4 * level) _
    | blank =>
      rw [strip_blank, ← hps]
      rfl

theorem strip_separate_cons (ps : List Piece) {rest : List (List Piece)} (h : rest ≠ []) :
    strip (separate (ps :: rest)) = strip ps ++ .comma :: strip (separate rest) := by
  obtain ⟨next, rest, rfl⟩ := List.exists_cons_of_ne_nil h
  simp [separate]

theorem parse_members {n level : Nat} {children : List (String × Tree)} (hne : children ≠ [])
    (hvalue : ∀ child ∈ children, ∀ fuel rest,
      (strip (pieces n level child.2)).length ≤ fuel →
        parse fuel .value (strip (pieces n level child.2) ++ rest) = some ([("", child.2)], rest))
    {fuel : Nat} {items : List (List Piece)}
    (hitems : items = children.map fun child =>
      .newLine level :: named child.1 (pieces n level child.2))
    (hfuel : (strip (separate items)).length < fuel) (rest : List Token) :
    parse fuel .members (strip (separate items) ++ .closeObject :: rest) =
      some (children, rest) := by
  induction children generalizing fuel items with
  | nil => exact absurd rfl hne
  | cons child children ih =>
    obtain ⟨fuel, rfl⟩ := Nat.exists_eq_succ_of_ne_zero (Nat.ne_zero_of_lt hfuel)
    have hchild := hvalue child List.mem_cons_self
    subst hitems
    by_cases hlast : children = []
    · subst hlast
      simp only [List.map_cons, List.map_nil, separate, named, strip_newLine, strip_token,
        strip_blank, List.length_cons, List.cons_append] at hfuel ⊢
      simp [parse, hchild fuel _ (by omega)]
    · have hmap : (children.map fun child =>
          Piece.newLine level :: named child.1 (pieces n level child.2)) ≠ [] := by
        simpa using hlast
      rw [List.map_cons, strip_separate_cons _ hmap] at hfuel ⊢
      simp only [named, strip_newLine, strip_token, strip_blank, List.length_cons,
        List.length_append, List.cons_append, List.append_assoc] at hfuel ⊢
      have hrest := ih hlast (fun c hc => hvalue c (List.mem_cons_of_mem child hc)) rfl
        (show _ < fuel by simp only [named]; omega)
      simp only [named] at hrest
      simp [parse, hchild fuel _ (by omega), hrest]

theorem parse_elements {n level : Nat} {children : List (String × Tree)} (hne : children ≠ [])
    (hnames : ∀ child ∈ children, child.1 = "")
    (hvalue : ∀ child ∈ children, ∀ fuel rest,
      (strip (pieces n level child.2)).length ≤ fuel →
        parse fuel .value (strip (pieces n level child.2) ++ rest) = some ([("", child.2)], rest))
    {fuel : Nat} {items : List (List Piece)}
    (hitems : items = children.map fun child => .newLine level :: pieces n level child.2)
    (hfuel : (strip (separate items)).length < fuel) (rest : List Token) :
    parse fuel .elements (strip (separate items) ++ .closeArray :: rest) =
      some (children, rest) := by
  induction children generalizing fuel items with
  | nil => exact absurd rfl hne
  | cons child children ih =>
    obtain ⟨fuel, rfl⟩ := Nat.exists_eq_succ_of_ne_zero (Nat.ne_zero_of_lt hfuel)
    have hchild := hvalue child List.mem_cons_self
    have hname : ("", child.2) = child := by rw [← hnames child List.mem_cons_self]
    subst hitems
    by_cases hlast : children = []
    · subst hlast
      simp only [List.map_cons, List.map_nil, separate, strip_newLine] at hfuel ⊢
      simp [parse, hchild fuel _ (by omega), hname]
    · have hmap : (children.map fun child =>
          Piece.newLine level :: pieces n level child.2) ≠ [] := by
        simpa using hlast
      rw [List.map_cons, strip_separate_cons _ hmap] at hfuel ⊢
      simp only [strip_newLine, List.length_cons, List.length_append, List.cons_append,
        List.append_assoc] at hfuel ⊢
      have hrest := ih hlast (fun c hc => hnames c (List.mem_cons_of_mem child hc))
        (fun c hc => hvalue c (List.mem_cons_of_mem child hc)) rfl (show _ < fuel by omega)
      simp [parse, hchild fuel _ (by omega), hrest, hname]

theorem parse_array {fuel : Nat} {tokens rest : List Token} {children : List (String × Tree)}
    (h : parse fuel .elements tokens = some (children, rest)) :
    parse (fuel + 1) .value (.openArray :: tokens) = some ([("", .node "" children)], rest) := by
  have hhead : ∀ after, tokens ≠ .closeArray :: after := by
    rintro after rfl
    cases fuel with
    | zero => simp [parse] at h
    | succ fuel => cases fuel <;> simp [parse] at h
  simp [parse, h]

theorem parse_object {fuel : Nat} {tokens rest : List Token} {children : List (String × Tree)}
    (h : parse fuel .members tokens = some (children, rest)) :
    parse (fuel + 1) .value (.openObject :: tokens) = some ([("", .node "" children)], rest) := by
  have hhead : ∀ after, tokens ≠ .closeObject :: after := by
    rintro after rfl
    cases fuel <;> simp [parse] at h
  simp [parse, h]

theorem strip_enclose (level : Nat) (first last : Token) (items : List (List Piece)) :
    strip (enclose level first last items) =
      first :: strip (separate (items.map (.newLine (level + 1) :: ·))) ++ [last] := by
  simp [enclose]

/-- The tokens of a writable tree are parsed to it. -/
theorem parse_pieces {n level : Nat} {t : Tree} (h : writable n level t = true) {fuel : Nat}
    (hfuel : (strip (pieces n level t)).length ≤ fuel) (rest : List Token) :
    parse fuel .value (strip (pieces n level t) ++ rest) = some ([("", t)], rest) := by
  induction n generalizing level t fuel rest with
  | zero => cases h
  | succ n ih =>
    obtain ⟨text, children⟩ := t
    simp only [writable, Bool.and_eq_true, Bool.or_eq_true, beq_iff_eq, List.isEmpty_iff,
      decide_eq_true_eq, List.all_eq_true] at h
    obtain ⟨htext, hchildren⟩ := h
    have hvalue : ∀ child ∈ children, ∀ fuel rest,
        (strip (pieces n (level + 1) child.2)).length ≤ fuel →
          parse fuel .value (strip (pieces n (level + 1) child.2) ++ rest) =
            some ([("", child.2)], rest) :=
      fun child hchild fuel rest hlen => ih (hchildren child hchild) hlen rest
    unfold pieces at hfuel ⊢
    by_cases hleaf : children = [] ∧ 0 < level
    · rw [if_pos hleaf] at hfuel ⊢
      obtain ⟨fuel, rfl⟩ := Nat.exists_eq_succ_of_ne_zero (Nat.ne_zero_of_lt hfuel)
      obtain ⟨rfl, -⟩ := hleaf
      rfl
    · obtain rfl : text = "" := htext.resolve_left hleaf
      rw [if_neg hleaf] at hfuel ⊢
      by_cases harray : 0 < level ∧ ∀ child ∈ children, child.1 = ""
      · have hne : children ≠ [] := fun hc => hleaf ⟨hc, harray.1⟩
        rw [if_pos harray, strip_enclose, List.map_map] at hfuel ⊢
        simp only [List.cons_append, List.length_cons, List.length_append, List.length_nil,
          List.append_assoc, List.nil_append, Function.comp_def] at hfuel ⊢
        obtain ⟨fuel, rfl⟩ := Nat.exists_eq_succ_of_ne_zero (Nat.ne_zero_of_lt hfuel)
        exact parse_array (parse_elements hne harray.2 hvalue rfl (by omega) rest)
      · rw [if_neg harray, strip_enclose, List.map_map] at hfuel ⊢
        simp only [List.cons_append, List.length_cons, List.length_append, List.length_nil,
          List.append_assoc, List.nil_append, Function.comp_def] at hfuel ⊢
        obtain ⟨fuel, rfl⟩ := Nat.exists_eq_succ_of_ne_zero (Nat.ne_zero_of_lt hfuel)
        by_cases hne : children = []
        · subst hne
          rfl
        · exact parse_object (parse_members hne hvalue rfl (by omega) rest)

theorem not_mem_separate {p : Piece} {items : List (List Piece)} (hp : p ≠ .token .comma)
    (h : ∀ ps ∈ items, p ∉ ps) : p ∉ separate items := by
  induction items with
  | nil => simp [separate]
  | cons ps rest ih =>
    have hps := h ps List.mem_cons_self
    have hrest := ih fun qs hqs => h qs (List.mem_cons_of_mem ps hqs)
    cases rest with
    | nil => exact hps
    | cons next rest => simp [separate, hps, hp, hrest]

theorem bare_not_mem_enclose {text : String} {level : Nat} {first last : Token}
    {items : List (List Piece)} (hfirst : first ≠ .bare text) (hlast : last ≠ .bare text)
    (h : ∀ ps ∈ items, Piece.token (.bare text) ∉ ps) :
    Piece.token (.bare text) ∉ enclose level first last items := by
  have hitems : Piece.token (.bare text) ∉ separate (items.map (.newLine (level + 1) :: ·)) :=
    not_mem_separate (by simp) (by simpa using h)
  simp [enclose, Ne.symm hfirst, Ne.symm hlast, hitems]

/-- Everything is written as a string. -/
theorem bare_not_mem_pieces (text : String) (n level : Nat) (t : Tree) :
    Piece.token (.bare text) ∉ pieces n level t := by
  induction n generalizing level t with
  | zero => simp [pieces]
  | succ n ih =>
    obtain ⟨data, children⟩ := t
    unfold pieces
    split
    · simp
    · split
      · refine bare_not_mem_enclose (by simp) (by simp) fun ps hps => ?_
        obtain ⟨child, -, rfl⟩ := List.mem_map.mp hps
        exact ih (level + 1) child.2
      · refine bare_not_mem_enclose (by simp) (by simp) fun ps hps => ?_
        obtain ⟨child, -, rfl⟩ := List.mem_map.mp hps
        simpa [named] using ih (level + 1) child.2

theorem writeJson_eq {t : Tree} (h : writable 16 0 t = true) :
    json.writeJson t = .ok (textOfTree t) := if_pos h

/-- **Round trip.** Every tree that can be written is read back. -/
theorem roundTrips (t : Tree) : json.RoundTrips t := by
  intro text h
  simp only [json] at h
  split at h
  · rename_i hwritable
    obtain rfl := Except.ok.inj h
    have hlex := lex_render (fun text => bare_not_mem_pieces text 16 0 t) ['\n']
    have hparse := parse_pieces hwritable (Nat.le_refl _) []
    have hend : lex .between ['\n'] = some [] := rfl
    rw [hend, Option.map_some, List.append_nil] at hlex
    rw [List.append_nil] at hparse
    simp [json, textOfTree, readChars, hlex, hparse]
  · cases h

/-! ## Translators -/

def digits (cs : List Char) : Option Nat :=
  if cs ≠ [] ∧ cs.all Char.isDigit then some (Nat.ofDigitChars 10 cs 0) else none

def readInt (text : String) : Option Int :=
  match text.toList with
  | '-' :: cs => (digits cs).map fun n : Nat => -(n : Int)
  | cs => (digits cs).map Int.ofNat

/-- Whole numbers of that many bits. -/
def intTranslator (typeName : String) (bits : Nat) : Translator Int where
  typeName := typeName
  read text := (readInt text).filter fun i => -2 ^ (bits - 1) ≤ i ∧ i < 2 ^ (bits - 1)
  write i := toString i

def charTranslator : Translator UInt8 where
  typeName := "char"
  read text :=
    match text.toList with
    | [c] => some (UInt8.ofNat c.toNat)
    | _ => none
  write c := String.ofList [Char.ofNat c.toNat]

theorem all_isDigit_toDigits (n : Nat) : (Nat.toDigits 10 n).all Char.isDigit = true :=
  List.all_eq_true.mpr fun _ hc => Nat.isDigit_of_mem_toDigits (by decide) (by decide) hc

/-- A numeral begins with a digit. -/
theorem toDigits_ne_cons {c : Char} (hc : c.isDigit = false) (n : Nat) (cs : List Char) :
    Nat.toDigits 10 n ≠ c :: cs := by
  intro h
  have hall := all_isDigit_toDigits n
  rw [h, List.all_cons, hc] at hall
  cases hall

theorem digits_toDigits (n : Nat) : digits (Nat.toDigits 10 n) = some n := by
  unfold digits
  rw [if_pos ⟨Nat.toDigits_ne_nil, all_isDigit_toDigits n⟩, Nat.ofDigitChars_ten_toDigits]

theorem readInt_toString (i : Int) : readInt (toString i) = some i := by
  rw [Int.toString_eq_repr, Int.repr_eq_if]
  by_cases hi : 0 ≤ i
  · have hnat : readInt i.toNat.repr = (digits (Nat.toDigits 10 i.toNat)).map Int.ofNat := by
      unfold readInt
      rw [Nat.toList_repr]
      split
      · rename_i cs h
        exact absurd h (toDigits_ne_cons (by decide) i.toNat cs)
      · rfl
    rw [if_pos hi, hnat, digits_toDigits, Option.map_some, Int.ofNat_eq_natCast,
      Int.toNat_of_nonneg hi]
  · have hlist : ("-" ++ (-i).toNat.repr).toList = '-' :: Nat.toDigits 10 (-i).toNat := by
      rw [String.toList_append, Nat.toList_repr]
      rfl
    have hsign : readInt ("-" ++ (-i).toNat.repr) =
        (digits (Nat.toDigits 10 (-i).toNat)).map fun n : Nat => -(n : Int) := by
      unfold readInt
      rw [hlist]
      rfl
    rw [if_neg hi, hsign, digits_toDigits, Option.map_some, Int.toNat_of_nonneg (by omega),
      Int.neg_neg]

theorem intTranslator_read_write (typeName : String) {bits : Nat} {i : Int}
    (h : -2 ^ (bits - 1) ≤ i ∧ i < 2 ^ (bits - 1)) :
    (intTranslator typeName bits).read (toString i) = some i := by
  simp only [intTranslator, readInt_toString, Option.filter_some, h, and_self, decide_true, if_true]

theorem charTranslator_read_write (c : UInt8) :
    charTranslator.read (charTranslator.write c) = some c := by
  have hc : (Char.ofNat c.toNat).toNat = c.toNat := by
    have hvalid : c.toNat.isValidChar := .inl (Nat.lt_trans c.toNat_lt (by decide))
    rw [Char.ofNat, dif_pos hvalid]
    exact UInt32.toNat_ofNatLT
  simp [charTranslator, hc]

end PropertyTree.JsonText
