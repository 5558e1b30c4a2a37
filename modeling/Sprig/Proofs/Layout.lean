import Sprig.Proofs.Lexeme

/-!
# Laying out terminals as text

A terminal is what a token says, without where it stands: its kind and its literal. A text lays out
a list of terminals if it consists of them as they are written, in order and with any blanks before,
between and after them, where two terminals stand apart if the second would make the first one
longer (`Layout`). However well formed terminals are laid out, they are read back
(`Layout.map_terminal_readAll`); a blank after each of them is one way to do it (`layout_spaced`).
-/

namespace Sprig

/-- What a token says. -/
structure Terminal where
  kind : TokenKind
  literal : String
deriving DecidableEq

/-- The terminal that a token is an occurrence of. -/
def Token.terminal (t : Token) : Terminal :=
  ⟨t.kind, t.literal⟩

/-- The text of the kinds that are always written the same: symbols and keywords. -/
def TokenKind.text? : TokenKind → Option String
  | .illegal | .eof | .ident | .integer | .string => none
  | .assign => some "="
  | .plus => some "+"
  | .minus => some "-"
  | .bang => some "!"
  | .star => some "*"
  | .slash => some "/"
  | .lessThan => some "<"
  | .greaterThan => some ">"
  | .equalEqual => some "=="
  | .bangEqual => some "!="
  | .comma => some ","
  | .semicolon => some ";"
  | .leftParen => some "("
  | .rightParen => some ")"
  | .leftBrace => some "\x7b"
  | .rightBrace => some "\x7d"
  | .kwFn => some "fn"
  | .kwLet => some "let"
  | .kwTrue => some "true"
  | .kwFalse => some "false"
  | .kwIf => some "if"
  | .kwElse => some "else"
  | .kwReturn => some "return"

/-- A name: one or more letters and underscores that are no keyword. -/
def isName (name : String) : Bool :=
  !name.toList.isEmpty && name.toList.all isWordChar && (TokenKind.ofKeyword? name).isNone

/-- One or more digits. -/
def isNumeral (numeral : String) : Bool :=
  !numeral.toList.isEmpty && numeral.toList.all Char.isDigit

theorem isName_iff {name : String} : isName name = true ↔ name.toList ≠ [] ∧
    (∀ c ∈ name.toList, isWordChar c = true) ∧ TokenKind.ofKeyword? name = none := by
  simp [isName, and_assoc]

theorem isNumeral_iff {numeral : String} : isNumeral numeral = true ↔
    numeral.toList ≠ [] ∧ ∀ c ∈ numeral.toList, c.isDigit = true := by
  simp [isNumeral]

theorem Spelled.keyword {word : String} {kind : TokenKind} {rest : List Char}
    (h : TokenKind.ofKeyword? word = some kind) (hrest : StopsBefore isWordChar rest) :
    Spelled kind word.toList word.toList rest := by
  have hword : word.toList.isEmpty = false ∧ word.toList.all isWordChar = true := by
    unfold TokenKind.ofKeyword? at h
    split at h <;> first | exact ⟨rfl, rfl⟩ | cases h
  have hs := Spelled.word (List.isEmpty_eq_false_iff.1 hword.1) (List.all_eq_true.1 hword.2) hrest
  rw [String.ofList_toList, h] at hs
  exact hs

namespace Terminal

/-- A symbol or a keyword. -/
def fixed (kind : TokenKind) : Terminal :=
  ⟨kind, kind.text?.getD ""⟩

/-- The text of a terminal; only strings are quoted. -/
def written (w : Terminal) : List Char :=
  match w.kind with
  | .string => '"' :: (w.literal.toList ++ ['"'])
  | _ => w.literal.toList

/-- The literal belongs to the kind. -/
def WellFormed (w : Terminal) : Prop :=
  match w.kind with
  | .ident => isName w.literal = true
  | .integer => isNumeral w.literal = true
  | .string => '"' ∉ w.literal.toList
  | .illegal => ∃ c, w.literal = String.singleton c ∧ isBlank c = false ∧ isWordChar c = false ∧
      c.isDigit = false ∧ c ∉ ['"', '=', '!'] ∧ TokenKind.ofSymbol? c = none
  | k => k.text? = some w.literal

variable {w : Terminal} {rest : List Char}

/-- A well formed terminal in front of a text that does not carry it on is spelled as it is
written. -/
theorem WellFormed.spelled (h : w.WellFormed) (hrest : StopsBefore w.kind.continuedBy rest) :
    Spelled w.kind w.literal.toList w.written rest := by
  obtain ⟨kind, literal⟩ := w
  cases kind with
  | ident =>
    obtain ⟨hne, hchars, hkeyword⟩ := isName_iff.1 h
    have hs := Spelled.word hne hchars hrest
    rw [String.ofList_toList, hkeyword] at hs
    exact hs
  | integer =>
    obtain ⟨hne, hdigits⟩ := isNumeral_iff.1 h
    exact .integer hne hdigits hrest
  | string => exact .string h
  | illegal =>
    obtain ⟨c, rfl, hblank, hword, hdigit, hmark, hsymbol⟩ := h
    have hs : Spelled .illegal [c] [c] rest :=
      .illegal hblank hword hdigit (by simpa using hmark) hsymbol
    simpa [written] using hs
  | eof => cases h
  | assign =>
    obtain rfl := Option.some.inj h
    exact .assign hrest
  | bang =>
    obtain rfl := Option.some.inj h
    exact .bang hrest
  | equalEqual =>
    obtain rfl := Option.some.inj h
    exact .equalEqual
  | bangEqual =>
    obtain rfl := Option.some.inj h
    exact .bangEqual
  | kwFn | kwLet | kwTrue | kwFalse | kwIf | kwElse | kwReturn =>
    obtain rfl := Option.some.inj h
    exact .keyword rfl hrest
  | _ =>
    obtain rfl := Option.some.inj h
    exact .symbol rfl

end Terminal

/-! ## Layouts -/

theorem TokenKind.continuedBy_blank {c : Char} (hc : isBlank c = true) (kind : TokenKind) :
    kind.continuedBy c = false := by
  rcases eq_of_isBlank hc with rfl | rfl | rfl | rfl | rfl <;> cases kind <;> rfl

/-- The text consists of the terminals and of blanks around them. -/
inductive Layout : List Terminal → List Char → Prop where
  | done {gap : List Char} (hgap : ∀ c ∈ gap, isBlank c = true) : Layout [] gap
  | next {w : Terminal} {ws : List Terminal} {gap rest : List Char}
      (hgap : ∀ c ∈ gap, isBlank c = true) (hrest : StopsBefore w.kind.continuedBy rest)
      (h : Layout ws rest) : Layout (w :: ws) (gap ++ (w.written ++ rest))

namespace Layout

variable {w : Terminal} {ws : List Terminal} {text : List Char}

theorem put (h : Layout ws text) (w : Terminal) (htext : StopsBefore w.kind.continuedBy text) :
    Layout (w :: ws) (w.written ++ text) := by
  have hgap : ∀ c ∈ ([] : List Char), isBlank c = true := by simp
  exact .next hgap htext h

theorem blank (h : Layout ws text) : Layout ws (' ' :: text) := by
  have hblank : isBlank ' ' = true := rfl
  cases h with
  | done hgap => exact .done (List.forall_mem_cons.2 ⟨hblank, hgap⟩)
  | next hgap hrest h =>
    rw [← List.cons_append]
    exact .next (List.forall_mem_cons.2 ⟨hblank, hgap⟩) hrest h

/-- **Terminals are read back from every layout.** -/
theorem map_terminal_readAll (h : Layout ws text) (hws : ∀ w ∈ ws, w.WellFormed) (offset : Nat) :
    (Token.readAll offset text).map Token.terminal = ws := by
  induction h generalizing offset with
  | done hgap => rw [readAll_blanks hgap, List.map_nil]
  | @next w ws gap rest hgap hrest h ih =>
    -- Reading skips the gap, takes the terminal as it is spelled and goes on with the rest.
    obtain ⟨hw, hws⟩ := List.forall_mem_cons.1 hws
    rw [readAll_gap hgap, (hw.spelled hrest).readAll, List.map_cons, ih hws, Token.terminal,
      String.ofList_toList]

end Layout

/-- The terminals with a blank after each. -/
def spaced (ws : List Terminal) : List Char :=
  ws.flatMap fun w => w.written ++ [' ']

theorem layout_spaced (ws : List Terminal) : Layout ws (spaced ws) := by
  induction ws with
  | nil => exact .done (by simp [spaced])
  | cons w ws ih =>
    have hrest : StopsBefore w.kind.continuedBy (' ' :: spaced ws) := by
      intro c hc
      cases hc
      exact TokenKind.continuedBy_blank (by decide) _
    have h := ih.blank.put w hrest
    simpa [spaced] using h

end Sprig
