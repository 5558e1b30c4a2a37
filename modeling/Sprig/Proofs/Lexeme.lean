import Mathlib.Data.List.TakeWhile
import Sprig.Token.Lexer

/-!
# How lexemes are spelled

`Spelled kind literal written rest` is the lexical grammar: a token of this kind and with this
literal is written so, and the text `rest` after it does not carry it on. Reading a lexeme off the
front of a text is finding what is spelled there (`Lexeme.spelled_read`, `Spelled.read`).

A text is then cut into tokens in exactly one way. `Cut offset tokens text` says that the text,
which starts at byte `offset` of the source, consists of the tokens as they are spelled, with
nothing but blanks before, between and after them, and that every token carries the span it is
written at; `Token.readAll` gives the tokens of that cut and no other (`readAll_eq_iff_cut`).
-/

namespace Sprig

/-- The text does not start with a character of the class `p`. -/
def StopsBefore (p : Char → Bool) (text : List Char) : Prop :=
  ∀ c ∈ text.head?, p c = false

/-- The characters of which one that follows directly makes a token of this kind longer. -/
def TokenKind.continuedBy : TokenKind → Char → Bool
  | .ident | .kwFn | .kwLet | .kwTrue | .kwFalse | .kwIf | .kwElse | .kwReturn => isWordChar
  | .integer => Char.isDigit
  | .assign | .bang => (· == '=')
  | _ => fun _ => false

/-- A token of a kind, with a literal, is written so in front of a text that does not carry it
on. -/
inductive Spelled : TokenKind → List Char → List Char → List Char → Prop where
  | word {w rest : List Char} (hne : w ≠ []) (hw : ∀ c ∈ w, isWordChar c = true)
      (hrest : StopsBefore isWordChar rest) :
      Spelled ((TokenKind.ofKeyword? (String.ofList w)).getD .ident) w w rest
  | integer {w rest : List Char} (hne : w ≠ []) (hw : ∀ c ∈ w, c.isDigit = true)
      (hrest : StopsBefore Char.isDigit rest) : Spelled .integer w w rest
  | string {body rest : List Char} (hbody : '"' ∉ body) :
      Spelled .string body ('"' :: (body ++ ['"'])) rest
  /-- The last quote may be missing at the end of the text. -/
  | unterminated {body : List Char} (hbody : '"' ∉ body) : Spelled .string body ('"' :: body) []
  | assign {rest : List Char} (hrest : StopsBefore (· == '=') rest) :
      Spelled .assign ['='] ['='] rest
  | equalEqual {rest : List Char} : Spelled .equalEqual ['=', '='] ['=', '='] rest
  | bang {rest : List Char} (hrest : StopsBefore (· == '=') rest) : Spelled .bang ['!'] ['!'] rest
  | bangEqual {rest : List Char} : Spelled .bangEqual ['!', '='] ['!', '='] rest
  | symbol {c : Char} {kind : TokenKind} {rest : List Char}
      (hc : TokenKind.ofSymbol? c = some kind) : Spelled kind [c] [c] rest
  | illegal {c : Char} {rest : List Char} (hblank : isBlank c = false)
      (hword : isWordChar c = false) (hdigit : c.isDigit = false)
      (hmark : c ≠ '"' ∧ c ≠ '=' ∧ c ≠ '!') (hsymbol : TokenKind.ofSymbol? c = none) :
      Spelled .illegal [c] [c] rest

/-! ## Runs of characters -/

theorem stopsBefore_dropWhile (p : Char → Bool) (cs : List Char) :
    StopsBefore p (cs.dropWhile p) := by
  intro c hc
  have h := List.head?_dropWhile_not p cs
  rw [Option.mem_def.1 hc] at h
  simpa using h

theorem takeWhile_append_of_stopsBefore {p : Char → Bool} {w rest : List Char}
    (hw : ∀ c ∈ w, p c = true) (hrest : StopsBefore p rest) : (w ++ rest).takeWhile p = w := by
  rw [List.takeWhile_append_of_pos hw]
  cases rest with
  | nil => simp
  | cons c cs => simp [hrest c rfl]

theorem dropWhile_append_of_stopsBefore {p : Char → Bool} {w rest : List Char}
    (hw : ∀ c ∈ w, p c = true) (hrest : StopsBefore p rest) : (w ++ rest).dropWhile p = rest := by
  rw [List.dropWhile_append_of_pos hw]
  cases rest with
  | nil => simp
  | cons c cs => simp [hrest c rfl]

/-- Two texts that begin with characters of a class go on alike where the class ends. -/
theorem append_inj_of_stopsBefore {p : Char → Bool} {w w' rest rest' : List Char}
    (hw : ∀ c ∈ w, p c = true) (hw' : ∀ c ∈ w', p c = true) (hrest : StopsBefore p rest)
    (hrest' : StopsBefore p rest') (h : w ++ rest = w' ++ rest') : w = w' ∧ rest = rest' := by
  constructor
  · rw [← takeWhile_append_of_stopsBefore hw hrest, h, takeWhile_append_of_stopsBefore hw' hrest']
  · rw [← dropWhile_append_of_stopsBefore hw hrest, h, dropWhile_append_of_stopsBefore hw' hrest']

/-! ## Classes of characters -/

theorem eq_of_isBlank {c : Char} (h : isBlank c = true) :
    c = ' ' ∨ c = '\t' ∨ c = '\n' ∨ c = '\x0c' ∨ c = '\r' := by
  simpa [isBlank, or_assoc] using h

theorem isBlank_eq_false_of_isWordChar {c : Char} (h : isWordChar c = true) :
    isBlank c = false := by
  rw [Bool.eq_false_iff]
  intro hb
  rcases eq_of_isBlank hb with rfl | rfl | rfl | rfl | rfl <;> simp [isWordChar] at h

theorem isBlank_eq_false_of_isDigit {c : Char} (h : c.isDigit = true) : isBlank c = false := by
  rw [Bool.eq_false_iff]
  intro hb
  rcases eq_of_isBlank hb with rfl | rfl | rfl | rfl | rfl <;> simp at h

theorem isWordChar_eq_false_of_isDigit {c : Char} (h : c.isDigit = true) :
    isWordChar c = false := by
  have hle : c.toNat ≤ 57 := (Char.isDigit_iff_toNat.1 h).2
  have hne : c ≠ '_' := by
    rintro rfl
    simp at h
  have halpha : ¬ c.isAlpha = true := by
    intro ha
    rcases Bool.or_eq_true_iff.1 (show (c.isUpper || c.isLower) = true from ha) with hu | hl
    · have hupper : 65 ≤ c.toNat := UInt32.le_iff_toNat_le.1 (of_decide_eq_true hu).1
      omega
    · have hlower : 97 ≤ c.toNat :=
        UInt32.le_iff_toNat_le.1 (of_decide_eq_true (Bool.and_eq_true_iff.1 hl).1)
      omega
  simp [isWordChar, halpha, hne]

/-- The characters that are tokens by themselves belong to no other class. -/
theorem class_of_ofSymbol? {c : Char} {kind : TokenKind} (h : TokenKind.ofSymbol? c = some kind) :
    isBlank c = false ∧ isWordChar c = false ∧ c.isDigit = false ∧ c ≠ '"' ∧ c ≠ '=' ∧ c ≠ '!' := by
  unfold TokenKind.ofSymbol? at h
  split at h <;> first | decide | cases h

/-! ## Reading is finding the spelling -/

namespace Lexeme

theorem spelled_quoted (cs : List Char) :
    Spelled (quoted cs).kind (quoted cs).literal (quoted cs).written (quoted cs).rest := by
  have hbody : '"' ∉ cs.takeWhile (· != '"') := by
    intro h
    have := List.mem_takeWhile_imp h
    simp at this
  unfold quoted
  cases hd : cs.dropWhile (· != '"') with
  | nil => exact .unterminated hbody
  | cons q rest =>
    obtain rfl : q = '"' := by
      have := stopsBefore_dropWhile (· != '"') cs
      rw [hd] at this
      simpa using this q rfl
    exact .string hbody

theorem spelled_orEquals {c : Char} {alone doubled : TokenKind} {cs : List Char}
    (halone : StopsBefore (· == '=') cs → Spelled alone [c] [c] cs)
    (hdoubled : ∀ rest, Spelled doubled [c, '='] [c, '='] rest) :
    Spelled (orEquals c alone doubled cs).kind (orEquals c alone doubled cs).literal
      (orEquals c alone doubled cs).written (orEquals c alone doubled cs).rest := by
  unfold orEquals
  split
  · exact hdoubled _
  · next hne =>
    refine halone fun d hd => ?_
    match cs with
    | _ :: rest =>
      cases hd
      refine beq_eq_false_iff_ne.2 ?_
      rintro rfl
      exact hne rest rfl

theorem spelled_read {c : Char} (cs : List Char) (h : isBlank c = false) :
    Spelled (read c cs).kind (read c cs).literal (read c cs).written (read c cs).rest := by
  unfold read
  split
  · next hc =>
    exact .word (by simp [hc]) (fun _ => List.mem_takeWhile_imp) (stopsBefore_dropWhile _ _)
  split
  · next hc =>
    exact .integer (by simp [digits, plain, hc]) (fun _ => List.mem_takeWhile_imp)
      (stopsBefore_dropWhile _ _)
  split
  · exact spelled_quoted cs
  split
  · exact spelled_orEquals .assign fun _ => .equalEqual
  split
  · exact spelled_orEquals .bang fun _ => .bangEqual
  · next hword hdigit hquote hequals hbang =>
    cases hs : TokenKind.ofSymbol? c with
    | some kind => exact .symbol hs
    | none =>
      exact .illegal h (by simpa using hword) (by simpa using hdigit) ⟨hquote, hequals, hbang⟩ hs

theorem orEquals_of_stopsBefore {c : Char} {alone doubled : TokenKind} {cs : List Char}
    (h : StopsBefore (· == '=') cs) : orEquals c alone doubled cs = plain alone [c] cs := by
  unfold orEquals
  split
  · have := h '=' rfl
    simp at this
  · rfl

end Lexeme

theorem noQuote {body : List Char} (h : '"' ∉ body) : ∀ c ∈ body, (c != '"') = true := by
  intro c hc
  refine bne_iff_ne.2 ?_
  rintro rfl
  exact h hc

theorem Spelled.read {kind : TokenKind} {literal written rest : List Char}
    (h : Spelled kind literal written rest) :
    ∃ c cs, written ++ rest = c :: cs ∧ isBlank c = false ∧
      Lexeme.read c cs = ⟨kind, written, literal, rest⟩ := by
  cases h with
  | word hne hw hrest =>
    obtain ⟨c, w, rfl⟩ := List.exists_cons_of_ne_nil hne
    have hc := hw c List.mem_cons_self
    refine ⟨c, w ++ rest, rfl, isBlank_eq_false_of_isWordChar hc, ?_⟩
    rw [Lexeme.read, if_pos hc, Lexeme.word, ← List.cons_append,
      takeWhile_append_of_stopsBefore hw hrest, dropWhile_append_of_stopsBefore hw hrest]
    rfl
  | integer hne hw hrest =>
    obtain ⟨c, w, rfl⟩ := List.exists_cons_of_ne_nil hne
    have hc := hw c List.mem_cons_self
    have hword := isWordChar_eq_false_of_isDigit hc
    refine ⟨c, w ++ rest, rfl, isBlank_eq_false_of_isDigit hc, ?_⟩
    rw [Lexeme.read, if_neg (by simp [hword]), if_pos hc, Lexeme.digits, ← List.cons_append,
      takeWhile_append_of_stopsBefore hw hrest, dropWhile_append_of_stopsBefore hw hrest]
    rfl
  | string hbody =>
    have hstop : StopsBefore (· != '"') ('"' :: rest) := by simp [StopsBefore]
    refine ⟨'"', literal ++ '"' :: rest, by simp, by decide, ?_⟩
    rw [Lexeme.read, if_neg (by decide), if_neg (by decide), if_pos rfl, Lexeme.quoted,
      takeWhile_append_of_stopsBefore (noQuote hbody) hstop,
      dropWhile_append_of_stopsBefore (noQuote hbody) hstop]
  | unterminated hbody =>
    have hstop : StopsBefore (· != '"') [] := by simp [StopsBefore]
    refine ⟨'"', literal ++ [], rfl, by decide, ?_⟩
    rw [Lexeme.read, if_neg (by decide), if_neg (by decide), if_pos rfl, Lexeme.quoted,
      takeWhile_append_of_stopsBefore (noQuote hbody) hstop,
      dropWhile_append_of_stopsBefore (noQuote hbody) hstop]
  | assign hrest => exact ⟨_, _, rfl, by decide, Lexeme.orEquals_of_stopsBefore hrest⟩
  | equalEqual => exact ⟨_, _, rfl, by decide, rfl⟩
  | bang hrest => exact ⟨_, _, rfl, by decide, Lexeme.orEquals_of_stopsBefore hrest⟩
  | bangEqual => exact ⟨_, _, rfl, by decide, rfl⟩
  | symbol hc =>
    obtain ⟨hblank, hword, hdigit, hquote, hequals, hbang⟩ := class_of_ofSymbol? hc
    refine ⟨_, _, rfl, hblank, ?_⟩
    simp [Lexeme.read, hword, hdigit, hquote, hequals, hbang, hc, Lexeme.plain]
  | illegal hblank hword hdigit hmark hsymbol =>
    obtain ⟨hquote, hequals, hbang⟩ := hmark
    refine ⟨_, _, rfl, hblank, ?_⟩
    simp [Lexeme.read, hword, hdigit, hquote, hequals, hbang, hsymbol, Lexeme.plain]

/-! ## Cutting a text -/

/-- The text, which starts at byte `offset`, consists of the tokens and of blanks around them. -/
inductive Cut : Nat → List Token → List Char → Prop where
  | done {offset : Nat} {gap : List Char} (hgap : ∀ c ∈ gap, isBlank c = true) : Cut offset [] gap
  | next {offset : Nat} {t : Token} {ts : List Token} {gap written rest : List Char}
      (hgap : ∀ c ∈ gap, isBlank c = true)
      (hs : Spelled t.kind t.literal.toList written rest)
      (hspan : t.span = Span.ofNat (offset + Text.byteLength gap) (Text.byteLength written))
      (hrest : Cut (offset + Text.byteLength gap + Text.byteLength written) ts rest) :
      Cut offset (t :: ts) (gap ++ (written ++ rest))

theorem Cut.cons_blank {offset : Nat} {ts : List Token} {c : Char} {cs : List Char}
    (hc : isBlank c = true) (h : Cut (offset + c.utf8Size) ts cs) : Cut offset ts (c :: cs) := by
  have hcons {gap : List Char} (hgap : ∀ d ∈ gap, isBlank d = true) :
      ∀ d ∈ c :: gap, isBlank d = true := List.forall_mem_cons.2 ⟨hc, hgap⟩
  cases h with
  | done hgap => exact .done (hcons hgap)
  | next hgap hs hspan hrest =>
    rw [Nat.add_assoc offset, ← Text.byteLength_cons] at hspan hrest
    exact .next (hcons hgap) hs hspan hrest

/-- Blanks in front of a text only move it. -/
theorem readAll_gap {gap : List Char} (hgap : ∀ c ∈ gap, isBlank c = true) (offset : Nat)
    (cs : List Char) :
    Token.readAll offset (gap ++ cs) = Token.readAll (offset + Text.byteLength gap) cs := by
  induction gap generalizing offset with
  | nil => simp
  | cons c gap ih =>
    obtain ⟨hc, hgap⟩ := List.forall_mem_cons.1 hgap
    rw [List.cons_append, Token.readAll, if_pos hc, ih hgap, Text.byteLength_cons, Nat.add_assoc]

theorem readAll_blanks {gap : List Char} (hgap : ∀ c ∈ gap, isBlank c = true) (offset : Nat) :
    Token.readAll offset gap = [] := by
  have hread := readAll_gap hgap offset []
  rw [List.append_nil] at hread
  rw [hread, Token.readAll]

/-- What is spelled at the front of a text is the first token read from it. -/
theorem Spelled.readAll {kind : TokenKind} {literal written rest : List Char}
    (h : Spelled kind literal written rest) (offset : Nat) :
    Token.readAll offset (written ++ rest) =
      ⟨kind, String.ofList literal, Span.ofNat offset (Text.byteLength written)⟩ ::
        Token.readAll (offset + Text.byteLength written) rest := by
  obtain ⟨c, cs, heq, hblank, hread⟩ := h.read
  rw [heq, Token.readAll, if_neg (by simp [hblank]), hread]
  rfl

theorem Cut.readAll {offset : Nat} {ts : List Token} {cs : List Char} (h : Cut offset ts cs) :
    Token.readAll offset cs = ts := by
  induction h with
  | done hgap => exact readAll_blanks hgap _
  | next hgap hs hspan _ ih =>
    rw [readAll_gap hgap, hs.readAll, ih, String.ofList_toList, ← hspan]

theorem cut_readAll (offset : Nat) (cs : List Char) : Cut offset (Token.readAll offset cs) cs := by
  fun_induction Token.readAll offset cs with
  | case1 offset => exact .done (by simp)
  | case2 offset c cs hc ih => exact ih.cons_blank hc
  | case3 offset c cs hc ih =>
    have hs := Lexeme.spelled_read cs (Bool.eq_false_iff.2 hc)
    have hgap : ∀ d ∈ ([] : List Char), isBlank d = true := by simp
    rw [← Lexeme.written_append_rest c cs]
    refine Cut.next hgap ?_ rfl ih
    simpa [Lexeme.token] using hs

/-- **A text is cut in exactly one way**, and that is how it is read. -/
theorem readAll_eq_iff_cut {offset : Nat} {ts : List Token} {cs : List Char} :
    Token.readAll offset cs = ts ↔ Cut offset ts cs :=
  ⟨fun h => h ▸ cut_readAll offset cs, Cut.readAll⟩

end Sprig
