import Sprig.Proofs.Origins
import Sprig.Proofs.Printing
import Sprig.Proofs.Tiling

/-!
# Trees that are read from text

Whatever the text is, and whatever is wrong with it, the tree that is read from it has nothing in it
that no text could say: its names are words and no keywords, its integers are not negative, its
strings are pieces of the text without quotes, and no block stands alone. The atoms of the tree come
from tokens (`sourced_program`), and tokens are spelled in the text (`Cut.exists_spelled`), so what
is left is what a spelling says of the literal.

Such a tree can be printed (`Program.writable`), since that too depends on the atoms only
(`Expr.writable_eq`).
-/

namespace Sprig

open Text

/-! ## What the spelling says of the literal -/

namespace Spelled

variable {kind : TokenKind} {literal written rest : List Char}

theorem isName_literal (h : Spelled kind literal written rest) (hkind : kind = .ident) :
    isName (String.ofList literal) = true := by
  cases h with
  | word hne hw =>
    refine isName_iff.2 ⟨by simpa using hne, by simpa using hw, ?_⟩
    cases hkeyword : TokenKind.ofKeyword? (String.ofList literal) with
    | none => rfl
    | some kind =>
      -- No keyword is of the kind of names.
      rw [hkeyword, Option.getD_some] at hkind
      unfold TokenKind.ofKeyword? at hkeyword
      split at hkeyword <;> cases hkeyword <;> cases hkind
  | symbol hc =>
    unfold TokenKind.ofSymbol? at hc
    split at hc <;> cases hc <;> cases hkind
  | _ => cases hkind

theorem isNumeral_literal (h : Spelled kind literal written rest) (hkind : kind = .integer) :
    isNumeral (String.ofList literal) = true := by
  cases h with
  | word =>
    unfold TokenKind.ofKeyword? at hkind
    split at hkind <;> cases hkind
  | integer hne hw => exact isNumeral_iff.2 ⟨by simpa using hne, by simpa using hw⟩
  | symbol hc =>
    unfold TokenKind.ofSymbol? at hc
    split at hc <;> cases hc <;> cases hkind
  | _ => cases hkind

/-- The content of a string stands in the text. -/
theorem literal_infix_written (h : Spelled kind literal written rest) (hkind : kind = .string) :
    literal <:+: written := by
  obtain ⟨-, rfl | ⟨rfl, -⟩⟩ := h.string_written hkind
  · exact ⟨['"'], ['"'], rfl⟩
  · exact ⟨['"'], [], by simp⟩

end Spelled

theorem nonneg_of_readInt64? {numeral : String} {n : Int64} (h : isNumeral numeral = true)
    (hread : readInt64? numeral = some n) : 0 ≤ n.toInt := by
  rw [readInt64?_numeral h] at hread
  rw [toInt_of_toInt64? hread]
  exact Int.natCast_nonneg _

/-! ## Well formed atoms -/

/-- The text can say this. -/
def Atom.WellFormed (source : String) : Atom → Prop
  | name text => text.toList ≠ [] ∧ (∀ c ∈ text.toList, isWordChar c = true) ∧
      TokenKind.ofKeyword? text = none
  | integer value => 0 ≤ value.toInt ∧ value.toInt ≤ 9223372036854775807
  | string content => '"' ∉ content.toList ∧ content.toList <:+: source.toList
  | block => False

theorem Atom.From.wellFormed {source : String} {t : Token} {a : Atom}
    (ht : t ∈ (TokenStream.ofSource source).tokens) (h : a.From t) : a.WellFormed source := by
  obtain ⟨before, written, rest, htext, -, hspelled, -⟩ :=
    (cut_readAll 0 source.toList).exists_spelled (show 0 = byteLength [] from rfl) ht
  cases a with
  | name text =>
    obtain ⟨hkind, rfl⟩ := h
    have hname := hspelled.isName_literal hkind
    rw [String.ofList_toList] at hname
    exact isName_iff.1 hname
  | integer value =>
    obtain ⟨hkind, hread⟩ := h
    have hnumeral := hspelled.isNumeral_literal hkind
    rw [String.ofList_toList] at hnumeral
    exact ⟨nonneg_of_readInt64? hnumeral hread, value.toInt_le⟩
  | string content =>
    obtain ⟨hkind, rfl⟩ := h
    have hpiece : written <:+: source.toList := ⟨before, rest, htext.symm⟩
    exact ⟨(hspelled.string_written hkind).1, (hspelled.literal_infix_written hkind).trans hpiece⟩
  | block => exact h

/-! ## Printing depends on the atoms -/

/-- The atom can be printed. -/
def Atom.writable : Atom → Bool
  | name text => isName text
  | integer value => decide (0 ≤ value)
  | string content => !content.toList.contains '"'
  | block => false

theorem Atom.WellFormed.writable {source : String} {a : Atom} (h : a.WellFormed source) :
    a.writable = true := by
  cases a with
  | name text => exact isName_iff.2 h
  | integer value =>
    have hle : 0 ≤ value := Int64.le_iff_toInt_le.2 h.1
    simpa [Atom.writable] using hle
  | string content => simpa [Atom.writable] using h.1
  | block => exact h.elim

mutual

theorem Expr.writable_eq : ∀ e : Expr, e.writable = e.atoms.all Atom.writable
  | .ident _ | .int _ | .str _ => by simp [Expr.writable, Atom.writable]
  | .bool _ => rfl
  | .unary _ operand => operand.writable_eq
  | .binary _ lhs rhs => by
    rw [Expr.writable, lhs.writable_eq, rhs.writable_eq, Expr.atoms, List.all_append]
  | .cond test consequence alternative => by
    rw [Expr.writable, test.writable_eq, Block.writable_eq consequence,
      Block.elseWritable_eq alternative, Expr.atoms, List.all_append, List.all_append,
      Bool.and_assoc]
  | .fn params body => by
    rw [Expr.writable, Block.writable_eq body, Expr.atoms, List.all_append, List.all_map]
    rfl
  | .call callee args => by
    rw [Expr.writable, callee.writable_eq, Expr.allWritable_eq args, Expr.atoms, List.all_append]

theorem Expr.allWritable_eq : ∀ es : List Expr,
    Expr.allWritable es = (Expr.allAtoms es).all Atom.writable
  | [] => rfl
  | e :: es => by
    rw [Expr.allWritable, e.writable_eq, Expr.allWritable_eq es, Expr.allAtoms, List.all_append]

theorem Stmt.writable_eq : ∀ s : Stmt, s.writable = s.atoms.all Atom.writable
  | .bind _ value => by rw [Stmt.writable, value.writable_eq, Stmt.atoms, List.all_cons]; rfl
  | .ret value | .expr value => value.writable_eq
  | .block _ => rfl

theorem Block.writable_eq : ∀ ss : List Stmt, Block.writable ss = (Block.atoms ss).all Atom.writable
  | [] => rfl
  | s :: ss => by
    rw [Block.writable, s.writable_eq, Block.writable_eq ss, Block.atoms, List.all_append]

theorem Block.elseWritable_eq : ∀ alternative : Option (List Stmt),
    Block.elseWritable alternative = (Block.elseAtoms alternative).all Atom.writable
  | none => rfl
  | some body => Block.writable_eq body

end

/-- **Every tree that is read from text is well formed**, at every depth and whether the text has
errors or not. It can be printed, too. -/
theorem parsed_wellFormed (source : String) :
    (∀ a ∈ (Parsed.ofSource source).program.atoms, a.WellFormed source) ∧
      (Parsed.ofSource source).program.writable = true := by
  have hwell : ∀ a ∈ (Parsed.ofSource source).program.atoms, a.WellFormed source := by
    intro a ha
    obtain ⟨t, ht, hfrom⟩ := sourced_program _ a ha
    exact hfrom.wellFormed ht
  refine ⟨hwell, ?_⟩
  rw [Program.writable, Block.writable_eq]
  exact List.all_eq_true.2 fun a ha => (hwell a ha).writable

/-- A statement is left out, and the tree of the others is as it should be. -/
theorem parsed_wellFormed_partial :
    (Parsed.ofSource "let x = \"a\"; let 5; fn(y) \x7b 7 \x7d").errors ≠ [] ∧
      (Parsed.ofSource "let x = \"a\"; let 5; fn(y) \x7b 7 \x7d").program.atoms =
        [.name "x", .string "a", .integer 5, .name "y", .integer 7] ∧
      (Atom.string "a").WellFormed "let x = \"a\"; let 5; fn(y) \x7b 7 \x7d" := by
  have hatoms : (Parsed.ofSource "let x = \"a\"; let 5; fn(y) \x7b 7 \x7d").program.atoms =
      [.name "x", .string "a", .integer 5, .name "y", .integer 7] := by decide +kernel
  refine ⟨by decide +kernel, hatoms, (parsed_wellFormed _).1 _ ?_⟩
  rw [hatoms]
  decide

end Sprig
