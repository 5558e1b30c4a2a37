import Sprig.Proofs.Acceptance
import Sprig.Proofs.Layout

/-!
# Printing programs

A program as a list of terminals: strings in quotes, braces around every block and a semicolon after
every statement. Where parentheses are put around an expression is a parameter, a `Wrapping`: it is
asked for the expression and for the rung of the ladder that its place calls for. Printing is right
for every wrapping that puts parentheses at least where the grammar needs them (`Wrapping.Sound`):
the tokens so written derive the program (`derives_terminals`). Putting them nowhere else is the
least of these wrappings (`Wrapping.minimal`).
-/

namespace Sprig

open Grammar

/-! ## What can be printed -/

mutual

/-- Names are words that are no keywords, integers are not negative, strings have no quote inside
and no block stands alone. -/
def Expr.writable : Expr → Bool
  | .ident name => isName name
  | .int value => decide (0 ≤ value)
  | .str content => !content.toList.contains '"'
  | .bool _ => true
  | .unary _ operand => operand.writable
  | .binary _ lhs rhs => lhs.writable && rhs.writable
  | .cond test consequence alternative =>
    test.writable && Block.writable consequence && Block.elseWritable alternative
  | .fn params body => params.all isName && Block.writable body
  | .call callee args => callee.writable && Expr.allWritable args

/-- The same of a list of expressions. -/
def Expr.allWritable : List Expr → Bool
  | [] => true
  | e :: es => e.writable && Expr.allWritable es

/-- The same of a statement. -/
def Stmt.writable : Stmt → Bool
  | .bind name value => isName name && value.writable
  | .ret value | .expr value => value.writable
  | .block _ => false

/-- The same of a block. -/
def Block.writable : List Stmt → Bool
  | [] => true
  | s :: ss => s.writable && Block.writable ss

/-- The same of the `else` part of a conditional. -/
def Block.elseWritable : Option (List Stmt) → Bool
  | none => true
  | some body => Block.writable body

end

/-- The same of a program. -/
def Program.writable (p : Program) : Bool :=
  Block.writable p.statements

/-! ## The printer -/

/-- The token kind that writes the operator. -/
def UnaryOp.kind : UnaryOp → TokenKind
  | not => .bang
  | negate => .minus

/-- The token kind that writes the operator. -/
def BinaryOp.kind : BinaryOp → TokenKind
  | add => .plus
  | subtract => .minus
  | multiply => .star
  | divide => .slash
  | lessThan => .lessThan
  | greaterThan => .greaterThan
  | equal => .equalEqual
  | notEqual => .bangEqual

/-- The rung of the ladder on which the expression stands without parentheses around it. -/
def Expr.rung : Expr → Rung
  | .unary _ _ => .unary
  | .binary op _ _ => .ofOperator op
  | .call _ _ => .call
  | _ => .primary

/-- Whether an expression gets parentheses in a place for expressions of a rung. -/
def Wrapping : Type :=
  Rung → Expr → Bool

/-- The terminals in parentheses. -/
def parenthesized (ws : List Terminal) : List Terminal :=
  .fixed .leftParen :: (ws ++ [.fixed .rightParen])

/-- The terminals in braces. -/
def braced (ws : List Terminal) : List Terminal :=
  .fixed .leftBrace :: (ws ++ [.fixed .rightBrace])

/-- The terminals, in parentheses if so told. -/
def enclose (wrapped : Bool) (ws : List Terminal) : List Terminal :=
  if wrapped then parenthesized ws else ws

/-- Names with commas between them. -/
def nameTerminals : List String → List Terminal
  | [] => []
  | [name] => [⟨.ident, name⟩]
  | name :: names => ⟨.ident, name⟩ :: .fixed .comma :: nameTerminals names

mutual

/-- An expression, without parentheses around it. -/
def Expr.terminals (wraps : Wrapping) : Expr → List Terminal
  | .ident name => [⟨.ident, name⟩]
  | .int value => [⟨.integer, Text.showInt64 value⟩]
  | .str content => [⟨.string, content⟩]
  | .bool true => [.fixed .kwTrue]
  | .bool false => [.fixed .kwFalse]
  | .unary op operand =>
    .fixed op.kind :: enclose (wraps .unary operand) (operand.terminals wraps)
  | .binary op lhs rhs =>
    enclose (wraps (.ofOperator op) lhs) (lhs.terminals wraps) ++
      .fixed op.kind :: enclose (wraps (Rung.ofOperator op).tighter rhs) (rhs.terminals wraps)
  | .cond test consequence alternative =>
    .fixed .kwIf :: (parenthesized (enclose (wraps .equality test) (test.terminals wraps)) ++
      (braced (Block.terminals wraps consequence) ++ Block.elseTerminals wraps alternative))
  | .fn params body =>
    .fixed .kwFn :: (parenthesized (nameTerminals params) ++ braced (Block.terminals wraps body))
  | .call callee args =>
    enclose (wraps .call callee) (callee.terminals wraps) ++
      parenthesized (Expr.allTerminals wraps args)

/-- Expressions with commas between them. -/
def Expr.allTerminals (wraps : Wrapping) : List Expr → List Terminal
  | [] => []
  | [e] => enclose (wraps .equality e) (e.terminals wraps)
  | e :: es =>
    enclose (wraps .equality e) (e.terminals wraps) ++
      .fixed .comma :: Expr.allTerminals wraps es

/-- A statement and its semicolon. -/
def Stmt.terminals (wraps : Wrapping) : Stmt → List Terminal
  | .bind name value =>
    .fixed .kwLet :: ⟨.ident, name⟩ :: .fixed .assign ::
      (enclose (wraps .equality value) (value.terminals wraps) ++ [.fixed .semicolon])
  | .ret value =>
    .fixed .kwReturn ::
      (enclose (wraps .equality value) (value.terminals wraps) ++ [.fixed .semicolon])
  | .expr value => enclose (wraps .equality value) (value.terminals wraps) ++ [.fixed .semicolon]
  | .block body => braced (Block.terminals wraps body) ++ [.fixed .semicolon]

/-- The statements of a block, one after the other. -/
def Block.terminals (wraps : Wrapping) : List Stmt → List Terminal
  | [] => []
  | s :: ss => s.terminals wraps ++ Block.terminals wraps ss

/-- The `else` part of a conditional. -/
def Block.elseTerminals (wraps : Wrapping) : Option (List Stmt) → List Terminal
  | none => []
  | some body => .fixed .kwElse :: braced (Block.terminals wraps body)

end

/-- A whole program. -/
def Program.terminals (wraps : Wrapping) (p : Program) : List Terminal :=
  Block.terminals wraps p.statements

namespace Wrapping

/-- Parentheses are put at least where the expression is too loose for its place. -/
def Sound (wraps : Wrapping) : Prop :=
  ∀ q e, wraps q e = false → q.rank ≤ e.rung.rank

/-- Parentheses are put only where the expression is too loose for its place: around a binary
operand of a unary operator, a unary or binary callee, a left operand with an operator that binds
less tightly and a right operand with one that does not bind more tightly. -/
def minimal : Wrapping := fun q e =>
  decide (e.rung.rank < q.rank)

theorem sound_minimal : minimal.Sound := by
  intro q e h
  simpa [minimal] using h

theorem rank_ofOperator (op : BinaryOp) : (Rung.ofOperator op).rank = op.precedence.rank ∧
    (Rung.ofOperator op).tighter.rank = op.precedence.rank + 1 := by
  cases op <;> decide

/-- Around the operands of operators, only binary expressions get parentheses: in a place of rung
`q` those whose operator binds less tightly than `q`. -/
theorem minimal_iff {q : Rung} {e : Expr} (hq : q.rank ≤ Rung.unary.rank) : minimal q e = true ↔
    ∃ op lhs rhs, e = .binary op lhs rhs ∧ op.precedence.rank < q.rank := by
  have hmin : minimal q e = true ↔ e.rung.rank < q.rank := decide_eq_true_iff
  rw [hmin]
  constructor
  · intro hlt
    cases e with
    | binary op lhs rhs =>
      rw [Expr.rung, (rank_ofOperator op).1] at hlt
      exact ⟨op, lhs, rhs, rfl, hlt⟩
    | _ =>
      have hlt := Nat.lt_of_lt_of_le hlt hq
      simp [Expr.rung, Rung.rank] at hlt
  · rintro ⟨op, lhs, rhs, rfl, hlt⟩
    rw [Expr.rung, (rank_ofOperator op).1]
    exact hlt

/-- The place of each operand and what gets parentheses there: an operand of a unary operator if it
is binary, a left operand of `op` if its operator binds less tightly, a right operand of `op` unless
its operator binds more tightly; and a callee if it is an application of an operator. -/
theorem minimal_places (op : BinaryOp) (e : Expr) :
    (minimal .unary e = true ↔ ∃ op' lhs rhs, e = .binary op' lhs rhs) ∧
    (minimal (.ofOperator op) e = true ↔
      ∃ op' lhs rhs, e = .binary op' lhs rhs ∧ op'.precedence < op.precedence) ∧
    (minimal (Rung.ofOperator op).tighter e = true ↔
      ∃ op' lhs rhs, e = .binary op' lhs rhs ∧ ¬ op.precedence < op'.precedence) ∧
    (minimal .call e = true ↔
      (∃ op' operand, e = .unary op' operand) ∨ ∃ op' lhs rhs, e = .binary op' lhs rhs) := by
  obtain ⟨hrank, htighter⟩ := rank_ofOperator op
  have hle : op.precedence.rank + 1 ≤ Rung.unary.rank := by cases op <;> decide
  refine ⟨?_, ?_, ?_, ?_⟩
  · rw [minimal_iff (Nat.le_refl _)]
    refine exists_congr fun op' => exists_congr fun lhs => exists_congr fun rhs => ?_
    refine and_iff_left_of_imp fun _ => ?_
    cases op' <;> decide
  · rw [minimal_iff (by omega), hrank]
    rfl
  · rw [minimal_iff (by omega), htighter]
    simp only [Nat.lt_succ_iff, Precedence.lt_iff_rank_lt, Nat.not_lt]
  · cases e with
    | unary op' operand => exact iff_of_true rfl (.inl ⟨op', operand, rfl⟩)
    | binary op' lhs rhs =>
      refine iff_of_true ?_ (.inr ⟨op', lhs, rhs, rfl⟩)
      cases op' <;> rfl
    | _ => exact iff_of_false Bool.false_ne_true (by simp)

end Wrapping

/-! ## Integers -/

section Integers

open Text

theorem digitsValue_eq (ds : List Char) : digitsValue ds = Nat.ofDigitChars 10 ds 0 := by
  rw [Nat.ofDigitChars_eq_foldl]
  rfl

theorem toInt64?_toInt (n : Int64) : toInt64? n.toInt = some n := by
  rw [toInt64?, if_pos ⟨n.minValue_le_toInt, n.toInt_le⟩, Int64.ofInt_toInt]

/-- A 64-bit integer that is not negative is shown by the digits of a natural number. -/
theorem toList_showInt64 {n : Int64} (h : 0 ≤ n) :
    (showInt64 n).toList = Nat.toDigits 10 n.toInt.toNat ∧ (n.toInt.toNat : Int) = n.toInt := by
  have hn : 0 ≤ n.toInt := by simpa [Int64.le_iff_toInt_le] using h
  have hcast := Int.toNat_of_nonneg hn
  refine ⟨?_, hcast⟩
  rw [showInt64, ← hcast]
  exact Nat.toList_repr

theorem isNumeral_showInt64 {n : Int64} (h : 0 ≤ n) : isNumeral (showInt64 n) = true := by
  rw [isNumeral_iff, (toList_showInt64 h).1]
  exact ⟨Nat.toDigits_ne_nil, fun c hc => Nat.isDigit_of_mem_toDigits (by decide) (by decide) hc⟩

theorem readInt64?_numeral {s : String} (h : isNumeral s = true) :
    readInt64? s = toInt64? (digitsValue s.toList) := by
  obtain ⟨hne, hdigits⟩ := isNumeral_iff.1 h
  have hread : readDigits? s.toList = some (digitsValue s.toList) := by
    simpa [readDigits?, hne] using hdigits
  unfold readInt64?
  split
  · next ds heq =>
    have := hdigits '-' (by simp [heq])
    simp at this
  · next ds heq =>
    have := hdigits '+' (by simp [heq])
    simp at this
  · rw [hread, Option.bind_some]

/-- What is shown of such an integer is read back. -/
theorem readInt64?_showInt64 {n : Int64} (h : 0 ≤ n) : readInt64? (showInt64 n) = some n := by
  obtain ⟨hlist, hcast⟩ := toList_showInt64 h
  rw [readInt64?_numeral (isNumeral_showInt64 h), hlist, digitsValue_eq,
    Nat.ofDigitChars_ten_toDigits, hcast, toInt64?_toInt]

end Integers

/-! ## The printed terminals are well formed -/

theorem Terminal.WellFormed.fixed {kind : TokenKind} (h : kind.text?.isSome = true) :
    (Terminal.fixed kind).WellFormed := by
  cases kind <;> first | rfl | cases h

section WellFormed

variable {ws : List Terminal}

theorem forall_mem_parenthesized :
    (∀ w ∈ parenthesized ws, w.WellFormed) ↔ ∀ w ∈ ws, w.WellFormed := by
  have hopening : (Terminal.fixed .leftParen).WellFormed := .fixed rfl
  have hclosing : (Terminal.fixed .rightParen).WellFormed := .fixed rfl
  rw [parenthesized, List.forall_mem_cons, List.forall_mem_append, List.forall_mem_singleton]
  exact ⟨fun h => h.2.1, fun h => ⟨hopening, h, hclosing⟩⟩

theorem forall_mem_braced :
    (∀ w ∈ braced ws, w.WellFormed) ↔ ∀ w ∈ ws, w.WellFormed := by
  have hopening : (Terminal.fixed .leftBrace).WellFormed := .fixed rfl
  have hclosing : (Terminal.fixed .rightBrace).WellFormed := .fixed rfl
  rw [braced, List.forall_mem_cons, List.forall_mem_append, List.forall_mem_singleton]
  exact ⟨fun h => h.2.1, fun h => ⟨hopening, h, hclosing⟩⟩

theorem forall_mem_enclose {wrapped : Bool} :
    (∀ w ∈ enclose wrapped ws, w.WellFormed) ↔ ∀ w ∈ ws, w.WellFormed := by
  cases wrapped
  · rfl
  · exact forall_mem_parenthesized

end WellFormed

theorem wellFormed_nameTerminals : ∀ names : List String, names.all isName = true →
    ∀ w ∈ nameTerminals names, w.WellFormed
  | [], _ => by simp [nameTerminals]
  | [name], h => by simpa [nameTerminals, Terminal.WellFormed] using h
  | name :: name' :: names, h => by
    rw [List.all_cons, Bool.and_eq_true] at h
    have hcomma : (Terminal.fixed .comma).WellFormed := .fixed rfl
    rw [nameTerminals, List.forall_mem_cons, List.forall_mem_cons]
    · exact ⟨h.1, hcomma, wellFormed_nameTerminals (name' :: names) h.2⟩
    · simp

mutual

theorem Expr.wellFormed_terminals (wraps : Wrapping) : ∀ e : Expr, e.writable = true →
    ∀ w ∈ e.terminals wraps, w.WellFormed
  | .ident name, h => by simpa [Expr.terminals, Terminal.WellFormed, Expr.writable] using h
  | .int value, h => by
    have hvalue : 0 ≤ value := by simpa [Expr.writable] using h
    simpa [Expr.terminals, Terminal.WellFormed] using isNumeral_showInt64 hvalue
  | .str content, h => by simpa [Expr.terminals, Terminal.WellFormed, Expr.writable] using h
  | .bool true, _ | .bool false, _ => by
    rw [Expr.terminals, List.forall_mem_singleton]
    exact .fixed rfl
  | .unary op operand, h => by
    have hop : (Terminal.fixed op.kind).WellFormed := by
      cases op <;> exact .fixed rfl
    rw [Expr.terminals, List.forall_mem_cons, forall_mem_enclose]
    exact ⟨hop, operand.wellFormed_terminals wraps h⟩
  | .binary op lhs rhs, h => by
    rw [Expr.writable, Bool.and_eq_true] at h
    have hop : (Terminal.fixed op.kind).WellFormed := by
      cases op <;> exact .fixed rfl
    rw [Expr.terminals, List.forall_mem_append, List.forall_mem_cons, forall_mem_enclose,
      forall_mem_enclose]
    exact ⟨lhs.wellFormed_terminals wraps h.1, hop, rhs.wellFormed_terminals wraps h.2⟩
  | .cond test consequence alternative, h => by
    rw [Expr.writable, Bool.and_eq_true, Bool.and_eq_true] at h
    rw [Expr.terminals, List.forall_mem_cons, List.forall_mem_append, List.forall_mem_append,
      forall_mem_parenthesized, forall_mem_enclose, forall_mem_braced]
    exact ⟨.fixed rfl, test.wellFormed_terminals wraps h.1.1,
      Block.wellFormed_terminals wraps consequence h.1.2,
      Block.wellFormed_elseTerminals wraps alternative h.2⟩
  | .fn params body, h => by
    rw [Expr.writable, Bool.and_eq_true] at h
    rw [Expr.terminals, List.forall_mem_cons, List.forall_mem_append, forall_mem_parenthesized,
      forall_mem_braced]
    exact ⟨.fixed rfl, wellFormed_nameTerminals params h.1,
      Block.wellFormed_terminals wraps body h.2⟩
  | .call callee args, h => by
    rw [Expr.writable, Bool.and_eq_true] at h
    rw [Expr.terminals, List.forall_mem_append, forall_mem_enclose, forall_mem_parenthesized]
    exact ⟨callee.wellFormed_terminals wraps h.1, Expr.wellFormed_allTerminals wraps args h.2⟩

theorem Expr.wellFormed_allTerminals (wraps : Wrapping) : ∀ es : List Expr,
    Expr.allWritable es = true → ∀ w ∈ Expr.allTerminals wraps es, w.WellFormed
  | [], _ => by simp [Expr.allTerminals]
  | [e], h => by
    rw [Expr.allWritable, Bool.and_eq_true] at h
    rw [Expr.allTerminals, forall_mem_enclose]
    exact e.wellFormed_terminals wraps h.1
  | e :: e' :: es, h => by
    rw [Expr.allWritable, Bool.and_eq_true] at h
    rw [Expr.allTerminals, List.forall_mem_append, List.forall_mem_cons, forall_mem_enclose]
    · exact ⟨e.wellFormed_terminals wraps h.1, .fixed rfl,
        Expr.wellFormed_allTerminals wraps (e' :: es) h.2⟩
    · simp

theorem Stmt.wellFormed_terminals (wraps : Wrapping) : ∀ s : Stmt, s.writable = true →
    ∀ w ∈ s.terminals wraps, w.WellFormed
  | .bind name value, h => by
    rw [Stmt.writable, Bool.and_eq_true] at h
    rw [Stmt.terminals, List.forall_mem_cons, List.forall_mem_cons, List.forall_mem_cons,
      List.forall_mem_append, forall_mem_enclose, List.forall_mem_singleton]
    exact ⟨.fixed rfl, h.1, .fixed rfl, value.wellFormed_terminals wraps h.2,
      .fixed rfl⟩
  | .ret value, h => by
    rw [Stmt.terminals, List.forall_mem_cons, List.forall_mem_append, forall_mem_enclose,
      List.forall_mem_singleton]
    exact ⟨.fixed rfl, value.wellFormed_terminals wraps h, .fixed rfl⟩
  | .expr value, h => by
    rw [Stmt.terminals, List.forall_mem_append, forall_mem_enclose, List.forall_mem_singleton]
    exact ⟨value.wellFormed_terminals wraps h, .fixed rfl⟩

theorem Block.wellFormed_terminals (wraps : Wrapping) : ∀ ss : List Stmt,
    Block.writable ss = true → ∀ w ∈ Block.terminals wraps ss, w.WellFormed
  | [], _ => by simp [Block.terminals]
  | s :: ss, h => by
    rw [Block.writable, Bool.and_eq_true] at h
    rw [Block.terminals, List.forall_mem_append]
    exact ⟨s.wellFormed_terminals wraps h.1, Block.wellFormed_terminals wraps ss h.2⟩

theorem Block.wellFormed_elseTerminals (wraps : Wrapping) : ∀ alternative : Option (List Stmt),
    Block.elseWritable alternative = true →
    ∀ w ∈ Block.elseTerminals wraps alternative, w.WellFormed
  | none, _ => by simp [Block.elseTerminals]
  | some body, h => by
    rw [Block.elseTerminals, List.forall_mem_cons, forall_mem_braced]
    exact ⟨.fixed rfl, Block.wellFormed_terminals wraps body h⟩

end

end Sprig
