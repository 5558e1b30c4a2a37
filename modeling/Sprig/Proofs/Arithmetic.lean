import Mathlib.Data.Int.ModEq
import Sprig.Proofs.CanonicalText
import Sprig.Proofs.Comparison
import Sprig.Session

/-!
# Integer arithmetic

An expression of integer literals, minus and the four operations has a value that can be told
without the language: after each operation the number is brought into the range of 64 bits by adding
or taking away a multiple of 2 ^ 64. The language computes this value from the canonical text of the
expression. The only thing that can go wrong on the way is a division by a number that has come to
zero, and then it does go wrong, whichever division it is. Without divisions it makes no difference
when numbers are brought into the range, and the value is the mathematical one up to a multiple of
2 ^ 64.
-/

namespace Sprig

/-- The operations on integers. -/
inductive ArithmeticOp where
  | add
  | subtract
  | multiply
  | divide
deriving DecidableEq

namespace ArithmeticOp

/-- The operation on all integers. A quotient loses its fraction. -/
def apply : ArithmeticOp → Int → Int → Int
  | add, m, n => m + n
  | subtract, m, n => m - n
  | multiply, m, n => m * n
  | divide, m, n => m.tdiv n

/-- The operator that writes it. -/
def toBinaryOp : ArithmeticOp → BinaryOp
  | add => .add
  | subtract => .subtract
  | multiply => .multiply
  | divide => .divide

end ArithmeticOp

/-- An expression of integers. Its literals are not negative and have 64 bits. -/
inductive Arithmetic where
  | literal (n : Nat) (h : (n : Int) ≤ Int64.maxValue.toInt)
  | negate (a : Arithmetic)
  | binary (op : ArithmeticOp) (a b : Arithmetic)

/-- The number of 64 bits, between the least and the greatest, that differs from the given one by a
multiple of 2 ^ 64. -/
def wrap (n : Int) : Int :=
  n.bmod Int64.size

namespace Arithmetic

/-- The value in 64 bits: every result is brought into the range. -/
def value : Arithmetic → Int
  | literal n _ => n
  | negate a => wrap (-a.value)
  | binary op a b => wrap (op.apply a.value b.value)

/-- The mathematical value. -/
def exact : Arithmetic → Int
  | literal n _ => n
  | negate a => -a.exact
  | binary op a b => op.apply a.exact b.exact

/-- The divisors of all divisions. -/
def divisors : Arithmetic → List Arithmetic
  | literal _ _ => []
  | negate a => a.divisors
  | binary op a b => (if op = .divide then [b] else []) ++ (a.divisors ++ b.divisors)

/-- The tree of the expression. -/
def toExpr : Arithmetic → Expr
  | literal n _ => .int (Int64.ofInt n)
  | negate a => .unary .negate a.toExpr
  | binary op a b => .binary op.toBinaryOp a.toExpr b.toExpr

/-! ## Values -/

/-- The value as the language has it. -/
def word (t : Arithmetic) : Int64 :=
  Int64.ofInt t.value

theorem toInt_word (t : Arithmetic) : t.word.toInt = t.value := by
  cases t with
  | literal n h =>
    have hleast : Int64.minValue.toInt ≤ n := Int.le_trans (by decide) (Int.natCast_nonneg n)
    exact Text.toInt_of_toInt64? (if_pos ⟨hleast, h⟩)
  | negate a => rw [word, Int64.toInt_ofInt, value, wrap, Int.bmod_bmod]
  | binary op a b => rw [word, Int64.toInt_ofInt, value, wrap, Int.bmod_bmod]

theorem word_negate (a : Arithmetic) : (negate a).word = -a.word := by
  rw [← Int64.toInt_inj, toInt_word, Int64.toInt_neg, toInt_word]
  rfl

/-- The operators compute as the operations do. A divisor must not be zero. -/
theorem integerBinary_word (op : ArithmeticOp) (a b : Arithmetic)
    (h : op = .divide → b.value ≠ 0) :
    Value.integerBinary op.toBinaryOp a.word b.word = .ok (.int (binary op a b).word) := by
  have hword {w : Int64} (hw : w.toInt = wrap (op.apply a.word.toInt b.word.toInt)) :
      (binary op a b).word = w := by
    rw [← Int64.toInt_inj, toInt_word, hw, toInt_word, toInt_word]
    rfl
  cases op with
  | add => rw [hword (Int64.toInt_add _ _)]; rfl
  | subtract => rw [hword (Int64.toInt_sub _ _)]; rfl
  | multiply => rw [hword (Int64.toInt_mul _ _)]; rfl
  | divide =>
    have hb : b.word ≠ 0 := by
      intro hzero
      have hvalue := toInt_word b
      rw [hzero] at hvalue
      exact h rfl hvalue.symm
    rw [hword (Int64.toInt_div _ _)]
    exact if_neg hb

theorem integerBinary_word_zero (a : Arithmetic) {b : Arithmetic} (h : b.value = 0) :
    Value.integerBinary .divide a.word b.word = .error .divisionByZero := by
  have hb : b.word = 0 := by
    rw [← Int64.toInt_inj, toInt_word, h]
    rfl
  exact if_pos hb

/-! ## Evaluation -/

/-- No divisor comes to zero. -/
def Defined (t : Arithmetic) : Prop :=
  ∀ d ∈ t.divisors, d.value ≠ 0

theorem defined_binary {op : ArithmeticOp} {a b : Arithmetic} :
    (binary op a b).Defined ↔ (op = .divide → b.value ≠ 0) ∧ a.Defined ∧ b.Defined := by
  unfold Defined
  rw [divisors, List.forall_mem_append, List.forall_mem_append]
  by_cases hop : op = .divide
  · simp [hop]
  · simp [hop]

section Evaluation

variable (call : Closure → List Value → Eval Value) (scope : ScopeId) (st : State)

theorem eval_of_defined (t : Arithmetic) (h : t.Defined) :
    t.toExpr.eval call scope st = .ok (.int t.word) st := by
  induction t with
  | literal n _ => rfl
  | negate a ih =>
    rw [toExpr, Expr.eval, Eval.bind_of_ok (ih h), word_negate]
    rfl
  | binary op a b iha ihb =>
    obtain ⟨hdivisor, ha, hb⟩ := defined_binary.1 h
    rw [toExpr, Expr.eval, Eval.bind_of_ok (iha ha), Eval.bind_of_ok (ihb hb)]
    show Eval.ofExcept (Value.integerBinary op.toBinaryOp a.word b.word) st = _
    rw [integerBinary_word op a b hdivisor]
    rfl

/-- A division by zero stops the evaluation, wherever it is. -/
theorem eval_of_not_defined (t : Arithmetic) (h : ¬ t.Defined) :
    t.toExpr.eval call scope st = .error (.fault .divisionByZero) st := by
  induction t with
  | literal n _ => exact absurd (List.forall_mem_nil _) h
  | negate a ih => rw [toExpr, Expr.eval, Eval.bind_of_error (ih h)]
  | binary op a b iha ihb =>
    rw [toExpr, Expr.eval]
    by_cases ha : a.Defined
    · rw [Eval.bind_of_ok (a.eval_of_defined call scope st ha)]
      by_cases hb : b.Defined
      · rw [Eval.bind_of_ok (b.eval_of_defined call scope st hb)]
        -- both operands have values, so it is this operation that fails
        have hdivisor : ¬ (op = .divide → b.value ≠ 0) := fun hne =>
          h (defined_binary.2 ⟨hne, ha, hb⟩)
        obtain ⟨rfl, hzero⟩ := Classical.not_imp.1 hdivisor
        show Eval.ofExcept (Value.integerBinary .divide a.word b.word) st = _
        rw [integerBinary_word_zero a (Classical.not_not.1 hzero)]
        rfl
      · rw [Eval.bind_of_error (ihb hb)]
    · rw [Eval.bind_of_error (iha ha)]

end Evaluation

/-! ## Texts -/

theorem plain_toExpr (t : Arithmetic) : t.toExpr.plain = true := by
  induction t with
  | literal n h =>
    have hword : (literal n h).word.toInt = n := toInt_word _
    refine decide_eq_true (Int64.le_iff_toInt_le.2 ?_)
    exact Int.le_trans (Int.natCast_nonneg n) (Int.le_of_eq hword.symm)
  | negate a ih => exact ih
  | binary op a b iha ihb => exact Bool.and_eq_true_iff.2 ⟨iha, ihb⟩

/-- The canonical text is read as the expression. -/
theorem parsed_canonical_toExpr (t : Arithmetic) :
    (Parsed.ofSource t.toExpr.canonical).errors = [] ∧
      (Parsed.ofSource t.toExpr.canonical).program = ⟨[.expr t.toExpr]⟩ := by
  have hplain : Block.plain [.expr t.toExpr] = true := t.plain_toExpr
  have htext : Block.canonical [.expr t.toExpr] = t.toExpr.canonical := by
    simp [Block.canonical, Stmt.canonical]
  have hlayout := Block.layout_canonical _ hplain
  rw [htext] at hlayout
  exact hlayout.parsed (Block.wellFormed_fullTerminals _ hplain)
    fun ts hts => Block.statements_fullTerminals _ hplain hts

/-! ## Congruence -/

theorem wrap_modEq (n : Int) : wrap n ≡ n [ZMOD Int64.size] :=
  Int.bmod_emod

/-- Sums, differences and products of congruent numbers are congruent, so it makes no difference
when they are wrapped. -/
theorem value_modEq_exact (t : Arithmetic) (h : t.divisors = []) :
    t.value ≡ t.exact [ZMOD Int64.size] := by
  induction t with
  | literal n _ => exact Int.ModEq.refl _
  | negate a ih => exact (wrap_modEq _).trans (ih h).neg
  | binary op a b iha ihb =>
    obtain ⟨hop, hab⟩ := List.append_eq_nil_iff.1 h
    obtain ⟨ha, hb⟩ := List.append_eq_nil_iff.1 hab
    refine (wrap_modEq _).trans ?_
    cases op with
    | add => exact (iha ha).add (ihb hb)
    | subtract => exact (iha ha).sub (ihb hb)
    | multiply => exact (iha ha).mul (ihb hb)
    | divide => cases hop

end Arithmetic

/-! ## Runs -/

namespace Program

variable {limit : Nat} {scope : ScopeId} {e : Expr} {st st' : State}

theorem evaluate_expr_of_ok {v : Value}
    (h : e.eval (Closure.invoke limit (limit - st.depth)) scope st = .ok v st') :
    evaluate limit scope ⟨[.expr e]⟩ st = (some v, st') := by
  have hexec : Stmt.execAll (Closure.invoke limit (limit - st.depth)) scope none [.expr e] st =
      .ok (some v) st' :=
    Eval.bind_of_ok (Eval.bind_of_ok h)
  rw [evaluate, run, hexec]

theorem evaluate_expr_of_fault {f : Fault}
    (h : e.eval (Closure.invoke limit (limit - st.depth)) scope st = .error (.fault f) st') :
    evaluate limit scope ⟨[.expr e]⟩ st = (some (.error f), st') := by
  have hexec : Stmt.execAll (Closure.invoke limit (limit - st.depth)) scope none [.expr e] st =
      .error (.fault f) st' :=
    Eval.bind_of_error (Eval.bind_of_error h)
  rw [evaluate, run, hexec]

end Program

/-- **Integers are computed in 64 bits, from the text to the value.** Running the canonical text of
an expression of integers, in any state, gives its value if no divisor comes to zero, and the fault
`division by zero` if one does, and changes nothing. If there are no divisions, then the value is
congruent to the mathematical one modulo 2 ^ 64. -/
theorem arithmetic_computed (t : Arithmetic) (limit : Nat) (scope : ScopeId) (st : State) :
    ((∀ d ∈ t.divisors, d.value ≠ 0) → ∃ v : Int64, v.toInt = t.value ∧
      runSource limit scope t.toExpr.canonical st = (.finished (some (.int v)), st)) ∧
    ((∃ d ∈ t.divisors, d.value = 0) →
      runSource limit scope t.toExpr.canonical st =
        (.finished (some (.error .divisionByZero)), st)) ∧
    Fault.divisionByZero.message = "division by zero" ∧
    (t.divisors = [] → t.value ≡ t.exact [ZMOD Int64.size]) := by
  obtain ⟨herrors, hprogram⟩ := t.parsed_canonical_toExpr
  rw [runSource_of_no_errors herrors, hprogram]
  refine ⟨fun hdefined => ?_, fun hzero => ?_, rfl, t.value_modEq_exact⟩
  · have heval := t.eval_of_defined (Closure.invoke limit (limit - st.depth)) scope st hdefined
    rw [Program.evaluate_expr_of_ok heval]
    exact ⟨t.word, t.toInt_word, rfl⟩
  · have hundefined : ¬ t.Defined := by
      obtain ⟨d, hd, hvalue⟩ := hzero
      exact fun hdefined => hdefined d hd hvalue
    have heval := t.eval_of_not_defined (Closure.invoke limit (limit - st.depth)) scope st
      hundefined
    rw [Program.evaluate_expr_of_fault heval]

namespace Arithmetic

/-- The least integer, divided by -1. -/
def leastNegated : Arithmetic :=
  .binary .divide
    (.binary .subtract (.negate (.literal 9223372036854775807 (by decide))) (.literal 1 (by decide)))
    (.negate (.literal 1 (by decide)))

/-- A divisor that is 2 ^ 64 before it is wrapped. -/
def hiddenZero : Arithmetic :=
  .binary .divide (.literal 1 (by decide))
    (.binary .add (.binary .multiply (.literal 9223372036854775807 (by decide))
      (.literal 2 (by decide))) (.literal 2 (by decide)))

end Arithmetic

/-- The least integer divided by -1 is the least integer, and 2 ^ 64 as a divisor is zero. -/
theorem arithmetic_computed_extremes :
    let st := (Session.start 0).state
    runSource 0 0 "(((-9223372036854775807) - 1) / (-1))" st =
        (.finished (some (.int Int64.minValue)), st) ∧
      runSource 0 0 "(1 / ((9223372036854775807 * 2) + 2))" st =
        (.finished (some (.error .divisionByZero)), st) := by
  intro st
  have hleast : Arithmetic.leastNegated.toExpr.canonical =
      "(((-9223372036854775807) - 1) / (-1))" := by decide +kernel
  have hhidden : Arithmetic.hiddenZero.toExpr.canonical =
      "(1 / ((9223372036854775807 * 2) + 2))" := by decide +kernel
  obtain ⟨hvalue, -⟩ := arithmetic_computed .leastNegated 0 0 st
  obtain ⟨-, hfault, -⟩ := arithmetic_computed .hiddenZero 0 0 st
  rw [hleast] at hvalue
  rw [hhidden] at hfault
  obtain ⟨v, hv, hrun⟩ := hvalue (by decide)
  have hmin : v = Int64.minValue := Int64.toInt_inj.1 (hv.trans (by decide))
  rw [hmin] at hrun
  exact ⟨hrun, hfault (by decide)⟩

end Sprig
