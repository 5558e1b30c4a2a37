import Sprig.Proofs.RoundTrip
import Sprig.Tree.Canonical

/-!
# The canonical text is read back

The canonical text of a program is not meant to be read back in general: it drops the quotes of
strings, the braces of blocks and the semicolons of expressions. A program that has none of these,
except for an expression as its last statement, is read back from it (`parsed_canonical`). The text
lays out the terminals that are printed with parentheses around every application of an operator
(`Block.layout_canonical`), and what is printed so derives the program whatever the wrapping.
-/

namespace Sprig

open Grammar

/-! ## What the canonical text keeps -/

mutual

/-- Names, integers that are not negative, truth values, operators and calls. -/
def Expr.plain : Expr → Bool
  | .ident name => isName name
  | .int value => decide (0 ≤ value)
  | .bool _ => true
  | .unary _ operand => operand.plain
  | .binary _ lhs rhs => lhs.plain && rhs.plain
  | .call callee args => callee.plain && Expr.allPlain args
  | _ => false

/-- The same of a list of expressions. -/
def Expr.allPlain : List Expr → Bool
  | [] => true
  | e :: es => e.plain && Expr.allPlain es

end

/-- A binding or a return. -/
def Stmt.plain : Stmt → Bool
  | .bind name value => isName name && value.plain
  | .ret value => value.plain
  | _ => false

/-- Bindings and returns, and then at most one expression. -/
def Block.plain : List Stmt → Bool
  | [] => true
  | [.expr value] => value.plain
  | s :: ss => s.plain && Block.plain ss

/-- The same of a program. -/
def Program.plain (p : Program) : Bool :=
  Block.plain p.statements

mutual

theorem Expr.writable_of_plain : ∀ e : Expr, e.plain = true → e.writable = true
  | .ident _, h | .int _, h => h
  | .bool _, _ => rfl
  | .unary _ operand, h => operand.writable_of_plain h
  | .binary _ lhs rhs, h => by
    rw [Expr.plain, Bool.and_eq_true] at h
    rw [Expr.writable, lhs.writable_of_plain h.1, rhs.writable_of_plain h.2]
    rfl
  | .call callee args, h => by
    rw [Expr.plain, Bool.and_eq_true] at h
    rw [Expr.writable, callee.writable_of_plain h.1, Expr.allWritable_of_allPlain args h.2]
    rfl

theorem Expr.allWritable_of_allPlain : ∀ es : List Expr, Expr.allPlain es = true →
    Expr.allWritable es = true
  | [], _ => rfl
  | e :: es, h => by
    rw [Expr.allPlain, Bool.and_eq_true] at h
    rw [Expr.allWritable, e.writable_of_plain h.1, Expr.allWritable_of_allPlain es h.2]
    rfl

end

theorem Stmt.writable_of_plain (s : Stmt) (h : s.plain = true) : s.writable = true := by
  cases s with
  | bind name value =>
    rw [Stmt.plain, Bool.and_eq_true] at h
    rw [Stmt.writable, h.1, value.writable_of_plain h.2]
    rfl
  | ret value => exact value.writable_of_plain h
  | expr | block => cases h

/-! ## The terminals of the canonical text -/

namespace Wrapping

/-- Parentheses are put around every application of an operator, as if it were called. -/
def full : Wrapping := fun q e =>
  minimal q e || minimal .call e

theorem sound_full : full.Sound := by
  intro q e h
  rw [full, Bool.or_eq_false_iff] at h
  exact sound_minimal q e h.1

theorem full_eq {q : Rung} {e : Expr} (hq : q.rank ≤ Rung.call.rank) :
    full q e = minimal .call e := by
  simp only [full, minimal, Bool.or_eq_right_iff_imp, decide_eq_true_eq]
  omega

end Wrapping

namespace Expr

/-- An expression with all of its parentheses. -/
def fullTerminals (e : Expr) : List Terminal :=
  enclose (Wrapping.minimal .call e) (e.terminals .full)

theorem enclose_full {q : Rung} (hq : q.rank ≤ Rung.call.rank) (e : Expr) :
    enclose (Wrapping.full q e) (e.terminals .full) = e.fullTerminals := by
  rw [Wrapping.full_eq hq, fullTerminals]

theorem fullTerminals_unary (op : UnaryOp) (e : Expr) : (Expr.unary op e).fullTerminals =
    .fixed .leftParen :: .fixed op.kind :: (e.fullTerminals ++ [.fixed .rightParen]) := by
  have hwrap : Wrapping.minimal .call (.unary op e) = true := rfl
  rw [fullTerminals, hwrap, terminals, enclose_full (by decide)]
  rfl

theorem fullTerminals_binary (op : BinaryOp) (lhs rhs : Expr) :
    (Expr.binary op lhs rhs).fullTerminals = .fixed .leftParen ::
      (lhs.fullTerminals ++ .fixed op.kind :: (rhs.fullTerminals ++ [.fixed .rightParen])) := by
  have hwrap : Wrapping.minimal .call (.binary op lhs rhs) = true := by cases op <;> rfl
  have hl : (Rung.ofOperator op).rank ≤ Rung.call.rank := by cases op <;> decide
  have hr : (Rung.ofOperator op).tighter.rank ≤ Rung.call.rank := by cases op <;> decide
  rw [fullTerminals, hwrap, terminals, enclose_full hl, enclose_full hr, enclose, if_pos rfl,
    parenthesized, List.append_assoc, List.cons_append]

theorem fullTerminals_call (callee : Expr) (args : List Expr) :
    (Expr.call callee args).fullTerminals = callee.fullTerminals ++
      .fixed .leftParen :: (Expr.allTerminals .full args ++ [.fixed .rightParen]) := by
  have hwrap : Wrapping.minimal .call (.call callee args) = false := rfl
  rw [fullTerminals, hwrap, terminals, enclose_full (by decide)]
  rfl

end Expr

/-! ## The canonical text lays them out -/

/-- The text starts with no character that could carry on a word or a number. -/
def Breaks (text : List Char) : Prop :=
  StopsBefore isWordChar text ∧ StopsBefore Char.isDigit text

theorem stopsBefore_cons {p : Char → Bool} {c : Char} (hc : p c = false) (text : List Char) :
    StopsBefore p (c :: text) := by
  intro d hd
  cases hd
  exact hc

theorem breaks_cons {c : Char} (hword : isWordChar c = false) (hdigit : c.isDigit = false)
    (text : List Char) : Breaks (c :: text) :=
  ⟨stopsBefore_cons hword text, stopsBefore_cons hdigit text⟩

theorem UnaryOp.written_kind (op : UnaryOp) :
    (Terminal.fixed op.kind).written = op.symbol.toList := by
  cases op <;> rfl

theorem BinaryOp.written_kind (op : BinaryOp) :
    (Terminal.fixed op.kind).written = op.symbol.toList := by
  cases op <;> rfl

theorem stopsBefore_run {p : Char → Bool} {run : List Char} (hne : run ≠ [])
    (hrun : ∀ c ∈ run, p c = true) (hp : p '=' = false) (text : List Char) :
    StopsBefore (· == '=') (run ++ text) := by
  obtain ⟨c, cs, rfl⟩ := List.exists_cons_of_ne_nil hne
  intro d hd
  cases hd
  refine beq_eq_false_iff_ne.2 ?_
  rintro rfl
  have := hrun '=' List.mem_cons_self
  rw [hp] at this
  cases this

/-- No expression starts with an equals sign. -/
theorem Expr.stopsBefore_canonical : ∀ e : Expr, e.plain = true → ∀ text,
    StopsBefore (· == '=') (e.canonical.toList ++ text)
  | .ident name, h, text => by
    obtain ⟨hne, hword, -⟩ := isName_iff.1 h
    exact stopsBefore_run hne hword rfl text
  | .int value, h, text => by
    obtain ⟨hne, hdigit⟩ := isNumeral_iff.1 (isNumeral_showInt64 (of_decide_eq_true h))
    exact stopsBefore_run hne hdigit rfl text
  | .bool true, _, text | .bool false, _, text => stopsBefore_cons rfl _
  | .unary op operand, _, text => by
    rw [Expr.canonical]
    simp only [String.toList_append, List.append_assoc]
    exact stopsBefore_cons rfl _
  | .binary op lhs rhs, _, text => by
    rw [Expr.canonical]
    simp only [String.toList_append, List.append_assoc]
    exact stopsBefore_cons rfl _
  | .call callee args, h, text => by
    rw [Expr.plain, Bool.and_eq_true] at h
    rw [Expr.canonical]
    simp only [String.toList_append, List.append_assoc]
    exact callee.stopsBefore_canonical h.1 _

mutual

/-- An expression in front of a text that is laid out. -/
theorem Expr.layout_canonical : ∀ e : Expr, e.plain = true → ∀ ws text, Layout ws text →
    Breaks text → Layout (e.fullTerminals ++ ws) (e.canonical.toList ++ text)
  | .ident name, _, ws, text, h, htext => h.put ⟨.ident, name⟩ htext.1
  | .int value, _, ws, text, h, htext => h.put ⟨.integer, Text.showInt64 value⟩ htext.2
  | .bool true, _, ws, text, h, htext => h.put (.fixed .kwTrue) htext.1
  | .bool false, _, ws, text, h, htext => h.put (.fixed .kwFalse) htext.1
  | .unary op operand, hp, ws, text, h, htext => by
    -- The layout is put together from the closing parenthesis back to the opening one.
    have hclosing := h.put (.fixed .rightParen) fun _ _ => rfl
    have hoperand := operand.layout_canonical hp _ _ hclosing (breaks_cons rfl rfl text)
    -- An exclamation mark must not run into an equals sign.
    have hnext : StopsBefore op.kind.continuedBy (operand.canonical.toList ++ ')' :: text) := by
      cases op with
      | not => exact operand.stopsBefore_canonical hp _
      | negate => exact fun _ _ => rfl
    have hop := hoperand.put (.fixed op.kind) hnext
    have hopening := hop.put (.fixed .leftParen) fun _ _ => rfl
    rw [Expr.fullTerminals_unary, Expr.canonical]
    simp only [String.toList_append, List.append_assoc, List.cons_append, ← op.written_kind]
    exact hopening
  | .binary op lhs rhs, hp, ws, text, h, htext => by
    rw [Expr.plain, Bool.and_eq_true] at hp
    have hclosing := h.put (.fixed .rightParen) fun _ _ => rfl
    have hr := rhs.layout_canonical hp.2 _ _ hclosing (breaks_cons rfl rfl text)
    have hnext (text : List Char) : StopsBefore op.kind.continuedBy text := by
      cases op <;> exact fun _ _ => rfl
    have hop := hr.blank.put (.fixed op.kind) (hnext _)
    have hl := lhs.layout_canonical hp.1 _ _ hop.blank (breaks_cons rfl rfl _)
    have hopening := hl.put (.fixed .leftParen) fun _ _ => rfl
    rw [Expr.fullTerminals_binary, Expr.canonical]
    simp only [String.toList_append, List.append_assoc, List.cons_append, ← op.written_kind]
    exact hopening
  | .call callee args, hp, ws, text, h, htext => by
    rw [Expr.plain, Bool.and_eq_true] at hp
    have hclosing := h.put (.fixed .rightParen) fun _ _ => rfl
    have hargs := Expr.layout_canonicalArgs args hp.2 _ _ hclosing (breaks_cons rfl rfl text)
    have hopening := hargs.put (.fixed .leftParen) fun _ _ => rfl
    have hcallee := callee.layout_canonical hp.1 _ _ hopening (breaks_cons rfl rfl _)
    rw [Expr.fullTerminals_call, Expr.canonical]
    simp only [String.toList_append, List.append_assoc, List.cons_append]
    exact hcallee

theorem Expr.layout_canonicalArgs : ∀ es : List Expr, Expr.allPlain es = true → ∀ ws text,
    Layout ws text → Breaks text →
    Layout (Expr.allTerminals .full es ++ ws) ((Expr.canonicalArgs es).toList ++ text)
  | [], _, ws, text, h, _ => h
  | [e], hp, ws, text, h, htext => by
    rw [Expr.allPlain, Bool.and_eq_true] at hp
    rw [Expr.allTerminals, Expr.enclose_full (by decide), Expr.canonicalArgs]
    exact e.layout_canonical hp.1 ws text h htext
  | e :: e' :: es, hp, ws, text, h, htext => by
    rw [Expr.allPlain, Bool.and_eq_true] at hp
    have hmore := Expr.layout_canonicalArgs (e' :: es) hp.2 ws text h htext
    have hcomma := hmore.blank.put (.fixed .comma) fun _ _ => rfl
    have he := e.layout_canonical hp.1 _ _ hcomma (breaks_cons rfl rfl _)
    rw [Expr.allTerminals, Expr.enclose_full (by decide), Expr.canonicalArgs]
    · simp only [String.toList_append, List.append_assoc, List.cons_append]
      exact he
    · simp
    · simp

end

/-- A statement and its semicolon in front of a text that is laid out. -/
theorem Stmt.layout_canonical (s : Stmt) (hp : s.plain = true) {ws : List Terminal}
    {text : List Char} (h : Layout ws text) :
    Layout (s.terminals .full ++ ws) (s.canonical.toList ++ text) := by
  have hsemicolon := h.put (.fixed .semicolon) fun _ _ => rfl
  cases s with
  | bind name value =>
    rw [Stmt.plain, Bool.and_eq_true] at hp
    have hvalue := value.layout_canonical hp.2 _ _ hsemicolon (breaks_cons rfl rfl text)
    have hassign := hvalue.blank.put (.fixed .assign) (stopsBefore_cons rfl _)
    have hname := hassign.blank.put ⟨.ident, name⟩ (stopsBefore_cons rfl _)
    have hlet := hname.blank.put (.fixed .kwLet) (stopsBefore_cons rfl _)
    rw [Stmt.terminals, Expr.enclose_full (by decide), Stmt.canonical]
    simp only [String.toList_append, List.append_assoc, List.cons_append]
    exact hlet
  | ret value =>
    have hvalue := value.layout_canonical hp _ _ hsemicolon (breaks_cons rfl rfl text)
    have hreturn := hvalue.blank.put (.fixed .kwReturn) (stopsBefore_cons rfl _)
    rw [Stmt.terminals, Expr.enclose_full (by decide), Stmt.canonical]
    simp only [String.toList_append, List.append_assoc, List.cons_append]
    exact hreturn
  | expr | block => cases hp

/-- The terminals of the canonical text of statements: an expression at the end has no semicolon. -/
def Block.fullTerminals : List Stmt → List Terminal
  | [] => []
  | [.expr value] => value.fullTerminals
  | s :: ss => s.terminals .full ++ Block.fullTerminals ss

theorem Block.fullTerminals_cons {s : Stmt} (h : s.plain = true) (ss : List Stmt) :
    Block.fullTerminals (s :: ss) = s.terminals .full ++ Block.fullTerminals ss := by
  cases s with
  | bind | ret => simp [Block.fullTerminals]
  | expr | block => cases h

/-- **The canonical text lays out the program.** -/
theorem Block.layout_canonical (ss : List Stmt) (hp : Block.plain ss = true) :
    Layout (Block.fullTerminals ss) (Block.canonical ss).toList := by
  fun_induction Block.plain ss with
  | case1 => exact .done (by simp [Block.canonical])
  | case2 value =>
    have hend : Layout [] [] := .done (by simp)
    have h := value.layout_canonical hp [] [] hend ⟨by simp [StopsBefore], by simp [StopsBefore]⟩
    simpa [Block.fullTerminals, Block.canonical, Stmt.canonical] using h
  | case3 s ss _ ih =>
    rw [Bool.and_eq_true] at hp
    rw [Block.fullTerminals_cons hp.1, Block.canonical, String.toList_append]
    exact s.layout_canonical hp.1 (ih hp.2)

/-! ## Reading back -/

theorem Block.wellFormed_fullTerminals (ss : List Stmt) (hp : Block.plain ss = true) :
    ∀ w ∈ Block.fullTerminals ss, w.WellFormed := by
  fun_induction Block.plain ss with
  | case1 => simp [Block.fullTerminals]
  | case2 value =>
    rw [Block.fullTerminals, Expr.fullTerminals, forall_mem_enclose]
    exact value.wellFormed_terminals .full (value.writable_of_plain hp)
  | case3 s ss _ ih =>
    rw [Bool.and_eq_true] at hp
    rw [Block.fullTerminals_cons hp.1, List.forall_mem_append]
    exact ⟨s.wellFormed_terminals .full (s.writable_of_plain hp.1), ih hp.2⟩

/-- The tokens of the canonical text derive the program. An expression at the end has no semicolon,
but nothing follows that could carry it on. -/
theorem Block.statements_fullTerminals (ss : List Stmt) (hp : Block.plain ss = true)
    {ts : List Token} (hts : ts.map Token.terminal = Block.fullTerminals ss) :
    Statements ts [] ss := by
  fun_induction Block.plain ss generalizing ts with
  | case1 =>
    obtain rfl := List.map_eq_nil_iff.1 hts
    exact .nil
  | case2 value =>
    have hnoElse : NoElse [] := by simp [NoElse]
    rw [Block.fullTerminals, ← Expr.enclose_full (by decide : Rung.equality.rank ≤ Rung.call.rank),
      ← List.append_nil (enclose _ _)] at hts
    obtain ⟨us, hus, h⟩ := ((value.takes Wrapping.sound_full (value.writable_of_plain hp)).enclose
      Wrapping.sound_full) [] hnoElse ts hts
    obtain rfl := List.map_eq_nil_iff.1 hus
    exact .cons (.expr h rfl) .nil
  | case3 s ss _ ih =>
    rw [Bool.and_eq_true] at hp
    rw [Block.fullTerminals_cons hp.1] at hts
    obtain ⟨us, hus, h⟩ := s.takes Wrapping.sound_full (s.writable_of_plain hp.1) _ ts hts
    exact .cons h (ih hp.2 hus)

/-- **The canonical text of such a program is read back**, without errors and as the same program,
so its canonical text is the same. -/
theorem parsed_canonical (p : Program) (hp : p.plain = true) :
    (Parsed.ofSource p.canonical).errors = [] ∧ (Parsed.ofSource p.canonical).program = p ∧
      (Parsed.ofSource p.canonical).program.canonical = p.canonical := by
  have hlayout : Layout (Block.fullTerminals p.statements) p.canonical.toList :=
    Block.layout_canonical p.statements hp
  obtain ⟨herrors, hprogram⟩ := hlayout.parsed (Block.wellFormed_fullTerminals p.statements hp)
    fun ts hts => Block.statements_fullTerminals p.statements hp hts
  exact ⟨herrors, hprogram, by rw [hprogram]⟩

/-- A program with every kind of expression that is kept. -/
def plainProgram : Program :=
  ⟨[.bind "x" (.binary .add (.int 1) (.binary .multiply (.int 2) (.unary .negate (.int 3)))),
    .ret (.unary .not (.call (.ident "f") [.ident "x", .bool true])),
    .expr (.call (.call (.ident "g") []) [.binary .notEqual (.ident "x") (.bool false)])]⟩

theorem parsed_canonical_plainProgram :
    plainProgram.plain = true ∧
      plainProgram.canonical = "let x = (1 + (2 * (-3)));return (!f(x, true));g()((x != false))" ∧
      (Parsed.ofSource plainProgram.canonical).errors = [] ∧
      (Parsed.ofSource plainProgram.canonical).program = plainProgram := by
  have hp : plainProgram.plain = true := by decide
  obtain ⟨herrors, hprogram, -⟩ := parsed_canonical plainProgram hp
  exact ⟨hp, by decide +kernel, herrors, hprogram⟩

end Sprig
