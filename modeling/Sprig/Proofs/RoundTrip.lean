import Sprig.Proofs.Printing
import Sprig.Proofs.Tiling

/-!
# Printed programs are read back

The tokens of a printed program derive it. The argument follows the printer: each phrase of the
grammar takes its own terminals off the front of the tokens and leaves the others (`Takes`). What
follows an expression matters in one place only, a conditional without an `else` part, which must
not be followed by `else`; nothing that the printer puts after an expression is (`NoElse`).
-/

namespace Sprig

open Grammar

/-- From tokens that show the terminals `ws` and then `rest`, the phrase takes those of `ws`. -/
def Takes (phrase : List Token → List Token → Prop) (ws rest : List Terminal) : Prop :=
  ∀ ts, ts.map Token.terminal = ws ++ rest → ∃ us, us.map Token.terminal = rest ∧ phrase ts us

/-- The terminals do not start with `else`. -/
def NoElse (ws : List Terminal) : Prop :=
  ∀ w ∈ ws.head?, w.kind ≠ .kwElse

/-- The expression takes its terminals wherever no `else` follows. -/
def Expr.Taken (q : Rung) (ws : List Terminal) (e : Expr) : Prop :=
  ∀ rest, NoElse rest → Takes (Expression q · · e) ws rest

section Tokens

variable {t : Token} {us : List Token} {w : Terminal} {ws : List Terminal}

theorem kind_of_terminal (h : t.terminal = w) : t.kind = w.kind :=
  congrArg Terminal.kind h

theorem literal_of_terminal (h : t.terminal = w) : t.literal = w.literal :=
  congrArg Terminal.literal h

theorem noElse_cons (h : w.kind ≠ .kwElse) : NoElse (w :: ws) := by
  intro v hv
  cases hv
  exact h

theorem NoElse.currentKind_ne (h : NoElse ws) (hus : us.map Token.terminal = ws) :
    currentKind us ≠ .kwElse := by
  subst hus
  cases us with
  | nil => decide
  | cons t us => exact h t.terminal rfl

/-- A phrase of one token. -/
theorem takes_one {phrase : List Token → List Token → Prop} {rest : List Terminal}
    (h : ∀ t us, t.terminal = w → phrase (t :: us) us) : Takes phrase [w] rest := by
  intro ts hts
  obtain ⟨t, us, rfl, ht, hus⟩ := List.map_eq_cons_iff.1 hts
  exact ⟨us, hus, h t us ht⟩

end Tokens

/-! ## Parentheses and names -/

section Phrases

variable {q : Rung} {e : Expr} {ws rest : List Terminal} {wraps : Wrapping}

theorem takes_parenthesized (h : Expr.Taken .equality ws e) :
    Takes (Group · · e) (parenthesized ws) rest := by
  intro ts hts
  rw [parenthesized, List.cons_append, List.append_assoc] at hts
  obtain ⟨t, us, rfl, ht, hus⟩ := List.map_eq_cons_iff.1 hts
  obtain ⟨vs, hvs, he⟩ := h _ (noElse_cons (by decide)) us hus
  obtain ⟨u, vs, rfl, hu, hvs⟩ := List.map_eq_cons_iff.1 hvs
  exact ⟨vs, hvs, .mk (kind_of_terminal ht) he (kind_of_terminal hu)⟩

/-- With its parentheses, if it gets any, an expression fits its place. -/
theorem Expr.Taken.enclose (hw : wraps.Sound) (h : Expr.Taken e.rung (e.terminals wraps) e) :
    Expr.Taken q (enclose (wraps q e) (e.terminals wraps)) e := by
  intro rest hrest ts hts
  cases hq : wraps q e with
  | false =>
    rw [hq] at hts
    obtain ⟨us, hus, he⟩ := h rest hrest ts hts
    exact ⟨us, hus, he.descend (hw q e hq)⟩
  | true =>
    -- In parentheses the expression is a primary, and these stand on every rung.
    rw [hq] at hts
    have hloose : Expr.Taken .equality (e.terminals wraps) e := by
      intro rest hrest ts hts
      obtain ⟨us, hus, he⟩ := h rest hrest ts hts
      exact ⟨us, hus, he.descend e.rung.equality_le_rank⟩
    obtain ⟨us, hus, he⟩ := takes_parenthesized hloose ts hts
    exact ⟨us, hus, (Expression.group he).descend q.rank_le_primary⟩

theorem takes_names : ∀ names : List String, names ≠ [] →
    Takes (Names · · names) (nameTerminals names ++ [.fixed .rightParen]) rest
  | [name], _ => by
    intro ts hts
    obtain ⟨t, us, rfl, ht, hus⟩ := List.map_eq_cons_iff.1 hts
    obtain ⟨u, us, rfl, hu, hus⟩ := List.map_eq_cons_iff.1 hus
    obtain rfl : t.literal = name := literal_of_terminal ht
    exact ⟨us, hus, .last (kind_of_terminal ht) (kind_of_terminal hu)⟩
  | name :: name' :: names, _ => by
    intro ts hts
    rw [nameTerminals, List.cons_append, List.cons_append, List.cons_append,
      List.cons_append] at hts
    · obtain ⟨t, us, rfl, ht, hus⟩ := List.map_eq_cons_iff.1 hts
      obtain ⟨u, us, rfl, hu, hus⟩ := List.map_eq_cons_iff.1 hus
      obtain rfl : t.literal = name := literal_of_terminal ht
      obtain ⟨vs, hvs, hmore⟩ := takes_names (name' :: names) (by simp) us hus
      exact ⟨vs, hvs, .more (kind_of_terminal ht) (kind_of_terminal hu) hmore⟩
    · simp

theorem takes_parameters (params : List String) :
    Takes (Parameters · · params) (parenthesized (nameTerminals params)) rest := by
  intro ts hts
  obtain ⟨t, us, rfl, ht, hus⟩ := List.map_eq_cons_iff.1 hts
  cases params with
  | nil =>
    obtain ⟨u, us, rfl, hu, hus⟩ := List.map_eq_cons_iff.1 hus
    exact ⟨us, hus, .empty (kind_of_terminal ht) (kind_of_terminal hu)⟩
  | cons name names =>
    obtain ⟨vs, hvs, hnames⟩ := takes_names (name :: names) (by simp) us hus
    exact ⟨vs, hvs, .listed (kind_of_terminal ht) hnames⟩

theorem takes_arguments {args : List Expr} (h : args ≠ [] → ∀ rest, Takes (ArgumentList · · args)
      (Expr.allTerminals wraps args ++ [.fixed .rightParen]) rest) :
    Takes (Arguments · · args) (Expr.allTerminals wraps args ++ [.fixed .rightParen]) rest := by
  intro ts hts
  cases args with
  | nil =>
    obtain ⟨t, us, rfl, ht, hus⟩ := List.map_eq_cons_iff.1 hts
    exact ⟨us, hus, .empty (kind_of_terminal ht)⟩
  | cons e es =>
    obtain ⟨us, hus, hlist⟩ := h (by simp) rest ts hts
    exact ⟨us, hus, .listed hlist⟩

theorem takes_braced {body : Block}
    (h : ∀ rest, Takes (Statements · · body) (Block.terminals wraps body) rest) :
    Takes (Braced · · body) (braced (Block.terminals wraps body)) rest := by
  intro ts hts
  rw [braced, List.cons_append, List.append_assoc] at hts
  obtain ⟨t, us, rfl, ht, hus⟩ := List.map_eq_cons_iff.1 hts
  obtain ⟨vs, hvs, hbody⟩ := h _ us hus
  obtain ⟨u, vs, rfl, hu, hvs⟩ := List.map_eq_cons_iff.1 hvs
  exact ⟨vs, hvs, .closed (kind_of_terminal ht) hbody (kind_of_terminal hu)⟩

end Phrases

theorem skipped_semicolon {t : Token} (us : List Token) (h : t.kind = .semicolon) :
    carriesOn (currentKind (t :: us)) = false ∧ Skipped (t :: us) us := by
  have hend : Skipped ([] ++ t :: us) us := .semicolon (by simp) h
  refine ⟨?_, hend⟩
  rw [currentKind, h]
  rfl

theorem UnaryOp.expression {op : UnaryOp} {t : Token} {ts us : List Token} {e : Expr}
    (hop : t.kind = op.kind) (h : Expression .unary ts us e) :
    Expression .unary (t :: ts) us (.unary op e) := by
  cases op with
  | not => exact .not hop h
  | negate => exact .negate hop h

theorem BinaryOp.operator?_kind (op : BinaryOp) :
    (Rung.ofOperator op).operator? op.kind = some op := by
  cases op <;> rfl

/-! ## Following the printer -/

variable {wraps : Wrapping}

mutual

theorem Expr.takes (hw : wraps.Sound) : ∀ e : Expr, e.writable = true →
    Expr.Taken e.rung (e.terminals wraps) e
  | .ident name, _ => fun rest _ => takes_one fun t us ht => by
    obtain rfl : t.literal = name := literal_of_terminal ht
    exact .ident (kind_of_terminal ht)
  | .int value, h => fun rest _ => takes_one fun t us ht => by
    have hvalue : 0 ≤ value := by simpa [Expr.writable] using h
    refine .int (kind_of_terminal ht) ?_
    rw [literal_of_terminal ht]
    exact readInt64?_showInt64 hvalue
  | .str content, _ => fun rest _ => takes_one fun t us ht => by
    obtain rfl : t.literal = content := literal_of_terminal ht
    exact .str (kind_of_terminal ht)
  | .bool true, _ => fun rest _ => takes_one fun t us ht => .yes (kind_of_terminal ht)
  | .bool false, _ => fun rest _ => takes_one fun t us ht => .no (kind_of_terminal ht)
  | .unary op operand, h => by
    intro rest hrest ts hts
    rw [Expr.terminals, List.cons_append] at hts
    obtain ⟨t, us, rfl, ht, hus⟩ := List.map_eq_cons_iff.1 hts
    obtain ⟨vs, hvs, he⟩ := (operand.takes hw h).enclose hw rest hrest us hus
    exact ⟨vs, hvs, UnaryOp.expression (kind_of_terminal ht) he⟩
  | .binary op lhs rhs, h => by
    intro rest hrest ts hts
    rw [Expr.writable, Bool.and_eq_true] at h
    rw [Expr.terminals, List.append_assoc, List.cons_append] at hts
    have hop : (Terminal.fixed op.kind).kind ≠ .kwElse := by cases op <;> decide
    -- The left operand stands on the rung of the operator and the right one on the rung above.
    obtain ⟨us, hus, hl⟩ := (lhs.takes hw h.1).enclose hw _ (noElse_cons hop) ts hts
    obtain ⟨t, us, rfl, ht, hus⟩ := List.map_eq_cons_iff.1 hus
    obtain ⟨vs, hvs, hr⟩ := (rhs.takes hw h.2).enclose hw rest hrest us hus
    refine ⟨vs, hvs, .binary hl ?_ hr⟩
    rw [kind_of_terminal ht]
    exact op.operator?_kind
  | .cond test consequence none, h => by
    intro rest hrest ts hts
    rw [Expr.writable, Bool.and_eq_true, Bool.and_eq_true] at h
    rw [Expr.terminals, Block.elseTerminals, List.append_nil, List.cons_append,
      List.append_assoc] at hts
    obtain ⟨t, us, rfl, ht, hus⟩ := List.map_eq_cons_iff.1 hts
    obtain ⟨vs, hvs, htest⟩ := takes_parenthesized ((test.takes hw h.1.1).enclose hw) us hus
    obtain ⟨xs, hxs, hc⟩ := takes_braced (Block.takes hw consequence h.1.2) vs hvs
    -- The only case that looks at what follows the expression.
    exact ⟨xs, hxs, .cond (kind_of_terminal ht) htest hc (hrest.currentKind_ne hxs)⟩
  | .cond test consequence (some alternative), h => by
    intro rest hrest ts hts
    rw [Expr.writable, Bool.and_eq_true, Bool.and_eq_true] at h
    rw [Expr.terminals, Block.elseTerminals, List.cons_append, List.append_assoc,
      List.append_assoc, List.cons_append] at hts
    obtain ⟨t, us, rfl, ht, hus⟩ := List.map_eq_cons_iff.1 hts
    obtain ⟨vs, hvs, htest⟩ := takes_parenthesized ((test.takes hw h.1.1).enclose hw) us hus
    obtain ⟨xs, hxs, hc⟩ := takes_braced (Block.takes hw consequence h.1.2) vs hvs
    obtain ⟨u, xs, rfl, hu, hxs⟩ := List.map_eq_cons_iff.1 hxs
    obtain ⟨ys, hys, ha⟩ := takes_braced (Block.takes hw alternative h.2) xs hxs
    exact ⟨ys, hys, .condElse (kind_of_terminal ht) htest hc (kind_of_terminal hu) ha⟩
  | .fn params body, h => by
    intro rest hrest ts hts
    rw [Expr.writable, Bool.and_eq_true] at h
    rw [Expr.terminals, List.cons_append, List.append_assoc] at hts
    obtain ⟨t, us, rfl, ht, hus⟩ := List.map_eq_cons_iff.1 hts
    obtain ⟨vs, hvs, hp⟩ := takes_parameters params us hus
    obtain ⟨xs, hxs, hb⟩ := takes_braced (Block.takes hw body h.2) vs hvs
    exact ⟨xs, hxs, .fn (kind_of_terminal ht) hp hb⟩
  | .call callee args, h => by
    intro rest hrest ts hts
    rw [Expr.writable, Bool.and_eq_true] at h
    rw [Expr.terminals, List.append_assoc, parenthesized, List.cons_append] at hts
    obtain ⟨us, hus, hc⟩ := (callee.takes hw h.1).enclose hw _ (noElse_cons (by decide)) ts hts
    obtain ⟨t, us, rfl, ht, hus⟩ := List.map_eq_cons_iff.1 hus
    obtain ⟨vs, hvs, ha⟩ := takes_arguments (Expr.takes_all hw args h.2) us hus
    exact ⟨vs, hvs, .call hc (kind_of_terminal ht) ha⟩

theorem Expr.takes_all (hw : wraps.Sound) : ∀ args : List Expr, Expr.allWritable args = true →
    args ≠ [] → ∀ rest, Takes (ArgumentList · · args)
      (Expr.allTerminals wraps args ++ [.fixed .rightParen]) rest
  | [e], h, _, rest => by
    intro ts hts
    rw [Expr.allWritable, Bool.and_eq_true] at h
    rw [Expr.allTerminals, List.append_assoc] at hts
    obtain ⟨us, hus, he⟩ := (e.takes hw h.1).enclose hw _ (noElse_cons (by decide)) ts hts
    obtain ⟨t, us, rfl, ht, hus⟩ := List.map_eq_cons_iff.1 hus
    exact ⟨us, hus, .last he (kind_of_terminal ht)⟩
  | e :: e' :: es, h, _, rest => by
    intro ts hts
    rw [Expr.allWritable, Bool.and_eq_true] at h
    rw [Expr.allTerminals, List.append_assoc, List.append_assoc, List.cons_append] at hts
    · obtain ⟨us, hus, he⟩ := (e.takes hw h.1).enclose hw _ (noElse_cons (by decide)) ts hts
      obtain ⟨t, us, rfl, ht, hus⟩ := List.map_eq_cons_iff.1 hus
      rw [← List.append_assoc] at hus
      obtain ⟨vs, hvs, hmore⟩ := Expr.takes_all hw (e' :: es) h.2 (by simp) rest us hus
      exact ⟨vs, hvs, .more he (kind_of_terminal ht) hmore⟩
    · simp

theorem Stmt.takes (hw : wraps.Sound) : ∀ s : Stmt, s.writable = true → ∀ rest,
    Takes (Statement · · s) (s.terminals wraps) rest
  | .bind name value, h, rest => by
    intro ts hts
    rw [Stmt.writable, Bool.and_eq_true] at h
    rw [Stmt.terminals, List.cons_append, List.cons_append, List.cons_append,
      List.append_assoc] at hts
    obtain ⟨t, us, rfl, ht, hus⟩ := List.map_eq_cons_iff.1 hts
    obtain ⟨u, us, rfl, hu, hus⟩ := List.map_eq_cons_iff.1 hus
    obtain ⟨v, us, rfl, hv, hus⟩ := List.map_eq_cons_iff.1 hus
    obtain ⟨vs, hvs, he⟩ := (value.takes hw h.2).enclose hw _ (noElse_cons (by decide)) us hus
    obtain ⟨stop, vs, rfl, hstop, hvs⟩ := List.map_eq_cons_iff.1 hvs
    obtain rfl : u.literal = name := literal_of_terminal hu
    obtain ⟨hnext, hend⟩ := skipped_semicolon vs (kind_of_terminal hstop)
    exact ⟨vs, hvs, .bind (kind_of_terminal ht) (kind_of_terminal hu) (kind_of_terminal hv) he
      hnext hend⟩
  | .ret value, h, rest => by
    intro ts hts
    rw [Stmt.terminals, List.cons_append, List.append_assoc] at hts
    obtain ⟨t, us, rfl, ht, hus⟩ := List.map_eq_cons_iff.1 hts
    obtain ⟨vs, hvs, he⟩ := (value.takes hw h).enclose hw _ (noElse_cons (by decide)) us hus
    obtain ⟨stop, vs, rfl, hstop, hvs⟩ := List.map_eq_cons_iff.1 hvs
    obtain ⟨hnext, hend⟩ := skipped_semicolon vs (kind_of_terminal hstop)
    exact ⟨vs, hvs, .ret (kind_of_terminal ht) he hnext hend⟩
  | .expr value, h, rest => by
    intro ts hts
    rw [Stmt.terminals, List.append_assoc] at hts
    obtain ⟨vs, hvs, he⟩ := (value.takes hw h).enclose hw _ (noElse_cons (by decide)) ts hts
    obtain ⟨stop, vs, rfl, hstop, hvs⟩ := List.map_eq_cons_iff.1 hvs
    exact ⟨vs, hvs, .terminated he (kind_of_terminal hstop)⟩

theorem Block.takes (hw : wraps.Sound) : ∀ body : List Stmt, Block.writable body = true → ∀ rest,
    Takes (Statements · · body) (Block.terminals wraps body) rest
  | [], _, rest => fun ts hts => ⟨ts, hts, .nil⟩
  | s :: ss, h, rest => by
    intro ts hts
    rw [Block.writable, Bool.and_eq_true] at h
    rw [Block.terminals, List.append_assoc] at hts
    obtain ⟨us, hus, hs⟩ := Stmt.takes hw s h.1 _ ts hts
    obtain ⟨vs, hvs, hmore⟩ := Block.takes hw ss h.2 rest us hus
    exact ⟨vs, hvs, .cons hs hmore⟩

end

theorem derives_terminals (hw : wraps.Sound) {p : Program} (hp : p.writable = true)
    {ts : List Token} (hts : ts.map Token.terminal = p.terminals wraps) : Derives ts p := by
  rw [← List.append_nil (p.terminals wraps)] at hts
  obtain ⟨us, hus, h⟩ := Block.takes hw p.statements hp [] ts hts
  obtain rfl := List.map_eq_nil_iff.1 hus
  exact h

/-! ## Reading back -/

/-- A text that lays out well formed terminals is read as the program that they derive. -/
theorem Layout.parsed {ws : List Terminal} {text : String} {p : Program}
    (h : Layout ws text.toList) (hws : ∀ w ∈ ws, w.WellFormed)
    (hderives : ∀ ts : List Token, ts.map Token.terminal = ws → Derives ts p) :
    (Parsed.ofSource text).errors = [] ∧ (Parsed.ofSource text).program = p := by
  have hts := h.map_terminal_readAll hws 0
  exact (hderives _ hts).parsed (cut_readAll 0 text.toList).not_eof

/-- **Reading inverts printing with as few parentheses as possible.** A program of names, integers
that are not negative, strings without quotes and no blocks that stand alone is read back from every
text that lays it out, without errors; with blanks between all terminals it is one such text. -/
theorem parsed_minimal (p : Program) (hp : p.writable = true) :
    Layout (p.terminals .minimal) (spaced (p.terminals .minimal)) ∧
      ∀ text : String, Layout (p.terminals .minimal) text.toList →
        (Parsed.ofSource text).errors = [] ∧ (Parsed.ofSource text).program = p := by
  refine ⟨layout_spaced _, fun text htext => ?_⟩
  exact htext.parsed (Block.wellFormed_terminals .minimal p.statements hp) fun ts hts =>
    derives_terminals Wrapping.sound_minimal hp hts

/-- A program with a function, a conditional, a string, a call and two operands that need their
parentheses. -/
def negatedSum : Program :=
  ⟨[.bind "f" (.fn ["x", "y"]
      [.expr (.cond (.binary .lessThan (.ident "x") (.ident "y"))
        [.ret (.unary .negate (.binary .add (.ident "x") (.int 1)))]
        (some [.expr (.str "no")]))]),
    .expr (.call (.ident "f") [.int 1, .binary .subtract (.int 2)
      (.binary .subtract (.int 3) (.int 4))])]⟩

/-- Its text with blanks between all terminals. -/
def negatedSumText : String :=
  "let f = fn ( x , y ) \x7b if ( x < y ) \x7b return - ( x + 1 ) ; \x7d " ++
    "else \x7b \"no\" ; \x7d ; \x7d ; f ( 1 , 2 - ( 3 - 4 ) ) ; "

theorem parsed_minimal_negatedSum :
    negatedSum.writable = true ∧
      Layout (negatedSum.terminals .minimal) negatedSumText.toList ∧
      (Parsed.ofSource negatedSumText).errors = [] ∧
      (Parsed.ofSource negatedSumText).program = negatedSum := by
  have hp : negatedSum.writable = true := by decide
  obtain ⟨hlayout, hparsed⟩ := parsed_minimal negatedSum hp
  have htext : spaced (negatedSum.terminals .minimal) = negatedSumText.toList := by decide +kernel
  rw [htext] at hlayout
  exact ⟨hp, hlayout, hparsed negatedSumText hlayout⟩

end Sprig
