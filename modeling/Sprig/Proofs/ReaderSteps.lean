import Sprig.Proofs.Accounting

/-!
# One step of each reader

For every reader of the language, when it gives a value and in terms of which other readings. The
reader of primary expressions has one such statement for each kind of token that it can start on.
-/

namespace Sprig

namespace Reader

open Reading

variable {stop : Span} {p : Precedence} {t : Token} {ts us rest : List Token} {e : Expr}

/-! ## Parameters -/

theorem parameterNames_gives {names : List String} :
    (parameterNames stop ts).Gives (some names) us ↔
      ∃ name separator rest, ts = name :: separator :: rest ∧ name.kind = .ident ∧
        ((separator.kind = .comma ∧ ∃ more, (parameterNames stop rest).Gives (some more) us ∧
            name.literal :: more = names) ∨
          (separator.kind = .rightParen ∧ [name.literal] = names ∧ separator :: rest = us)) := by
  match ts with
  | [] => simp [parameterNames]
  | [t] =>
    rw [parameterNames]
    split <;> simp [mapSome_gives, expectNext_gives]
  | name :: separator :: rest =>
    rw [parameterNames]
    split
    · next hname =>
      split
      · next hcomma =>
        simp only [within_gives, mapSome_gives]
        constructor
        · rintro ⟨more, hmore, rfl⟩
          exact ⟨name, separator, rest, rfl, hname, .inl ⟨hcomma, more, hmore, rfl⟩⟩
        · rintro ⟨_, _, _, heq, -, ⟨-, more, hmore, rfl⟩ | ⟨hparen, -⟩⟩
          · cases heq
            exact ⟨more, hmore, rfl⟩
          · cases heq
            rw [hcomma] at hparen
            cases hparen
      · next hcomma =>
        simp only [mapSome_gives, expectNext_gives]
        constructor
        · rintro ⟨_, ⟨_, heq, hparen, rfl⟩, rfl⟩
          cases heq
          exact ⟨name, separator, rest, rfl, hname, .inr ⟨hparen, rfl, rfl⟩⟩
        · rintro ⟨_, _, _, heq, -, ⟨hcomma', -⟩ | ⟨hparen, rfl, rfl⟩⟩
          · cases heq
            exact absurd hcomma' hcomma
          · cases heq
            exact ⟨separator, ⟨rest, rfl, hparen, rfl⟩, rfl⟩
    · next hname =>
      simp only [not_fail_gives, false_iff]
      rintro ⟨_, _, _, heq, hname', -⟩
      cases heq
      exact hname hname'

theorem parameters_gives {names : List String} :
    (parameters stop ts).Gives (some names) us ↔
      (nextKind ts = .rightParen ∧ [] = names ∧ ts.tail = us) ∨
        (nextKind ts ≠ .rightParen ∧ (parameterNames stop ts.tail).Gives (some names) us) := by
  unfold parameters
  split
  · next h => simp [h]
  · next h => simp [h]

/-! ## Primary expressions -/

/-- An expression in parentheses is read from `ts`, and the reader stands on the closing one. -/
def ReadsGroup (stop : Span) (ts : List Token) (e : Expr) (us : List Token) : Prop :=
  ∃ opening rest vs, ts = opening :: rest ∧ opening.kind = .leftParen ∧
    (expression stop .lowest rest).Gives (some e) vs ∧ vs.tail = us ∧ currentKind us = .rightParen

/-- A block is read from `ts`, and the reader stands on its closing brace or at the end. -/
def ReadsBlock (stop : Span) (ts : List Token) (body : Block) (us : List Token) : Prop :=
  ∃ brace rest, ts = brace :: rest ∧ brace.kind = .leftBrace ∧
    (statements stop true rest).Gives body us

theorem ReadsGroup.isSuffix (h : ReadsGroup stop ts e us) : us <:+ ts := by
  obtain ⟨opening, rest, vs, rfl, -, he, rfl, -⟩ := h
  exact (List.tail_suffix vs).trans (he.isSuffix.trans (List.suffix_cons opening rest))

theorem ReadsBlock.isSuffix {body : Block} (h : ReadsBlock stop ts body us) : us <:+ ts := by
  obtain ⟨brace, rest, rfl, -, hb⟩ := h
  exact hb.isSuffix.trans (List.suffix_cons brace rest)

/-- The kinds of token on which an expression can start. -/
def startsExpression : TokenKind → Bool
  | .ident | .integer | .string | .kwTrue | .kwFalse | .bang | .minus | .leftParen | .kwIf
  | .kwFn => true
  | _ => false

theorem not_primary_gives (h : startsExpression (currentKind ts) = false) :
    ¬ (primary stop ts).Gives (some e) us := by
  match ts with
  | [] =>
    rw [primary]
    exact not_fail_gives
  | t :: rest =>
    rw [primary]
    cases hk : t.kind <;> simp [hk, currentKind, startsExpression] at h ⊢

theorem primary_ident (h : t.kind = .ident) :
    (primary stop (t :: rest)).Gives (some e) us ↔ .ident t.literal = e ∧ t :: rest = us := by
  rw [primary]
  simp [h]

theorem primary_integer (h : t.kind = .integer) :
    (primary stop (t :: rest)).Gives (some e) us ↔
      ∃ n, Text.readInt64? t.literal = some n ∧ .int n = e ∧ t :: rest = us := by
  rw [primary]
  simp only [h]
  cases Text.readInt64? t.literal <;> simp

theorem primary_string (h : t.kind = .string) :
    (primary stop (t :: rest)).Gives (some e) us ↔ .str t.literal = e ∧ t :: rest = us := by
  rw [primary]
  simp [h]

theorem primary_kwTrue (h : t.kind = .kwTrue) :
    (primary stop (t :: rest)).Gives (some e) us ↔ .bool true = e ∧ t :: rest = us := by
  rw [primary]
  simp [h]

theorem primary_kwFalse (h : t.kind = .kwFalse) :
    (primary stop (t :: rest)).Gives (some e) us ↔ .bool false = e ∧ t :: rest = us := by
  rw [primary]
  simp [h]

theorem primary_unary {op : UnaryOp} (h : UnaryOp.ofKind? t.kind = some op) :
    (primary stop (t :: rest)).Gives (some e) us ↔
      ∃ operand, (expression stop .unary rest).Gives (some operand) us ∧
        .unary op operand = e := by
  rw [primary]
  cases hk : t.kind <;> simp only [hk, UnaryOp.ofKind?, reduceCtorEq, Option.some.injEq] at h
  · subst h
    simp only [within_gives, mapSome_gives]
  · subst h
    simp only [within_gives, mapSome_gives]

theorem primary_leftParen (h : t.kind = .leftParen) :
    (primary stop (t :: rest)).Gives (some e) us ↔ ReadsGroup stop (t :: rest) e us := by
  rw [primary]
  simp only [h, within_gives, bind_gives, mapSome_gives, expectNext_gives, exists_prop]
  constructor
  · rintro ⟨e, vs, he, u, ⟨after, hvs, hu, rfl⟩, rfl⟩
    exact ⟨t, rest, vs, rfl, h, he, hvs, hu⟩
  · rintro ⟨_, _, vs, heq, -, he, rfl, hu⟩
    cases heq
    obtain ⟨u, after, hvs, hu⟩ := exists_cons_of_currentKind hu (by decide)
    exact ⟨e, vs, he, u, ⟨after, hvs, hu, hvs⟩, rfl⟩

theorem primary_kwIf (h : t.kind = .kwIf) :
    (primary stop (t :: rest)).Gives (some e) us ↔
      ∃ test consequence vs ws, ReadsGroup stop rest test vs ∧
        ReadsBlock stop vs.tail consequence ws ∧
        ((nextKind ws ≠ .kwElse ∧ .cond test consequence none = e ∧ ws = us) ∨
          (nextKind ws = .kwElse ∧ ∃ alternative, ReadsBlock stop ws.tail.tail alternative us ∧
            .cond test consequence (some alternative) = e)) := by
  rw [primary]
  simp only [h, bind_gives, expectNext_gives, exists_prop, afterCurrent_gives, andThen_gives,
    countUnclosed_gives]
  constructor
  · rintro ⟨opening, _, ⟨us, rfl, hopening, rfl⟩, test, vs, htest, closing, _,
      ⟨ws, hvs, hclosing, rfl⟩, brace, _, ⟨xs, rfl, hbrace, rfl⟩, consequence, ys, hc, hrest⟩
    refine ⟨test, consequence, _, ys, ⟨opening, us, vs, rfl, hopening, htest, hvs, hclosing⟩,
      ⟨brace, xs, rfl, hbrace, hc⟩, ?_⟩
    split at hrest
    · next helse =>
      simp only [afterCurrent_gives, bind_gives, expectNext_gives, map_gives, countUnclosed_gives,
        exists_prop, Option.some.injEq] at hrest
      obtain ⟨brace, _, ⟨zs, hzs, hbrace, rfl⟩, alternative, ha, he⟩ := hrest
      exact .inr ⟨helse, alternative, ⟨brace, zs, hzs, hbrace, ha⟩, he⟩
    · next helse =>
      simp only [done_gives, Option.some.injEq] at hrest
      exact .inl ⟨helse, hrest⟩
  · rintro ⟨test, consequence, ws, ys, ⟨opening, us, vs, rfl, hopening, htest, hvs, hclosing⟩,
      ⟨brace, xs, hws, hbrace, hc⟩, hrest⟩
    obtain ⟨closing, after, rfl, hclosing⟩ := exists_cons_of_currentKind hclosing (by decide)
    refine ⟨opening, _, ⟨us, rfl, hopening, rfl⟩, test, vs, htest, closing, _,
      ⟨after, hvs, hclosing, rfl⟩, brace, _, ⟨xs, hws, hbrace, rfl⟩, consequence, ys, hc, ?_⟩
    rcases hrest with ⟨helse, rfl, rfl⟩ | ⟨helse, alternative, ⟨brace, zs, hzs, hbrace, ha⟩, rfl⟩
    · rw [if_neg helse]
      exact done_gives.2 ⟨rfl, rfl⟩
    · rw [if_pos helse]
      simp only [afterCurrent_gives, bind_gives, expectNext_gives, map_gives, countUnclosed_gives,
        exists_prop]
      exact ⟨brace, _, ⟨zs, hzs, hbrace, rfl⟩, alternative, ha, rfl⟩

theorem primary_kwFn (h : t.kind = .kwFn) :
    (primary stop (t :: rest)).Gives (some e) us ↔
      currentKind rest = .leftParen ∧ ∃ params vs body,
        (parameters stop rest).Gives (some params) vs ∧ ReadsBlock stop vs.tail body us ∧
        .fn params body = e := by
  rw [primary]
  simp only [h, bind_gives, expectNext_gives, map_gives, afterCurrent_gives, countUnclosed_gives,
    exists_prop, Option.some.injEq]
  constructor
  · rintro ⟨opening, _, ⟨us, rfl, hopening, rfl⟩, params, vs, hparams, brace, _,
      ⟨ws, hvs, hbrace, rfl⟩, body, hbody, rfl⟩
    exact ⟨hopening, params, vs, body, hparams, ⟨brace, ws, hvs, hbrace, hbody⟩, rfl⟩
  · rintro ⟨hopening, params, vs, body, hparams, ⟨brace, ws, hvs, hbrace, hbody⟩, rfl⟩
    obtain ⟨opening, after, rfl, hopening⟩ := exists_cons_of_currentKind hopening (by decide)
    exact ⟨opening, _, ⟨after, rfl, hopening, rfl⟩, params, vs, hparams, brace, _,
      ⟨ws, hvs, hbrace, rfl⟩, body, hbody, rfl⟩

/-! ## Expressions -/

theorem expression_gives :
    (expression stop p ts).Gives (some e) us ↔
      ∃ lhs vs, (primary stop ts).Gives (some lhs) vs ∧
        (operators stop p lhs vs).Gives (some e) us := by
  rw [expression, bind_gives]
  simp only [exists_prop]

/-- The loop over operators ends at a token that binds no tighter than `p`. -/
theorem operators_stop {lhs : Expr} (h : ¬ p < (nextKind ts).precedence) :
    (operators stop p lhs ts).Gives (some e) us ↔ lhs = e ∧ ts = us := by
  rw [operators_of_not_lt h]
  simp

theorem operators_binary {lhs : Expr} {op : BinaryOp} (ht : ts.tail = t :: rest)
    (h : p < t.kind.precedence) (hop : BinaryOp.ofKind? t.kind = some op) :
    (operators stop p lhs ts).Gives (some e) us ↔
      ∃ rhs vs, (expression stop op.precedence rest).Gives (some rhs) vs ∧
        (operators stop p (.binary op lhs rhs) vs).Gives (some e) us := by
  match ts with
  | last :: operator :: rest =>
    cases ht
    rw [operators, if_pos h]
    simp only [hop, within_gives, bind_gives, exists_prop]

theorem operators_call {lhs : Expr} (ht : ts.tail = t :: rest) (h : p < t.kind.precedence)
    (hop : BinaryOp.ofKind? t.kind = none) :
    (operators stop p lhs ts).Gives (some e) us ↔
      ∃ args vs, (arguments stop rest).Gives (some args) vs ∧
        (operators stop p (.call lhs args) vs).Gives (some e) us := by
  match ts with
  | last :: operator :: rest =>
    cases ht
    rw [operators, if_pos h]
    simp only [hop, within_gives, bind_gives, exists_prop]

/-! ## Arguments -/

theorem arguments_gives {args : List Expr} :
    (arguments stop ts).Gives (some args) us ↔
      (currentKind ts = .rightParen ∧ [] = args ∧ ts = us) ∨
        (currentKind ts ≠ .rightParen ∧ (argumentList stop ts).Gives (some args) us) := by
  rw [arguments]
  split
  · next h => simp [h]
  · next h => simp [h]

theorem argumentList_gives {args : List Expr} :
    (argumentList stop ts).Gives (some args) us ↔
      ∃ e vs separator rest, (expression stop .lowest ts).Gives (some e) vs ∧
        vs.tail = separator :: rest ∧
        ((separator.kind = .comma ∧ ∃ more, (argumentList stop rest).Gives (some more) us ∧
            e :: more = args) ∨
          (separator.kind = .rightParen ∧ [e] = args ∧ separator :: rest = us)) := by
  rw [argumentList, bind_gives]
  refine exists_congr fun e => exists_congr fun vs => ?_
  rcases vs with _ | ⟨last, _ | ⟨separator, rest⟩⟩
  · simp [mapSome_gives, expectNext_gives]
  · simp [mapSome_gives, expectNext_gives]
  · simp only [exists_prop]
    split
    · next hcomma =>
      simp only [within_gives, mapSome_gives]
      constructor
      · rintro ⟨he, more, hmore, rfl⟩
        exact ⟨separator, rest, he, rfl, .inl ⟨hcomma, more, hmore, rfl⟩⟩
      · rintro ⟨_, _, he, heq, ⟨-, more, hmore, rfl⟩ | ⟨hparen, -⟩⟩
        · cases heq
          exact ⟨he, more, hmore, rfl⟩
        · cases heq
          rw [hcomma] at hparen
          cases hparen
    · next hcomma =>
      simp only [mapSome_gives, expectNext_gives]
      constructor
      · rintro ⟨he, _, ⟨_, heq, hparen, rfl⟩, rfl⟩
        cases heq
        exact ⟨separator, rest, he, rfl, .inr ⟨hparen, rfl, rfl⟩⟩
      · rintro ⟨_, _, he, heq, ⟨hcomma', -⟩ | ⟨hparen, rfl, rfl⟩⟩
        · cases heq
          exact absurd hcomma' hcomma
        · cases heq
          exact ⟨he, separator, ⟨rest, rfl, hparen, rfl⟩, rfl⟩

/-! ## Statements -/

/-- The tokens from the next terminator on. -/
def fromTerminator (ts : List Token) : List Token :=
  ts.dropWhile fun t => !isTerminator t

theorem statement_kwLet {s : Stmt} (h : currentKind ts = .kwLet) :
    (statement stop ts).Gives (some s) us ↔
      ∃ name assign rest value vs, ts.tail = name :: assign :: rest ∧ name.kind = .ident ∧
        assign.kind = .assign ∧ (expression stop .lowest rest).Gives (some value) vs ∧
        fromTerminator vs = us ∧ .bind name.literal value = s := by
  rw [statement, if_pos h]
  simp only [bind_gives, expectNext_gives, toTerminator_gives, afterCurrent_gives, mapSome_gives,
    exists_prop]
  constructor
  · rintro ⟨name, _, ⟨ws, hts, hname, rfl⟩, assign, _, ⟨rest, rfl, hassign, rfl⟩, vs,
      ⟨value, hvalue, rfl⟩, rfl⟩
    exact ⟨name, assign, rest, value, vs, hts, hname, hassign, hvalue, rfl, rfl⟩
  · rintro ⟨name, assign, rest, value, vs, hts, hname, hassign, hvalue, rfl, rfl⟩
    exact ⟨name, _, ⟨_, hts, hname, rfl⟩, assign, _, ⟨rest, rfl, hassign, rfl⟩, vs,
      ⟨value, hvalue, rfl⟩, rfl⟩

theorem statement_kwReturn {s : Stmt} (h : currentKind ts = .kwReturn) :
    (statement stop ts).Gives (some s) us ↔
      ∃ value vs, (expression stop .lowest ts.tail).Gives (some value) vs ∧
        fromTerminator vs = us ∧ .ret value = s := by
  rw [statement, if_neg (by simp [h]), if_pos h]
  simp only [toTerminator_gives, afterCurrent_gives, mapSome_gives]
  constructor
  · rintro ⟨vs, ⟨value, hvalue, rfl⟩, rfl⟩
    exact ⟨value, vs, hvalue, rfl, rfl⟩
  · rintro ⟨value, vs, hvalue, rfl, rfl⟩
    exact ⟨vs, ⟨value, hvalue, rfl⟩, rfl⟩

theorem statement_expression {s : Stmt} (hlet : currentKind ts ≠ .kwLet)
    (hret : currentKind ts ≠ .kwReturn) :
    (statement stop ts).Gives (some s) us ↔
      ∃ value vs, (expression stop .lowest ts).Gives (some value) vs ∧
        (if nextKind vs = .semicolon then vs.tail else vs) = us ∧ .expr value = s := by
  rw [statement, if_neg hlet, if_neg hret]
  simp only [bind_gives, overSemicolon_gives, done_gives, exists_prop, Option.some.injEq]
  constructor
  · rintro ⟨value, vs, hvalue, _, ⟨rfl, rfl⟩, rfl⟩
    exact ⟨value, vs, hvalue, rfl, rfl⟩
  · rintro ⟨value, vs, hvalue, rfl, rfl⟩
    exact ⟨value, vs, hvalue, vs, ⟨rfl, rfl⟩, rfl⟩

theorem statements_stop {inBlock : Bool} {body : Block}
    (h : endsStatements inBlock (currentKind ts)) :
    (statements stop inBlock ts).Gives body us ↔ [] = body ∧ ts = us := by
  rw [statements_of_ends h]
  exact done_gives

theorem statements_more {inBlock : Bool} {body : Block}
    (h : ¬ endsStatements inBlock (currentKind ts)) :
    (statements stop inBlock ts).Gives body us ↔
      ∃ s vs more, (statement stop ts).Gives (some s) vs ∧
        (statements stop inBlock vs.tail).Gives more us ∧ s :: more = body := by
  match ts with
  | [] => exact absurd (Or.inl rfl) h
  | t :: rest =>
    have h' : ¬ (t.kind = .eof ∨ (inBlock ∧ t.kind = .rightBrace)) := h
    rw [statements, if_neg h']
    simp only [andThen_gives, countDropped_gives, afterCurrent_gives, map_gives, exists_prop]
    constructor
    · rintro ⟨s?, vs, hs, more, hmore, rfl⟩
      -- A statement that could not be read would have left an error behind.
      obtain ⟨s, hs'⟩ := (statement_accounted stop _).candid.gives hs.1
      obtain rfl : s? = some s := hs.2.1.symm.trans hs'.2.1
      exact ⟨s, vs, more, hs, hmore, rfl⟩
    · rintro ⟨s, vs, more, hs, hmore, rfl⟩
      exact ⟨some s, vs, hs, more, hmore, rfl⟩

end Reader

end Sprig
