import Sprig.Reading
import Sprig.Text.Decimal
import Sprig.Tree

/-!
# Reading trees from tokens

Expressions are read by precedence: `Reader.expression p` reads a primary expression and then takes
in operators and calls for as long as they bind tighter than `p`. After an expression the reader
stands on its last token. A statement that cannot be read is left out, and reading goes on after the
token on which it failed; after the value of a binding or a return, whether it could be read or not,
everything up to the next semicolon is passed over. The end of the input closes every block that is
still open.

All readers are defined together, by recursion on the number of tokens that are left; readers that
hand on the very same tokens are ordered by the small number that is added to the measure.
-/

namespace Sprig

namespace Reader

-- Where the input ends.
variable (stop : Span)

/-! ## Parameters -/

/-- One or more parameter names with commas between them, up to the closing parenthesis. The reader
starts on the first name. -/
def parameterNames : (ts : List Token) → Reading (Option (List String)) ts
  | [] => .fail (.unexpected .eof .ident) stop
  | [t] =>
    if t.kind = .ident then (expectNext stop .rightParen [t]).mapSome fun _ => [t.literal]
    else .fail (.unexpected t.kind .ident) t.span
  | t :: separator :: ts =>
    if t.kind = .ident then
      if separator.kind = .comma then
        ((parameterNames ts).mapSome (t.literal :: ·)).within
          ((List.suffix_cons separator ts).trans (List.suffix_cons t _))
      else
        (expectNext stop .rightParen (t :: separator :: ts)).mapSome fun _ => [t.literal]
    else .fail (.unexpected t.kind .ident) t.span

/-- The parameters of a function. The reader starts on the opening parenthesis. -/
def parameters (ts : List Token) : Reading (Option (List String)) ts :=
  if nextKind ts = .rightParen then (Reading.done (some [])).afterCurrent
  else (parameterNames stop ts.tail).afterCurrent

/-! ## Expressions and statements -/

mutual

/-- An expression whose operators all bind tighter than `p`. -/
def expression (p : Precedence) (ts : List Token) : Reading (Option Expr) ts :=
  (primary ts).bind fun lhs us _ => operators p lhs us
termination_by 8 * ts.length + 2
decreasing_by all_goals omega

/-- An expression that starts with no operand before it. -/
def primary (ts : List Token) : Reading (Option Expr) ts :=
  match ts with
  | [] => .fail (.notExpression .eof) stop
  | t :: rest =>
    match t.kind with
    | .ident => .done (some (.ident t.literal))
    | .integer =>
      match Text.readInt64? t.literal with
      | some n => .done (some (.int n))
      | none => .fail (.badInteger t.literal) t.span
    | .string => .done (some (.str t.literal))
    | .kwTrue => .done (some (.bool true))
    | .kwFalse => .done (some (.bool false))
    | .bang => ((expression .unary rest).mapSome (.unary .not)).within (List.suffix_cons t rest)
    | .minus =>
      ((expression .unary rest).mapSome (.unary .negate)).within (List.suffix_cons t rest)
    | .leftParen =>
      Reading.within (List.suffix_cons t rest) <|
        (expression .lowest rest).bind fun e us _ =>
          (expectNext stop .rightParen us).mapSome fun _ => e
    | .kwIf =>
      (expectNext stop .leftParen (t :: rest)).bind fun _ us _ =>
        (expression .lowest us.tail).afterCurrent.bind fun test vs _ =>
          (expectNext stop .rightParen vs).bind fun _ ws _ =>
            (expectNext stop .leftBrace ws).bind fun _ xs _ =>
              (statements true xs.tail).countUnclosed.afterCurrent.andThen fun consequence ys _ =>
                if nextKind ys = .kwElse then
                  Reading.afterCurrent <|
                    (expectNext stop .leftBrace ys.tail).bind fun _ zs _ =>
                      (statements true zs.tail).countUnclosed.afterCurrent.map fun alternative =>
                        some (.cond test consequence (some alternative))
                else .done (some (.cond test consequence none))
    | .kwFn =>
      (expectNext stop .leftParen (t :: rest)).bind fun _ us _ =>
        (parameters stop us).bind fun params vs _ =>
          (expectNext stop .leftBrace vs).bind fun _ ws _ =>
            (statements true ws.tail).countUnclosed.afterCurrent.map fun body =>
              some (.fn params body)
    | kind => .fail (.notExpression kind) t.span
termination_by 8 * ts.length + 1
decreasing_by all_goals simp only [List.length_cons, List.length_tail] at *; omega

/-- The operators and calls after `lhs` that bind tighter than `p`. The reader starts on the last
token of `lhs`. -/
def operators (p : Precedence) (lhs : Expr) (ts : List Token) : Reading (Option Expr) ts :=
  match ts with
  | last :: operator :: rest =>
    if p < operator.kind.precedence then
      Reading.within ((List.suffix_cons operator rest).trans (List.suffix_cons last _)) <|
        match BinaryOp.ofKind? operator.kind with
        | some op =>
          (expression op.precedence rest).bind fun rhs us _ => operators p (.binary op lhs rhs) us
        | none =>
          (arguments rest).bind fun args us _ => operators p (.call lhs args) us
    else .done (some lhs)
  | _ => .done (some lhs)
termination_by 8 * ts.length + 1
decreasing_by all_goals simp only [List.length_cons] at *; omega

/-- The arguments of a call and the closing parenthesis. The reader starts after the opening one. -/
def arguments (ts : List Token) : Reading (Option (List Expr)) ts :=
  if currentKind ts = .rightParen then .done (some []) else argumentList ts
termination_by 8 * ts.length + 4

/-- One or more expressions with commas between them, up to the closing parenthesis. -/
def argumentList (ts : List Token) : Reading (Option (List Expr)) ts :=
  (expression .lowest ts).bind fun e us _ =>
    match us with
    | last :: separator :: more =>
      if separator.kind = .comma then
        ((argumentList more).mapSome (e :: ·)).within
          ((List.suffix_cons separator more).trans (List.suffix_cons last _))
      else (expectNext stop .rightParen (last :: separator :: more)).mapSome fun _ => [e]
    | short => (expectNext stop .rightParen short).mapSome fun _ => [e]
termination_by 8 * ts.length + 3
decreasing_by
  · omega
  · simp only [List.length_cons] at *; omega

/-- A statement. -/
def statement (ts : List Token) : Reading (Option Stmt) ts :=
  if currentKind ts = .kwLet then
    (expectNext stop .ident ts).bind fun name us _ =>
      (expectNext stop .assign us).bind fun _ vs _ =>
        ((expression .lowest vs.tail).mapSome (.bind name.literal)).afterCurrent.toTerminator
  else if currentKind ts = .kwReturn then
    ((expression .lowest ts.tail).mapSome .ret).afterCurrent.toTerminator
  else (expression .lowest ts).bind fun e us _ => (Reading.done (some (.expr e))).overSemicolon
termination_by 8 * ts.length + 3
decreasing_by
  · simp only [List.length_tail]; omega
  · simp only [List.length_tail]; omega
  · omega

/-- Statements up to the end of the input and, inside a block, up to its closing brace. A statement
that cannot be read is left out. -/
def statements (inBlock : Bool) (ts : List Token) : Reading (List Stmt) ts :=
  match ts with
  | [] => .done []
  | t :: rest =>
    if t.kind = .eof ∨ (inBlock ∧ t.kind = .rightBrace) then .done []
    else
      (statement (t :: rest)).countDropped.andThen fun first us _ =>
        ((statements inBlock us.tail).map (first.toList ++ ·)).afterCurrent
termination_by 8 * ts.length + 4
decreasing_by all_goals simp only [List.length_cons, List.length_tail] at *; omega

end

end Reader

end Sprig
