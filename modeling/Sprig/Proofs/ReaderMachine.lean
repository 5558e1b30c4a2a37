import Mathlib.Logic.Relation
import Sprig.Proofs.ReaderLaw
import Sprig.Tree.Parsed

/-!
# Reading step by step

A machine that reads tokens in single steps. It calls a routine, or comes back from one and goes on
with what is left to do, and it looks at the current token and the next and at no other. Nothing
bounds the number of its steps: its loops go on until they see a token that ends them, wherever that
may be, and once the tokens have run out it sees the end of the input for ever. Whatever the tokens
are, and wherever among them a reader stands, the machine comes to an end, and with what the readers
give (`ReaderMachine.leads_statements` and its companions). The proof goes along the recursion by
which the readers are defined.
-/

namespace Sprig

/-! ## The machine -/

/-- The routines that reading consists of. -/
inductive Routine where
  | statements
  | statement
  | expression
  | primary
  | operators
  | names
  | arguments
  | terminator
deriving DecidableEq

/-- A routine that is called, with what it has read already. -/
inductive Task where
  /-- Goes round a loop, once for each statement. -/
  | statements (inBlock : Bool) (before : Block)
  | statement
  | expression (p : Precedence)
  | primary
  /-- Goes round a loop, once for each operator or call after the operand. -/
  | operators (p : Precedence) (lhs : Expr)
  /-- Goes round a loop, once for each name of a parameter. -/
  | names (before : List String)
  /-- Goes round a loop, once for each argument. -/
  | arguments (before : List Expr)
  /-- Goes round a loop, once for each token that is passed over. -/
  | terminator

/-- The routine of a task. -/
def Task.routine : Task → Routine
  | statements _ _ => .statements
  | statement => .statement
  | expression _ => .expression
  | primary => .primary
  | operators _ _ => .operators
  | names _ => .names
  | arguments _ => .arguments
  | terminator => .terminator

/-- What a routine has read. -/
inductive Phrase where
  | expr (e : Expr)
  | exprs (es : List Expr)
  | names (names : List String)
  | stmt (s : Stmt)
  | block (body : Block)
  /-- The reader stands where a statement may end. -/
  | terminator

/-- What is left to do once a routine comes back. -/
inductive Pending where
  /-- The operators after an operand are next. -/
  | operators (p : Precedence)
  | unary (op : UnaryOp)
  /-- The right operand has been read, and more operators are next. -/
  | binary (p : Precedence) (op : BinaryOp) (lhs : Expr)
  /-- The arguments have been read, and more operators are next. -/
  | call (p : Precedence) (callee : Expr)
  /-- More arguments are next, after those that have been read. -/
  | argument (before : List Expr)
  /-- An expression in parentheses. -/
  | group
  /-- The condition of a conditional. -/
  | test
  | consequence (test : Expr)
  | alternative (test : Expr) (consequence : Block)
  | parameters
  | body (params : List String)
  /-- The value of a binding. -/
  | bind (name : String)
  /-- The value of a return. -/
  | ret
  /-- The statement is read, if it could be, and only the way to its end is left. -/
  | finish (s : Option Stmt)
  | expr
  /-- More statements are next, after those that have been read. -/
  | next (inBlock : Bool) (before : Block)

/-- The machine. A routine that fails comes back with nothing. -/
inductive ReaderMachine where
  | call (task : Task) (r : Reader) (todo : List Pending)
  | back (phrase : Option Phrase) (r : Reader) (todo : List Pending)

namespace Reader

/-- The token on which the reader stands. -/
def current (r : Reader) : Token :=
  (⟨r.tokens, r.stop⟩ : TokenStream).get 0

/-- Steps onto the next token. -/
def advance (r : Reader) : Reader :=
  { r with tokens := r.tokens.tail }

/-- The reader after a reading. -/
def after {α : Type} {ts : List Token} (r : Reader) (reading : Reading α ts) : Reader :=
  ⟨reading.rest, r.stop, r.errors ++ reading.errors⟩

end Reader

namespace ReaderMachine

/-- Comes back with nothing, because of an error at the current token. -/
def fail (r : Reader) (todo : List Pending) (cause : SyntaxError.Cause) : ReaderMachine :=
  .back none { r with errors := r.errors ++ [⟨cause, r.current.span⟩] } todo

/-- Goes on with the next token if it is of the given kind, and comes back with nothing otherwise. -/
def expecting (kind : TokenKind) (r : Reader) (todo : List Pending)
    (go : Token → Reader → ReaderMachine) : ReaderMachine :=
  let reading := expectNext r.stop kind r.tokens
  match reading.value with
  | some t => go t (r.after reading)
  | none => .back none (r.after reading) todo

/-- Comes back with an integer, if the literal is one. -/
def stepInteger (r : Reader) (todo : List Pending) : Option Int64 → ReaderMachine
  | some n => .back (some (.expr (.int n))) r todo
  | none => fail r todo (.badInteger r.current.literal)

/-- Begins to read an expression that has no operand before it. -/
def stepPrimary (r : Reader) (todo : List Pending) : ReaderMachine :=
  match currentKind r.tokens with
  | .ident => .back (some (.expr (.ident r.current.literal))) r todo
  | .integer => stepInteger r todo (Text.readInt64? r.current.literal)
  | .string => .back (some (.expr (.str r.current.literal))) r todo
  | .kwTrue => .back (some (.expr (.bool true))) r todo
  | .kwFalse => .back (some (.expr (.bool false))) r todo
  | .bang => .call (.expression .unary) r.advance (.unary .not :: todo)
  | .minus => .call (.expression .unary) r.advance (.unary .negate :: todo)
  | .leftParen => .call (.expression .lowest) r.advance (.group :: todo)
  | .kwIf =>
    expecting .leftParen r todo fun _ r =>
      .call (.expression .lowest) r.advance (.test :: todo)
  | .kwFn =>
    expecting .leftParen r todo fun _ r =>
      if nextKind r.tokens = .rightParen then
        .back (some (.names [])) r.advance (.parameters :: todo)
      else .call (.names []) r.advance (.parameters :: todo)
  | kind => fail r todo (.notExpression kind)

/-- Begins with a routine, or with the next round of a loop. -/
def stepCall (r : Reader) (todo : List Pending) : Task → ReaderMachine
  | .statements inBlock before =>
    if currentKind r.tokens = .eof ∨ (inBlock ∧ currentKind r.tokens = .rightBrace) then
      .back (some (.block before)) r todo
    else .call .statement r (.next inBlock before :: todo)
  | .statement =>
    if currentKind r.tokens = .kwLet then
      expecting .ident r todo fun name r =>
        expecting .assign r todo fun _ r =>
          .call (.expression .lowest) r.advance (.bind name.literal :: todo)
    else if currentKind r.tokens = .kwReturn then
      .call (.expression .lowest) r.advance (.ret :: todo)
    else .call (.expression .lowest) r (.expr :: todo)
  | .expression p => .call .primary r (.operators p :: todo)
  | .primary => stepPrimary r todo
  | .operators p lhs =>
    if p < (nextKind r.tokens).precedence then
      match BinaryOp.ofKind? (nextKind r.tokens) with
      | some op => .call (.expression op.precedence) r.advance.advance (.binary p op lhs :: todo)
      | none =>
        if nextKind r.advance.tokens = .rightParen then
          .back (some (.exprs [])) r.advance.advance (.call p lhs :: todo)
        else .call (.arguments []) r.advance.advance (.call p lhs :: todo)
    else .back (some (.expr lhs)) r todo
  | .names before =>
    if currentKind r.tokens = .ident then
      if nextKind r.tokens = .comma then
        .call (.names (before ++ [r.current.literal])) r.advance.advance todo
      else
        expecting .rightParen r todo fun _ r' =>
          .back (some (.names (before ++ [r.current.literal]))) r' todo
    else fail r todo (.unexpected (currentKind r.tokens) .ident)
  | .arguments before => .call (.expression .lowest) r (.argument before :: todo)
  | .terminator =>
    if currentKind r.tokens = .semicolon ∨ currentKind r.tokens = .eof then
      .back (some .terminator) r todo
    else .call .terminator r.advance todo

/-- Goes on with what a routine has read. No routine comes back to what cannot take its phrase. -/
def stepBack (r : Reader) (todo : List Pending) : Pending → Phrase → ReaderMachine
  | .operators p, .expr lhs => .call (.operators p lhs) r todo
  | .unary op, .expr e => .back (some (.expr (.unary op e))) r todo
  | .binary p op lhs, .expr rhs => .call (.operators p (.binary op lhs rhs)) r todo
  | .call p callee, .exprs args => .call (.operators p (.call callee args)) r todo
  | .argument before, .expr e =>
    if nextKind r.tokens = .comma then
      .call (.arguments (before ++ [e])) r.advance.advance todo
    else expecting .rightParen r todo fun _ r => .back (some (.exprs (before ++ [e]))) r todo
  | .group, .expr e => expecting .rightParen r todo fun _ r => .back (some (.expr e)) r todo
  | .test, .expr test =>
    expecting .rightParen r todo fun _ r =>
      expecting .leftBrace r todo fun _ r =>
        .call (.statements true []) r.advance (.consequence test :: todo)
  | .consequence test, .block consequence =>
    if nextKind r.tokens = .kwElse then
      expecting .leftBrace r.advance todo fun _ r =>
        .call (.statements true []) r.advance (.alternative test consequence :: todo)
    else .back (some (.expr (.cond test consequence none))) r todo
  | .alternative test consequence, .block alternative =>
    .back (some (.expr (.cond test consequence (some alternative)))) r todo
  | .parameters, .names params =>
    expecting .leftBrace r todo fun _ r =>
      .call (.statements true []) r.advance (.body params :: todo)
  | .body params, .block body => .back (some (.expr (.fn params body))) r todo
  | .bind name, .expr e => .call .terminator r (.finish (some (.bind name e)) :: todo)
  | .ret, .expr e => .call .terminator r (.finish (some (.ret e)) :: todo)
  | .finish s, .terminator => .back (s.map .stmt) r todo
  | .expr, .expr e =>
    .back (some (.stmt (.expr e))) (if nextKind r.tokens = .semicolon then r.advance else r) todo
  | .next inBlock before, .stmt s => .call (.statements inBlock (before ++ [s])) r.advance todo
  | _, _ => .back none r todo

/-- Goes on after a routine that failed. Only statements are read on. -/
def stepFailed (r : Reader) (todo : List Pending) : Pending → ReaderMachine
  | .bind _ | .ret => .call .terminator r (.finish none :: todo)
  | .next inBlock before => .call (.statements inBlock before) r.advance todo
  | _ => .back none r todo

/-- One step of the machine. It stops when it comes back and nothing is left to do. -/
def step : ReaderMachine → Option ReaderMachine
  | .call task r todo => some (stepCall r todo task)
  | .back _ _ [] => none
  | .back (some phrase) r (next :: todo) => some (stepBack r todo next phrase)
  | .back none r (next :: todo) => some (stepFailed r todo next)

/-- The machine gets from one configuration to another. -/
def Leads : ReaderMachine → ReaderMachine → Prop :=
  Relation.ReflTransGen fun m m' => m.step = some m'

/-! ## What it comes back with -/

section Reads

variable {α β : Type} {ts : List Token} {m : ReaderMachine} {r : Reader} {todo : List Pending}

/-- The machine comes back with what the reading gives, and stands where the reading ends. -/
def Reads (m : ReaderMachine) (wrap : α → Phrase) (r : Reader) (x : Reading (Option α) ts)
    (todo : List Pending) : Prop :=
  Leads m (.back (x.value.map wrap) (r.after x) todo)

theorem after_done (r : Reader) (a : α) : r.after (.done a : Reading α r.tokens) = r := by
  rw [Reader.after, Reading.done, List.append_nil]

theorem reads_done {wrap : α → Phrase} (a : α) :
    Reads (.back (some (wrap a)) r todo) wrap r (.done (some a) : Reading _ r.tokens) todo := by
  rw [Reads, after_done]
  exact .refl

theorem after_bind_of_none {x : Reading (Option α) ts}
    {f : α → (us : List Token) → us.length ≤ ts.length → Reading (Option β) us}
    (h : x.value = none) : r.after (x.bind f) = r.after x := by
  rw [Reading.bind_of_none h]
  rfl

theorem after_bind_of_some {x : Reading (Option α) ts} {a : α}
    {f : α → (us : List Token) → us.length ≤ ts.length → Reading (Option β) us}
    (h : x.value = some a) :
    r.after (x.bind f) = (r.after x).after (f a x.rest x.length_rest_le) := by
  rw [Reading.bind_of_some h]
  simp only [Reader.after, List.append_assoc]

theorem reads_fail {wrap : α → Phrase} (cause : SyntaxError.Cause) :
    Reads (fail r todo cause) wrap r (.fail cause r.current.span : Reading _ r.tokens) todo :=
  .refl

theorem reads_call {wrap : α → Phrase} {task : Task} {x : Reading (Option α) ts}
    (h : Reads (stepCall r todo task) wrap r x todo) : Reads (.call task r todo) wrap r x todo :=
  .head rfl h

/-- A reading that starts further on. -/
theorem Reads.within {wrap : α → Phrase} {us : List Token} {x : Reading (Option α) us}
    (h : Reads m wrap ⟨us, r.stop, r.errors⟩ x todo) (hsuffix : us <:+ ts) :
    Reads m wrap r (x.within hsuffix) todo :=
  h

/-- What is read is put to another use. -/
theorem Reads.mapSome {wrap : α → Phrase} {wrap' : β → Phrase} {f : α → β}
    {x : Reading (Option α) ts} (h : Reads m wrap r x todo) (hf : ∀ a, wrap a = wrap' (f a)) :
    Reads m wrap' r (x.mapSome f) todo := by
  have hvalue : x.value.map wrap = (x.mapSome f).value.map wrap' := by
    show _ = (x.value.map f).map wrap'
    rw [Option.map_map]
    exact congrArg (x.value.map ·) (funext hf)
  rw [Reads, hvalue] at h
  exact h

/-- What is left to do takes in what was read. -/
theorem Reads.resume {wrap : α → Phrase} {wrap' : β → Phrase} {f : α → β}
    {x : Reading (Option α) ts} {next : Pending} (h : Reads m wrap r x (next :: todo))
    (hfail : ∀ r, stepFailed r todo next = .back none r todo)
    (hgo : ∀ a r, stepBack r todo next (wrap a) = .back (some (wrap' (f a))) r todo) :
    Reads m wrap' r (x.mapSome f) todo := by
  refine Relation.ReflTransGen.tail h ?_
  show _ = some (ReaderMachine.back ((x.value.map f).map wrap') _ _)
  cases hv : x.value with
  | none => exact congrArg some (hfail _)
  | some a => exact congrArg some (hgo a _)

/-- What is left to do reads on, unless nothing was read. -/
theorem Reads.bind {wrap : α → Phrase} {wrap' : β → Phrase} {x : Reading (Option α) ts}
    {f : α → (us : List Token) → us.length ≤ ts.length → Reading (Option β) us} {next : Pending}
    (h : Reads m wrap r x (next :: todo))
    (hfail : ∀ r, stepFailed r todo next = .back none r todo)
    (hgo : ∀ a us h errors, Reads (stepBack ⟨us, r.stop, errors⟩ todo next (wrap a)) wrap'
      ⟨us, r.stop, errors⟩ (f a us h) todo) :
    Reads m wrap' r (x.bind f) todo := by
  rw [Reads] at h
  cases hv : x.value with
  | none =>
    rw [hv] at h
    rw [Reads, after_bind_of_none hv, Reading.value_bind_of_none hv]
    exact Relation.ReflTransGen.tail h (congrArg some (hfail _))
  | some a =>
    rw [hv] at h
    have hstep := Relation.ReflTransGen.tail h
      (rfl : step _ = some (stepBack (r.after x) todo next (wrap a)))
    rw [Reads, after_bind_of_some hv, Reading.bind_of_some hv]
    exact hstep.trans (hgo a _ _ _)

/-- A token that must be there, and what is read after it. -/
theorem reads_expecting {wrap : β → Phrase} {kind : TokenKind} {go : Token → Reader → ReaderMachine}
    {f : Token → (us : List Token) → us.length ≤ r.tokens.length → Reading (Option β) us}
    (hgo : ∀ t us h errors, Reads (go t ⟨us, r.stop, errors⟩) wrap ⟨us, r.stop, errors⟩
      (f t us h) todo) :
    Reads (expecting kind r todo go) wrap r ((expectNext r.stop kind r.tokens).bind f) todo := by
  rw [expecting]
  cases hv : (expectNext r.stop kind r.tokens).value with
  | none =>
    rw [Reads, after_bind_of_none hv, Reading.value_bind_of_none hv]
    exact .refl
  | some t =>
    rw [Reads, after_bind_of_some hv, Reading.bind_of_some hv]
    exact hgo t _ _ _

/-- A token that must be there, and nothing after it. -/
theorem reads_closing (wrap : β → Phrase) {kind : TokenKind} (b : β) :
    Reads (expecting kind r todo fun _ r => .back (some (wrap b)) r todo) wrap r
      ((expectNext r.stop kind r.tokens).mapSome fun _ => b) todo := by
  rw [expecting]
  show Leads _ (.back (((expectNext r.stop kind r.tokens).value.map fun _ => b).map wrap) _ _)
  cases hv : (expectNext r.stop kind r.tokens).value <;> exact .refl

/-- Reads on after a block. A block cannot fail. -/
theorem reads_andThen_block {wrap : β → Phrase} {x : Reading Block ts.tail}
    {f : Block → (us : List Token) → us.length ≤ ts.length → Reading (Option β) us}
    {next : Pending} (h : Leads m (.back (some (.block x.value)) (r.after x) (next :: todo)))
    (hfail : ∀ r, stepFailed r todo next = .back none r todo)
    (hgo : ∀ a us h errors, Reads (stepBack ⟨us, r.stop, errors⟩ todo next (.block a)) wrap
      ⟨us, r.stop, errors⟩ (f a us h) todo) :
    Reads m wrap r (x.countUnclosed.afterCurrent.andThen f) todo :=
  have hblock : Reads m .block r x.block (next :: todo) := h
  hblock.bind hfail hgo

theorem reads_map_block {wrap : β → Phrase} {x : Reading Block ts.tail} {f : Block → β}
    {next : Pending} (h : Leads m (.back (some (.block x.value)) (r.after x) (next :: todo)))
    (hfail : ∀ r, stepFailed r todo next = .back none r todo)
    (hgo : ∀ a r, stepBack r todo next (.block a) = .back (some (wrap (f a))) r todo) :
    Reads m wrap r (x.countUnclosed.afterCurrent.map fun body => some (f body)) todo :=
  have hblock : Reads m .block r x.block (next :: todo) := h
  hblock.resume hfail hgo

end Reads

/-! ## Agreement with the readers -/

section Agreement

open Reader

theorem leads_terminator (ts : List Token) (stop : Span) (errors : List SyntaxError)
    (todo : List Pending) :
    Leads (.call .terminator ⟨ts, stop, errors⟩ todo)
      (.back (some .terminator) ⟨ts.dropWhile fun t => !isTerminator t, stop, errors⟩ todo) := by
  induction ts with
  | nil => exact .single rfl
  | cons t ts ih =>
    by_cases hterm : t.kind = .semicolon ∨ t.kind = .eof
    · have hstays : currentKind (t :: ts) = .semicolon ∨ currentKind (t :: ts) = .eof := hterm
      rw [ReaderLaw.dropWhile_of_terminator hstays]
      exact .single (congrArg some (if_pos hterm))
    · have hgoes : (!isTerminator t) = true := by
        rw [isTerminator]
        simpa using hterm
      rw [List.dropWhile_cons, hgoes]
      exact ih.head (congrArg some (if_neg hterm))

/-- A value and all that stands between it and the end of the statement. -/
theorem Reads.finish {m : ReaderMachine} {r : Reader} {todo : List Pending} {ts : List Token}
    {x : Reading (Option Expr) ts} {f : Expr → Stmt} {next : Pending}
    (h : Reads m .expr r x (next :: todo))
    (hfail : ∀ r, stepFailed r todo next = .call .terminator r (.finish none :: todo))
    (hgo : ∀ e r, stepBack r todo next (.expr e) =
      .call .terminator r (.finish (some (f e)) :: todo)) :
    Reads m .stmt r (x.mapSome f).toTerminator todo := by
  have hstep : Leads m (.call .terminator (r.after x) (.finish (x.value.map f) :: todo)) := by
    refine Relation.ReflTransGen.tail h ?_
    cases hv : x.value with
    | none => exact congrArg some (hfail _)
    | some e => exact congrArg some (hgo e _)
  exact (hstep.trans (leads_terminator _ _ _ _)).tail rfl

theorem reads_overSemicolon {r : Reader} {todo : List Pending} (e : Expr) :
    Reads (stepBack r todo .expr (.expr e)) .stmt r
      (Reading.done (some (.expr e)) : Reading (Option Stmt) r.tokens).overSemicolon todo := by
  rw [stepBack]
  by_cases h : nextKind r.tokens = .semicolon
  · have hover : (Reading.done (some (.expr e)) : Reading (Option Stmt) r.tokens).overSemicolon =
        (Reading.done (some (.expr e))).afterCurrent := if_pos h
    rw [hover, if_pos h]
    exact reads_done (r := r.advance) (Stmt.expr e)
  · have hover : (Reading.done (some (.expr e)) : Reading (Option Stmt) r.tokens).overSemicolon =
        .done (some (.expr e)) := if_neg h
    rw [hover, if_neg h]
    exact reads_done (Stmt.expr e)

theorem reads_names (ts : List Token) (stop : Span) (errors : List SyntaxError)
    (before : List String) (todo : List Pending) :
    Reads (.call (.names before) ⟨ts, stop, errors⟩ todo) (fun names => .names (before ++ names))
      ⟨ts, stop, errors⟩ (parameterNames stop ts) todo := by
  apply reads_call
  rw [parameterNames_eq, stepCall]
  split
  · next hk =>
    obtain ⟨t, rest, hts, -⟩ := exists_cons_of_currentKind hk (by decide)
    have hlength : ts.length = rest.length + 1 := congrArg List.length hts
    split
    · refine (reads_names ts.tail.tail stop errors _ todo).mapSome fun names => ?_
      rw [List.append_assoc]
      rfl
    · exact reads_closing (fun names => .names (before ++ names)) _
  · exact reads_fail _
termination_by ts.length
decreasing_by
  simp only [List.length_tail]
  omega

theorem reads_parameters (r : Reader) (todo : List Pending) :
    Reads (if nextKind r.tokens = .rightParen then .back (some (.names [])) r.advance todo
      else .call (.names []) r.advance todo) .names r (parameters r.stop r.tokens) todo := by
  unfold parameters
  split
  · exact reads_done (r := r.advance) []
  · exact reads_names r.tokens.tail r.stop r.errors [] todo

-- The induction is that of the readers. It goes by the tokens that are left, whatever is left to do:
-- a routine comes back before what called it goes on, and by then more tokens may have been taken.
mutual

theorem reads_expression (p : Precedence) (ts : List Token) (stop : Span)
    (errors : List SyntaxError) (todo : List Pending) :
    Reads (.call (.expression p) ⟨ts, stop, errors⟩ todo) .expr ⟨ts, stop, errors⟩
      (expression stop p ts) todo := by
  have hprimary := reads_primary ts stop errors (.operators p :: todo)
  rw [expression]
  refine Reads.bind (.head rfl hprimary) (fun _ => rfl) fun lhs us hus errors => ?_
  exact reads_operators p lhs us stop errors todo
termination_by 8 * ts.length + 2
decreasing_by all_goals omega

theorem reads_primary (ts : List Token) (stop : Span) (errors : List SyntaxError)
    (todo : List Pending) :
    Reads (.call .primary ⟨ts, stop, errors⟩ todo) .expr ⟨ts, stop, errors⟩ (primary stop ts)
      todo := by
  apply reads_call
  rw [stepCall]
  by_cases hend : currentKind ts = .eof
  · rw [primary_of_eof hend, stepPrimary, hend]
    exact reads_fail _
  · obtain ⟨t, rest, hts, -⟩ := exists_cons_of_currentKind rfl hend
    have hlength : ts.length = rest.length + 1 := congrArg List.length hts
    have hkind : currentKind ts = t.kind := by rw [hts]; rfl
    rw [stepPrimary, hkind, hts, primary]
    cases hk : t.kind with
    | ident => exact reads_done _
    | integer =>
      show Reads (stepInteger _ _ (Text.readInt64? t.literal)) _ _ _ _
      cases Text.readInt64? t.literal with
      | some n => exact reads_done _
      | none => exact reads_fail _
    | string => exact reads_done _
    | kwTrue => exact reads_done _
    | kwFalse => exact reads_done _
    | bang =>
      have hoperand := reads_expression .unary rest stop errors (.unary .not :: todo)
      exact hoperand.resume (fun _ => rfl) fun _ _ => rfl
    | minus =>
      have hoperand := reads_expression .unary rest stop errors (.unary .negate :: todo)
      exact hoperand.resume (fun _ => rfl) fun _ _ => rfl
    | leftParen =>
      have hinner := reads_expression .lowest rest stop errors (.group :: todo)
      refine (hinner.bind (fun _ => rfl) fun e us _ errors => ?_).within _
      exact reads_closing .expr e
    | kwIf =>
      refine reads_expecting fun _ us hus errors => ?_
      have htest := reads_expression .lowest us.tail stop errors (.test :: todo)
      refine (htest.within (List.tail_suffix _)).bind (fun _ => rfl) fun test vs hvs errors => ?_
      rw [stepBack]
      refine reads_expecting fun _ ws hws errors => ?_
      refine reads_expecting fun _ xs hxs errors => ?_
      have hthen := leads_statements true [] xs.tail stop errors (.consequence test :: todo)
      refine reads_andThen_block hthen (fun _ => rfl) fun consequence ys hys errors => ?_
      show Reads (if nextKind ys = .kwElse then _ else _) _ _ _ _
      by_cases helse : nextKind ys = .kwElse
      · rw [if_pos helse, if_pos helse]
        refine Reads.within (reads_expecting fun _ zs hzs errors => ?_) _
        have hother := leads_statements true [] zs.tail stop errors
          (.alternative test consequence :: todo)
        exact reads_map_block hother (fun _ => rfl) fun _ _ => rfl
      · rw [if_neg helse, if_neg helse]
        exact reads_done _
    | kwFn =>
      refine reads_expecting fun _ us hus errors => ?_
      have hparams := reads_parameters ⟨us, stop, errors⟩ (.parameters :: todo)
      refine hparams.bind (fun _ => rfl) fun params vs hvs errors => ?_
      rw [stepBack]
      refine reads_expecting fun _ ws hws errors => ?_
      have hbody := leads_statements true [] ws.tail stop errors (.body params :: todo)
      exact reads_map_block hbody (fun _ => rfl) fun _ _ => rfl
    | _ => exact reads_fail _
termination_by 8 * ts.length + 1
decreasing_by all_goals simp only [advance, List.length_cons, List.length_tail] at *; omega

theorem reads_operators (p : Precedence) (lhs : Expr) (ts : List Token) (stop : Span)
    (errors : List SyntaxError) (todo : List Pending) :
    Reads (.call (.operators p lhs) ⟨ts, stop, errors⟩ todo) .expr ⟨ts, stop, errors⟩
      (operators stop p lhs ts) todo := by
  apply reads_call
  rw [stepCall]
  by_cases hlt : p < (nextKind ts).precedence
  · rw [if_pos hlt]
    obtain ⟨last, operator, rest, hts⟩ := exists_cons_cons_of_nextKind (ne_eof_of_lt hlt)
    have hlength : ts.length = rest.length + 2 := congrArg List.length hts
    have hnext : nextKind ts = operator.kind := by rw [hts]; rfl
    rw [hnext] at hlt ⊢
    rw [hts, operators, if_pos hlt]
    cases BinaryOp.ofKind? operator.kind with
    | some op =>
      have hright := reads_expression op.precedence rest stop errors (.binary p op lhs :: todo)
      refine (hright.bind (fun _ => rfl) fun rhs us hus errors => ?_).within _
      exact reads_operators p (.binary op lhs rhs) us stop errors todo
    | none =>
      have hargs : Reads (if currentKind rest = .rightParen then
          .back (some (.exprs [])) ⟨rest, stop, errors⟩ (.call p lhs :: todo)
          else .call (.arguments []) ⟨rest, stop, errors⟩ (.call p lhs :: todo))
          .exprs ⟨rest, stop, errors⟩ (arguments stop rest) (.call p lhs :: todo) := by
        rw [arguments]
        split
        · exact reads_done []
        · exact reads_arguments [] rest stop errors (.call p lhs :: todo)
      refine (hargs.bind (fun _ => rfl) fun args us hus errors => ?_).within _
      exact reads_operators p (.call lhs args) us stop errors todo
  · rw [operators_of_not_lt hlt, if_neg hlt]
    exact reads_done lhs
termination_by 8 * ts.length + 1
decreasing_by all_goals omega

theorem reads_arguments (before : List Expr) (ts : List Token) (stop : Span)
    (errors : List SyntaxError) (todo : List Pending) :
    Reads (.call (.arguments before) ⟨ts, stop, errors⟩ todo)
      (fun args => .exprs (before ++ args)) ⟨ts, stop, errors⟩ (argumentList stop ts) todo := by
  have hfirst := reads_expression .lowest ts stop errors (.argument before :: todo)
  rw [argumentList_eq]
  refine Reads.bind (.head rfl hfirst) (fun _ => rfl) fun e us hus errors => ?_
  show Reads (if nextKind us = .comma then _ else _) _ _ _ _
  by_cases hcomma : nextKind us = .comma
  · rw [if_pos hcomma, if_pos hcomma]
    obtain ⟨last, separator, more, rfl⟩ :=
      exists_cons_cons_of_nextKind (by rw [hcomma]; decide : nextKind us ≠ .eof)
    have hmore : more.length + 2 ≤ ts.length := hus
    refine Reads.within (Reads.mapSome (reads_arguments _ more stop errors todo) ?_) _
    intro args
    rw [List.append_assoc]
    rfl
  · rw [if_neg hcomma, if_neg hcomma]
    exact reads_closing (fun args => .exprs (before ++ args)) [e]
termination_by 8 * ts.length + 3
decreasing_by all_goals omega

theorem reads_statement (ts : List Token) (stop : Span) (errors : List SyntaxError)
    (todo : List Pending) :
    Reads (.call .statement ⟨ts, stop, errors⟩ todo) .stmt ⟨ts, stop, errors⟩
      (statement stop ts) todo := by
  apply reads_call
  rw [statement, stepCall]
  by_cases hlet : currentKind ts = .kwLet
  · rw [if_pos hlet, if_pos hlet]
    refine reads_expecting fun name us hus errors => ?_
    refine reads_expecting fun _ vs hvs errors => ?_
    have hvalue := reads_expression .lowest vs.tail stop errors (.bind name.literal :: todo)
    exact hvalue.finish (fun _ => rfl) fun _ _ => rfl
  rw [if_neg hlet, if_neg hlet]
  by_cases hreturn : currentKind ts = .kwReturn
  · rw [if_pos hreturn, if_pos hreturn]
    have hvalue := reads_expression .lowest ts.tail stop errors (.ret :: todo)
    exact hvalue.finish (fun _ => rfl) fun _ _ => rfl
  rw [if_neg hreturn, if_neg hreturn]
  have hexpr := reads_expression .lowest ts stop errors (.expr :: todo)
  refine hexpr.bind (fun _ => rfl) fun e us _ errors => ?_
  exact reads_overSemicolon e
termination_by 8 * ts.length + 3
decreasing_by
  · simp only [List.length_tail] at *; omega
  · simp only [List.length_tail]; omega
  · omega

theorem leads_statements (inBlock : Bool) (before : Block) (ts : List Token) (stop : Span)
    (errors : List SyntaxError) (todo : List Pending) :
    Leads (.call (.statements inBlock before) ⟨ts, stop, errors⟩ todo)
      (.back (some (.block (before ++ (statements stop inBlock ts).value)))
        (after ⟨ts, stop, errors⟩ (statements stop inBlock ts)) todo) := by
  by_cases hend : endsStatements inBlock (currentKind ts)
  · rw [statements_of_ends hend, after_done ⟨ts, stop, errors⟩, Reading.done, List.append_nil]
    exact .single (congrArg some (if_pos hend))
  · obtain ⟨t, rest, hts, -⟩ := exists_cons_of_currentKind rfl fun heof => hend (.inl heof)
    have hlength : ts.length = rest.length + 1 := congrArg List.length hts
    have hle := (statement stop ts).length_rest_le
    have hfirst := reads_statement ts stop errors (.next inBlock before :: todo)
    -- A statement that was left out adds nothing to those before it.
    have hnext : Leads (.call .statement ⟨ts, stop, errors⟩ (.next inBlock before :: todo))
        (.call (.statements inBlock (before ++ (statement stop ts).value.toList))
          ⟨(statement stop ts).rest.tail, stop, errors ++ (statement stop ts).errors⟩ todo) := by
      refine Relation.ReflTransGen.tail hfirst ?_
      cases (statement stop ts).value with
      | none => rw [Option.toList_none, List.append_nil]; rfl
      | some s => rfl
    have hmore := leads_statements inBlock (before ++ (statement stop ts).value.toList)
      (statement stop ts).rest.tail stop (errors ++ (statement stop ts).errors) todo
    rw [statements_followedBy hend]
    refine .head (congrArg some (if_neg hend)) (hnext.trans ?_)
    rw [List.append_assoc, Reader.after, List.append_assoc] at hmore
    exact hmore
termination_by 8 * ts.length + 4
decreasing_by
  · omega
  · simp only [List.length_tail]; omega

end

end Agreement

end ReaderMachine

end Sprig
