import Sprig.Proofs.ReaderMachine

/-!
# Reading gets on

Not every step of reading takes a token: routines call one another in place, some come back without
having moved, and a statement that failed leaves the reader where it was. Still no routine calls
itself, directly or through others, and no loop goes round, before a token has been taken. What goes
down is a weight, of the tokens that are left and then of the routine that is called. Each thing
that is left to do has a weight as well, which is that of the heaviest call it may still make. One
step of the machine calls nothing as heavy as the routine that takes it (`below_stepCall`), and so
while a routine is at work nothing as heavy as its own call is called (`Below.of_transGen`).
-/

namespace Sprig

/-! ## Weights -/

/-- Orders the routines that call one another in place. -/
def Routine.rank : Routine → Nat
  | statements => 4
  | statement => 3
  | arguments => 3
  | expression => 2
  | primary => 1
  | operators => 1
  | names => 0
  | terminator => 0

/-- What a call weighs while so many tokens are left. -/
def Task.weight (task : Task) (n : Nat) : Nat :=
  8 * n + task.routine.rank

/-- What the heaviest call weighs that may still come of this, while so many tokens are left. -/
def Pending.weight : Pending → Nat → Nat
  | .operators _, n => 8 * n + 1
  | .binary _ _ _, n => 8 * n + 1
  | .call _ _, n => 8 * n + 1
  | .argument _, n => 8 * n
  | .test, n => 8 * n
  | .consequence _, n => 8 * n
  | .parameters, n => 8 * n
  | .bind _, n => 8 * n
  | .ret, n => 8 * n
  -- The token on which a statement ended is stepped over.
  | .next _ _, n => 8 * (n - 1) + 4
  | .unary _, _ => 0
  | .group, _ => 0
  | .alternative _ _, _ => 0
  | .body _, _ => 0
  | .finish _, _ => 0
  | .expr, _ => 0

theorem Pending.weight_mono (next : Pending) {n k : Nat} (h : n ≤ k) :
    next.weight n ≤ next.weight k := by
  cases next <;> simp only [Pending.weight] <;> omega

namespace ReaderMachine

/-- The reader of the machine. -/
def reader : ReaderMachine → Reader
  | .call _ r _ => r
  | .back _ r _ => r

/-- What the machine has left to do. -/
def todo : ReaderMachine → List Pending
  | .call _ _ todo => todo
  | .back _ _ todo => todo

/-- The routine that is being called. -/
def task? : ReaderMachine → Option Task
  | .call task _ _ => some task
  | .back _ _ _ => none

/-- The machine reads on from `ts` with more to do than `todo`, and all that it calls before it
comes back to that weighs less than `bound`. -/
structure Below (bound : Nat) (ts : List Token) (todo : List Pending) (m : ReaderMachine) :
    Prop where
  isSuffix : m.reader.tokens <:+ ts
  task_lt : ∀ task ∈ m.task?, task.weight m.reader.tokens.length < bound
  todo_lt : ∃ inner, m.todo = inner ++ todo ∧
    ∀ next ∈ inner, next.weight m.reader.tokens.length < bound

section Below

variable {bound n k : Nat} {ts : List Token} {todo : List Pending} {r : Reader}

theorem below_back (h : r.tokens = ts.drop k) (phrase : Option Phrase) :
    Below bound ts todo (.back phrase r todo) :=
  ⟨h ▸ List.drop_suffix k ts, by simp [task?], [], rfl, List.forall_mem_nil _⟩

theorem below_fail (h : r.tokens = ts.drop k) (cause : SyntaxError.Cause) :
    Below bound ts todo (fail r todo cause) :=
  below_back (r := ⟨r.tokens, r.stop, r.errors ++ [⟨cause, r.current.span⟩]⟩) h none

theorem below_back_cons {next : Pending} (hn : ts.length = n) (h : r.tokens = ts.drop k)
    (phrase : Option Phrase) (hnext : next.weight (n - k) < bound) :
    Below bound ts todo (.back phrase r (next :: todo)) := by
  rw [← hn, ← List.length_drop, ← h] at hnext
  exact ⟨h ▸ List.drop_suffix k ts, by simp [task?], [next], rfl,
    List.forall_mem_singleton.2 hnext⟩

theorem below_call {task : Task} (hn : ts.length = n) (h : r.tokens = ts.drop k)
    (htask : task.weight (n - k) < bound) : Below bound ts todo (.call task r todo) := by
  rw [← hn, ← List.length_drop, ← h] at htask
  exact ⟨h ▸ List.drop_suffix k ts, by simpa [task?, reader] using htask, [], rfl,
    List.forall_mem_nil _⟩

theorem below_call_cons {task : Task} {next : Pending} (hn : ts.length = n)
    (h : r.tokens = ts.drop k) (htask : task.weight (n - k) < bound)
    (hnext : next.weight (n - k) < bound) :
    Below bound ts todo (.call task r (next :: todo)) := by
  rw [← hn, ← List.length_drop, ← h] at htask hnext
  exact ⟨h ▸ List.drop_suffix k ts, by simpa [task?, reader] using htask, [next], rfl,
    List.forall_mem_singleton.2 hnext⟩

theorem tokens_advance (h : r.tokens = ts.drop k) : r.advance.tokens = ts.drop (k + 1) := by
  rw [Reader.advance, h, List.tail_drop]

theorem expectNext_of_some {stop : Span} {kind : TokenKind} {t : Token}
    (h : (expectNext stop kind ts).value = some t) :
    (expectNext stop kind ts).rest = ts.tail ∧ 2 ≤ ts.length := by
  rcases ts with _ | ⟨current, _ | ⟨next, rest⟩⟩
  · simp [expectNext, Reading.fail] at h
  · simp [expectNext, Reading.fail] at h
  · rw [expectNext] at h ⊢
    split
    · exact ⟨rfl, Nat.le_add_left 2 _⟩
    · next hkind =>
      rw [if_neg hkind] at h
      simp [Reading.fail] at h

/-- A token that must be there is stepped onto, or the routine comes back. -/
theorem below_expecting {kind : TokenKind} {go : Token → Reader → ReaderMachine}
    (hn : ts.length = n) (h : r.tokens = ts.drop k)
    (hgo : ∀ t r', r'.tokens = ts.drop (k + 1) → k + 2 ≤ n → Below bound ts todo (go t r')) :
    Below bound ts todo (expecting kind r todo go) := by
  rw [expecting]
  cases hv : (expectNext r.stop kind r.tokens).value with
  | none =>
    have hsuffix : r.tokens <:+ ts := h ▸ List.drop_suffix k ts
    exact ⟨(expectNext r.stop kind r.tokens).isSuffix.trans hsuffix, by simp [task?], [], rfl,
      List.forall_mem_nil _⟩
  | some t =>
    obtain ⟨hrest, hlength⟩ := expectNext_of_some hv
    rw [h, List.length_drop, hn] at hlength
    refine hgo t _ ?_ (by omega)
    rw [Reader.after, hrest, h, List.tail_drop]

theorem one_le_length {kind : TokenKind} (h : currentKind ts = kind) (hkind : kind ≠ .eof) :
    1 ≤ ts.length := by
  obtain ⟨t, rest, rfl, -⟩ := exists_cons_of_currentKind h hkind
  exact Nat.le_add_left 1 _

theorem two_le_length {kind : TokenKind} (h : nextKind ts = kind) (hkind : kind ≠ .eof) :
    2 ≤ ts.length := by
  obtain ⟨t, u, rest, rfl⟩ := exists_cons_cons_of_nextKind (h ▸ hkind)
  exact Nat.le_add_left 2 _

/-! ## One step -/

/-- A token is taken before the expression after it is read. -/
theorem below_operand {kind : TokenKind} {p : Precedence} {next : Pending}
    (hn : r.tokens.length = n) (hkind : currentKind r.tokens = kind) (hne : kind ≠ .eof)
    (hnext : ∀ k, next.weight k = 0) :
    Below (8 * n + 1) r.tokens todo (.call (.expression p) r.advance (next :: todo)) := by
  have h : r.tokens = r.tokens.drop 0 := rfl
  have hlength := one_le_length hkind hne
  refine below_call_cons hn (tokens_advance h) ?_ ?_
  · show 8 * (n - 1) + 2 < 8 * n + 1
    omega
  · rw [hnext]
    exact Nat.succ_pos _

theorem below_stepPrimary (hn : r.tokens.length = n) (todo : List Pending) :
    Below (8 * n + 1) r.tokens todo (stepPrimary r todo) := by
  have h : r.tokens = r.tokens.drop 0 := rfl
  rw [stepPrimary]
  cases hkind : currentKind r.tokens with
  | ident | string | kwTrue | kwFalse => exact below_back h _
  | integer =>
    simp only [stepInteger]
    split
    · exact below_back h _
    · exact below_fail h _
  | bang | minus | leftParen => exact below_operand hn hkind (by decide) fun _ => rfl
  | kwIf =>
    refine below_expecting hn h fun _ r h hlength => ?_
    exact below_call_cons hn (tokens_advance h) (show 8 * (n - 2) + 2 < 8 * n + 1 by omega)
      (show 8 * (n - 2) < 8 * n + 1 by omega)
  | kwFn =>
    refine below_expecting hn h fun _ r h hlength => ?_
    split
    · exact below_back_cons hn (tokens_advance h) _ (show 8 * (n - 2) < 8 * n + 1 by omega)
    · exact below_call_cons hn (tokens_advance h) (show 8 * (n - 2) + 0 < 8 * n + 1 by omega)
        (show 8 * (n - 2) < 8 * n + 1 by omega)
  | _ => exact below_fail h _

theorem below_stepCall (hn : r.tokens.length = n) (todo : List Pending) (task : Task) :
    Below (task.weight n) r.tokens todo (stepCall r todo task) := by
  have h : r.tokens = r.tokens.drop 0 := rfl
  cases task with
  | statements inBlock before =>
    rw [stepCall]
    split
    · exact below_back h _
    · next hend =>
      have hlength := one_le_length rfl fun heof => hend (.inl heof)
      exact below_call_cons hn h (show 8 * n + 3 < 8 * n + 4 by omega)
        (show 8 * (n - 1) + 4 < 8 * n + 4 by omega)
  | statement =>
    rw [stepCall]
    split
    · refine below_expecting hn h fun _ r h _ => ?_
      refine below_expecting hn h fun _ r h hlength => ?_
      exact below_call_cons hn (tokens_advance h) (show 8 * (n - 3) + 2 < 8 * n + 3 by omega)
        (show 8 * (n - 3) < 8 * n + 3 by omega)
    split
    · exact below_call_cons hn (tokens_advance h) (show 8 * (n - 1) + 2 < 8 * n + 3 by omega)
        (show 8 * (n - 1) < 8 * n + 3 by omega)
    · exact below_call_cons hn h (show 8 * n + 2 < 8 * n + 3 by omega)
        (show 0 < 8 * n + 3 by omega)
  | expression p =>
    exact below_call_cons hn h (show 8 * n + 1 < 8 * n + 2 by omega)
      (show 8 * n + 1 < 8 * n + 2 by omega)
  | primary => exact below_stepPrimary hn todo
  | operators p lhs =>
    rw [stepCall]
    split
    · next hlt =>
      have hlength := two_le_length rfl (Reader.ne_eof_of_lt hlt)
      have hrest := tokens_advance (tokens_advance h)
      split
      · exact below_call_cons hn hrest (show 8 * (n - 2) + 2 < 8 * n + 1 by omega)
          (show 8 * (n - 2) + 1 < 8 * n + 1 by omega)
      split
      · exact below_back_cons hn hrest _ (show 8 * (n - 2) + 1 < 8 * n + 1 by omega)
      · exact below_call_cons hn hrest (show 8 * (n - 2) + 3 < 8 * n + 1 by omega)
          (show 8 * (n - 2) + 1 < 8 * n + 1 by omega)
    · exact below_back h _
  | names before =>
    rw [stepCall]
    split
    · split
      · next hcomma =>
        have hlength := two_le_length hcomma (by decide)
        exact below_call hn (tokens_advance (tokens_advance h))
          (show 8 * (n - 2) + 0 < 8 * n + 0 by omega)
      · exact below_expecting hn h fun _ r h _ => below_back h _
    · exact below_fail h _
  | arguments before =>
    exact below_call_cons hn h (show 8 * n + 2 < 8 * n + 3 by omega)
      (show 8 * n < 8 * n + 3 by omega)
  | terminator =>
    rw [stepCall]
    split
    · exact below_back h _
    · next hterm =>
      have hlength := one_le_length rfl fun heof => hterm (.inr heof)
      exact below_call hn (tokens_advance h) (show 8 * (n - 1) + 0 < 8 * n + 0 by omega)

theorem below_stepBack (hn : r.tokens.length = n) (todo : List Pending) (next : Pending)
    (phrase : Phrase) : Below (next.weight n + 1) r.tokens todo (stepBack r todo next phrase) := by
  have h : r.tokens = r.tokens.drop 0 := rfl
  cases next with
  | operators p | binary p op lhs =>
    cases phrase with
    | expr e => exact below_call hn h (Nat.lt_succ_self _)
    | _ => exact below_back h _
  | call p callee =>
    cases phrase with
    | exprs args => exact below_call hn h (Nat.lt_succ_self _)
    | _ => exact below_back h _
  | unary op | alternative test consequence | body params | finish s =>
    cases phrase <;> exact below_back h _
  | argument before =>
    cases phrase with
    | expr e =>
      rw [stepBack]
      split
      · next hcomma =>
        have hlength := two_le_length hcomma (by decide)
        exact below_call hn (tokens_advance (tokens_advance h))
          (show 8 * (n - 2) + 3 < 8 * n + 1 by omega)
      · exact below_expecting hn h fun _ r h _ => below_back h _
    | _ => exact below_back h _
  | group =>
    cases phrase with
    | expr e => exact below_expecting hn h fun _ r h _ => below_back h _
    | _ => exact below_back h _
  | test =>
    cases phrase with
    | expr test =>
      rw [stepBack]
      refine below_expecting hn h fun _ r h _ => ?_
      refine below_expecting hn h fun _ r h hlength => ?_
      exact below_call_cons hn (tokens_advance h) (show 8 * (n - 3) + 4 < 8 * n + 1 by omega)
        (show 8 * (n - 3) < 8 * n + 1 by omega)
    | _ => exact below_back h _
  | consequence test =>
    cases phrase with
    | block consequence =>
      rw [stepBack]
      split
      · refine below_expecting hn (tokens_advance h) fun _ r h hlength => ?_
        exact below_call_cons hn (tokens_advance h) (show 8 * (n - 3) + 4 < 8 * n + 1 by omega)
          (Nat.succ_pos _)
      · exact below_back h _
    | _ => exact below_back h _
  | parameters =>
    cases phrase with
    | names params =>
      rw [stepBack]
      refine below_expecting hn h fun _ r h hlength => ?_
      exact below_call_cons hn (tokens_advance h) (show 8 * (n - 2) + 4 < 8 * n + 1 by omega)
        (Nat.succ_pos _)
    | _ => exact below_back h _
  | bind name =>
    cases phrase with
    | expr e => exact below_call_cons hn h (Nat.lt_succ_self _) (Nat.succ_pos _)
    | _ => exact below_back h _
  | ret =>
    cases phrase with
    | expr e => exact below_call_cons hn h (Nat.lt_succ_self _) (Nat.succ_pos _)
    | _ => exact below_back h _
  | expr =>
    cases phrase with
    | expr e =>
      rw [stepBack]
      split
      · exact below_back (tokens_advance h) _
      · exact below_back h _
    | _ => exact below_back h _
  | next inBlock before =>
    cases phrase with
    | stmt s => exact below_call hn (tokens_advance h) (Nat.lt_succ_self _)
    | _ => exact below_back h _

theorem below_stepFailed (hn : r.tokens.length = n) (todo : List Pending) (next : Pending) :
    Below (next.weight n + 1) r.tokens todo (stepFailed r todo next) := by
  have h : r.tokens = r.tokens.drop 0 := rfl
  cases next with
  | bind name => exact below_call_cons hn h (Nat.lt_succ_self _) (Nat.succ_pos _)
  | ret => exact below_call_cons hn h (Nat.lt_succ_self _) (Nat.succ_pos _)
  | next inBlock before => exact below_call hn (tokens_advance h) (Nat.lt_succ_self _)
  | _ => exact below_back h _

/-! ## Whole runs -/

/-- A step of a routine that was called with `todo` left to do, or of one that it calls. Once it has
come back, the steps that follow are no longer its own. -/
def StepWithin (todo : List Pending) (m m' : ReaderMachine) : Prop :=
  m.step = some m' ∧ ∀ phrase r, m ≠ .back phrase r todo

/-- With nothing left to do after it, all steps are those of the routine. -/
theorem StepWithin.nil {m m' : ReaderMachine} (h : m.step = some m') : StepWithin [] m m' := by
  refine ⟨h, ?_⟩
  rintro phrase r rfl
  simp [step] at h

/-- What is below a part of the stack is below the whole of it. -/
theorem Below.inside {m : ReaderMachine} {bound' : Nat} {us : List Token} {inner : List Pending}
    (h : Below bound' us (inner ++ todo) m) (hbound : bound' ≤ bound) (hus : us <:+ ts)
    (hinner : ∀ next ∈ inner, next.weight us.length < bound) : Below bound ts todo m := by
  obtain ⟨hsuffix, htask, more, htodo, hmore⟩ := h
  refine ⟨hsuffix.trans hus, ?_, more ++ inner, ?_, ?_⟩
  · intro task ht
    exact Nat.lt_of_lt_of_le (htask task ht) hbound
  · rw [htodo, List.append_assoc]
  · intro next hnext
    rcases List.mem_append.1 hnext with hnext | hnext
    · exact Nat.lt_of_lt_of_le (hmore next hnext) hbound
    · exact Nat.lt_of_le_of_lt (next.weight_mono hsuffix.length_le) (hinner next hnext)

theorem Below.step {m m' : ReaderMachine} (h : Below bound ts todo m)
    (hstep : StepWithin todo m m') : Below bound ts todo m' := by
  obtain ⟨hstep, hback⟩ := hstep
  obtain ⟨hsuffix, htask, inner, htodo, hinner⟩ := h
  cases m with
  | call task r stack =>
    obtain rfl : stack = inner ++ todo := htodo
    obtain rfl : stepCall r (inner ++ todo) task = m' := Option.some.inj hstep
    exact (below_stepCall rfl _ task).inside (Nat.le_of_lt (htask task rfl)) hsuffix hinner
  | back phrase r stack =>
    obtain rfl : stack = inner ++ todo := htodo
    cases inner with
    | nil => exact absurd rfl (hback phrase r)
    | cons next inner =>
      obtain ⟨hnext, hinner⟩ := List.forall_mem_cons.1 hinner
      cases phrase with
      | none =>
        obtain rfl : stepFailed r (inner ++ todo) next = m' := Option.some.inj hstep
        exact (below_stepFailed rfl _ next).inside hnext hsuffix hinner
      | some phrase =>
        obtain rfl : stepBack r (inner ++ todo) next phrase = m' := Option.some.inj hstep
        exact (below_stepBack rfl _ next phrase).inside hnext hsuffix hinner

/-- While a routine is at work, nothing as heavy as its own call is called. -/
theorem Below.of_transGen {task : Task} {m : ReaderMachine}
    (h : Relation.TransGen (StepWithin todo) (.call task r todo) m) :
    Below (task.weight r.tokens.length) r.tokens todo m := by
  induction h with
  | single hstep =>
    obtain rfl := Option.some.inj hstep.1
    exact below_stepCall rfl todo task
  | tail _ hstep ih => exact ih.step hstep

theorem shorter_of_transGen {task task' : Task} {r' : Reader} {todo' : List Pending}
    (h : Relation.TransGen (StepWithin todo) (.call task r todo) (.call task' r' todo'))
    (hsame : task'.routine = task.routine) :
    r'.tokens <:+ r.tokens ∧ r'.tokens.length < r.tokens.length := by
  have hbelow := Below.of_transGen h
  have hlt : task'.weight r'.tokens.length < task.weight r.tokens.length :=
    hbelow.task_lt task' rfl
  rw [Task.weight, Task.weight, hsame] at hlt
  exact ⟨hbelow.isSuffix, by omega⟩

end Below

end ReaderMachine

/-! ## Reading comes to an end -/

/-- Statements are read until the input ends or, in a block, a brace closes it. -/
theorem Reader.ends_statements (stop : Span) (inBlock : Bool) (ts : List Token) :
    endsStatements inBlock (currentKind (statements stop inBlock ts).rest) := by
  by_cases hend : endsStatements inBlock (currentKind ts)
  · rw [statements_of_ends hend]
    exact hend
  · obtain ⟨t, rest, hts, -⟩ := exists_cons_of_currentKind rfl fun heof => hend (.inl heof)
    have hlength : ts.length = rest.length + 1 := congrArg List.length hts
    have hle := (statement stop ts).length_rest_le
    rw [statements_followedBy hend]
    exact ends_statements stop inBlock (statement stop ts).rest.tail
termination_by ts.length
decreasing_by
  rw [List.length_tail]
  omega

/-- The machine stops, and there. -/
def ReaderMachine.Stops (m m' : ReaderMachine) : Prop :=
  m.Leads m' ∧ m'.step = none

section Termination

open ReaderMachine

/-- Reading comes to an end on any tokens, wherever the reader stands and however tightly operators
must bind. A routine that is called once more, by itself or by those it calls, or whose loop goes
round once more, has then fewer tokens before it, and a program ends only with the input. -/
theorem reading_terminates (r : Reader) :
    Stops (.call (.statements false []) r [])
      (.back (some (.block r.readProgram.1.statements)) r.readProgram.2 []) ∧
    (∀ p, Stops (.call (.expression p) r [])
      (.back ((r.readExpression p).1.map .expr) (r.readExpression p).2 [])) ∧
    (∀ task task' r' todo todo',
      Relation.TransGen (StepWithin todo) (.call task r todo) (.call task' r' todo') →
      task'.routine = task.routine →
      r'.tokens <:+ r.tokens ∧ r'.tokens.length < r.tokens.length) ∧
    currentKind r.readProgram.2.tokens = .eof := by
  refine ⟨⟨?_, rfl⟩, fun p => ⟨?_, rfl⟩, ?_, ?_⟩
  · exact leads_statements false [] r.tokens r.stop r.errors []
  · exact reads_expression p r.tokens r.stop r.errors []
  · intro task task' r' todo todo' h hsame
    exact shorter_of_transGen h hsame
  · rcases Reader.ends_statements r.stop false r.tokens with heof | ⟨hblock, -⟩
    · exact heof
    · cases hblock

/-- A return whose value is missing, because a token that stands for the end of the input is in its
place; more tokens follow it. -/
def Reader.interrupted : Reader :=
  ⟨[⟨.kwReturn, "return", ⟨0, 6⟩⟩, ⟨.eof, "", ⟨6, 0⟩⟩, ⟨.ident, "x", ⟨6, 1⟩⟩], ⟨7, 0⟩, []⟩

/-- The value fails at the token in the middle and the way to the end of the statement stops at it.
The loop steps over it all the same, and goes round with the last token only. -/
theorem reading_terminates_interrupted :
    ∃ r', Relation.TransGen (StepWithin []) (.call (.statements false []) Reader.interrupted [])
        (.call (.statements false []) r' []) ∧
      r'.tokens <:+ Reader.interrupted.tokens ∧
      r'.tokens.length < Reader.interrupted.tokens.length ∧ r'.tokens.length = 1 := by
  let r' : Reader :=
    ⟨[⟨.ident, "x", ⟨6, 1⟩⟩], ⟨7, 0⟩, [⟨.notExpression .eof, ⟨6, 0⟩⟩]⟩
  have hrun : Relation.TransGen (StepWithin [])
      (.call (.statements false []) Reader.interrupted []) (.call (.statements false []) r' []) :=
    .head (.nil rfl) <| .head (.nil rfl) <| .head (.nil rfl) <|
    .head (.nil rfl) <| .head (.nil rfl) <| .head (.nil rfl) <|
    .head (.nil rfl) <| .head (.nil rfl) <| .single (.nil rfl)
  obtain ⟨hsuffix, hlt⟩ := (reading_terminates Reader.interrupted).2.2.1 _ _ _ _ _ hrun rfl
  exact ⟨r', hrun, hsuffix, hlt, rfl⟩

end Termination

end Sprig
