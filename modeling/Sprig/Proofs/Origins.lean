import Sprig.Proofs.ReaderProgress

/-!
# What reading gives comes from the tokens

Reading makes up nothing. Every name and every literal of a tree is that of a token, and every error
is about a token and says of it what is so. This holds of whatever a machine has in its hands, be it
read, half read or left to do, because each single step keeps it (`ReaderMachine.Kept.step`).

Errors are also noticed in order. A reader that stands on a token has noticed nothing beyond it, and
about it at most that it is not the token that was expected there. After a failure it may have
noticed one thing more, either about the token it stands on or about the next; but then nothing else
is noticed before it has stepped on. How far ahead of the reader errors may be is so a matter of
what the machine is about to do (`ReaderMachine.lead`), and `Noticed` follows the errors from token
to token.
-/

namespace Sprig

/-! ## Names and literals -/

/-- The names and literals of a tree, and what no text says: a block that stands alone. -/
inductive Atom where
  | name (text : String)
  | integer (value : Int64)
  | string (content : String)
  | block
deriving DecidableEq

/-- The token says so. -/
def Atom.From (t : Token) : Atom → Prop
  | name text => t.kind = .ident ∧ t.literal = text
  | integer value => t.kind = .integer ∧ Text.readInt64? t.literal = some value
  | string content => t.kind = .string ∧ t.literal = content
  | block => False

mutual

/-- The atoms of an expression, at every depth. -/
def Expr.atoms : Expr → List Atom
  | .ident name => [.name name]
  | .int value => [.integer value]
  | .str content => [.string content]
  | .bool _ => []
  | .unary _ operand => operand.atoms
  | .binary _ lhs rhs => lhs.atoms ++ rhs.atoms
  | .cond test consequence alternative =>
    test.atoms ++ (Block.atoms consequence ++ Block.elseAtoms alternative)
  | .fn params body => params.map .name ++ Block.atoms body
  | .call callee args => callee.atoms ++ Expr.allAtoms args

/-- The atoms of a list of expressions. -/
def Expr.allAtoms : List Expr → List Atom
  | [] => []
  | e :: es => e.atoms ++ Expr.allAtoms es

/-- The atoms of a statement. -/
def Stmt.atoms : Stmt → List Atom
  | .bind name value => .name name :: value.atoms
  | .ret value => value.atoms
  | .expr value => value.atoms
  | .block body => .block :: Block.atoms body

/-- The atoms of a block. -/
def Block.atoms : List Stmt → List Atom
  | [] => []
  | s :: ss => s.atoms ++ Block.atoms ss

/-- The atoms of the `else` part of a conditional. -/
def Block.elseAtoms : Option (List Stmt) → List Atom
  | none => []
  | some body => Block.atoms body

end

attribute [simp] Expr.atoms Expr.allAtoms Stmt.atoms Block.atoms Block.elseAtoms

/-- The atoms of a program. -/
def Program.atoms (p : Program) : List Atom :=
  Block.atoms p.statements

@[simp] theorem Expr.allAtoms_append (es es' : List Expr) :
    Expr.allAtoms (es ++ es') = Expr.allAtoms es ++ Expr.allAtoms es' := by
  induction es with
  | nil => rfl
  | cons e es ih => rw [List.cons_append, Expr.allAtoms, ih, Expr.allAtoms, List.append_assoc]

@[simp] theorem Block.atoms_append (ss ss' : List Stmt) :
    Block.atoms (ss ++ ss') = Block.atoms ss ++ Block.atoms ss' := by
  induction ss with
  | nil => rfl
  | cons s ss ih => rw [List.cons_append, Block.atoms, ih, Block.atoms, List.append_assoc]

/-- What a routine has read already when it is called. -/
@[simp] def Task.atoms : Task → List Atom
  | .statements _ before => Block.atoms before
  | .operators _ lhs => lhs.atoms
  | .names before => before.map .name
  | .arguments before => Expr.allAtoms before
  | _ => []

@[simp] def Phrase.atoms : Phrase → List Atom
  | .expr e => e.atoms
  | .exprs es => Expr.allAtoms es
  | .names params => params.map .name
  | .stmt s => s.atoms
  | .block body => Block.atoms body
  | .terminator => []

@[simp] def Pending.atoms : Pending → List Atom
  | .binary _ _ lhs => lhs.atoms
  | .call _ callee => callee.atoms
  | .argument before => Expr.allAtoms before
  | .consequence cond => cond.atoms
  | .alternative cond yes => cond.atoms ++ Block.atoms yes
  | .body params => params.map .name
  | .bind name => [.name name]
  | .finish s => s.elim [] Stmt.atoms
  | .next _ before => Block.atoms before
  | _ => []

/-- All that the machine has in its hands. -/
def ReaderMachine.atoms : ReaderMachine → List Atom
  | .call task _ todo => task.atoms ++ todo.flatMap Pending.atoms
  | .back phrase _ todo => phrase.elim [] Phrase.atoms ++ todo.flatMap Pending.atoms

/-- Everything was read from tokens of the stream. -/
def Sourced (s : TokenStream) (as : List Atom) : Prop :=
  ∀ a ∈ as, ∃ t ∈ s.tokens, a.From t

section Sourced

variable {s : TokenStream} {as bs : List Atom}

@[simp] theorem sourced_nil : Sourced s [] :=
  List.forall_mem_nil _

@[simp] theorem sourced_append : Sourced s (as ++ bs) ↔ Sourced s as ∧ Sourced s bs :=
  List.forall_mem_append

@[simp] theorem sourced_cons {a : Atom} :
    Sourced s (a :: as) ↔ (∃ t ∈ s.tokens, a.From t) ∧ Sourced s as :=
  List.forall_mem_cons

end Sourced

/-! ## Errors -/

namespace SyntaxError

/-- What the cause says of the token is so. -/
def Cause.Fits (t : Token) : Cause → Prop
  | .unexpected actual _ => actual = t.kind
  | .notExpression kind => kind = t.kind
  | .badInteger literal => t.kind = .integer ∧ literal = t.literal

/-- The error is about the token. -/
def Names (e : SyntaxError) (t : Token) : Prop :=
  e.span = t.span ∧ e.cause.Fits t

/-- Another token was expected. -/
def IsUnexpected (e : SyntaxError) : Prop :=
  ∃ actual expected, e.cause = .unexpected actual expected

end SyntaxError

/-- The errors that may have been noticed before the reader comes to stand on the token at place
`n`. -/
inductive Noticed (s : TokenStream) : Nat → List SyntaxError → Prop where
  | start : Noticed s 0 []
  /-- The reader steps on. -/
  | pass {n : Nat} {errors : List SyntaxError} (h : Noticed s n errors) : Noticed s (n + 1) errors
  /-- Something is wrong with the current token, or the next one is not the one that was expected,
  and the reader steps on. -/
  | notice {n i : Nat} {errors : List SyntaxError} {e : SyntaxError} (h : Noticed s n errors)
      (he : e.Names (s.get i)) (hi : i = n ∨ i = n + 1 ∧ e.IsUnexpected) :
      Noticed s (n + 1) (errors ++ [e])

theorem Noticed.mono {s : TokenStream} {n k : Nat} {errors : List SyntaxError}
    (h : Noticed s n errors) (hle : n ≤ k) : Noticed s k errors := by
  induction hle with
  | refl => exact h
  | step _ ih => exact ih.pass

/-- The reader stands on a token of the stream, and its errors may go `k` tokens further. -/
def Reader.Stands (s : TokenStream) (k : Nat) (r : Reader) : Prop :=
  ∃ n, r.tokens = s.tokens.drop n ∧ r.stop = s.endSpan ∧ Noticed s (n + k) r.errors

theorem TokenStream.get_drop (s : TokenStream) (n i : Nat) :
    (⟨s.tokens.drop n, s.endSpan⟩ : TokenStream).get i = s.get (n + i) := by
  simp [get, endToken]

namespace Reader.Stands

variable {s : TokenStream} {r : Reader} {j k : Nat}

theorem mono (h : r.Stands s j) (hle : j ≤ k) : r.Stands s k := by
  obtain ⟨n, htokens, hstop, hnoticed⟩ := h
  exact ⟨n, htokens, hstop, hnoticed.mono (Nat.add_le_add_left hle n)⟩

/-- The next token makes up for one that the errors are ahead. -/
theorem advance (h : r.Stands s (k + 1)) : r.advance.Stands s k := by
  obtain ⟨n, htokens, hstop, hnoticed⟩ := h
  refine ⟨n + 1, ?_, hstop, ?_⟩
  · rw [Reader.advance, htokens, List.tail_drop]
  · rw [Nat.add_right_comm]
    exact hnoticed

theorem advance_zero (h : r.Stands s 0) : r.advance.Stands s 0 :=
  (h.mono (Nat.zero_le 1)).advance

/-- A token on which the reader stands is one of the stream, unless it is the end. -/
theorem current_mem {kind : TokenKind} (h : r.Stands s k) (hkind : currentKind r.tokens = kind)
    (hne : kind ≠ .eof) : r.current ∈ s.tokens ∧ r.current.kind = kind := by
  obtain ⟨n, htokens, -, -⟩ := h
  obtain ⟨t, rest, hts, hk⟩ := exists_cons_of_currentKind hkind hne
  have hcurrent : r.current = t := by
    rw [Reader.current, hts]
    rfl
  have hmem : t ∈ s.tokens.drop n := by
    rw [← htokens, hts]
    exact List.mem_cons_self ..
  rw [hcurrent]
  exact ⟨List.mem_of_mem_drop hmem, hk⟩

/-- Something is wrong with the current token. -/
theorem fail {cause : SyntaxError.Cause} (h : r.Stands s 0) (hcause : cause.Fits r.current) :
    ({ r with errors := r.errors ++ [⟨cause, r.current.span⟩] } : Reader).Stands s 1 := by
  obtain ⟨n, htokens, hstop, hnoticed⟩ := h
  have hcurrent : r.current = s.get n := by
    rw [Reader.current, htokens, hstop, TokenStream.get_drop, Nat.add_zero]
  rw [hcurrent] at hcause ⊢
  exact ⟨n, htokens, hstop, hnoticed.notice ⟨rfl, hcause⟩ (.inl rfl)⟩

/-- The next token is stepped onto if it is the expected one, and otherwise it is noticed. -/
theorem expectNext {kind : TokenKind} (h : r.Stands s 0) (hne : kind ≠ .eof) :
    (∃ t ∈ s.tokens, t.kind = kind ∧ (expectNext r.stop kind r.tokens).value = some t ∧
      (r.after (expectNext r.stop kind r.tokens)).Stands s 0) ∨
    ((expectNext r.stop kind r.tokens).value = none ∧
      (r.after (expectNext r.stop kind r.tokens)).Stands s 1) := by
  obtain ⟨n, htokens, hstop, hnoticed⟩ := id h
  have hget : (⟨r.tokens, r.stop⟩ : TokenStream).get 1 = s.get (n + 1) := by
    rw [htokens, hstop, TokenStream.get_drop]
  rw [expectNext_eq hne]
  split
  · next hnext =>
    have hafter : r.after ((Reading.done (some (s.get (n + 1)))).afterCurrent :
        Reading _ r.tokens) = r.advance :=
      ReaderMachine.after_done r.advance (some (s.get (n + 1)))
    obtain ⟨hmem, hkind⟩ := h.advance_zero.current_mem hnext hne
    have hcurrent : r.advance.current = s.get (n + 1) := (get_tail _ _ 0).trans hget
    rw [hget, hafter]
    rw [hcurrent] at hmem hkind
    exact .inl ⟨_, hmem, hkind, rfl, h.advance_zero⟩
  · have hnames : (⟨.unexpected (nextKind r.tokens) kind, (s.get (n + 1)).span⟩ : SyntaxError).Names
        (s.get (n + 1)) := ⟨rfl, by rw [← hget]; exact (kind_get_one _ _).symm⟩
    rw [hget]
    exact .inr ⟨rfl, n, htokens, hstop, hnoticed.notice hnames (.inr ⟨rfl, _, _, rfl⟩)⟩

end Reader.Stands

/-! ## One step -/

/-- How far errors may be ahead of the reader. -/
def Phrase.lead : Option Phrase → Nat
  | none => 1
  | some (.stmt _) => 1
  | some .terminator => 1
  | some _ => 0

namespace ReaderMachine

@[inherit_doc Phrase.lead]
def lead : ReaderMachine → Nat
  | .call .terminator _ _ => 1
  | .call _ _ _ => 0
  | .back phrase _ _ => Phrase.lead phrase

/-- The machine reads the stream, and made up nothing that it has in its hands. -/
structure Kept (s : TokenStream) (m : ReaderMachine) : Prop where
  stands : m.reader.Stands s m.lead
  sourced : Sourced s m.atoms

section Kept

variable {s : TokenStream} {r : Reader} {todo : List Pending}

theorem kept_call {task : Task} (h : r.Stands s 0) (htask : Sourced s task.atoms)
    (htodo : Sourced s (todo.flatMap Pending.atoms)) : Kept s (.call task r todo) :=
  ⟨h.mono (Nat.zero_le _), sourced_append.2 ⟨htask, htodo⟩⟩

theorem kept_back {phrase : Phrase} (h : r.Stands s 0) (hphrase : Sourced s phrase.atoms)
    (htodo : Sourced s (todo.flatMap Pending.atoms)) : Kept s (.back (some phrase) r todo) :=
  ⟨h.mono (Nat.zero_le _), sourced_append.2 ⟨hphrase, htodo⟩⟩

theorem kept_failed (h : r.Stands s 1) (htodo : Sourced s (todo.flatMap Pending.atoms)) :
    Kept s (.back none r todo) :=
  ⟨h, htodo⟩

theorem kept_fail {cause : SyntaxError.Cause} (h : r.Stands s 0)
    (htodo : Sourced s (todo.flatMap Pending.atoms)) (hcause : cause.Fits r.current) :
    Kept s (fail r todo cause) :=
  kept_failed (h.fail hcause) htodo

theorem kept_expecting {kind : TokenKind} {go : Token → Reader → ReaderMachine}
    (h : r.Stands s 0) (htodo : Sourced s (todo.flatMap Pending.atoms)) (hne : kind ≠ .eof)
    (hgo : ∀ t ∈ s.tokens, t.kind = kind → ∀ r', r'.Stands s 0 → Kept s (go t r')) :
    Kept s (expecting kind r todo go) := by
  rw [expecting]
  obtain ⟨t, hmem, hkind, hvalue, hafter⟩ | ⟨hvalue, hafter⟩ := h.expectNext hne
  · rw [hvalue]
    exact hgo t hmem hkind _ hafter
  · rw [hvalue]
    exact kept_failed hafter htodo

theorem kept_stepPrimary (h : r.Stands s 0) (htodo : Sourced s (todo.flatMap Pending.atoms)) :
    Kept s (stepPrimary r todo) := by
  have hcurrent : r.current.kind = currentKind r.tokens := kind_get_zero _ _
  rw [stepPrimary]
  cases hkind : currentKind r.tokens with
  | ident | string =>
    obtain ⟨hmem, hk⟩ := h.current_mem hkind (by decide)
    exact kept_back h (by simpa using ⟨_, hmem, hk, rfl⟩) htodo
  | integer =>
    obtain ⟨hmem, hk⟩ := h.current_mem hkind (by decide)
    simp only [stepInteger]
    split
    · next hread => exact kept_back h (by simpa using ⟨_, hmem, hk, hread⟩) htodo
    · exact kept_fail h htodo ⟨hk, rfl⟩
  | kwTrue | kwFalse => exact kept_back h (by simp) htodo
  | bang | minus | leftParen => exact kept_call h.advance_zero (by simp) (by simpa using htodo)
  | kwIf =>
    refine kept_expecting h htodo (by decide) fun _ _ _ r h => ?_
    exact kept_call h.advance_zero (by simp) (by simpa using htodo)
  | kwFn =>
    refine kept_expecting h htodo (by decide) fun _ _ _ r h => ?_
    split
    · exact kept_back h.advance_zero (by simp) (by simpa using htodo)
    · exact kept_call h.advance_zero (by simp) (by simpa using htodo)
  | _ => exact kept_fail h htodo (hkind ▸ hcurrent.symm)

theorem kept_terminator (h : r.Stands s 1) (htodo : Sourced s (todo.flatMap Pending.atoms)) :
    Kept s (.call .terminator r todo) :=
  ⟨h, htodo⟩

theorem Kept.stepCall {task : Task} (h : Kept s (.call task r todo)) :
    Kept s (stepCall r todo task) := by
  obtain ⟨hstands, hatoms⟩ := h
  obtain ⟨htask, htodo⟩ := sourced_append.1 hatoms
  cases task with
  | statements inBlock before =>
    rw [ReaderMachine.stepCall]
    split
    · exact kept_back hstands htask htodo
    · exact kept_call hstands (by simp) (by simpa using ⟨htask, htodo⟩)
  | statement =>
    rw [ReaderMachine.stepCall]
    split
    · refine kept_expecting hstands htodo (by decide) fun name hmem hkind r h => ?_
      refine kept_expecting h htodo (by decide) fun _ _ _ r h => ?_
      exact kept_call h.advance_zero (by simp) (by simpa using ⟨⟨name, hmem, hkind, rfl⟩, htodo⟩)
    split
    · exact kept_call hstands.advance_zero (by simp) (by simpa using htodo)
    · exact kept_call hstands (by simp) (by simpa using htodo)
  | expression p => exact kept_call hstands (by simp) (by simpa using htodo)
  | primary => exact kept_stepPrimary hstands htodo
  | operators p lhs =>
    rw [ReaderMachine.stepCall]
    split
    · split
      · exact kept_call hstands.advance_zero.advance_zero (by simp) (by simpa using ⟨htask, htodo⟩)
      split
      · exact kept_back hstands.advance_zero.advance_zero (by simp) (by simpa using ⟨htask, htodo⟩)
      · exact kept_call hstands.advance_zero.advance_zero (by simp) (by simpa using ⟨htask, htodo⟩)
    · exact kept_back hstands htask htodo
  | names before =>
    rw [ReaderMachine.stepCall]
    split
    · next hident =>
      obtain ⟨hmem, hk⟩ := hstands.current_mem hident (by decide)
      have hnames : Sourced s ((before ++ [r.current.literal]).map .name) := by
        simpa using ⟨htask, _, hmem, hk, rfl⟩
      split
      · exact kept_call hstands.advance_zero.advance_zero hnames htodo
      · refine kept_expecting hstands htodo (by decide) fun _ _ _ r h => ?_
        exact kept_back h hnames htodo
    · exact kept_fail hstands htodo (kind_get_zero r.stop r.tokens).symm
  | arguments before => exact kept_call hstands (by simp) (by simpa using ⟨htask, htodo⟩)
  | terminator =>
    rw [ReaderMachine.stepCall]
    split
    · exact ⟨hstands, htodo⟩
    · exact kept_terminator (hstands.advance.mono (Nat.zero_le 1)) htodo

/-- What was read is taken in. The errors are ahead of it only if it is a statement. -/
theorem Kept.stepBack {next : Pending} {phrase : Phrase}
    (h : Kept s (.back (some phrase) r (next :: todo))) :
    Kept s (stepBack r todo next phrase) := by
  obtain ⟨hstands, hatoms⟩ := h
  simp only [atoms, List.flatMap_cons, sourced_append] at hatoms
  obtain ⟨hphrase, hnext, htodo⟩ := hatoms
  have hfailed : Kept s (.back none r todo) := by
    refine kept_failed (hstands.mono ?_) htodo
    show Phrase.lead (some phrase) ≤ 1
    cases phrase <;> simp [Phrase.lead]
  cases next with
  | operators p =>
    cases phrase with
    | expr e => exact kept_call hstands hphrase htodo
    | _ => exact hfailed
  | binary p op lhs =>
    cases phrase with
    | expr e => exact kept_call hstands (by simpa using ⟨hnext, hphrase⟩) htodo
    | _ => exact hfailed
  | call p callee =>
    cases phrase with
    | exprs args => exact kept_call hstands (by simpa using ⟨hnext, hphrase⟩) htodo
    | _ => exact hfailed
  | unary op =>
    cases phrase with
    | expr e => exact kept_back hstands hphrase htodo
    | _ => exact hfailed
  | argument before =>
    cases phrase with
    | expr e =>
      have hargs : Sourced s (Expr.allAtoms (before ++ [e])) := by
        simpa using ⟨hnext, hphrase⟩
      rw [ReaderMachine.stepBack]
      split
      · exact kept_call hstands.advance_zero.advance_zero hargs htodo
      · refine kept_expecting hstands htodo (by decide) fun _ _ _ r h => ?_
        exact kept_back h hargs htodo
    | _ => exact hfailed
  | group =>
    cases phrase with
    | expr e =>
      rw [ReaderMachine.stepBack]
      refine kept_expecting hstands htodo (by decide) fun _ _ _ r h => ?_
      exact kept_back h hphrase htodo
    | _ => exact hfailed
  | test =>
    cases phrase with
    | expr test =>
      rw [ReaderMachine.stepBack]
      refine kept_expecting hstands htodo (by decide) fun _ _ _ r h => ?_
      refine kept_expecting h htodo (by decide) fun _ _ _ r h => ?_
      exact kept_call h.advance_zero (by simp) (by simpa using ⟨hphrase, htodo⟩)
    | _ => exact hfailed
  | consequence test =>
    cases phrase with
    | block consequence =>
      rw [ReaderMachine.stepBack]
      split
      · refine kept_expecting hstands.advance_zero htodo (by decide) fun _ _ _ r h => ?_
        exact kept_call h.advance_zero (by simp) 
          (sourced_append.2 ⟨sourced_append.2 ⟨hnext, hphrase⟩, htodo⟩)
      · exact kept_back hstands (by simpa using ⟨hnext, hphrase⟩) htodo
    | _ => exact hfailed
  | alternative test consequence =>
    cases phrase with
    | block alternative =>
      obtain ⟨htest, hconsequence⟩ := sourced_append.1 hnext
      exact kept_back hstands (by simpa using ⟨htest, hconsequence, hphrase⟩) htodo
    | _ => exact hfailed
  | parameters =>
    cases phrase with
    | names params =>
      rw [ReaderMachine.stepBack]
      refine kept_expecting hstands htodo (by decide) fun _ _ _ r h => ?_
      exact kept_call h.advance_zero (by simp) (by simpa using ⟨hphrase, htodo⟩)
    | _ => exact hfailed
  | body params =>
    cases phrase with
    | block body => exact kept_back hstands (by simpa using ⟨hnext, hphrase⟩) htodo
    | _ => exact hfailed
  | bind name =>
    cases phrase with
    | expr e =>
      refine kept_terminator (hstands.mono (Nat.zero_le 1)) ?_
      exact sourced_append.2 ⟨sourced_append.2 ⟨hnext, hphrase⟩, htodo⟩
    | _ => exact hfailed
  | ret =>
    cases phrase with
    | expr e =>
      refine kept_terminator (hstands.mono (Nat.zero_le 1)) ?_
      exact sourced_append.2 ⟨hphrase, htodo⟩
    | _ => exact hfailed
  | finish statement =>
    cases phrase with
    | terminator =>
      -- The value may have failed, and then its error is still ahead.
      cases statement with
      | none => exact kept_failed hstands htodo
      | some statement => exact ⟨hstands, sourced_append.2 ⟨hnext, htodo⟩⟩
    | _ => exact hfailed
  | expr =>
    cases phrase with
    | expr e =>
      rw [ReaderMachine.stepBack]
      split
      · exact kept_back hstands.advance_zero hphrase htodo
      · exact kept_back hstands hphrase htodo
    | _ => exact hfailed
  | next inBlock before =>
    cases phrase with
    | stmt statement =>
      -- The token that ends the statement is stepped over, and the errors are ahead no more.
      exact kept_call hstands.advance (by simpa using ⟨hnext, hphrase⟩) htodo
    | _ => exact hfailed

/-- A statement that failed is left out, and then its last token is stepped over. -/
theorem Kept.stepFailed {next : Pending} (h : Kept s (.back none r (next :: todo))) :
    Kept s (stepFailed r todo next) := by
  obtain ⟨hstands, hatoms⟩ := h
  simp only [atoms, Option.elim_none, List.nil_append, List.flatMap_cons, sourced_append] at hatoms
  obtain ⟨hnext, htodo⟩ := hatoms
  cases next with
  | bind name | ret => exact kept_terminator hstands htodo
  | next inBlock before => exact kept_call hstands.advance hnext htodo
  | _ => exact kept_failed hstands htodo

theorem Kept.step {m m' : ReaderMachine} (h : Kept s m) (hstep : m.step = some m') :
    Kept s m' := by
  cases m with
  | call task r todo =>
    obtain rfl := Option.some.inj hstep
    exact h.stepCall
  | back phrase r todo =>
    cases todo with
    | nil => simp [ReaderMachine.step] at hstep
    | cons next todo =>
      cases phrase with
      | none =>
        obtain rfl := Option.some.inj hstep
        exact h.stepFailed
      | some phrase =>
        obtain rfl := Option.some.inj hstep
        exact h.stepBack

theorem Kept.of_leads {m m' : ReaderMachine} (h : Kept s m) (hleads : Leads m m') :
    Kept s m' := by
  induction hleads with
  | refl => exact h
  | tail _ hstep ih => exact ih.step hstep

end Kept

end ReaderMachine

/-! ## Whole texts -/

theorem kept_ofStream (s : TokenStream) :
    ReaderMachine.Kept s (.back (some (.block (Parsed.ofStream s).program.statements))
      ⟨(Reader.statements s.endSpan false s.tokens).rest, s.endSpan, (Parsed.ofStream s).errors⟩
      []) := by
  have hstart : ReaderMachine.Kept s (.call (.statements false []) (.ofStream s) []) :=
    ReaderMachine.kept_call ⟨0, rfl, rfl, .start⟩ sourced_nil sourced_nil
  exact hstart.of_leads (ReaderMachine.leads_statements false [] s.tokens s.endSpan [] [])

/-- The errors of a stream are noticed from token to token. -/
theorem exists_noticed (s : TokenStream) : ∃ n, Noticed s n (Parsed.ofStream s).errors := by
  obtain ⟨n, -, -, hnoticed⟩ := (kept_ofStream s).stands
  exact ⟨n, hnoticed⟩

/-- All names and literals of a program are those of tokens. -/
theorem sourced_program (s : TokenStream) : Sourced s (Parsed.ofStream s).program.atoms :=
  (sourced_append.1 (kept_ofStream s).sourced).1

end Sprig
