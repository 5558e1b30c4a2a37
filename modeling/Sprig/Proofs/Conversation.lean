import Sprig.Command
import Sprig.Proofs.CallDepth

/-!
# Conversations line by line

An interactive session answers one line after the other. Each line is read for itself, so nothing
that is wrong with it reaches into the next, and each is run by an evaluator of its own, so that all
it finds of the lines before is the environment they left (`Session.Ready.run`). A line with syntax
errors is not run and leaves the environment as it was. What a session writes is therefore a chunk
for each line, made from the line and the environment alone, and where a line with syntax errors is
taken out of the input only its chunk is missing.
-/

namespace Sprig

/-! ## Lines -/

/-- The lines of an input. -/
def linesOf (input : String) : List String :=
  (splitLines input.toList).map String.ofList

/-! ## Environments -/

/-- What a line, read and run by itself, makes of an environment, however it ends. -/
def Store.afterLine (store : Store) (line : String) : Store :=
  ((Parsed.ofSource line).program.run defaultLimit (Session.start defaultLimit).scope
    (.ofStore store)).2.store

/-- The environment after those of the lines, one after the other, that have no syntax errors. -/
def Store.afterLines (store : Store) (lines : List String) : Store :=
  (lines.filter fun line => (Parsed.ofSource line).errors.isEmpty).foldl Store.afterLine store

/-- What is written in answer to a line, given the environment. -/
def Store.replyTo (store : Store) (line : String) : String :=
  (runSource defaultLimit (Session.start defaultLimit).scope line (.ofStore store)).1.reply

/-- What is written for each of the lines, given the environment before the first. -/
def Store.chunks (store : Store) (lines : List String) : List String :=
  lines.mapIdx fun i line => prompt ++ (store.afterLines (lines.take i)).replyTo line

namespace Store

variable {store : Store} {line : String}

theorem afterLines_append (store : Store) (lines lines' : List String) :
    store.afterLines (lines ++ lines') = (store.afterLines lines).afterLines lines' := by
  unfold afterLines
  rw [List.filter_append, List.foldl_append]

theorem afterLines_of_errors (h : (Parsed.ofSource line).errors ≠ []) :
    store.afterLines [line] = store := by
  have hreject : (Parsed.ofSource line).errors.isEmpty = false := by simpa using h
  simp [afterLines, hreject]

theorem afterLines_of_no_errors (h : (Parsed.ofSource line).errors = []) :
    store.afterLines [line] = store.afterLine line := by
  simp [afterLines, h]

theorem chunks_cons (store : Store) (line : String) (lines : List String) :
    store.chunks (line :: lines) =
      (prompt ++ store.replyTo line) :: (store.afterLines [line]).chunks lines := by
  have hafter (i : Nat) : store.afterLines ((line :: lines).take (i + 1)) =
      (store.afterLines [line]).afterLines (lines.take i) :=
    afterLines_append store [line] (lines.take i)
  unfold chunks
  rw [List.mapIdx_cons]
  simp only [hafter]
  rfl

end Store

/-! ## Sessions -/

/-- The session has run its lines in this environment and is ready for the next. -/
structure Session.Ready (s : Session) (store : Store) : Prop where
  limit_eq : s.limit = defaultLimit
  scope_eq : s.scope = (Session.start defaultLimit).scope
  depth_eq : s.state.depth = 0
  store_eq : s.state.store = store

/-- An evaluator that has no call open answers a program as a new one does. -/
theorem Program.evaluate_ofStore (limit : Nat) (scope : ScopeId) (p : Program) {st : State}
    (hdepth : st.depth = 0) :
    (p.evaluate limit scope st).1 = (p.evaluate limit scope (.ofStore st.store)).1 ∧
      (p.evaluate limit scope st).2.depth = 0 ∧
      (p.evaluate limit scope st).2.store =
        (p.run limit scope (.ofStore st.store)).2.store := by
  obtain ⟨hresult, hstore⟩ := p.run_ofStore limit scope hdepth
  have hafter := (p.depth_run limit scope st).trans hdepth
  unfold evaluate
  generalize p.run limit scope st = r at hresult hstore hafter
  generalize p.run limit scope (.ofStore st.store) = r' at hresult hstore
  obtain ⟨result, st'⟩ := r
  obtain ⟨result', st''⟩ := r'
  obtain rfl : result = result' := hresult
  cases result <;> exact ⟨rfl, hafter, hstore⟩

/-- **One line**: the answer comes from the line and the environment, and so does the environment
for the next. -/
theorem Session.Ready.run {s : Session} {store : Store} (h : s.Ready store) (line : String) :
    (s.run line).1.reply = store.replyTo line ∧
      (s.run line).2.Ready (store.afterLines [line]) := by
  obtain ⟨limit, scope, st⟩ := s
  obtain ⟨rfl, rfl, hdepth, rfl⟩ := h
  have hdepth : st.depth = 0 := hdepth
  unfold Session.run Store.replyTo
  by_cases herrors : (Parsed.ofSource line).errors = []
  · obtain ⟨hvalue, hafter, hstore⟩ := (Parsed.ofSource line).program.evaluate_ofStore
      defaultLimit (Session.start defaultLimit).scope hdepth
    rw [Store.afterLines_of_no_errors herrors, runSource_of_no_errors herrors,
      runSource_of_no_errors herrors, hvalue]
    exact ⟨rfl, rfl, rfl, hafter, hstore⟩
  · rw [Store.afterLines_of_errors herrors, runSource_of_errors herrors,
      runSource_of_errors herrors]
    exact ⟨rfl, rfl, rfl, hdepth, rfl⟩

/-- **All lines**: what is written are the chunks of the lines, and the last prompt. -/
theorem Session.Ready.converse {s : Session} {store : Store} (h : s.Ready store)
    (lines : List String) : s.converse lines = String.join (store.chunks lines) ++ prompt := by
  induction lines generalizing s store with
  | nil => simp [Session.converse, Store.chunks]
  | cons line lines ih =>
    obtain ⟨hreply, hready⟩ := h.run line
    rw [Store.chunks_cons, String.join_cons, String.append_assoc, ← ih hready, ← hreply]
    rfl

end Sprig
