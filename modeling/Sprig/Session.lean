import Sprig.Evaluation
import Sprig.Tree.Parsed

/-!
# Sessions

A session runs one source text after the other in a scope that stays. A text with syntax errors is
not run at all; one that stops with a fault keeps what it did before.
-/

namespace Sprig

/-- What came of running a source text. -/
inductive Result where
  /-- It has syntax errors and was not run. -/
  | rejected (errors : List SyntaxError)
  /-- It was run; a fault shows as an error value. -/
  | finished (value : Option Value)

/-- Runs a source text in a scope. -/
def runSource (limit : Nat) (scope : ScopeId) (source : String) (st : State) : Result × State :=
  let parsed := Parsed.ofSource source
  if parsed.errors.isEmpty then
    let (value, st) := parsed.program.evaluate limit scope st
    (.finished value, st)
  else (.rejected parsed.errors, st)

theorem runSource_of_errors {source : String} (h : (Parsed.ofSource source).errors ≠ [])
    (limit : Nat) (scope : ScopeId) (st : State) :
    runSource limit scope source st = (.rejected (Parsed.ofSource source).errors, st) :=
  if_neg (by simpa using h)

theorem runSource_of_no_errors {source : String} (h : (Parsed.ofSource source).errors = [])
    (limit : Nat) (scope : ScopeId) (st : State) :
    runSource limit scope source st =
      (.finished ((Parsed.ofSource source).program.evaluate limit scope st).1,
        ((Parsed.ofSource source).program.evaluate limit scope st).2) :=
  if_pos (by simp [h])

/-- A scope in which texts are run. -/
structure Session where
  /-- How deep calls may nest. -/
  limit : Nat
  scope : ScopeId
  state : State

namespace Session

/-- A session in a scope of its own, with nothing bound. -/
def start (limit : Nat) : Session :=
  let (scope, store) := Store.empty.openScope [] none
  ⟨limit, scope, .ofStore store⟩

/-- Runs the next source text. -/
def run (source : String) (s : Session) : Result × Session :=
  let (result, state) := runSource s.limit s.scope source s.state
  (result, { s with state })

/-- Runs a program, and takes null for the value if there is none. -/
def evaluate (p : Program) (s : Session) : Value × Session :=
  let (value, state) := p.evaluate s.limit s.scope s.state
  (value.getD .null, { s with state })

/-- The dump of the scope. -/
def dump (s : Session) : Dump :=
  s.state.store.dumpScope s.scope

end Session

/-! ## Conversations -/

/-- What an interactive session writes after a line: the errors, or the value if there is one. -/
def Result.reply : Result → String
  | .rejected errors => SyntaxError.messages errors ++ "\n"
  | .finished none => ""
  | .finished (some v) => v.display ++ "\n"

/-- What an interactive session writes before it reads a line. -/
def prompt : String := ">> "

/-- Splits a text after each line feed. -/
def splitLines : List Char → List (List Char)
  | [] => []
  | c :: cs =>
    if c = '\n' then [c] :: splitLines cs
    else
      match splitLines cs with
      | [] => [[c]]
      | line :: lines => (c :: line) :: lines

/-- What an interactive session writes for the lines that it reads, from the first prompt to the one
at which it reads nothing any more. -/
def Session.converse (s : Session) : List String → String
  | [] => prompt
  | line :: lines =>
    let (result, s) := s.run line
    prompt ++ result.reply ++ s.converse lines

end Sprig
