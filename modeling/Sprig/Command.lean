import Sprig.Report
import Sprig.Session
import Sprig.Token.Listing

/-!
# Commands

What the command line does with a source text: list its tokens, show its tree or run it; or hold a
conversation. A command is a function from texts to an `Outcome`: what is written to the two output
streams and the exit code.
-/

namespace Sprig

/-- What a command does. -/
structure Outcome where
  exitCode : Nat
  /-- What it writes to the standard output. -/
  output : String
  /-- What it writes to the standard error stream. -/
  errors : String

/-- How a command shows its result. -/
inductive Style where
  /-- In the form that is meant to be read. -/
  | plain
  /-- In the form that shows how the result is built. -/
  | debug

/-- The commands on a source file. -/
inductive Command where
  | tokenize
  | parse
  | run

namespace Command

/-- The exit code for a text with syntax errors. -/
def syntaxErrorCode : Nat := 65

/-- The exit code for a program that stops with a fault. -/
def faultCode : Nat := 70

/-- The word with which a command is announced. -/
def announcement : Command → String
  | tokenize => "Tokenizing"
  | parse => "Parsing"
  | run => "Running"

/-- The command of the given name. -/
def ofName? : String → Option Command
  | "tokenize" => some tokenize
  | "parse" => some parse
  | "run" => some run
  | _ => none

/-- The style of the given name, as far as the command knows it. -/
def style? : Command → String → Option Style
  | _, "debug" => some .debug
  | parse, "canonical" => some .plain
  | tokenize, "basic" => some .plain
  | run, "basic" => some .plain
  | _, _ => none

/-- Lists every token, up to and including the one at the end of the input. -/
def tokenizeText (style : Style) (source : String) : Outcome :=
  let stream := TokenStream.ofSource source
  let textOf : Token → String :=
    match style with
    | .plain => Token.summary source
    | .debug => fun t => t.dump.inline Text.isPrintable
  ⟨0, String.join ((stream.tokens ++ [stream.endToken]).map fun t => textOf t ++ "\n"), ""⟩

/-- Goes on with a program if its text has no syntax errors, and reports them otherwise. -/
def withProgram (path source : String) (go : Program → Outcome) : Outcome :=
  let parsed := Parsed.ofSource source
  if parsed.errors.isEmpty then go parsed.program
  else ⟨syntaxErrorCode, "", Report.renderAll path source parsed.errors ++ "\n"⟩

/-- Shows the tree of a program. -/
def parseText (style : Style) (path source : String) : Outcome :=
  withProgram path source fun p =>
    match style with
    | .plain => ⟨0, p.canonical ++ "\n", ""⟩
    | .debug => ⟨0, p.dump.indented Text.isPrintable ++ "\n", ""⟩

/-- Runs a program in a scope of its own and shows its value, if it has one. -/
def runText (style : Style) (path source : String) : Outcome :=
  withProgram path source fun p =>
    let session := Session.start defaultLimit
    let textOf : Value → String :=
      match style with
      | .plain => Value.display
      | .debug => Value.tagged
    match (p.evaluate session.limit session.scope session.state).1 with
    | none => ⟨0, "", ""⟩
    | some v =>
      if v.isError then ⟨faultCode, "", textOf v ++ "\n"⟩
      else ⟨0, textOf v ++ "\n", ""⟩

/-- The line with which a command starts. -/
def banner (c : Command) (path : String) : String :=
  c.announcement ++ " " ++ Text.quote Text.isPrintable path ++ "...\n"

/-- What a command does with the text of a file, after its first line. -/
def act (c : Command) (style : Style) (path source : String) : Outcome :=
  match c with
  | tokenize => tokenizeText style source
  | parse => parseText style path source
  | run => runText style path source

/-- Carries out a command on the text of a file. -/
def perform (c : Command) (style : Style) (path source : String) : Outcome :=
  let outcome := c.act style path source
  { outcome with errors := c.banner path ++ outcome.errors }

end Command

end Sprig
