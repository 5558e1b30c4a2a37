import Sprig.Command

/-!
# The command line

Reads the arguments, the source file or the standard input, and hands the texts to the library.

    tokenize PATH [--format basic|debug]
    parse PATH [--format canonical|debug]
    run PATH [--format basic|debug]
    repl
-/

namespace Sprig

/-- What is written if the arguments make no sense. -/
def usage : String :=
  "usage: (tokenize | parse | run) PATH [--format FORMAT], or repl\n"

/-- The exit code for arguments that make no sense. -/
def usageCode : UInt32 := 2

/-- Carries out a command on a file. -/
def performFile (c : Command) (style : Style) (path : String) : IO UInt32 := do
  (← IO.getStderr).putStr (c.banner path)
  let outcome := c.act style path (← IO.FS.readFile path)
  (← IO.getStdout).putStr outcome.output
  (← IO.getStderr).putStr outcome.errors
  return outcome.exitCode.toUInt32

/-- Talks with the user until the input ends. -/
partial def converse (session : Session) : IO Unit := do
  let output ← IO.getStdout
  output.putStr prompt
  output.flush
  let line ← (← IO.getStdin).getLine
  unless line.isEmpty do
    let (result, session) := session.run line
    output.putStr result.reply
    converse session

end Sprig

open Sprig

def main (args : List String) : IO UInt32 := do
  let refuse : IO UInt32 := do
    (← IO.getStderr).putStr usage
    return usageCode
  match args with
  | ["repl"] =>
    converse (Session.start defaultLimit)
    return 0
  | [name, path] =>
    match Command.ofName? name with
    | some c => performFile c .plain path
    | none => refuse
  | [name, path, "--format", format] =>
    match Command.ofName? name with
    | some c =>
      match c.style? format with
      | some style => performFile c style path
      | none => refuse
    | none => refuse
  | _ => refuse
