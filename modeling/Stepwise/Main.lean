import Stepwise.Command.Session

/-!
# The command

Reads the script, writes what the session says, and waits for lines. Everything else is decided by
the session.
-/

namespace Stepwise.Command

/-- Runs a session to its end. -/
partial def loop (s : Session) : IO UInt32 := do
  let t := s.turn
  let stdout ← IO.getStdout
  let stderr ← IO.getStderr
  stdout.putStr t.stdout
  stdout.flush
  stderr.putStr t.stderr
  match t.next with
  | .again s => loop s
  | .awaitLine s =>
    let line ← (← IO.getStdin).getLine
    loop (if line.isEmpty then s.endInput else s)
  | .exit code => return code.toUInt32

/-- Writes what the command leaves behind. -/
def finish : Ending → IO UInt32
  | .report report => do
    (← IO.getStdout).putStr report.stdout
    (← IO.getStderr).putStr report.stderr
    return report.code.toUInt32
  | .breakdown breakdown => do
    (← IO.getStderr).putStrLn breakdown.message
    return 1

/-- The text of a file, if it is one. -/
def readText? (path : String) : IO (Option String) := do
  try
    return some (← IO.FS.readFile path)
  catch _ => return none

/-- Runs the command in the working directory. -/
def execute (arguments : List String) : IO UInt32 := do
  match Invocation.ofArguments arguments with
  | .error halt => finish (.report halt.report)
  | .ok inv =>
    let cwd ← IO.currentDir
    let text ← match inv.path? cwd.toString with
      | some path => readText? path
      | none => pure none
    match inv.source cwd.toString (fun _ => text) >>= inv.start with
    | .ok session => loop session
    | .error ending => finish ending

end Stepwise.Command

def main (arguments : List String) : IO UInt32 := Stepwise.Command.execute arguments
