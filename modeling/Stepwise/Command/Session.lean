import Stepwise.Command.Bundled
import Stepwise.Command.Options
import Stepwise.Command.Path
import Stepwise.Diagnostic
import Stepwise.Parse.Program
import Stepwise.Stepper

/-!
# Sessions of the command

A session runs one script. It goes on in turns: each turn gets the next record, or the end, from
the stepper, and says what to write and how to go on. When the user wants to step, a turn with a
record waits for a line; at the end of the input the session goes on by itself.

`Session.play` puts the turns together, for a given number of lines of input.
-/

namespace Stepwise.Command

/-- What a finished command leaves behind. -/
structure Report where
  code : Nat
  stdout : String
  stderr : String
deriving DecidableEq, Inhabited

/-- What the command cannot go on from. It leaves a message behind in place of a report. -/
inductive Breakdown where
  /-- The path of the script holds a NUL. -/
  | nulInPath
  /-- The style of assignment is blank. -/
  | noAssignStyle
  /-- The style of declaration is blank. -/
  | noDeclStyle
  /-- The greatest number of steps is blank. -/
  | noLimit
deriving DecidableEq

/-- The wording of a breakdown. -/
def Breakdown.message : Breakdown → String
  | .nulInPath => "embedded null byte"
  | .noAssignStyle => "[] is not a valid AssignStatementType"
  | .noDeclStyle => "[] is not a valid VariableDeclarationType"
  | .noLimit => "'<' not supported between instances of 'int' and 'list'"

/-- How the command ends. -/
inductive Ending where
  | report (report : Report)
  | breakdown (breakdown : Breakdown)
deriving DecidableEq, Inhabited

/-- How the command is used. -/
def usage : String := "usage: python -m pel [options] (<script.pel> | --sample)\n"

/-- The answer to a request for help. -/
def helpText : String :=
  usage ++ "\n" ++
  "positional arguments:\n" ++
  "  script\n" ++
  "\n" ++
  "options:\n" ++
  "  -h, --help            show this help message and exit\n" ++
  "  --sample              run the bundled FizzBuzz program\n" ++
  "  --trace               print every step before the output\n" ++
  "  --step                wait for Enter between steps\n" ++
  "  --max-steps N\n" ++
  "  --assign-syntax \x7boperator,keyword,any\x7d\n" ++
  "  --decl-syntax \x7bvar,make,any\x7d\n" ++
  "  -v, --verbose         log interpreter transitions\n"

/-- What is left behind when the arguments ask for no run. -/
def Halt.report : Halt → Report
  | .help => ⟨0, helpText, ""⟩
  | .refused error => ⟨2, "", usage ++ "python -m pel: error: " ++ error.message ++ "\n"⟩

/-- Line ends as line feeds: a carriage return counts as one, together with a line feed after
it. -/
def unixLines : List Char → List Char
  | [] => []
  | '\r' :: '\n' :: cs => '\n' :: unixLines cs
  | '\r' :: cs => '\n' :: unixLines cs
  | c :: cs => c :: unixLines cs

/-- A run of a script. -/
structure Session where
  source : Source
  trace : Bool
  /-- Whether to wait after each record. -/
  stepping : Bool
  verbose : Bool
  limit : Option Int
  stepper : Stepper

namespace Invocation

/-- The absolute path of the script to read, if there is one to read. -/
def path? (inv : Invocation) (cwd : String) : Option String :=
  if inv.sample then none else inv.script.map (Path.resolve cwd)

/-- The program text to run. The text of a file comes from `read`, by absolute path. -/
def source (inv : Invocation) (cwd : String) (read : String → Option String) :
    Except Ending Source :=
  match inv.sample, inv.script with
  | true, _ => .ok bundled
  | false, none => .error (.report ⟨2, "", usage ++ "pel: expected 1 argument: input file\n"⟩)
  | false, some script =>
    if script.toList.contains '\x00' then .error (.breakdown .nulInPath)
    else match read (Path.resolve cwd script) with
      | some text => .ok ⟨script, String.ofList (unixLines text.toList)⟩
      | none =>
        .error (.report ⟨2, "", "pel: script not found: " ++ Path.resolve cwd script ++ "\n"⟩)

/-- The dialect of the script. -/
def dialect (inv : Invocation) : Except Breakdown Dialect := do
  let assign ← inv.assign.value .noAssignStyle
  let decl ← inv.decl.value .noDeclStyle
  return { assign, decl }

/-- The session that runs the script, unless its text is no program or a setting is blank. The
limit is the last thing to be looked at. -/
def start (inv : Invocation) (source : Source) : Except Ending Session := do
  let dialect ← inv.dialect.mapError Ending.breakdown
  match source.parse dialect with
  | .error e => .error (.report ⟨1, "", e.diagnostic.render source ++ "\n"⟩)
  | .ok program =>
    let limit ← (inv.maxSteps.value Breakdown.noLimit).mapError Ending.breakdown
    return { source, trace := inv.trace, stepping := inv.step, verbose := inv.verbose, limit,
             stepper := Stepper.start program }

end Invocation

/-- The session that the arguments ask for, or how the command ends without one. -/
def openSession (arguments : List String) (cwd : String) (read : String → Option String) :
    Except Ending Session := do
  let inv ← (Invocation.ofArguments arguments).mapError fun halt => Ending.report halt.report
  let source ← inv.source cwd read
  inv.start source

/-- How a session goes on. -/
inductive Next where
  /-- At once. -/
  | again (session : Session)
  /-- When a line has been read, or there is none. -/
  | awaitLine (session : Session)
  /-- Not at all. -/
  | exit (code : Nat)

/-- What a session writes before it goes on. -/
structure Turn where
  stdout : String
  stderr : String
  next : Next

namespace Session

/-- The log line of a change of the stepper. -/
def log (s : Session) (after : Stepper) : String :=
  if s.verbose then
    match s.stepper.note? after with
    | some note => "pel.stepper: " ++ note ++ "\n"
    | none => ""
  else ""

/-- The last turn of a session, by how the program ended. -/
def conclude (s : Session) (after : Stepper) : Turn :=
  match after.result? with
  | none =>
    ⟨after.machine.state.output,
      s.log after ++ "pel: stopped after " ++ after.steps.repr ++ " steps\n", .exit 3⟩
  | some ⟨none, output⟩ => ⟨output, s.log after, .exit 0⟩
  | some ⟨some e, output⟩ =>
    ⟨output, s.log after ++ e.diagnostic.render s.source ++ "\n", .exit 1⟩

/-- The last turn of a session whose program cannot be run. -/
def abandon (s : Session) (after : Stepper) (error : StepError) : Turn :=
  let diagnostic := match error with
    | .failure f => f.diagnostic
    | .stopped => ⟨error.message, none⟩
  ⟨after.machine.state.output, diagnostic.render s.source ++ "\n", .exit 1⟩

/-- The turn with a record. -/
def present (s : Session) (after : Stepper) (record : Record) : Turn :=
  let next := { s with stepper := after }
  ⟨if s.trace || s.stepping then
      "[" ++ after.steps.repr ++ "] " ++ record.describe s.source ++ "\n"
    else "",
    s.log after, if s.stepping then .awaitLine next else .again next⟩

/-- The next turn. -/
def turn (s : Session) : Turn :=
  match s.stepper.pull s.limit with
  | (.ok (some record), after) => s.present after record
  | (.ok none, after) => s.conclude after
  | (.error e, after) => s.abandon after e

/-- The session once the input has ended. -/
def endInput (s : Session) : Session := { s with stepping := false }

/-- All turns of a session for which `lines` lines can be read, if `fuel` turns are enough. -/
def play (lines : Nat) (s : Session) : Nat → Option Report
  | 0 => none
  | fuel + 1 =>
    let t := s.turn
    let rest := match t.next, lines with
      | .again s, _ => play lines s fuel
      | .awaitLine s, 0 => play 0 s.endInput fuel
      | .awaitLine s, lines + 1 => play lines s fuel
      | .exit code, _ => some ⟨code, "", ""⟩
    rest.map fun r => ⟨r.code, t.stdout ++ r.stdout, t.stderr ++ r.stderr⟩

end Session

/-- How many lines can be read from a text; a last line need not be ended. -/
def lineCount (text : String) : Nat :=
  let cs := text.toList
  cs.count '\n' + if cs.getLast?.any (· ≠ '\n') then 1 else 0

/-- How the command ends, if `fuel` turns are enough. -/
def run (arguments : List String) (cwd : String) (read : String → Option String) (stdin : String)
    (fuel : Nat) : Option Ending :=
  match openSession arguments cwd read with
  | .ok s => (s.play (lineCount stdin) fuel).map .report
  | .error ending => some ending

end Stepwise.Command
