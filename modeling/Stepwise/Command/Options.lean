import Stepwise.Dialect
import Stepwise.Text.IntegerText
import Stepwise.Text.Quoted

/-!
# The arguments of the command

Arguments are options, the script, and words too many. Long options may be abbreviated as long as
they are not ambiguous, take a value after `=` or as the next argument, and may come anywhere;
short ones take no value and may be written together. After a first `--` everything is a word.

All arguments are classified before any is obeyed, so an ambiguous one is reported first. They are
then obeyed from left to right, up to the first error or to the option that asks for help; words
and options that nobody wants are reported at the end.
-/

namespace Stepwise.Command

/-- What an option asks for. -/
inductive Flag where
  | help
  | sample
  | trace
  | step
  | maxSteps
  | assignStyle
  | declStyle
  | verbose
deriving DecidableEq

namespace Flag

/-- The spellings of the options. -/
def spellings : List (String × Flag) :=
  [("-h", .help), ("--help", .help), ("--sample", .sample), ("--trace", .trace), ("--step", .step),
   ("--max-steps", .maxSteps), ("--assign-syntax", .assignStyle), ("--decl-syntax", .declStyle),
   ("-v", .verbose), ("--verbose", .verbose)]

/-- The option with this spelling. -/
def ofSpelling? (text : String) : Option Flag := spellings.lookup text

/-- The option with this letter. -/
def ofLetter? (c : Char) : Option Flag := ofSpelling? (String.ofList ['-', c])

/-- An option in messages: all its spellings. -/
def name (flag : Flag) : String :=
  "/".intercalate ((spellings.filter (·.2 = flag)).map (·.1))

/-- Whether the option takes a value. -/
def takesValue : Flag → Bool
  | .maxSteps | .assignStyle | .declStyle => true
  | _ => false

end Flag

/-- Why the arguments are refused. -/
inductive UsageError where
  | ambiguous (argument : String) (candidates : List String)
  | ignoredValue (flag : Flag) (value : String)
  | missingValue (flag : Flag)
  | notAnInteger (flag : Flag) (value : String)
  | notAChoice (flag : Flag) (value : String) (choices : List String)
  | unrecognized (arguments : List String)
deriving DecidableEq

/-- The wording of a refusal. -/
def UsageError.message : UsageError → String
  | .ambiguous argument candidates =>
    "ambiguous option: " ++ argument ++ " could match " ++ ", ".intercalate candidates
  | .ignoredValue flag value =>
    "argument " ++ flag.name ++ ": ignored explicit argument " ++ Text.Quoted.quote value
  | .missingValue flag => "argument " ++ flag.name ++ ": expected one argument"
  | .notAnInteger flag value =>
    "argument " ++ flag.name ++ ": invalid int value: " ++ Text.Quoted.quote value
  | .notAChoice flag value choices =>
    "argument " ++ flag.name ++ ": invalid choice: " ++ Text.Quoted.quote value ++
      " (choose from " ++ ", ".intercalate (choices.map Text.Quoted.quote) ++ ")"
  | .unrecognized arguments => "unrecognized arguments: " ++ " ".intercalate arguments

/-- What an argument is. -/
inductive Argument where
  | word (text : String)
  /-- The first `--`. -/
  | separator
  /-- An option by itself, or a long one with a value after an equals sign. -/
  | option (flag : Flag) (value : Option String)
  /-- A short option with more letters behind it. -/
  | cluster (flag : Flag) (letters : List Char)
  /-- What looks like an option but is none. -/
  | unknown (text : String)

namespace Argument

/-- Whether the characters are those of a negative number; one line feed may follow. -/
def isNegativeNumber (cs : List Char) : Bool :=
  let isDigit (c : Char) := (Text.decimalDigit? c).isSome
  match cs with
  | '-' :: rest =>
    let rest := if rest.getLast? = some '\n' then rest.dropLast else rest
    match rest.dropWhile isDigit with
    | [] => !rest.isEmpty
    | '.' :: fraction => !fraction.isEmpty && fraction.all isDigit
    | _ => false
  | _ => false

/-- A long option, maybe abbreviated, and maybe with a value after an equals sign. No full spelling
is the start of another one. -/
def ofLong (text : String) : Except UsageError (Option Argument) :=
  let cs := text.toList
  let start := cs.takeWhile (· ≠ '=')
  let value := if start.length < cs.length then some (cs.drop (start.length + 1)) else none
  match Flag.spellings.filter fun (spelling, _) => start.isPrefixOf spelling.toList with
  | [] => .ok none
  | [(_, flag)] => .ok (some (.option flag (value.map String.ofList)))
  | candidates => .error (.ambiguous text (candidates.map (·.1)))

/-- A short option, maybe with letters behind it; an equals sign between them is passed over. -/
def ofShort? : List Char → Option Argument
  | ['-', c] => (Flag.ofLetter? c).map (.option · none)
  | '-' :: c :: '=' :: letters => (Flag.ofLetter? c).map (.cluster · letters)
  | '-' :: c :: letters => (Flag.ofLetter? c).map (.cluster · letters)
  | _ => none

/-- What an argument with a dash in front is. A negative number and a text with a space are words
if they match no option. -/
def ofDashed (text : String) : Except UsageError Argument := do
  let cs := text.toList
  let matched ← if ['-', '-'].isPrefixOf cs then ofLong text else .ok (ofShort? cs)
  match matched with
  | some found => .ok found
  | none => .ok (if isNegativeNumber cs || cs.contains ' ' then .word text else .unknown text)

/-- What an argument before the first `--` is; a dash alone is a word. -/
def ofText (text : String) : Except UsageError Argument :=
  if text.toList.head? = some '-' && text ≠ "-" then ofDashed text else .ok (.word text)

/-- What all arguments are. -/
def classify : List String → Except UsageError (List Argument)
  | [] => .ok []
  | text :: rest =>
    if text = "--" then .ok (.separator :: rest.map .word)
    else do
      let first ← ofText text
      return first :: (← classify rest)

end Argument

/-- What an option is set to. The value `--` counts as no value, which is noticed only when the
setting is used. -/
inductive Setting (α : Type) where
  | given (value : α)
  | blank
deriving DecidableEq

/-- The value of a setting, or an error if it is blank. -/
def Setting.value {α ε : Type} (error : ε) : Setting α → Except ε α
  | .given value => .ok value
  | .blank => .error error

/-- What the command is asked to do with a script. -/
structure Invocation where
  script : Option String := none
  sample : Bool := false
  trace : Bool := false
  step : Bool := false
  verbose : Bool := false
  maxSteps : Setting (Option Int) := .given none
  assign : Setting AssignStyle := .given .any
  decl : Setting DeclStyle := .given .any
deriving DecidableEq

/-- What ends the reading of the arguments early. -/
inductive Halt where
  | help
  | refused (error : UsageError)
deriving DecidableEq

/-- The arguments that have been obeyed. -/
structure Reading where
  invocation : Invocation := {}
  /-- The arguments that nobody wants, in order. -/
  surplus : List String := []

namespace Reading

/-- Adds an argument that nobody wants. -/
def addSurplus (r : Reading) (text : String) : Reading := { r with surplus := r.surplus ++ [text] }

/-- Obeys an option without a value. -/
def obey (r : Reading) (flag : Flag) : Except Halt Reading :=
  let inv := r.invocation
  match flag with
  | .help => .error .help
  | .sample => .ok { r with invocation := { inv with sample := true } }
  | .trace => .ok { r with invocation := { inv with trace := true } }
  | .step => .ok { r with invocation := { inv with step := true } }
  | .verbose => .ok { r with invocation := { inv with verbose := true } }
  | .maxSteps | .assignStyle | .declStyle => .error (.refused (.missingValue flag))

/-- What an option is set to by a text that must be one of some names. -/
def choose {α : Type} (flag : Flag) (names : List (String × α)) (value : String) :
    Except Halt (Setting α) :=
  if value = "--" then .ok .blank
  else match names.lookup value with
    | some choice => .ok (.given choice)
    | none => .error (.refused (.notAChoice flag value (names.map (·.1))))

/-- What an option is set to by a text that must be an integer. -/
def readInteger (flag : Flag) (value : String) : Except Halt (Setting (Option Int)) :=
  if value = "--" then .ok .blank
  else match Text.IntegerText.parse? value with
    | some n => .ok (.given (some n))
    | none => .error (.refused (.notAnInteger flag value))

/-- Obeys an option with a value. -/
def obeyWith (r : Reading) (flag : Flag) (value : String) : Except Halt Reading :=
  let inv := r.invocation
  match flag with
  | .maxSteps => do
    let maxSteps ← readInteger flag value
    return { r with invocation := { inv with maxSteps } }
  | .assignStyle => do
    let assign ← choose flag AssignStyle.names value
    return { r with invocation := { inv with assign } }
  | .declStyle => do
    let decl ← choose flag DeclStyle.names value
    return { r with invocation := { inv with decl } }
  | .help | .sample | .trace | .step | .verbose => .error (.refused (.ignoredValue flag value))

/-- The options that are written together, if every letter behind the first one is an option. -/
def cluster (flag : Flag) : List Char → Except Halt (List Flag)
  | [] => .error (.refused (.ignoredValue flag ""))
  | c :: letters =>
    match Flag.ofLetter? c, letters with
    | none, _ => .error (.refused (.ignoredValue flag (String.ofList (c :: letters))))
    | some next, [] => .ok [flag, next]
    | some next, _ :: _ => do
      let flags ← cluster next letters
      return flag :: flags

/-- Obeys the arguments from left to right. The first word is the script, with a
`--` next to it. -/
def obeyAll (r : Reading) : List Argument → Except Halt Reading
  | [] => .ok r
  | .option flag (some value) :: rest => do
    let r ← r.obeyWith flag value
    r.obeyAll rest
  | .option flag none :: .word value :: rest =>
    if flag.takesValue then do
      let r ← r.obeyWith flag value
      r.obeyAll rest
    else do
      let r ← r.obey flag
      r.obeyAll (.word value :: rest)
  | .option flag none :: rest => do
    let r ← r.obey flag
    r.obeyAll rest
  | .cluster flag letters :: rest => do
    let flags ← cluster flag letters
    let r ← flags.foldlM obey r
    r.obeyAll rest
  | .unknown text :: rest => (r.addSurplus text).obeyAll rest
  | .separator :: rest =>
    if r.invocation.script.isNone then r.obeyAll rest else (r.addSurplus "--").obeyAll rest
  | .word text :: .separator :: rest =>
    if r.invocation.script.isNone then
      { r with invocation := { r.invocation with script := some text } }.obeyAll rest
    else ((r.addSurplus text).addSurplus "--").obeyAll rest
  | .word text :: rest =>
    if r.invocation.script.isNone then
      { r with invocation := { r.invocation with script := some text } }.obeyAll rest
    else (r.addSurplus text).obeyAll rest

end Reading

/-- What the arguments of the command ask for. -/
def Invocation.ofArguments (arguments : List String) : Except Halt Invocation := do
  let classified ← (Argument.classify arguments).mapError Halt.refused
  let r ← Reading.obeyAll {} classified
  if r.surplus.isEmpty then return r.invocation
  else .error (.refused (.unrecognized r.surplus))

end Stepwise.Command
