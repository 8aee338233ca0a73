import Stepwise.Proofs.Sessions

/-!
# A trace is only added

The options that ask for a trace, or to wait after each record, have no part in what the command
computes. The exit code and the messages are those of the plain command; its output is there too,
behind the lines of the trace.

A trace has a line for each record that was delivered. A command that waits without a trace shows
the records it waits behind, so that with `L` lines of input it shows the first `L + 1`: the last
one is shown before it finds that there is no line. `lineCount_eq` says what `L` is, by reading
one line after the other.
-/

namespace Stepwise

open Machine

namespace Command

open Stepper (Listing)

variable {inv : Invocation} {cwd : String} {read : String → Option String} {source : Source}
  {program : List Stmt} {limit : Option Int} {stdin : String}

/-! ## The lines of the input -/

/-- What is left of the input when a line has been read from it, if there is a line: it goes up to
its line feed, or to the end of the input. -/
def afterLine? : List Char → Option (List Char)
  | [] => none
  | '\n' :: rest => some rest
  | _ :: rest => some ((afterLine? rest).getD [])

/-- A line feed at the front is a line of its own. -/
theorem lineCount_lineFeed (rest : List Char) :
    lineCount (String.ofList ('\n' :: rest)) = lineCount (String.ofList rest) + 1 := by
  cases rest with
  | nil => rfl
  | cons c rest =>
      simp only [lineCount, String.toList_ofList, List.count_cons_self, List.getLast?_cons_cons]
      omega

/-- Any other character at the front belongs to the first line of the rest, or is all there is. -/
theorem lineCount_cons {c : Char} (hc : c ≠ '\n') (rest : List Char) :
    lineCount (String.ofList (c :: rest)) =
      if rest = [] then 1 else lineCount (String.ofList rest) := by
  cases rest with
  | nil => simp [lineCount, hc]
  | cons c' rest =>
      rw [if_neg (List.cons_ne_nil c' rest)]
      simp only [lineCount, String.toList_ofList, List.count_cons_of_ne hc,
        List.getLast?_cons_cons]

/-- There is a line in any text that is not empty. -/
theorem exists_afterLine? {cs : List Char} (h : cs ≠ []) : ∃ rest, afterLine? cs = some rest := by
  fun_cases afterLine? cs with
  | case1 => exact absurd rfl h
  | case2 rest => exact ⟨rest, rfl⟩
  | case3 c rest => exact ⟨_, rfl⟩

/-- **Lines are read one at a time.** Each line that is read leaves one less to be read, down to
the empty text, in which there is none. -/
theorem lineCount_eq (cs : List Char) :
    lineCount (String.ofList cs) = match afterLine? cs with
      | none => 0
      | some rest => lineCount (String.ofList rest) + 1 := by
  fun_induction afterLine? cs with
  | case1 => rfl
  | case2 rest => exact lineCount_lineFeed rest
  | case3 c cs hc ih =>
      rw [lineCount_cons hc, ih]
      cases cs with
      | nil => rfl
      | cons c' cs =>
          -- the line goes on: what is behind it is what is behind the first line from `c'` on
          obtain ⟨rest, hrest⟩ := exists_afterLine? (List.cons_ne_nil c' cs)
          simp only [hrest, Option.getD_some, reduceCtorEq, if_false]

/-- Only in the empty text there is no line. -/
theorem lineCount_eq_zero_iff (cs : List Char) : lineCount (String.ofList cs) = 0 ↔ cs = [] := by
  rw [lineCount_eq]
  cases cs with
  | nil => exact ⟨fun _ => rfl, fun _ => rfl⟩
  | cons c cs =>
      obtain ⟨rest, hrest⟩ := exists_afterLine? (List.cons_ne_nil c cs)
      simp only [hrest, Nat.add_one_ne_zero, List.cons_ne_nil]

/-! ## The trace -/

/-- The records of a listing are the first ones of the program. -/
theorem records_of_drain {l : Listing} (h : (Stepper.start program).drain limit = some l) :
    l.records.map some = (List.range l.records.length).map (recordAt program) := by
  have hcontinues := Stepper.drain_continues h (Stepper.tracks_start program)
  rw [List.range_eq_range']
  exact Stepper.map_some_of_continues hcontinues.records

/-- **Tracing only adds to the output.** If a plain command ends, it ends with the same code and
the same messages when it is asked for a trace or to wait. It has then written the lines of its
trace before the output: those of all `k` records that were delivered, or without a trace as many
as it waited behind. -/
theorem trace_only_adds {silent loud : List String} {trace step : Bool} {code : Nat}
    {stdout stderr : String} (hsilent : Invocation.ofArguments silent = .ok inv)
    (hloud : Invocation.ofArguments loud = .ok { inv with trace := trace, step := step })
    (hoptions : trace || step) (hplain : inv.Plain) (hloads : inv.Loads cwd read source program)
    (hlimit : inv.maxSteps = .given limit)
    (hends : Ends silent cwd read stdin (.report ⟨code, stdout, stderr⟩)) :
    ∃ l k, (Stepper.start program).drain limit = some l ∧
      l.records.map some = (List.range k).map (recordAt program) ∧
      Ends loud cwd read stdin (.report ⟨code, traceLines source 0 (l.records.take
        (if trace then k else min k (lineCount stdin + 1))) ++ stdout, stderr⟩) := by
  obtain ⟨l, hl⟩ := drain_of_ends hsilent hplain.quiet hloads hlimit hends
  have hclosing : closing source l.error l.stepper = ⟨code, stdout, stderr⟩ := by
    have hsame := (ends_plain stdin hsilent hplain hloads hlimit hl).unique hends
    exact Ending.report.inj hsame
  have hshown : shown trace step (lineCount stdin) l.records.length =
      if trace then l.records.length else min l.records.length (lineCount stdin + 1) := by
    cases trace with
    | true => rfl
    | false =>
        -- one of the options is there
        have hstep : step = true := hoptions
        rw [hstep]
        rfl
  have hends' := ends_of_drain stdin hloud hplain.quiet hloads hlimit hl
  rw [hclosing, hshown] at hends'
  exact ⟨l, l.records.length, hl, records_of_drain hl, hends'⟩

/-- Two records are delivered. Without any input only the first one is waited behind, and the trace
shows both. One line of input is enough to wait behind both, whether or not it is ended. -/
theorem trace_only_adds_countdown :
    Ends ["--max-steps", "2", "countdown.pel"] "/" countdownDisk "" (.report ⟨0, "2\n1\n", ""⟩) ∧
    Ends ["--max-steps", "2", "--step", "countdown.pel"] "/" countdownDisk "" (.report ⟨0,
      "[1] print value '2' @ countdown.pel:1:1-9\n    2 => 2\n" ++ "2\n1\n", ""⟩) ∧
    Ends ["--max-steps", "2", "--step", "--trace", "countdown.pel"] "/" countdownDisk ""
      (.report ⟨0, "[1] print value '2' @ countdown.pel:1:1-9\n    2 => 2\n" ++
      "[2] print value '1' @ countdown.pel:1:9-17\n    1 => 1\n" ++ "2\n1\n", ""⟩) ∧
    ∀ stdin ∈ ["go\n", "go"],
      Ends ["--max-steps", "2", "--step", "countdown.pel"] "/" countdownDisk stdin
        (.report ⟨0, "[1] print value '2' @ countdown.pel:1:1-9\n    2 => 2\n" ++
        "[2] print value '1' @ countdown.pel:1:9-17\n    1 => 1\n" ++ "2\n1\n", ""⟩) := by
  have hdrain := Stepper.drain_some 2 (Stepper.start countdownProgram)
  have hrecords : ((Stepper.start countdownProgram).records 2).records =
      [printsTwo, printsOne] := by cbv
  have hclosing : closing countdown ((Stepper.start countdownProgram).records 2).error
      ((Stepper.start countdownProgram).records 2).stepper = ⟨0, "2\n1\n", ""⟩ := by cbv
  let inv : Invocation := { script := some countdown.name, maxSteps := .given (some 2) }
  have hplain : inv.Plain := ⟨rfl, rfl, rfl⟩
  have hloads : inv.Loads "/" countdownDisk countdown countdownProgram := loads_countdown
  have hlimit : inv.maxSteps = .given (some 2) := rfl
  have hsilent (stdin : String) : Ends ["--max-steps", "2", "countdown.pel"] "/" countdownDisk
      stdin (.report ⟨0, "2\n1\n", ""⟩) := by
    rw [← hclosing]
    exact ends_plain stdin rfl hplain hloads hlimit hdrain
  have hloud (stdin : String) (trace step : Bool) (loud : List String)
      (hoptions : (trace || step) = true)
      (h : Invocation.ofArguments loud = .ok { inv with trace := trace, step := step }) :
      Ends loud "/" countdownDisk stdin (.report ⟨0, traceLines countdown 0
        ([printsTwo, printsOne].take (if trace then 2 else min 2 (lineCount stdin + 1))) ++
          "2\n1\n", ""⟩) := by
    obtain ⟨l, k, hl, hk, hends⟩ := trace_only_adds rfl h hoptions hplain hloads hlimit
      (hsilent stdin)
    rw [hdrain] at hl
    cases hl
    have hlength := congrArg List.length hk
    rw [List.length_map, List.length_map, List.length_range, hrecords] at hlength
    rw [hrecords, ← hlength] at hends
    exact hends
  have hfirst : traceLines countdown 0 [printsTwo] =
      "[1] print value '2' @ countdown.pel:1:1-9\n    2 => 2\n" := by decide +kernel
  have hboth : traceLines countdown 0 [printsTwo, printsOne] =
      "[1] print value '2' @ countdown.pel:1:1-9\n    2 => 2\n" ++
      "[2] print value '1' @ countdown.pel:1:9-17\n    1 => 1\n" := by decide +kernel
  rw [← hboth, ← hfirst]
  refine ⟨hsilent "", hloud "" false true _ rfl rfl, hloud "" true true _ rfl rfl, ?_⟩
  intro stdin hstdin
  -- one line, ended or not: there is a second record to wait behind
  have hone : lineCount stdin = 1 := by
    have hcounts : ∀ stdin ∈ ["go\n", "go"], lineCount stdin = 1 := by decide +kernel
    exact hcounts stdin hstdin
  have hends := hloud stdin false true ["--max-steps", "2", "--step", "countdown.pel"] rfl rfl
  rw [hone] at hends
  exact hends

end Command

end Stepwise
