import Mathlib
import Stepwise.Command.Session
import Stepwise.Proofs.Delivery

/-!
# Sessions follow a listing

A session of the command pulls one record after the other from its stepper, so it follows a
listing of the stepper to its end. What it leaves behind is what `closing` says of the stepper at
that end; on the way there it only adds the lines of a trace (`Session.play_of_drain`). A session
comes to its end just if the listing does (`Session.drain_of_play`).

So the options that make a session wait or write a trace, and the lines that it reads, have no
part in where it ends.
-/

namespace Stepwise

namespace Stepper

/-- A listing that is followed to its end starts with a record or ends at once. -/
theorem drain_cases {limit : Option Int} {st : Stepper} {l : Listing}
    (h : st.drain limit = some l) :
    (∃ r after rest, st.pull limit = (.ok (some r), after) ∧ after.drain limit = some rest ∧
      l = { rest with records := r :: rest.records }) ∨
    (∃ after, st.pull limit = (.ok none, after) ∧ l = ⟨[], none, after⟩) ∨
    (∃ e after, st.pull limit = (.error e, after) ∧ l = ⟨[], some e, after⟩) := by
  rw [drain] at h
  -- as a pull comes to a record, to the end or to an error
  split at h <;> rename_i hpull
  · rename_i r after
    cases hrest : after.drain limit with
    | none =>
        rw [hrest] at h
        cases h
    | some rest =>
        rw [hrest] at h
        cases h
        exact .inl ⟨r, after, rest, hpull, hrest, rfl⟩
  · cases h
    exact .inr (.inl ⟨_, hpull, rfl⟩)
  · cases h
    exact .inr (.inr ⟨_, _, hpull, rfl⟩)

end Stepper

namespace Command

open Stepper (Listing)

/-! ## The texts of a session -/

/-- The lines of a trace, whose numbers go on behind `n`. -/
def traceLines (source : Source) : Nat → List Record → String
  | _, [] => ""
  | n, r :: rs => "[" ++ (n + 1).repr ++ "] " ++ r.describe source ++ "\n" ++
      traceLines source (n + 1) rs

/-- The report of a session that has written a text before. -/
def Report.behind (text : String) (report : Report) : Report :=
  { report with stdout := text ++ report.stdout }

theorem Report.behind_empty (report : Report) : report.behind "" = report := by
  rw [behind, String.empty_append]

theorem Report.behind_behind (first second : String) (report : Report) :
    (report.behind second).behind first = report.behind (first ++ second) := by
  rw [behind, behind, behind, String.append_assoc]

/-- How many of `k` records are shown. Those of a trace are shown all; without a trace, the session
shows a record whenever it waits for a line, and once more when there is none. -/
def shown (trace stepping : Bool) (lines k : Nat) : Nat :=
  if trace then k else if stepping then min k (lines + 1) else 0

/-- What is left behind when a listing has stopped: an exit code, and what is
written at the end. -/
def closing (source : Source) (error : Option StepError) (after : Stepper) : Report :=
  match error, after.result? with
  | some (.failure f), _ => ⟨1, after.machine.state.output, f.diagnostic.render source ++ "\n"⟩
  | some .stopped, _ =>
    ⟨1, after.machine.state.output,
      (Diagnostic.mk StepError.stopped.message none).render source ++ "\n"⟩
  | none, none =>
    ⟨3, after.machine.state.output, "pel: stopped after " ++ after.steps.repr ++ " steps\n"⟩
  | none, some ⟨none, output⟩ => ⟨0, output, ""⟩
  | none, some ⟨some e, output⟩ => ⟨1, output, e.diagnostic.render source ++ "\n"⟩

/-! ## Turns -/

namespace Session

variable {source : Source} {trace stepping : Bool} {limit : Option Int} {st after : Stepper}

/-- A session that does not write a log. -/
abbrev quiet (source : Source) (trace stepping : Bool) (limit : Option Int) (st : Stepper) :
    Session :=
  ⟨source, trace, stepping, false, limit, st⟩

/-- The turn with a record. -/
theorem turn_of_record {r : Record} (h : st.pull limit = (.ok (some r), after)) :
    (quiet source trace stepping limit st).turn =
      ⟨if trace || stepping then
          "[" ++ (st.steps + 1).repr ++ "] " ++ r.describe source ++ "\n" else "", "",
        if stepping then .awaitLine (quiet source trace stepping limit after)
        else .again (quiet source trace stepping limit after)⟩ := by
  rw [turn, h, ← (Stepper.pull_record h).2]
  rfl

/-- The last turn, at the end of the program or at the limit. -/
theorem turn_of_none (h : st.pull limit = (.ok none, after)) :
    (quiet source trace stepping limit st).turn =
      ⟨(closing source none after).stdout, (closing source none after).stderr,
        .exit (closing source none after).code⟩ := by
  rw [turn, h]
  simp only [conclude, log, closing]
  rcases after.result? with _ | ⟨_ | e, output⟩ <;> rfl

/-- The last turn, if the program cannot be run. -/
theorem turn_of_error {e : StepError} (h : st.pull limit = (.error e, after)) :
    (quiet source trace stepping limit st).turn =
      ⟨(closing source (some e) after).stdout, (closing source (some e) after).stderr,
        .exit (closing source (some e) after).code⟩ := by
  rw [turn, h]
  cases e <;> rfl

/-- A session that has had its last turn. -/
theorem play_of_exit {s : Session} {report : Report} (lines fuel : Nat)
    (h : s.turn = ⟨report.stdout, report.stderr, .exit report.code⟩) :
    s.play lines (fuel + 1) = some report := by
  unfold play
  simp [h]

/-- A session goes on behind a record, and waits for a line first if it is stepping. -/
theorem play_of_record {r : Record} (h : st.pull limit = (.ok (some r), after))
    (lines fuel : Nat) :
    (quiet source trace stepping limit st).play lines (fuel + 1) =
      ((quiet source trace (stepping && decide (0 < lines)) limit after).play
        (lines - stepping.toNat) fuel).map (Report.behind (if trace || stepping then
          "[" ++ (st.steps + 1).repr ++ "] " ++ r.describe source ++ "\n" else "")) := by
  have hturn : (quiet source trace stepping limit st).turn = _ := turn_of_record h
  -- a record writes nothing but its line
  have hbehind (text : String) : Report.behind text =
      fun report => ⟨report.code, text ++ report.stdout, "" ++ report.stderr⟩ := by
    funext report
    rw [String.empty_append]
    rfl
  rw [play.eq_def, hbehind]
  simp only [hturn]
  cases stepping with
  | false => rfl
  -- without a line to wait for, the session does not wait again
  | true => cases lines <;> rfl

/-- Another record that comes first is shown if the session writes a trace or waits behind it. -/
theorem traceLines_shown (r : Record) (records : List Record) (n lines : Nat) :
    (if trace || stepping then "[" ++ (n + 1).repr ++ "] " ++ r.describe source ++ "\n" else "") ++
        traceLines source (n + 1) (records.take
          (shown trace (stepping && decide (0 < lines)) (lines - stepping.toNat) records.length)) =
      traceLines source n
        ((r :: records).take (shown trace stepping lines (records.length + 1))) := by
  cases trace with
  | true => simp [shown, traceLines]
  | false =>
      cases stepping with
      | false => simp [shown, traceLines]
      | true =>
          cases lines with
          | zero => simp [shown, traceLines]
          | succ lines =>
              -- one line is used up for this record, and the others are left for the rest
              have hmin : min (records.length + 1) (lines + 1 + 1) =
                  min records.length (lines + 1) + 1 := by omega
              simp [shown, hmin, traceLines]

/-- **A session follows its listing to the end**, and shows some of the first
records on the way. -/
theorem play_of_drain {l : Listing} (h : st.drain limit = some l) (lines : Nat) {fuel : Nat}
    (hfuel : l.records.length < fuel) :
    (quiet source trace stepping limit st).play lines fuel =
      some ((closing source l.error l.stepper).behind (traceLines source st.steps
        (l.records.take (shown trace stepping lines l.records.length)))) := by
  -- along the records; each one that is waited behind uses up a line
  obtain ⟨records, error, last⟩ := l
  induction records generalizing st stepping lines fuel with
  | nil =>
      obtain ⟨fuel, rfl⟩ : ∃ n, fuel = n + 1 := ⟨fuel - 1, by omega⟩
      rw [List.take_nil, traceLines, Report.behind_empty]
      rcases Stepper.drain_cases h with
        ⟨r, after, rest, _, _, hl⟩ | ⟨after, hpull, hl⟩ | ⟨e, after, hpull, hl⟩
      · -- a record cannot be in a listing of none
        cases hl
      · cases hl
        exact play_of_exit lines fuel (turn_of_none hpull)
      · cases hl
        exact play_of_exit lines fuel (turn_of_error hpull)
  | cons r records ih =>
      obtain ⟨fuel, rfl⟩ : ∃ n, fuel = n + 1 := ⟨fuel - 1, by omega⟩
      rcases Stepper.drain_cases h with
        ⟨r', after, rest, hpull, hrest, hl⟩ | ⟨after, _, hl⟩ | ⟨e, after, _, hl⟩
      · cases hl
        -- the line of this record, and behind it what the rest of the session writes
        rw [play_of_record hpull, ih _ hrest (Nat.lt_of_succ_lt_succ hfuel),
          (Stepper.pull_record hpull).2, Option.map_some, Report.behind_behind, traceLines_shown]
        rfl
      · cases hl
      · cases hl

/-- A session that comes to its end has followed a listing there. -/
theorem drain_of_play {lines fuel : Nat} {report : Report}
    (h : (quiet source trace stepping limit st).play lines fuel = some report) :
    ∃ l, st.drain limit = some l := by
  induction fuel generalizing st stepping lines report with
  | zero => cases h
  | succ fuel ih =>
      rw [Stepper.drain]
      split <;> rename_i hpull
      · -- the session has gone on to its end, so the listing behind this record has one too
        rw [play_of_record hpull] at h
        obtain ⟨rest, hrest, _⟩ := Option.map_eq_some_iff.mp h
        obtain ⟨l, hl⟩ := ih hrest
        exact ⟨_, by rw [hl]; rfl⟩
      · exact ⟨_, rfl⟩
      · exact ⟨_, rfl⟩

end Session

/-! ## The command -/

/-- How the command ends: from some number of turns on it comes to this. -/
def Ends (arguments : List String) (cwd : String) (read : String → Option String) (stdin : String)
    (ending : Ending) : Prop :=
  ∃ turns, ∀ fuel, turns ≤ fuel → run arguments cwd read stdin fuel = some ending

/-- Whether the script that is asked for is there and is a program. -/
def Invocation.Loads (inv : Invocation) (cwd : String) (read : String → Option String)
    (source : Source) (program : List Stmt) : Prop :=
  inv.source cwd read = .ok source ∧ ∃ d, inv.dialect = .ok d ∧ source.parse d = .ok program

/-- Whether the command is asked for nothing but the run: it neither waits nor writes a trace or a
log. -/
structure Invocation.Plain (inv : Invocation) : Prop where
  trace : inv.trace = false
  step : inv.step = false
  quiet : inv.verbose = false

section Command

variable {inv : Invocation} {arguments : List String} {cwd : String}
  {read : String → Option String}
  {source : Source} {program : List Stmt} {limit : Option Int} {stdin : String}

/-- The command plays a session of the script. -/
theorem run_eq_play (hinv : Invocation.ofArguments arguments = .ok inv)
    (hloads : inv.Loads cwd read source program) (hlimit : inv.maxSteps = .given limit)
    (fuel : Nat) :
    run arguments cwd read stdin fuel =
      (Session.play (lineCount stdin)
        ⟨source, inv.trace, inv.step, inv.verbose, limit, Stepper.start program⟩ fuel).map
          .report := by
  obtain ⟨hsource, d, hdialect, hparse⟩ := hloads
  -- the script is a program and the limit is given, so nothing ends the command early
  have hstart : inv.start source =
      .ok ⟨source, inv.trace, inv.step, inv.verbose, limit, Stepper.start program⟩ := by
    rw [Invocation.start, hdialect]
    simp only [Except.mapError, bind, Except.bind, hparse, hlimit, Setting.value]
    rfl
  have hopen : openSession arguments cwd read = inv.start source := by
    rw [openSession, hinv]
    show (inv.source cwd read >>= inv.start) = _
    rw [hsource]
    rfl
  rw [run, hopen, hstart]

/-- **The command ends where the listing of its records does.** -/
theorem ends_of_drain (stdin : String) (hinv : Invocation.ofArguments arguments = .ok inv)
    (hquiet : inv.verbose = false) (hloads : inv.Loads cwd read source program)
    (hlimit : inv.maxSteps = .given limit) {l : Listing}
    (h : (Stepper.start program).drain limit = some l) :
    Ends arguments cwd read stdin (.report
      ((closing source l.error l.stepper).behind (traceLines source 0 (l.records.take
        (shown inv.trace inv.step (lineCount stdin) l.records.length))))) := by
  -- one turn for each record, and one to close
  refine ⟨l.records.length + 1, fun fuel hfuel => ?_⟩
  rw [run_eq_play hinv hloads hlimit, hquiet, Session.play_of_drain h _ hfuel]
  rfl

/-- A plain command shows no records. -/
theorem ends_plain (stdin : String) (hinv : Invocation.ofArguments arguments = .ok inv)
    (hplain : inv.Plain) (hloads : inv.Loads cwd read source program)
    (hlimit : inv.maxSteps = .given limit) {l : Listing}
    (h : (Stepper.start program).drain limit = some l) :
    Ends arguments cwd read stdin (.report (closing source l.error l.stepper)) := by
  have hends := ends_of_drain stdin hinv hplain.quiet hloads hlimit h
  have hshown : shown inv.trace inv.step (lineCount stdin) l.records.length = 0 := by
    rw [hplain.trace, hplain.step]
    rfl
  rw [hshown, List.take_zero, traceLines, Report.behind_empty] at hends
  exact hends

/-- Where the command ends, the listing of its records does. -/
theorem drain_of_ends (hinv : Invocation.ofArguments arguments = .ok inv)
    (hquiet : inv.verbose = false) (hloads : inv.Loads cwd read source program)
    (hlimit : inv.maxSteps = .given limit) {ending : Ending}
    (h : Ends arguments cwd read stdin ending) :
    ∃ l, (Stepper.start program).drain limit = some l := by
  obtain ⟨turns, h⟩ := h
  have hrun := h turns (Nat.le_refl turns)
  rw [run_eq_play hinv hloads hlimit, hquiet] at hrun
  obtain ⟨report, hplay, _⟩ := Option.map_eq_some_iff.mp hrun
  exact Session.drain_of_play hplay

/-- The command ends in one way only. -/
theorem Ends.unique {ending ending' : Ending} (h : Ends arguments cwd read stdin ending)
    (h' : Ends arguments cwd read stdin ending') : ending = ending' := by
  obtain ⟨turns, h⟩ := h
  obtain ⟨turns', h'⟩ := h'
  have hsame := h (max turns turns') (Nat.le_max_left _ _)
  rw [h' (max turns turns') (Nat.le_max_right _ _)] at hsame
  exact (Option.some.inj hsame).symm

end Command

/-! ## A script -/

/-- A script that prints two numbers. -/
def countdown : Source := ⟨"countdown.pel", "print 2;print 1;"⟩

/-- The program that it is read as. -/
def countdownProgram : List Stmt :=
  [.print (.ofLength 0 8) (.literal (.ofLength 6 1) (.int 2)),
   .print (.ofLength 8 8) (.literal (.ofLength 14 1) (.int 1))]

/-- The record of its first number. -/
def printsTwo : Record := ⟨.print (.ofLength 0 8) ⟨.ofLength 6 1, .int 2⟩, ⟨[[]], ""⟩⟩

/-- The record of its second number, taken when the first one is there. -/
def printsOne : Record := ⟨.print (.ofLength 8 8) ⟨.ofLength 14 1, .int 1⟩, ⟨[[]], "2\n"⟩⟩

/-- A disk on which every file holds the script. -/
def countdownDisk (_ : String) : Option String := some countdown.text

theorem loads_countdown :
    Invocation.Loads { script := some countdown.name } "/" countdownDisk countdown
      countdownProgram := by
  have hlines : unixLines countdown.text.toList = countdown.text.toList := by cbv
  have hnul : countdown.name.toList.contains '\x00' = false := by cbv
  have hsource : Invocation.source { script := some countdown.name } "/" countdownDisk =
      .ok countdown := by
    simp only [Invocation.source, countdownDisk, hnul, hlines, String.ofList_toList]
    rfl
  have hparse : countdown.parse {} = .ok countdownProgram := by cbv
  exact ⟨hsource, {}, rfl, hparse⟩

end Command

end Stepwise
