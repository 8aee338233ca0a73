import Stepwise.Run.Machine

/-!
# Pacing a run

A stepper hands out the records of a program one by one. A listing of records may have a
limit on the number of steps; when it reaches the limit, the stepper looks one action ahead,
so that a program that ends right there is seen to have ended, and keeps a record that it
finds for the next step.

A failure that is not the program's own is reported once. After that nothing more can be
had from the stepper.
-/

namespace Stepwise

/-- How a program ended: its first error, if any, and all of its output. -/
structure RunResult where
  error : Option RunError
  output : String
deriving DecidableEq

/-- What a step leads to. -/
inductive Outcome where
  | suspended (record : Record)
  | finished (result : RunResult)

/-- Why there is no next record. -/
inductive StepError where
  /-- The program cannot be run. -/
  | failure (failure : Failure)
  /-- A failure has been reported before. -/
  | stopped

/-- The wording of a step error. -/
def StepError.message : StepError → String
  | .failure f => f.message
  | .stopped => "interpreter stopped after an internal failure"

/-- A program, how far it has come, and how much of that has been handed out. -/
structure Stepper where
  machine : Machine
  /-- The outcome of the last step, or of looking ahead if that came to the end. -/
  status : Option Outcome := none
  steps : Nat := 0
  /-- A record that was found by looking ahead. -/
  pending : Option Record := none

namespace Stepper

/-- A stepper at the start of a program. -/
def start (program : List Stmt) : Stepper := { machine := .ready program }

/-- How the program ended, if it has. -/
def result? (st : Stepper) : Option RunResult :=
  match st.status with
  | some (.finished result) => some result
  | _ => none

/-- Lets the program go on to its next record, or notes its end. -/
def advance (st : Stepper) : Except StepError (Option Record) × Stepper :=
  match st.machine with
  | .reached (.ended _ (some (.failure _))) => (.error .stopped, st)
  | machine =>
    let progress := machine.resume
    let moved := { st with machine := .reached progress }
    match progress with
    | .paused p => (.ok (some p.record), moved)
    | .ended state none =>
      (.ok none, { moved with status := some (.finished ⟨none, state.output⟩) })
    | .ended state (some (.error e)) =>
      (.ok none, { moved with status := some (.finished ⟨some e, state.output⟩) })
    | .ended _ (some (.failure f)) => (.error (.failure f), moved)

/-- Hands out a record. -/
def deliver (st : Stepper) (record : Record) : Stepper :=
  { st with status := some (.suspended record), steps := st.steps + 1, pending := none }

/-- Goes on to the next record, which is handed out, or to the end of the program; `none` means
that the program has finished. -/
def step (st : Stepper) : Except StepError (Option Record) × Stepper :=
  match st.result?, st.pending with
  | some _, _ => (.ok none, st)
  | none, some record => (.ok (some record), st.deliver record)
  | none, none =>
    match st.advance with
    | (.ok (some record), moved) => (.ok (some record), moved.deliver record)
    | (found, moved) => (found, moved)

/-- Whether the steps so far use up a limit; a limit may be negative. -/
def reached (st : Stepper) : Option Int → Bool
  | none => false
  | some limit => limit ≤ st.steps

/-- Looks one record ahead, unless that has been done or the program has finished. -/
def lookAhead (st : Stepper) : Except StepError Unit × Stepper :=
  match st.result?, st.pending with
  | none, none =>
    match st.advance with
    | (.ok found, moved) => (.ok (), { moved with pending := found })
    | (.error e, moved) => (.error e, moved)
  | _, _ => (.ok (), st)

/-- The next record of a listing with a limit; `none` ends the listing. -/
def pull (limit : Option Int) (st : Stepper) : Except StepError (Option Record) × Stepper :=
  if st.reached limit then
    match st.lookAhead with
    | (.ok (), ahead) => (.ok none, ahead)
    | (.error e, ahead) => (.error e, ahead)
  else st.step

/-- The records that a listing gave, what stopped it, and the stepper behind it. -/
structure Listing where
  records : List Record
  error : Option StepError
  stepper : Stepper

/-- The first `count` records of a listing with a limit. A listing that is left after its last
record does not look ahead; one that ends by itself does. -/
def take (limit : Option Int) : Nat → Stepper → Listing
  | 0, st => ⟨[], none, st⟩
  | count + 1, st =>
    match st.pull limit with
    | (.ok (some record), after) =>
      let rest := take limit count after
      { rest with records := record :: rest.records }
    | (.ok none, after) => ⟨[], none, after⟩
    | (.error e, after) => ⟨[], some e, after⟩

/-- All records of a listing with a limit: each one uses up a step, and one more pull ends it. -/
def records (limit : Int) (st : Stepper) : Listing :=
  st.take (some limit) ((limit - st.steps).toNat + 1)

/-- All records of a listing that is followed to its end; without a limit, a program that goes on
forever has no such listing. -/
def drain (limit : Option Int) (st : Stepper) : Option Listing :=
  match st.pull limit with
  | (.ok (some record), after) => do
    let rest ← after |>.drain limit
    some { rest with records := record :: rest.records }
  | (.ok none, after) => some ⟨[], none, after⟩
  | (.error e, after) => some ⟨[], some e, after⟩
partial_fixpoint

/-- Goes on to the end of the program or to the limit, and says how the program ended if it has. -/
def run (limit : Option Int) (st : Stepper) :
    Option (Except StepError (Option RunResult) × Stepper) := do
  let listing ← st.drain limit
  match listing.error with
  | some e => some (.error e, listing.stepper)
  | none => some (.ok listing.stepper.result?, listing.stepper)

/-- What is noted of a change from one stepper to the next. -/
def note? (before after : Stepper) : Option String :=
  match before.result?, after.result? with
  | none, some ⟨none, _⟩ =>
    some ("program finished successfully after " ++ after.steps.repr ++ " steps")
  | none, some ⟨some e, _⟩ =>
    some ("program failed after " ++ after.steps.repr ++ " steps: " ++ e.fault.message)
  | _, _ =>
    match after.status with
    | some (.suspended record) =>
      if before.steps < after.steps then
        some ("step " ++ after.steps.repr ++ ": " ++ record.message)
      else none
    | _ => none

end Stepper

end Stepwise
