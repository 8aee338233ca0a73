import Stepwise.Proofs.Holes
import Stepwise.Proofs.LimitOption
import Stepwise.Proofs.Sessions

/-!
# The limit on the number of steps is exact

A run with a limit is stopped just if the program has one record more than the limit lets through.
That record has been found by looking ahead, so all that was let through has taken effect, and what
is written is the output that the record was taken with. A program without such a record has ended,
and then the limit has no part in what is left behind, even if the end is found by looking ahead.

`pull_level` says what one pull of a listing can come to, and `leaves_of_drain` what a whole
listing comes to, by induction along it. `exists_ends_limited` is about the command line that asks
for a limit in so many words.
-/

namespace Stepwise

open Machine

namespace Machine

/-- A program has one end. -/
theorem trail_ended_unique {program : List Stmt} {m n : Nat} {s t : State}
    {stop stop' : Option Stop} (hm : trail program m = .reached (.ended s stop))
    (hn : trail program n = .reached (.ended t stop')) : s = t ∧ stop = stop' := by
  have hm' := trail_ended hm n
  have hn' := trail_ended hn m
  rw [Nat.add_comm n m, hm'] at hn'
  cases hn'
  exact ⟨rfl, rfl⟩

/-- A machine that waits with a record is in the state of the record. -/
theorem state_trail_of_recordAt {program : List Stmt} {n : Nat} {r : Record}
    (h : recordAt program n = some r) : (trail program (n + 1)).state = r.state := by
  obtain ⟨p, hp, rfl⟩ := exists_pause_of_recordAt h
  rw [hp]
  rfl

/-- Where the program has ended there is no record. -/
theorem recordAt_of_ended {program : List Stmt} {n : Nat} {t : State} {stop : Option Stop}
    (h : trail program (n + 1) = .reached (.ended t stop)) : recordAt program n = none := by
  rw [recordAt, h]
  rfl

end Machine

/-! ## One pull -/

namespace Stepper

/-- The stepper that has delivered `d` records and has not looked ahead. -/
def level (program : List Stmt) (d : Nat) : Stepper :=
  ⟨trail program d, standing program d, d, none⟩

/-- At the limit a record is not delivered but kept. -/
theorem pull_of_advance_ok {program : List Stmt} {d : Nat} {limit : Option Int}
    {found : Option Record} {moved : Stepper} (hreached : (level program d).reached limit = true)
    (h : (level program d).advance = (.ok found, moved)) :
    (level program d).pull limit = (.ok none, { moved with pending := found }) := by
  rw [level] at h
  unfold pull lookAhead
  rw [if_pos hreached]
  simp only [level, result?_standing, h]

/-- At the limit a failure is reported as anywhere else. -/
theorem pull_of_advance_error {program : List Stmt} {d : Nat} {limit : Option Int}
    {e : StepError} {moved : Stepper} (hreached : (level program d).reached limit = true)
    (h : (level program d).advance = (.error e, moved)) :
    (level program d).pull limit = (.error e, moved) := by
  rw [level] at h
  unfold pull lookAhead
  rw [if_pos hreached]
  simp only [level, result?_standing, h]

/-- What a pull from a place that is level can come to. -/
theorem pull_level {program : List Stmt} {d : Nat} (limit : Option Int)
    (hlive : (trail program d).Live) :
    (∃ r, recordAt program d = some r ∧ (level program d).reached limit = false ∧
      (level program d).pull limit = (.ok (some r), level program (d + 1))) ∨
    (∃ r, recordAt program d = some r ∧ (level program d).reached limit = true ∧
      (level program d).pull limit =
        (.ok none, ⟨trail program (d + 1), standing program d, d, some r⟩)) ∨
    (∃ t error, trail program (d + 1) = .reached (.ended t (Option.map Stop.error error)) ∧
      (level program d).pull limit =
        (.ok none, ⟨trail program (d + 1), some (.finished ⟨error, t.output⟩), d, none⟩)) ∨
    (∃ t f, trail program (d + 1) = .reached (.ended t (some (.failure f))) ∧
      (level program d).pull limit =
        (.error (.failure f), ⟨trail program (d + 1), standing program d, d, none⟩)) := by
  cases hreached : (level program d).reached limit with
  | true =>
      -- the program is resumed all the same, to see whether it goes on
      rcases advance_level hlive (standing program d) with
        ⟨r, hr, hadv⟩ | ⟨t, error, hend, hadv⟩ | ⟨t, f, hend, hadv⟩
      · exact .inr (.inl ⟨r, hr, rfl, pull_of_advance_ok hreached hadv⟩)
      · exact .inr (.inr (.inl ⟨t, error, hend, pull_of_advance_ok hreached hadv⟩))
      · exact .inr (.inr (.inr ⟨t, f, hend, pull_of_advance_error hreached hadv⟩))
  | false =>
      have hpull : (level program d).pull limit = (level program d).step := by
        rw [pull, hreached]
        rfl
      rw [hpull]
      rcases advance_level hlive (standing program d) with
        ⟨r, hr, _⟩ | ⟨t, error, hend, hadv⟩ | ⟨t, f, hend, hadv⟩
      · exact .inl ⟨r, hr, rfl, step_level hr⟩
      · refine .inr (.inr (.inl ⟨t, error, hend, step_of_advance hadv ?_⟩))
        intro r hfound
        cases hfound
      · refine .inr (.inr (.inr ⟨t, f, hend, step_of_advance hadv ?_⟩))
        intro r hfound
        cases hfound

end Stepper

/-! ## The whole listing -/

namespace Command

open Stepper (Listing level)

/-- What is left behind when the program has ended. -/
def endReport (source : Source) (t : State) : Option Stop → Report
  | none => ⟨0, t.output, ""⟩
  | some (.error e) => ⟨1, t.output, e.diagnostic.render source ++ "\n"⟩
  | some (.failure f) => ⟨1, t.output, f.diagnostic.render source ++ "\n"⟩

/-- What is left behind when the program is stopped after `n` steps, with one more record in
view. -/
def limitReport (n : Nat) (r : Record) : Report :=
  ⟨3, r.state.output, "pel: stopped after " ++ n.repr ++ " steps\n"⟩

/-- What a run under a limit leaves behind: the program is stopped at the first record beyond the
limit, or there is no such record and the program has ended. -/
inductive Leaves (source : Source) (program : List Stmt) (limit : Option Int) : Report → Prop where
  | stopped {n : Int} {r : Record} : limit = some n → recordAt program n.toNat = some r →
      Leaves source program limit (limitReport n.toNat r)
  | ended {n : Nat} {t : State} {stop : Option Stop} :
      trail program n = .reached (.ended t stop) →
      (∀ m : Int, limit = some m → recordAt program m.toNat = none) →
      Leaves source program limit (endReport source t stop)

/-- A program that ends behind as many records as the limit lets through, or fewer, has no record
beyond the limit. -/
theorem leaves_of_ended {source : Source} {program : List Stmt} {limit : Option Int} {d : Nat}
    {t : State} {stop : Option Stop} (hend : trail program (d + 1) = .reached (.ended t stop))
    (hd : ∀ n : Int, limit = some n → d ≤ n.toNat) :
    Leaves source program limit (endReport source t stop) := by
  refine .ended hend ?_
  intro n hn
  exact recordAt_eq_none_of_le (recordAt_of_ended hend) (hd n hn)

/-- **A listing under a limit** stops at the first record beyond it, or comes to the end of the
program. -/
theorem leaves_of_drain {source : Source} {program : List Stmt} {limit : Option Int} {l : Listing}
    {d : Nat} (h : (level program d).drain limit = some l) (hlive : (trail program d).Live)
    (hd : ∀ n : Int, limit = some n → d ≤ n.toNat) :
    Leaves source program limit (closing source l.error l.stepper) := by
  -- the induction is on how far the listing goes; along it the stepper stays level
  refine Stepper.drain.partial_correctness limit
    (fun st l => ∀ d, st = level program d → (trail program d).Live →
      (∀ n : Int, limit = some n → d ≤ n.toNat) →
      Leaves source program limit (closing source l.error l.stepper)) ?_ _ l h d rfl hlive hd
  intro drain ih st l hbody d hst hlive hd
  subst hst
  rcases Stepper.pull_level limit hlive with
    ⟨r, hr, hreached, hpull⟩ | ⟨r, hr, hreached, hpull⟩ | ⟨t, error, hend, hpull⟩ |
      ⟨t, f, hend, hpull⟩
  · rw [hpull] at hbody
    obtain ⟨rest, hrest, hl⟩ := Option.bind_eq_some_iff.mp hbody
    cases hl
    refine ih _ rest hrest (d + 1) rfl (live_of_record? hr) ?_
    -- the limit was not used up, so one more step fits
    intro n hn
    subst hn
    have hlt : ¬ n ≤ (d : Int) := of_decide_eq_false hreached
    omega
  · rw [hpull] at hbody
    cases hbody
    -- all steps of the limit are used up, and the record found is the one beyond it
    cases limit with
    | none => cases hreached
    | some n =>
        have hle : n ≤ (d : Int) := of_decide_eq_true hreached
        have hdn : n.toNat = d := by
          have hd := hd n rfl
          omega
        have hleaves : Leaves source program (some n) (limitReport n.toNat r) :=
          .stopped rfl (by rw [hdn]; exact hr)
        rw [hdn, limitReport, ← state_trail_of_recordAt hr] at hleaves
        simpa only [closing, Stepper.result?_standing] using hleaves
  · rw [hpull] at hbody
    cases hbody
    cases error with
    | none => exact leaves_of_ended hend hd
    | some e => exact leaves_of_ended hend hd
  · rw [hpull] at hbody
    cases hbody
    rw [hend]
    exact leaves_of_ended hend hd

/-! ## The command -/

section Command

variable {inv : Invocation} {arguments : List String} {cwd : String}
  {read : String → Option String}
  {source : Source} {program : List Stmt} {limit : Option Int} {stdin : String}

/-- A plain command leaves behind what its limit says. -/
theorem exists_ends (stdin : String) (hinv : Invocation.ofArguments arguments = .ok inv)
    (hplain : inv.Plain) (hloads : inv.Loads cwd read source program)
    (hlimit : inv.maxSteps = .given limit)
    (hdrain : ((Stepper.start program).drain limit).isSome) :
    ∃ report, Leaves source program limit report ∧
      Ends arguments cwd read stdin (.report report) := by
  obtain ⟨l, hl⟩ := Option.isSome_iff_exists.mp hdrain
  refine ⟨closing source l.error l.stepper, ?_, ends_plain stdin hinv hplain hloads hlimit hl⟩
  refine leaves_of_drain (d := 0) hl trivial ?_
  intro n _
  exact Nat.zero_le n.toNat

/-- Any limit that is not too long to be written down can be put in front of arguments that set
none, and the command obeys it. -/
theorem exists_ends_limited {free : List String} (stdin : String) {n : Int}
    (hn : (Text.Decimal.digits n.natAbs).length ≤ Text.IntegerText.maxDigits)
    (hfree : Invocation.ofArguments free = .ok { inv with maxSteps := .given none })
    (hplain : inv.Plain) (hloads : inv.Loads cwd read source program) :
    ∃ report, Leaves source program (some n) report ∧
      Ends ("--max-steps" :: Text.Decimal.ofInt n :: free) cwd read stdin (.report report) := by
  have hbounded : ((Stepper.start program).drain (some n)).isSome := by
    rw [Stepper.drain_some]
    rfl
  exact exists_ends stdin (Invocation.ofArguments_limited hfree hn)
    ⟨hplain.trace, hplain.step, hplain.quiet⟩ hloads rfl hbounded

/-- **The limit is exact.** With a limit of `n` steps, where a negative one counts as zero, the
command is stopped just if the program has a record beyond them. It then says how many steps it
took and writes the output that this record was taken with. Otherwise it ends as it does without a
limit: with the end of the program, which is a success, an error of the program or a call. -/
theorem ends_at_limit {limited free : List String} (n : Int)
    (hlimited : Invocation.ofArguments limited = .ok { inv with maxSteps := .given (some n) })
    (hfree : Invocation.ofArguments free = .ok { inv with maxSteps := .given none })
    (hplain : inv.Plain) (hloads : inv.Loads cwd read source program) :
    (∀ r, recordAt program n.toNat = some r →
      Ends limited cwd read stdin (.report ⟨3, r.state.output,
        "pel: stopped after " ++ n.toNat.repr ++ " steps\n"⟩)) ∧
    (recordAt program n.toNat = none →
      ∃ m t stop, trail program m = .reached (.ended t stop) ∧ FailsByCall stop ∧
        Ends limited cwd read stdin (.report (endReport source t stop)) ∧
        Ends free cwd read stdin (.report (endReport source t stop))) := by
  have hbounded : ((Stepper.start program).drain (some n)).isSome := by
    rw [Stepper.drain_some]
    rfl
  obtain ⟨report, hleaves, hends⟩ := exists_ends stdin hlimited
    ⟨hplain.trace, hplain.step, hplain.quiet⟩ hloads rfl hbounded
  constructor
  · intro r hr
    cases hleaves with
    | stopped hn hr' =>
        cases hn
        rw [hr] at hr'
        cases hr'
        exact hends
    | ended _ hnone =>
        rw [hnone n rfl] at hr
        cases hr
  · intro hnone
    cases hleaves with
    | stopped hn hr =>
        cases hn
        rw [hnone] at hr
        cases hr
    | @ended m t stop hend _ =>
        have hdrain : ((Stepper.start program).drain none).isSome :=
          Stepper.drain_isSome_of_recordAt none hnone (Stepper.tracks_start program)
        obtain ⟨report', hleaves', hends'⟩ := exists_ends stdin hfree
          ⟨hplain.trace, hplain.step, hplain.quiet⟩ hloads rfl hdrain
        have hreport : report' = endReport source t stop := by
          cases hleaves' with
          | stopped hn _ => cases hn
          | ended hend' _ =>
              obtain ⟨rfl, rfl⟩ := trail_ended_unique hend hend'
              rfl
        obtain ⟨_, d, _, hparse⟩ := hloads
        rw [hreport] at hends'
        exact ⟨m, t, stop, hend, Source.failsByCall hparse hend, hends, hends'⟩

end Command

/-- Below its length the script is stopped, with the output of the steps that it took, and a
negative limit lets nothing through. A limit that matches its length does not stop it. -/
theorem ends_at_limit_countdown :
    Ends ["--max-steps", "-1", "countdown.pel"] "/" countdownDisk ""
      (.report ⟨3, "", "pel: stopped after 0 steps\n"⟩) ∧
    Ends ["--max-steps", "1", "countdown.pel"] "/" countdownDisk ""
      (.report ⟨3, "2\n", "pel: stopped after 1 steps\n"⟩) ∧
    Ends ["--max-steps", "2", "countdown.pel"] "/" countdownDisk ""
      (.report ⟨0, "2\n1\n", ""⟩) := by
  have hlimit (text : String) (n : Int)
      (h : Invocation.ofArguments ["--max-steps", text, "countdown.pel"] =
        .ok { script := some countdown.name, maxSteps := .given (some n) }) :=
    @ends_at_limit { script := some countdown.name } "/" countdownDisk countdown
      countdownProgram "" _ ["countdown.pel"] n h rfl ⟨rfl, rfl, rfl⟩ loads_countdown
  have hfirst : recordAt countdownProgram 0 = some printsTwo := by cbv
  have hsecond : recordAt countdownProgram 1 = some printsOne := by cbv
  have hthird : trail countdownProgram 3 = .reached (.ended ⟨[], "2\n1\n"⟩ none) := by cbv
  refine ⟨(hlimit "-1" (-1) rfl).1 _ hfirst, (hlimit "1" 1 rfl).1 _ hsecond, ?_⟩
  obtain ⟨m, t, stop, hend, _, hends, _⟩ := (hlimit "2" 2 rfl).2 (recordAt_of_ended hthird)
  obtain ⟨rfl, rfl⟩ := trail_ended_unique hend hthird
  exact hends

end Command

end Stepwise
