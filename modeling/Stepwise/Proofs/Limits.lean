import Stepwise.Proofs.Latching

/-!
# Limits compose

To run under one limit and then under another is to run once, under the larger one of them:
the same stepper is left, down to a record that was found by looking ahead, and the last
answer is the same.

Of two limits the smaller one may come first or last. If it comes last, there is nothing
left to do: a listing that has come to its end is `Rested`, and stays where it is under
any smaller limit. If it comes first, nothing is lost: looking ahead has no influence on
the next step (`step_of_lookAhead`), so the second listing goes on as if the first one
had not stopped (`drain_of_tighter`).
-/

namespace Stepwise

open Machine

namespace Stepper

/-! ## Two limits -/

/-- The larger one of two limits; no limit at all is larger than any. -/
def laxer : Option Int → Option Int → Option Int
  | some a, some b => some (max a b)
  | _, _ => none

/-- Whether a limit is used up wherever another one is. -/
def Tighter (a b : Option Int) : Prop := ∀ st : Stepper, st.reached b = true → st.reached a = true

theorem tighter_none (a : Option Int) : Tighter a none :=
  fun _ hreached => absurd hreached Bool.false_ne_true

theorem tighter_of_le {a b : Int} (h : a ≤ b) : Tighter (some a) (some b) := by
  intro st hb
  simp only [reached, decide_eq_true_eq] at hb ⊢
  exact h.trans hb

/-- One of two limits is the larger one. -/
theorem laxer_cases (a b : Option Int) :
    (Tighter a b ∧ laxer a b = b) ∨ (Tighter b a ∧ laxer a b = a) := by
  cases a with
  | none => exact .inr ⟨tighter_none b, rfl⟩
  | some a =>
      cases b with
      | none => exact .inl ⟨tighter_none (some a), rfl⟩
      | some b =>
          rcases le_total a b with hle | hle
          · exact .inl ⟨tighter_of_le hle, congrArg some (max_eq_right hle)⟩
          · exact .inr ⟨tighter_of_le hle, congrArg some (max_eq_left hle)⟩

/-! ## Looking ahead -/

/-- Resuming a program moves its machine, and notes an end. -/
theorem advance_ok {st after : Stepper} {found : Option Record}
    (h : st.advance = (.ok found, after)) :
    ∃ machine, (∃ r, found = some r ∧ after = { st with machine }) ∨
      (found = none ∧
        ∃ result, after = { st with machine, status := some (.finished result) }) := by
  unfold advance at h
  split at h
  · cases h
  · dsimp only at h
    split at h
    · cases h
      exact ⟨_, .inl ⟨_, rfl, rfl⟩⟩
    · cases h
      exact ⟨_, .inr ⟨rfl, _, rfl⟩⟩
    · cases h
      exact ⟨_, .inr ⟨rfl, _, rfl⟩⟩
    · cases h

/-- **Looking ahead has no influence on the next step.** -/
theorem step_of_lookAhead {st after : Stepper} (h : st.lookAhead = (.ok (), after)) :
    after.step = st.step := by
  unfold lookAhead at h
  split at h
  · rename_i hresult hpending
    split at h
    · rename_i found moved hadvance
      cases h
      rw [step.eq_def st]
      simp only [hresult, hpending, hadvance]
      obtain ⟨machine, ⟨r, rfl, rfl⟩ | ⟨rfl, result, rfl⟩⟩ := advance_ok hadvance
      · -- the record that was kept is delivered
        have hnone : result? { st with machine, pending := some r } = none := hresult
        unfold step
        rw [hnone]
        rfl
      · obtain ⟨m, status, steps, pending⟩ := st
        cases hpending
        rfl
    · cases h
  · cases h
    rfl

/-- Looking ahead takes no step. -/
theorem lookAhead_steps {st after : Stepper} (h : st.lookAhead = (.ok (), after)) :
    after.steps = st.steps := by
  unfold lookAhead at h
  split at h
  · have hsteps := advance_steps st
    split at h
    · rename_i hadvance
      cases h
      rw [hadvance] at hsteps
      exact hsteps
    · cases h
  · cases h
    rfl

/-- Whether a listing under the limit is at its end: the program has finished, or the limit is
used up and the record behind it is known. -/
def Rested (limit : Option Int) (st : Stepper) : Prop :=
  st.result?.isSome ∨ (st.reached limit = true ∧ st.pending.isSome)

theorem Rested.lookAhead {limit : Option Int} {st : Stepper} (h : st.Rested limit) :
    st.lookAhead = (.ok (), st) := by
  unfold Stepper.lookAhead
  split
  · rename_i hresult hpending
    rcases h with h | ⟨_, h⟩
    · rw [hresult] at h
      cases h
    · rw [hpending] at h
      cases h
  · rfl

/-- Nothing comes of a listing that is at its end. -/
theorem Rested.pull {limit : Option Int} {st : Stepper} (h : st.Rested limit) :
    st.pull limit = (.ok none, st) := by
  unfold Stepper.pull
  split
  · rw [h.lookAhead]
  · rename_i hreached
    rcases h with h | ⟨h, _⟩
    · obtain ⟨result, hresult⟩ := Option.isSome_iff_exists.mp h
      unfold step
      rw [hresult]
    · exact absurd h hreached

theorem Rested.drain {limit : Option Int} {st : Stepper} (h : st.Rested limit) :
    st.drain limit = some ⟨[], none, st⟩ := by
  rw [Stepper.drain, h.pull]

theorem Rested.mono {a b : Option Int} {st : Stepper} (h : st.Rested a) (hab : Tighter b a) :
    st.Rested b :=
  h.imp id fun ⟨hreached, hpending⟩ => ⟨hab st hreached, hpending⟩

theorem rested_of_lookAhead {limit : Option Int} {st after : Stepper}
    (hreached : st.reached limit = true) (h : st.lookAhead = (.ok (), after)) :
    after.Rested limit := by
  unfold Stepper.lookAhead at h
  split at h
  · split at h
    · rename_i found moved hadvance
      cases h
      obtain ⟨machine, ⟨r, rfl, rfl⟩ | ⟨rfl, result, rfl⟩⟩ := advance_ok hadvance
      · exact .inr ⟨hreached, rfl⟩
      · exact .inl rfl
    · cases h
  · rename_i hsettled
    cases h
    cases hresult : st.result? with
    | some result => exact .inl (by rw [hresult]; rfl)
    | none =>
        cases hpending : st.pending with
        | some r => exact .inr ⟨hreached, by rw [hpending]; rfl⟩
        | none => exact (hsettled hresult hpending).elim

/-- A step that gives no record has found the end. -/
theorem result?_of_step {st after : Stepper} (h : st.step = (.ok none, after)) :
    after.result?.isSome := by
  unfold step at h
  split at h
  · rename_i hresult
    cases h
    rw [hresult]
    rfl
  · cases h
  · split at h
    · cases h
    · rename_i hadvance
      cases h
      obtain ⟨machine, ⟨r, hfound, _⟩ | ⟨_, result, rfl⟩⟩ := advance_ok hadvance
      · cases hfound
      · rfl

/-- **A listing that ends without an error is at its end.** -/
theorem rested_of_pull {limit : Option Int} {st after : Stepper}
    (h : st.pull limit = (.ok none, after)) : after.Rested limit := by
  unfold pull at h
  split at h
  · rename_i hreached
    split at h
    · rename_i hahead
      cases h
      exact rested_of_lookAhead hreached hahead
    · cases h
  · exact .inl (result?_of_step h)

theorem rested_of_drain {limit : Option Int} {st : Stepper} {l : Listing}
    (hl : st.drain limit = some l) (herror : l.error = none) : l.stepper.Rested limit := by
  refine drain.partial_correctness limit (fun _ l => l.error = none → l.stepper.Rested limit)
    ?_ st l hl herror
  intro drain ih st l hbody herror
  split at hbody
  · obtain ⟨rest, hrest, hbody⟩ := Option.bind_eq_some_iff.mp hbody
    cases hbody
    exact ih _ rest hrest herror
  · rename_i hpull
    cases hbody
    exact rested_of_pull hpull
  · cases hbody
    cases herror

/-! ## One listing behind another -/

/-- The end of a listing makes no difference for what comes next under a larger limit. -/
theorem pull_of_tighter {a b : Option Int} {st after : Stepper} (hab : Tighter a b)
    (h : st.pull a = (.ok none, after)) : st.pull b = after.pull b := by
  have hrested := rested_of_pull h
  unfold pull at h
  split at h
  · split at h
    · rename_i hahead
      cases h
      have hreached : after.reached b = st.reached b := by
        cases b with
        | none => rfl
        | some b => rw [reached, reached, lookAhead_steps hahead]
      unfold pull
      rw [hreached, hahead, step_of_lookAhead hahead]
      split
      · rw [hrested.lookAhead]
      · rfl
    · cases h
  · -- the program has finished before the smaller limit was used up
    rename_i hopen
    have hresult : after.Rested b := .inl (result?_of_step h)
    rw [hresult.pull, pull, if_neg (fun hreached => hopen (hab st hreached)), h]

/-- **A listing under a smaller limit may come first**: its records are the first ones, and
the others come behind. -/
theorem drain_of_tighter {a b : Option Int} {st : Stepper} {l : Listing} (hab : Tighter a b)
    (hl : st.drain a = some l) (herror : l.error = none) :
    st.drain b =
      (l.stepper.drain b).map fun rest => { rest with records := l.records ++ rest.records } := by
  -- the induction is on how far the first listing goes
  refine drain.partial_correctness a (fun st l => l.error = none → st.drain b =
    (l.stepper.drain b).map fun rest => { rest with records := l.records ++ rest.records })
    ?_ st l hl herror
  intro drain ih st l hbody herror
  split at hbody
  · rename_i r after hpull
    obtain ⟨rest, hrest, hbody⟩ := Option.bind_eq_some_iff.mp hbody
    cases hbody
    have hopen := (pull_record hpull).1
    -- the smaller limit lets the record through, so the larger one does
    have hsame : st.pull b = (.ok (some r), after) := by
      rw [pull, hopen] at hpull
      rw [pull, if_neg]
      · exact hpull
      · intro hreached
        rw [hab st hreached] at hopen
        cases hopen
    rw [Stepper.drain, hsame]
    show (after.drain b >>= _) = _
    rw [ih after rest hrest herror]
    cases rest.stepper.drain b <;> rfl
  · rename_i after hpull
    cases hbody
    rw [Stepper.drain.eq_1 b st, pull_of_tighter hab hpull, ← Stepper.drain.eq_1 b after]
    cases after.drain b <;> rfl
  · cases hbody
    cases herror

/-! ## Runs -/

/-- A run whose listing has no error says how the program has ended, if it has. -/
theorem run_of_drain {limit : Option Int} {st : Stepper} {l : Listing}
    (hl : st.drain limit = some l) (herror : l.error = none) :
    st.run limit = some (.ok l.stepper.result?, l.stepper) := by
  simp only [run, hl, Option.bind_eq_bind, Option.bind_some, herror]

/-- Whether a program is never stopped by a failure that is not its own. -/
def NeverFails (program : List Stmt) : Prop :=
  ∀ n t f, trail program n ≠ .reached (.ended t (some (.failure f)))

theorem Tracks.error_of_drain {program : List Stmt} {limit : Option Int} {st : Stepper}
    {l : Listing}
    (h : Tracks program st) (hfree : NeverFails program) (hl : st.drain limit = some l) :
    l.error = none := by
  cases herror : l.error with
  | none => rfl
  | some e =>
      have hfailed := failed_of_drain hl herror
      obtain ⟨hmachine, _⟩ := (drain_continues hl h).tracks.exists_ended (.inr hfailed)
      obtain ⟨t, f, hend⟩ := hfailed
      exact absurd (hmachine ▸ hend) (hfree _ t f)

/-- **Limits compose.** From any stepper that a driver can come to, of a program without a
failure, a run under one limit and then a run under another leave the same stepper and give the
same answer as a single run under the larger limit. If both limits are numbers, or the records of
the program come to an end, then these runs come back. -/
theorem run_run {program : List Stmt} {requests : List Request} {delivered : List Record}
    {st : Stepper} (hfree : NeverFails program)
    (hs : (start program).serveAll requests = some (delivered, st)) (a b : Option Int) :
    ((st.run a).bind fun first => first.2.run b) = st.run (laxer a b) ∧
    ((a.isSome ∧ b.isSome) ∨ (∃ n, recordAt program n = none) →
      ∃ result last, st.run (laxer a b) = some (.ok result, last)) := by
  have htracks := (serveAll_continues hs (tracks_start program)).tracks
  constructor
  · cases hl : st.drain a with
    | none =>
        -- only a run without a limit goes on forever, and no limit is larger than that
        cases a with
        | none =>
            have hrun : st.run none = none := by
              rw [run, hl]
              rfl
            rw [hrun]
            exact hrun.symm
        | some a =>
            rw [drain_some] at hl
            cases hl
    | some l =>
        have herror := htracks.error_of_drain hfree hl
        rw [run_of_drain hl herror, Option.bind_some]
        rcases laxer_cases a b with ⟨hab, hlaxer⟩ | ⟨hba, hlaxer⟩
        · rw [hlaxer, run, run, drain_of_tighter hab hl herror]
          cases l.stepper.drain b <;> rfl
        · have hrested := ((rested_of_drain hl herror).mono hba).drain
          rw [hlaxer, run_of_drain hl herror, run_of_drain hrested rfl]
  · intro hends
    have hdrain : (st.drain (laxer a b)).isSome := by
      rcases hends with ⟨ha, hb⟩ | ⟨n, hn⟩
      · obtain ⟨a, rfl⟩ := Option.isSome_iff_exists.mp ha
        obtain ⟨b, rfl⟩ := Option.isSome_iff_exists.mp hb
        rw [laxer, drain_some]
        rfl
      · exact drain_isSome_of_recordAt _ hn htracks
    obtain ⟨l, hl⟩ := Option.isSome_iff_exists.mp hdrain
    exact ⟨_, _, run_of_drain hl (htracks.error_of_drain hfree hl)⟩

/-- Of two numbers that are printed, one has been listed. A run to the next step and then one
under a negative limit, or the other way round, leave what the first of them leaves alone; and a
run to the end behind either of them is a run to the end. -/
theorem run_run_countdown :
    NeverFails Command.countdownProgram ∧
    ∃ delivered st,
      (start Command.countdownProgram).serveAll [.take none 1] = some (delivered, st) ∧
      ((st.run (some 2)).bind fun first => first.2.run (some (-1))) = st.run (some 2) ∧
      ((st.run (some (-1))).bind fun first => first.2.run (some 2)) = st.run (some 2) ∧
      ((st.run (some 1)).bind fun first => first.2.run none) = st.run none ∧
      ∃ result last, st.run none = some (.ok result, last) := by
  have hend : trail Command.countdownProgram 3 = .reached (.ended ⟨[], "2\n1\n"⟩ none) := by cbv
  have hfree : NeverFails Command.countdownProgram := by
    intro n t f hfailure
    obtain ⟨_, hstop⟩ := trail_ended_unique hend hfailure
    cases hstop
  obtain ⟨⟨delivered, st⟩, hs⟩ : ∃ outcome,
      (start Command.countdownProgram).serveAll [.take none 1] = some outcome := ⟨_, rfl⟩
  refine ⟨hfree, delivered, st, hs, (run_run hfree hs (some 2) (some (-1))).1,
    (run_run hfree hs (some (-1)) (some 2)).1, (run_run hfree hs (some 1) none).1, ?_⟩
  exact (run_run hfree hs (some 1) none).2 (.inr ⟨2, recordAt_of_ended hend⟩)

end Stepper

end Stepwise
