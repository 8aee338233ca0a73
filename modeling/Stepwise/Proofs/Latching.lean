import Stepwise.Proofs.StepLimit
import Stepwise.Proofs.Unwinding

/-!
# Failures are final

A failure that is not the program's own comes out of a stepper once: of a step, of a listing,
or of the look-ahead at a limit. After that the stepper stands still. Whatever it is asked, it
says that it has stopped, hands out nothing, and is the same as before; it never claims that
the program has finished.

An error, from whatever request, leaves a failed program behind (`failed_of_serve`). A stepper
whose program has failed is `Latched`: it has not finished and keeps no record (`Tracks.latched`).
That is all that the answers to later requests depend on (`Latched.serve` for one of them,
`Latched.serveAll` for any number).
-/

namespace Stepwise

open Machine

namespace Stepper

/-! ## Errors come with a failed program -/

theorem failed_of_advance {st after : Stepper} {e : StepError}
    (h : st.advance = (.error e, after)) :
    after.Failed := by
  unfold advance at h
  split at h
  · rename_i hmachine
    cases h
    exact ⟨_, _, hmachine⟩
  · dsimp only at h
    split at h
    · cases h
    · cases h
    · cases h
    · -- resuming has come to a failure of its own
      rename_i hend
      cases h
      exact ⟨_, _, congrArg Machine.reached hend⟩

theorem failed_of_step {st after : Stepper} {e : StepError} (h : st.step = (.error e, after)) :
    after.Failed := by
  unfold step at h
  split at h
  · cases h
  · cases h
  · split at h
    · cases h
    · -- only resuming the program can fail
      rename_i found moved _ hadvance
      cases h
      exact failed_of_advance hadvance

theorem failed_of_lookAhead {st after : Stepper} {e : StepError}
    (h : st.lookAhead = (.error e, after)) : after.Failed := by
  unfold lookAhead at h
  split at h
  · split at h
    · cases h
    · rename_i hadvance
      cases h
      exact failed_of_advance hadvance
  · cases h

theorem failed_of_pull {limit : Option Int} {st after : Stepper} {e : StepError}
    (h : st.pull limit = (.error e, after)) : after.Failed := by
  unfold pull at h
  split at h
  · split at h
    · cases h
    · rename_i hahead
      cases h
      exact failed_of_lookAhead hahead
  · exact failed_of_step h

theorem failed_of_take {limit : Option Int} {count : Nat} {st : Stepper} {e : StepError}
    (h : (st.take limit count).error = some e) : (st.take limit count).stepper.Failed := by
  induction count generalizing st with
  | zero => cases h
  | succ count ih =>
      revert h
      rw [take]
      split
      · exact ih
      · intro h
        cases h
      · rename_i hpull
        intro _
        exact failed_of_pull hpull

theorem failed_of_drain {limit : Option Int} {st : Stepper} {l : Listing} {e : StepError}
    (hl : st.drain limit = some l) (he : l.error = some e) : l.stepper.Failed := by
  -- the induction is on how far the listing goes
  refine drain.partial_correctness limit (fun _ l => l.error = some e → l.stepper.Failed)
    ?_ st l hl he
  intro drain ih st l hbody he
  split at hbody
  · obtain ⟨rest, hrest, hbody⟩ := Option.bind_eq_some_iff.mp hbody
    cases hbody
    exact ih _ rest hrest he
  · cases hbody
    cases he
  · rename_i hpull
    cases hbody
    exact failed_of_pull hpull

/-- **A request that ends in an error leaves a failed program behind.** -/
theorem failed_of_serve {st : Stepper} {request : Request} {l : Listing} {e : StepError}
    (hl : st.serve request = some l) (he : l.error = some e) : l.stepper.Failed := by
  cases request with
  | step =>
      cases hl
      revert he
      unfold stepListing
      split
      · nofun
      · rename_i hstep
        exact fun _ => failed_of_step hstep
  | run limit => exact failed_of_drain hl he
  | records limit => exact failed_of_drain hl he
  | take limit count =>
      cases hl
      exact failed_of_take he

/-! ## Steppers that stand still -/

/-- A stepper behind a failure: it has not finished and keeps no record. -/
structure Latched (st : Stepper) : Prop where
  failed : st.Failed
  unfinished : st.result? = none
  nothingKept : st.pending = none

/-- **A failed program has latched its stepper.** -/
theorem Tracks.latched {program : List Stmt} {st : Stepper} (h : Tracks program st)
    (hfailed : st.Failed) : st.Latched := by
  cases h with
  | @level d hlive =>
      obtain ⟨t, f, hend⟩ := hfailed
      replace hend : trail program d = _ := hend
      rw [hend] at hlive
      exact hlive.elim
  -- a record that is kept is at a machine that has not ended
  | @ahead d r hr =>
      obtain ⟨t, f, hend⟩ := hfailed
      replace hend : trail program (d + 1) = _ := hend
      rw [recordAt, hend] at hr
      cases hr
  | @finished d s error hend =>
      obtain ⟨t, f, hfailure⟩ := hfailed
      replace hfailure : trail program (d + 1) = _ := hfailure
      rw [hend] at hfailure
      cases error <;> cases hfailure
  | failed hend => exact ⟨hfailed, result?_standing _ _ _ _ _, rfl⟩

namespace Latched

variable {st : Stepper}

theorem advance (h : st.Latched) : st.advance = (.error .stopped, st) := by
  obtain ⟨t, f, hmachine⟩ := h.failed
  unfold Stepper.advance
  rw [hmachine]

theorem step (h : st.Latched) : st.step = (.error .stopped, st) := by
  unfold Stepper.step
  simp only [h.unfinished, h.nothingKept, h.advance]

theorem lookAhead (h : st.Latched) : st.lookAhead = (.error .stopped, st) := by
  unfold Stepper.lookAhead
  simp only [h.unfinished, h.nothingKept, h.advance]

theorem pull (h : st.Latched) (limit : Option Int) : st.pull limit = (.error .stopped, st) := by
  unfold Stepper.pull
  split
  · rw [h.lookAhead]
  · exact h.step

theorem drain (h : st.Latched) (limit : Option Int) :
    st.drain limit = some ⟨[], some .stopped, st⟩ := by
  rw [Stepper.drain, h.pull]

theorem run (h : st.Latched) (limit : Option Int) :
    st.run limit = some (.error .stopped, st) := by
  rw [Stepper.run, h.drain]
  rfl

theorem take (h : st.Latched) (limit : Option Int) (count : Nat) :
    st.take limit (count + 1) = ⟨[], some .stopped, st⟩ := by
  rw [Stepper.take, h.pull]

/-- A request has no effect; it is refused unless it asks for no record at all. -/
theorem serve (h : st.Latched) (request : Request) :
    ∃ error, st.serve request = some ⟨[], error, st⟩ ∧
      ((∀ limit, request ≠ .take limit 0) → error = some .stopped) := by
  cases request with
  | step =>
      refine ⟨some .stopped, ?_, fun _ => rfl⟩
      rw [Stepper.serve, stepListing, h.step]
  | run limit => exact ⟨_, h.drain limit, fun _ => rfl⟩
  | records limit => exact ⟨_, h.drain limit, fun _ => rfl⟩
  | take limit count =>
      cases count with
      | zero => exact ⟨none, rfl, fun hasks => absurd rfl (hasks limit)⟩
      | succ count =>
          refine ⟨some .stopped, ?_, fun _ => rfl⟩
          rw [Stepper.serve, h.take]

/-- **Nothing comes of any sequence of requests.** -/
theorem serveAll (h : st.Latched) (requests : List Request) :
    st.serveAll requests = some ([], st) := by
  induction requests with
  | nil => rfl
  | cons request requests ih =>
      -- the next request meets the same stepper
      obtain ⟨error, hserve, _⟩ := h.serve request
      rw [Stepper.serveAll, hserve]
      show (st.serveAll requests >>= _) = _
      rw [ih]
      rfl

end Latched

/-- A program that fails never finishes, however its stepper is driven. -/
theorem Tracks.result?_of_failure {program : List Stmt} {n : Nat} {t : State} {f : Failure}
    {st : Stepper} (h : Tracks program st)
    (hfailure : trail program n = .reached (.ended t (some (.failure f)))) :
    st.result? = none := by
  cases hresult : st.result? with
  | none => rfl
  | some result =>
      obtain ⟨⟨s, hend, _⟩, _⟩ := h.ended_of_result? hresult
      -- a trail has one end, and it cannot be both
      obtain ⟨_, hstop⟩ := trail_ended_unique hfailure hend
      cases herror : result.error <;> rw [herror] at hstop <;> cases hstop

/-- One request more. -/
theorem serveAll_concat {requests : List Request} {st last : Stepper} {delivered : List Record}
    {request : Request} {l : Listing} (hs : st.serveAll requests = some (delivered, last))
    (hl : last.serve request = some l) :
    st.serveAll (requests ++ [request]) = some (delivered ++ l.records, l.stepper) := by
  induction requests generalizing st delivered with
  | nil =>
      cases hs
      rw [List.nil_append, serveAll, hl]
      show some (l.records ++ [], l.stepper) = _
      rw [List.append_nil, List.nil_append]
  | cons other requests ih =>
      rw [serveAll] at hs
      obtain ⟨first, hfirst, hs⟩ := Option.bind_eq_some_iff.mp hs
      obtain ⟨⟨more, behind⟩, hmore, hs⟩ := Option.bind_eq_some_iff.mp hs
      cases hs
      rw [List.cons_append, serveAll, hfirst]
      show (first.stepper.serveAll (requests ++ [request]) >>= _) = _
      rw [ih hmore, List.append_assoc]
      rfl

/-- **Failures are final.** Let a request end in a failure that is not the program's own. Then all
records of the program have been delivered, none is kept, and no scope is open. From then on every
sequence of requests comes to nothing and leaves the stepper as it is, and behind it every step,
every run and every listing, with any limit or none, is refused. A stepper of this program has
never finished, whatever was asked of it. -/
theorem failure_latches {program : List Stmt} {requests : List Request} {delivered : List Record}
    {st : Stepper} {request : Request} {l : Listing} {f : Failure}
    (hs : (start program).serveAll requests = some (delivered, st))
    (hl : st.serve request = some l) (hf : l.error = some (.failure f)) :
    ((delivered ++ l.records).map some = (List.range l.stepper.steps).map (recordAt program) ∧
      recordAt program l.stepper.steps = none) ∧
    l.stepper.pending = none ∧
    l.stepper.machine.state.scopes = [] ∧
    (∀ any records other, (start program).serveAll any = some (records, other) →
      other.result? = none) ∧
    (∀ later, l.stepper.serveAll later = some ([], l.stepper)) ∧
    l.stepper.step = (.error .stopped, l.stepper) ∧
    (∀ limit, l.stepper.run limit = some (.error .stopped, l.stepper)) ∧
    ∀ limit, l.stepper.drain limit = some ⟨[], some .stopped, l.stepper⟩ := by
  -- the failing request counts as one of the requests, so all its records are accounted for
  have hcontinues := serveAll_continues (serveAll_concat hs hl) (tracks_start program)
  have hfailed := failed_of_serve hl hf
  have hlatched := hcontinues.tracks.latched hfailed
  obtain ⟨hmachine, t, stop, hend⟩ := hcontinues.tracks.exists_ended (.inr hfailed)
  obtain ⟨t', f', hfailure⟩ := hfailed
  have htrail : trail program (l.stepper.steps + 1) =
      .reached (.ended t' (some (.failure f'))) := by
    rw [← hmachine]
    exact hfailure
  refine ⟨⟨(faithful_of_continues hcontinues).records, recordAt_of_ended htrail⟩,
    hlatched.nothingKept, ?_, ?_, hlatched.serveAll, hlatched.step, hlatched.run, hlatched.drain⟩
  · rw [hfailure]
    exact scopes_eq_nil_of_ended htrail
  · -- however the stepper is driven, its machine is on the same trail
    intro any records other hany
    exact (serveAll_continues hany (tracks_start program)).tracks.result?_of_failure htrail

/-- The program `f();`. -/
def callsAtOnce : List Stmt :=
  [.expr (.ofLength 0 4) (.call (.ofLength 0 3) (.var (.ofLength 0 1) "f") [])]

/-- The failure comes out of a step behind the only record, out of the look-ahead at a limit of one
step, and out of a listing without a limit before there is any record. -/
theorem failure_latches_everywhere :
    (∃ delivered st l, (start printsAndFails).serveAll [.step] = some (delivered, st) ∧
      st.serve .step = some l ∧ l.error = some (.failure .missingStatement) ∧ l.stepper.steps = 1 ∧
      ∀ limit, l.stepper.run limit = some (.error .stopped, l.stepper)) ∧
    (∃ l, (start printsAndFails).serve (.run (some 1)) = some l ∧
      l.error = some (.failure .missingStatement) ∧ l.records.length = 1 ∧
      l.stepper.step = (.error .stopped, l.stepper)) ∧
    ∃ l, (start callsAtOnce).serve (.records none) = some l ∧
      l.error = some (.failure (.unsupported (.ofLength 0 3) "function calls")) ∧
      ∀ later, l.stepper.serveAll later = some ([], l.stepper) := by
  obtain ⟨⟨delivered, st⟩, l, hs, hl, hf, hsteps⟩ :
      ∃ (outcome : List Record × Stepper) (l : Listing),
      (start printsAndFails).serveAll [.step] = some outcome ∧ outcome.2.serve .step = some l ∧
      l.error = some (.failure .missingStatement) ∧ l.stepper.steps = 1 :=
    ⟨_, _, by cbv, by cbv, rfl, rfl⟩
  obtain ⟨l', hl', hf', hcount⟩ : ∃ l, (start printsAndFails).serve (.run (some 1)) = some l ∧
      l.error = some (.failure .missingStatement) ∧ l.records.length = 1 := by
    rw [serve, drain_some]
    exact ⟨_, rfl, by cbv, by cbv⟩
  obtain ⟨l'', hl'', hf''⟩ : ∃ l, (start callsAtOnce).serve (.records none) = some l ∧
      l.error = some (.failure (.unsupported (.ofLength 0 3) "function calls")) := by
    have hpull : ∃ after, (start callsAtOnce).pull none =
        (.error (.failure (.unsupported (.ofLength 0 3) "function calls")), after) := ⟨_, by cbv⟩
    obtain ⟨after, hpull⟩ := hpull
    rw [serve, drain, hpull]
    exact ⟨_, rfl, rfl⟩
  have hstart (program : List Stmt) : (start program).serveAll [] = some ([], start program) := rfl
  obtain ⟨_, _, _, _, _, _, hrun, _⟩ := failure_latches hs hl hf
  obtain ⟨_, _, _, _, _, hstep, _⟩ := failure_latches (hstart _) hl' hf'
  obtain ⟨_, _, _, _, hlater, _⟩ := failure_latches (hstart _) hl'' hf''
  exact ⟨⟨delivered, st, l, hs, hl, hf, hsteps, hrun⟩, ⟨l', hl', hf', hcount, hstep⟩,
    l'', hl'', hf'', hlater⟩

end Stepper

end Stepwise
