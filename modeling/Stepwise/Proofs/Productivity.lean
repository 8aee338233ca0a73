import Stepwise.Proofs.Delivery
import Stepwise.Proofs.Transition

/-!
# Every resumption is productive

A program that is resumed comes to its next action or to its end after finitely many transitions,
whatever it is: it may go on forever, and it may nest empty blocks and loops with empty bodies as
deeply as it likes.

The bound is the weight of the configuration, since a silent transition makes it lighter
(`Config.exists_silently`). The transitions of a whole run, with the records that are announced on
the way (`Config.Leads`), come past every place of the program's trail
(`Machine.exists_leads_of_live`). A loop that is to be run again is as heavy as it was before, so
it has announced something in between.
-/

namespace Stepwise

namespace Config

/-- Whether this many silent transitions lead from one configuration to another. -/
inductive Silently : Nat → Config → Config → Prop where
  | refl {c : Config} : Silently 0 c c
  | step {k : Nat} {c m after : Config} :
      c.tick = .silent m → Silently k m after → Silently (k + 1) c after

/-- Whether transitions lead from one configuration to another, past these records. -/
inductive Leads : Config → List Record → Config → Prop where
  | refl {c : Config} : Leads c [] c
  | silent {c m after : Config} {rs : List Record} :
      c.tick = .silent m → Leads m rs after → Leads c rs after
  | announces {c m after : Config} {a : Action} {rs : List Record} :
      c.tick = .announces a m → Leads m rs after → Leads c (⟨a, c.state⟩ :: rs) after

/-- Whether a configuration announces the action or comes to the end that a progress has. -/
def Shows (c : Config) : Progress → Prop
  | .paused p => c.state = p.state ∧ ∃ after, c.tick = .announces p.current after
  | .ended t stop => c.tick = .ended t stop

variable {c after : Config} {k : Nat}

theorem Silently.weight_le (h : Silently k c after) : after.weight + k ≤ c.weight := by
  induction h with
  | refl => exact Nat.le_refl _
  | step hsilent _ ih =>
      have hlt := weight_lt_of_silent hsilent
      omega

theorem Silently.outcome_eq (h : Silently k c after) : after.outcome = c.outcome := by
  induction h with
  | refl => rfl
  | step hsilent _ ih => exact ih.trans (outcome_of_silent hsilent)

/-- **No configuration stays silent forever.** -/
theorem exists_silently (c : Config) :
    ∃ k after, Silently k c after ∧ ∀ m, after.tick ≠ .silent m := by
  cases h : c.tick with
  | silent m =>
      -- the recursion is on the weight, which every silent transition lowers
      have hlt := weight_lt_of_silent h
      obtain ⟨k, after, hsilently, hend⟩ := exists_silently m
      exact ⟨k + 1, after, .step h hsilently, hend⟩
  | announces a m => exact ⟨0, c, .refl, fun m' hm' => by rw [h] at hm'; cases hm'⟩
  | ended t stop => exact ⟨0, c, .refl, fun m' hm' => by rw [h] at hm'; cases hm'⟩
termination_by c.weight

/-- A configuration that is not silent shows what it stands for. -/
theorem shows_outcome (h : ∀ m, c.tick ≠ .silent m) : c.Shows c.outcome := by
  cases htick : c.tick with
  | silent m => exact absurd htick (h m)
  | announces a m =>
      obtain ⟨p, hp, hrecord, _⟩ := outcome_of_announces htick
      rw [hp]
      injection hrecord with haction hstate
      exact ⟨hstate.symm, m, by rw [haction]; exact htick⟩
  | ended t stop =>
      rw [outcome_of_ended htick]
      exact htick

theorem Leads.trans {m : Config} {rs rs' : List Record} (h : c.Leads rs m)
    (h' : m.Leads rs' after) : c.Leads (rs ++ rs') after := by
  induction h with
  | refl => exact h'
  | silent hsilent _ ih => exact .silent hsilent (ih h')
  | announces hannounces _ ih => exact .announces hannounces (ih h')

theorem Silently.leads (h : Silently k c after) : c.Leads [] after := by
  induction h with
  | refl => exact .refl
  | step hsilent _ ih => exact .silent hsilent ih

/-- Transitions without a record only make a configuration lighter. -/
theorem Leads.weight_le {rs : List Record} (h : c.Leads rs after) (hrs : rs = []) :
    after.weight ≤ c.weight := by
  induction h with
  | refl => exact Nat.le_refl _
  | silent hsilent _ ih =>
      have hlt := weight_lt_of_silent hsilent
      have hle := ih hrs
      omega
  | announces hannounces _ ih => cases hrs

end Config

/-- What a step answers that has resumed a program. -/
def Progress.reply : Progress → Except StepError (Option Record)
  | .paused p => .ok (some p.record)
  | .ended _ (some (.failure f)) => .error (.failure f)
  | .ended _ _ => .ok none

/-! ## Runs -/

namespace Machine

variable {program : List Stmt}

/-- **The transitions of a program come past every place of its trail**, with the records of the
program behind them. -/
theorem exists_leads_of_live {n : Nat} (h : (trail program n).Live) :
    ∃ rs c, (Config.start program).Leads rs c ∧ rs.length = n ∧
      (∀ i < n, rs[i]? = recordAt program i) ∧ c.outcome = (trail program n).resume := by
  induction n with
  | zero => exact ⟨[], _, .refl, rfl, nofun, rfl⟩
  | succ n ih =>
      obtain ⟨p, hp⟩ := exists_pause_of_live h
      have hrecord : recordAt program n = some p.record := by
        rw [recordAt, hp]
        rfl
      obtain ⟨rs, c, hleads, hlength, hrs, houtcome⟩ := ih (live_of_recordAt hrecord)
      -- from the last record on, silent transitions lead to the next announcement
      obtain ⟨k, after, hsilently, hend⟩ := c.exists_silently
      have hafter : after.outcome = .paused p := by
        rw [trail_succ] at hp
        injection hp with hp
        rw [hsilently.outcome_eq, houtcome, hp]
      cases htick : after.tick with
      | silent m => exact absurd htick (hend m)
      | ended t stop =>
          rw [Config.outcome_of_ended htick] at hafter
          cases hafter
      | announces a m =>
          obtain ⟨q, hq, hqrecord, hresume⟩ := Config.outcome_of_announces htick
          rw [hafter] at hq
          injection hq with hq
          subst hq
          refine ⟨rs ++ [p.record], m, ?_, by simp [hlength], fun i hi => ?_, ?_⟩
          · have hlast : after.Leads [⟨a, after.state⟩] m := .announces htick .refl
            rw [← hqrecord] at hlast
            exact hleads.trans (hsilently.leads.trans hlast)
          · -- the earlier records are the old ones, and the last one is new
            rcases Nat.lt_succ_iff_lt_or_eq.mp hi with hi | rfl
            · rw [List.getElem?_append_left (by omega), hrs i hi]
            · rw [← hlength, List.getElem?_concat_length, hlength, hrecord]
          · rw [hp]
            exact hresume.symm

/-- A record of a program is announced by a transition of its run. -/
theorem exists_leads_of_recordAt {n : Nat} {r : Record} (h : recordAt program n = some r) :
    ∃ rs c after, (Config.start program).Leads rs c ∧ c.state = r.state ∧
      c.tick = .announces r.action after := by
  obtain ⟨p, hp, rfl⟩ := exists_pause_of_recordAt h
  obtain ⟨rs, c, hleads, _, _, houtcome⟩ := exists_leads_of_live (live_of_recordAt h)
  obtain ⟨k, after, hsilently, hend⟩ := c.exists_silently
  have hshows := Config.shows_outcome hend
  rw [trail_succ] at hp
  injection hp with hp
  rw [hsilently.outcome_eq, houtcome, hp] at hshows
  obtain ⟨hstate, m, htick⟩ := hshows
  refine ⟨rs, after, m, ?_, hstate, htick⟩
  have hreached := hleads.trans hsilently.leads
  rwa [List.append_nil] at hreached

/-- A step resumes a program that goes on, and answers what that comes to. -/
theorem step_of_live {n : Nat} {st : Stepper} (hlive : (trail program n).Live)
    (hmachine : st.machine = trail program n) (hresult : st.result? = none)
    (hpending : st.pending = none) : st.step.1 = (trail program n).resume.reply := by
  have hadvance : st.advance.1 = (trail program n).resume.reply := by
    unfold Stepper.advance
    rw [hmachine]
    split
    · rename_i hfailed
      rw [hfailed] at hlive
      exact hlive.elim
    · cases (trail program n).resume with
      | paused p => rfl
      | ended t stop =>
          cases stop with
          | none => rfl
          | some stop => cases stop <;> rfl
  unfold Stepper.step
  simp only [hresult, hpending]
  rw [← hadvance]
  -- what is found is passed on, whether or not a record is handed out
  split
  · rename_i hfound
    rw [hfound]
  · rename_i hfound
    rw [hfound]

/-- **Every resumption is productive.** Wherever a program has come to, it is the configuration
behind that many records, and a bounded number of silent transitions lead on to the next action or
to the end, which a step answers. No configuration at all is silent for longer than its weight;
and a loop that comes to be run again, with the same work behind it, has announced something. -/
theorem resume_productive (program : List Stmt) :
    (∀ n, (trail program n).Live → ∃ rs c k after,
      (Config.start program).Leads rs c ∧ rs.length = n ∧ (∀ i < n, rs[i]? = recordAt program i) ∧
      c.Silently k after ∧ k ≤ c.weight ∧ after.Shows (trail program n).resume ∧
      ∀ st : Stepper, st.machine = trail program n → st.result? = none → st.pending = none →
        st.step.1 = (trail program n).resume.reply) ∧
    (∀ c : Config, ∃ k after, c.Silently k after ∧ k ≤ c.weight ∧ ∀ m, after.tick ≠ .silent m) ∧
    (∀ span keyword condition body s s' todo after rs,
      Config.tick ⟨s, .next, .run (.loop span keyword condition body) :: todo⟩ = .silent after →
      after.Leads rs ⟨s', .next, .run (.loop span keyword condition body) :: todo⟩ → rs ≠ []) := by
  refine ⟨fun n hlive => ?_, fun c => ?_, ?_⟩
  · obtain ⟨rs, c, hleads, hlength, hrs, houtcome⟩ := exists_leads_of_live hlive
    obtain ⟨k, after, hsilently, hend⟩ := c.exists_silently
    have hweight := hsilently.weight_le
    have hshows := Config.shows_outcome hend
    rw [hsilently.outcome_eq, houtcome] at hshows
    exact ⟨rs, c, k, after, hleads, hlength, hrs, hsilently, by omega, hshows,
      fun st => step_of_live hlive⟩
  · obtain ⟨k, after, hsilently, hend⟩ := c.exists_silently
    have hweight := hsilently.weight_le
    exact ⟨k, after, hsilently, by omega, hend⟩
  · intro span keyword condition body s s' todo after rs hstart hleads hrs
    have hlt := Config.weight_lt_of_silent hstart
    have hle := hleads.weight_le hrs
    -- the weight of a configuration does not depend on its state
    exact absurd hlt (Nat.not_lt_of_le hle)

/-- The program `{ { } } while true { { } }`. -/
def idle : List Stmt :=
  [.block (.ofLength 0 7) [.block (.ofLength 2 3) []],
   .loop (.ofLength 8 18) (.ofLength 8 5) (.literal (.ofLength 14 4) (.bool true))
     (.block (.ofLength 19 7) [.block (.ofLength 21 3) []])]

/-- Behind its second record the program passes two empty blocks and is back at its condition. -/
theorem resume_productive_idle :
    (trail idle 2).Live ∧ ∃ (c : Config) (k : Nat) (after : Config), c.Silently k after ∧
      k ≤ c.weight ∧ after.Shows (trail idle 2).resume := by
  have hrecord : recordAt idle 1 =
      some ⟨.check (.ofLength 8 5) ⟨.ofLength 14 4, .bool true⟩, ⟨[[]], ""⟩⟩ := by
    decide +kernel
  have hlive : (trail idle 2).Live := live_of_record? hrecord
  obtain ⟨rs, c, k, after, _, _, _, hsilently, hweight, hshows, _⟩ :=
    (resume_productive idle).1 2 hlive
  exact ⟨hlive, c, k, after, hsilently, hweight, hshows⟩

end Machine

end Stepwise
