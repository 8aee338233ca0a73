import Stepwise.Proofs.Trail
import Stepwise.Stepper

/-!
# Delivery does not depend on the driver

A driver may ask for single steps, follow a listing to its end or to a limit, or leave a listing
early, in any order. Whatever it does, the records it gets are the records of the program from the
first one on: the `steps` of the stepper say how many.

The invariant is `Tracks`: a stepper stands at a place of the trail of its program, in one of four
ways. It is level with the last record that was delivered, or one record ahead of it, which is then
kept, or it has found the end, which is the program's own or a failure.
-/

namespace Stepwise

open Machine

namespace Stepper

/-- The status behind `d` delivered records of a program that goes on. -/
def standing (program : List Stmt) (d : Nat) : Option Outcome :=
  (trail program d).record?.map .suspended

/-- Where a stepper of the program can stand. -/
inductive Tracks (program : List Stmt) : Stepper → Prop where
  /-- The program has come as far as the records that were delivered. -/
  | level {d : Nat} : (trail program d).Live →
      Tracks program ⟨trail program d, standing program d, d, none⟩
  /-- The program has come one record further, and that record is kept. -/
  | ahead {d : Nat} {r : Record} : recordAt program d = some r →
      Tracks program ⟨trail program (d + 1), standing program d, d, some r⟩
  /-- The program has ended. -/
  | finished {d : Nat} {s : State} {error : Option RunError} :
      trail program (d + 1) = .reached (.ended s (error.map .error)) →
      Tracks program ⟨trail program (d + 1), some (.finished ⟨error, s.output⟩), d, none⟩
  /-- The program could not be run. -/
  | failed {d : Nat} {s : State} {f : Failure} :
      trail program (d + 1) = .reached (.ended s (some (.failure f))) →
      Tracks program ⟨trail program (d + 1), standing program d, d, none⟩

/-- A stepper has its machine at a place of the trail. -/
theorem Tracks.exists_machine_eq {program : List Stmt} {st : Stepper} (h : Tracks program st) :
    ∃ n, st.machine = trail program n := by
  cases h with
  | level hlive => exact ⟨_, rfl⟩
  | ahead hr => exact ⟨_, rfl⟩
  | finished hend => exact ⟨_, rfl⟩
  | failed hend => exact ⟨_, rfl⟩

theorem tracks_start (program : List Stmt) : Tracks program (start program) :=
  Tracks.level (d := 0) trivial

/-! ## One request after another -/

@[simp] theorem result?_standing (program : List Stmt) (m : Machine) (d e : Nat)
    (pending : Option Record) :
    result? ⟨m, standing program d, e, pending⟩ = none := by
  unfold result? standing
  cases (trail program d).record? <;> rfl

/-- A stepper has a result only where its program has ended by itself. -/
theorem Tracks.ended_of_result? {program : List Stmt} {st : Stepper} {result : RunResult}
    (h : Tracks program st) (hresult : st.result? = some result) :
    (∃ s, trail program (st.steps + 1) = .reached (.ended s (result.error.map .error)) ∧
      result.output = s.output) ∧ st.pending = none := by
  cases h with
  | level hlive =>
      rw [result?_standing] at hresult
      cases hresult
  | ahead hr =>
      rw [result?_standing] at hresult
      cases hresult
  | finished hend =>
      cases hresult
      exact ⟨⟨_, hend, rfl⟩, rfl⟩
  | failed hend =>
      rw [result?_standing] at hresult
      cases hresult

/-- Resuming a program that is live leads to the next place of its trail. -/
theorem advance_level {program : List Stmt} {d : Nat} (hlive : (trail program d).Live)
    (status : Option Outcome) :
    (∃ r, recordAt program d = some r ∧
      advance ⟨trail program d, status, d, none⟩ =
        (.ok (some r), ⟨trail program (d + 1), status, d, none⟩)) ∨
    (∃ s error, trail program (d + 1) = .reached (.ended s (Option.map Stop.error error)) ∧
      advance ⟨trail program d, status, d, none⟩ =
        (.ok none, ⟨trail program (d + 1), some (.finished ⟨error, s.output⟩), d, none⟩)) ∨
    (∃ s f, trail program (d + 1) = .reached (.ended s (some (.failure f))) ∧
      advance ⟨trail program d, status, d, none⟩ =
        (.error (.failure f), ⟨trail program (d + 1), status, d, none⟩)) := by
  generalize hadv : advance ⟨trail program d, status, d, none⟩ = outcome
  unfold advance at hadv
  split at hadv
  · -- a machine that has failed is not live
    rename_i hm
    dsimp only at hm
    rw [hm] at hlive
    exact absurd hlive (by simp [Live])
  · subst hadv
    rw [recordAt, trail_succ]
    cases hp : (trail program d).resume with
    | paused p => exact Or.inl ⟨p.record, rfl, rfl⟩
    | ended s stop =>
        cases stop with
        | none => exact Or.inr (Or.inl ⟨s, none, rfl, rfl⟩)
        | some stop =>
            cases stop with
            | error e => exact Or.inr (Or.inl ⟨s, some e, rfl, rfl⟩)
            | failure f => exact Or.inr (Or.inr ⟨s, f, rfl, rfl⟩)

/-- A failure is not reported twice. -/
theorem advance_failed {m : Machine} {s : State} {f : Failure}
    (h : m = .reached (.ended s (some (.failure f)))) (status : Option Outcome) (d : Nat) :
    advance ⟨m, status, d, none⟩ = (.error .stopped, ⟨m, status, d, none⟩) := by
  subst h
  rfl

theorem standing_succ {program : List Stmt} {d : Nat} {r : Record}
    (h : recordAt program d = some r) : standing program (d + 1) = some (.suspended r) := by
  rw [standing, show (trail program (d + 1)).record? = some r from h]
  rfl

/-- A record that was found is delivered by standing level with it. -/
theorem tracks_deliver {program : List Stmt} {d : Nat} {r : Record}
    (h : recordAt program d = some r) (status : Option Outcome) (pending : Option Record) :
    Tracks program (deliver ⟨trail program (d + 1), status, d, pending⟩ r) := by
  have hlevel := Tracks.level (live_of_record? h)
  rw [standing_succ h] at hlevel
  exact hlevel

/-- What a request for one record may lead to: the next record of the program is delivered, or
nothing is. -/
def Delivers (program : List Stmt) (st : Stepper) :
    Except StepError (Option Record) × Stepper → Prop
  | (.ok (some r), after) =>
    recordAt program st.steps = some r ∧ after.steps = st.steps + 1 ∧ Tracks program after
  | (_, after) => after.steps = st.steps ∧ Tracks program after

theorem step_delivers {program : List Stmt} {st : Stepper} (h : Tracks program st) :
    Delivers program st st.step := by
  unfold step
  cases h with
  | @level d hlive =>
      simp only [result?_standing]
      rcases advance_level hlive (standing program d) with
        ⟨r, hr, hadv⟩ | ⟨s, error, hend, hadv⟩ | ⟨s, f, hend, hadv⟩
      · rw [hadv]
        exact ⟨hr, rfl, tracks_deliver hr _ _⟩
      · rw [hadv]
        exact ⟨rfl, Tracks.finished hend⟩
      · rw [hadv]
        exact ⟨rfl, Tracks.failed hend⟩
  | ahead hr =>
      -- the record was found before, so the program is not resumed
      simp only [result?_standing]
      exact ⟨hr, rfl, tracks_deliver hr _ _⟩
  | finished hend => exact ⟨rfl, Tracks.finished hend⟩
  -- a failed stepper reports that it is stopped, and nothing else changes
  | failed hend =>
      simp only [result?_standing]
      rw [advance_failed hend]
      exact ⟨rfl, Tracks.failed hend⟩

/-- Looking ahead delivers nothing. -/
theorem lookAhead_tracks {program : List Stmt} {st : Stepper} (h : Tracks program st) :
    st.lookAhead.2.steps = st.steps ∧ Tracks program st.lookAhead.2 := by
  unfold lookAhead
  cases h with
  | @level d hlive =>
      simp only [result?_standing]
      rcases advance_level hlive (standing program d) with
        ⟨r, hr, hadv⟩ | ⟨s, error, hend, hadv⟩ | ⟨s, f, hend, hadv⟩
      · rw [hadv]
        exact ⟨rfl, Tracks.ahead hr⟩
      · rw [hadv]
        exact ⟨rfl, Tracks.finished hend⟩
      · rw [hadv]
        exact ⟨rfl, Tracks.failed hend⟩
  | ahead hr =>
      simp only [result?_standing]
      exact ⟨trivial, Tracks.ahead hr⟩
  | finished hend => exact ⟨rfl, Tracks.finished hend⟩
  | failed hend =>
      simp only [result?_standing]
      rw [advance_failed hend]
      exact ⟨rfl, Tracks.failed hend⟩

theorem pull_delivers {program : List Stmt} {st : Stepper} (limit : Option Int)
    (h : Tracks program st) : Delivers program st (st.pull limit) := by
  unfold pull
  split
  · have hahead := lookAhead_tracks h
    split <;> rename_i heq <;> rw [heq] at hahead <;> exact hahead
  · exact step_delivers h

/-- A step that finds no record says what resuming the program said. -/
theorem step_of_advance {program : List Stmt} {m : Machine} {d e : Nat} {after : Stepper}
    {found : Except StepError (Option Record)}
    (h : advance ⟨m, standing program d, e, none⟩ = (found, after))
    (hfound : ∀ r, found ≠ .ok (some r)) :
    step ⟨m, standing program d, e, none⟩ = (found, after) := by
  unfold step
  simp only [result?_standing, h]

/-- One step from where the stepper is level leads to the next record, if there is one. -/
theorem step_level {program : List Stmt} {d : Nat} {r : Record}
    (h : recordAt program d = some r) :
    step ⟨trail program d, standing program d, d, none⟩ =
      (.ok (some r), ⟨trail program (d + 1), standing program (d + 1), d + 1, none⟩) := by
  unfold step
  simp only [result?_standing]
  rcases advance_level (live_of_recordAt h) (standing program d) with
    ⟨r', hr, hadv⟩ | ⟨s, error, hend, hadv⟩ | ⟨s, f, hend, hadv⟩
  · rw [h] at hr
    cases hr
    rw [hadv, standing_succ h]
    rfl
  · rw [recordAt, hend] at h
    cases h
  · rw [recordAt, hend] at h
    cases h

/-! ## Listings -/

/-- The records of the program from number `d` on begin with these. -/
def Continues (program : List Stmt) : Nat → List Record → Prop
  | _, [] => True
  | d, r :: rs => recordAt program d = some r ∧ Continues program (d + 1) rs

/-- A listing that continues where the stepper stood. -/
structure Listing.Continues (program : List Stmt) (st : Stepper) (l : Listing) : Prop where
  /-- Its records are the next ones of the program. -/
  records : Stepper.Continues program st.steps l.records
  /-- They are counted. -/
  steps : l.stepper.steps = st.steps + l.records.length
  /-- The stepper behind it stands at a place of the trail. -/
  tracks : Tracks program l.stepper

/-- A listing that goes on behind a record. -/
theorem Listing.continues_cons {program : List Stmt} {st after : Stepper} {r : Record}
    {rest : Listing} (hp : Delivers program st (.ok (some r), after))
    (hrest : rest.Continues program after) :
    Listing.Continues program st { rest with records := r :: rest.records } := by
  obtain ⟨hr, hsteps, _⟩ := hp
  refine ⟨⟨hr, ?_⟩, ?_, hrest.tracks⟩
  · -- the rest of the listing starts one record later
    rw [← hsteps]; exact hrest.records
  · have := hrest.steps
    simp only [List.length_cons]
    omega

/-- A listing that ends at once. -/
theorem Listing.continues_nil {program : List Stmt} {st after : Stepper} {e : Option StepError}
    (hsteps : after.steps = st.steps) (h : Tracks program after) :
    Listing.Continues program st ⟨[], e, after⟩ := ⟨trivial, hsteps, h⟩

theorem take_continues {program : List Stmt} (limit : Option Int) (count : Nat) {st : Stepper}
    (h : Tracks program st) : (st.take limit count).Continues program st := by
  induction count generalizing st with
  | zero => exact Listing.continues_nil rfl h
  | succ count ih =>
      have hp := pull_delivers limit h
      rw [take]
      split <;> rename_i heq <;> rw [heq] at hp
      · exact Listing.continues_cons hp (ih hp.2.2)
      · exact Listing.continues_nil hp.1 hp.2
      · exact Listing.continues_nil hp.1 hp.2

theorem drain_continues {program : List Stmt} {limit : Option Int} {st : Stepper} {l : Listing}
    (hl : st.drain limit = some l) (h : Tracks program st) : l.Continues program st := by
  -- the listing is followed to its end, so the induction is on how far it goes
  refine drain.partial_correctness limit (fun st l => Tracks program st → l.Continues program st)
    ?_ st l hl h
  intro drain ih st l hbody ht
  have hp := pull_delivers limit ht
  split at hbody <;> rename_i heq <;> rw [heq] at hp
  · rename_i r after
    cases hrest : drain after with
    | none => rw [hrest] at hbody; exact absurd hbody (by simp)
    | some rest =>
        rw [hrest] at hbody
        injection hbody with hbody
        subst hbody
        exact Listing.continues_cons hp (ih after rest hrest hp.2.2)
  · injection hbody with hbody
    subst hbody
    exact Listing.continues_nil hp.1 hp.2
  · injection hbody with hbody
    subst hbody
    exact Listing.continues_nil hp.1 hp.2

/-! ## Listings come to their end -/

theorem advance_steps (st : Stepper) : st.advance.2.steps = st.steps := by
  unfold advance
  split
  · rfl
  · dsimp only
    split <;> rfl

/-- A listing gives a record only below its limit, and counts it. -/
theorem pull_record {limit : Option Int} {st after : Stepper} {r : Record}
    (h : st.pull limit = (.ok (some r), after)) :
    st.reached limit = false ∧ after.steps = st.steps + 1 := by
  unfold pull at h
  split at h
  · -- at the limit it is only looked ahead, which gives no record
    split at h <;> simp at h
  · rename_i hlimit
    refine ⟨by simpa using hlimit, ?_⟩
    unfold step at h
    split at h
    · simp at h
    · injection h with _ h
      subst h
      rfl
    · -- the record comes from resuming the machine, which does not count it; delivering does
      have hsteps := advance_steps st
      split at h
      · rename_i heq
        injection h with _ h
        rw [heq] at hsteps
        subst h
        exact congrArg (· + 1) hsteps
      · rename_i hnone _
        injection h with hfound
        exact (hnone r hfound).elim

/-- To follow a listing with a limit to its end is to pull until the limit is used up, and once
more. -/
theorem drain_some (limit : Int) (st : Stepper) :
    st.drain (some limit) = some (st.records limit) := by
  unfold records
  generalize hn : (limit - st.steps).toNat = n
  induction n generalizing st with
  | zero =>
      rw [drain, take]
      split
      · -- no step is left, so there cannot be one more record
        rename_i heq
        obtain ⟨hreached, _⟩ := pull_record heq
        simp only [reached, decide_eq_false_iff_not] at hreached
        omega
      · rfl
      · rfl
  | succ n ih =>
      rw [drain, take]
      split
      · rename_i r after heq
        obtain ⟨_, hsteps⟩ := pull_record heq
        rw [ih after (by omega)]
        rfl
      · rfl
      · rfl

/-- A listing without a limit comes to its end if the records of the program do. -/
theorem drain_isSome_of_recordAt {program : List Stmt} {n : Nat} (limit : Option Int)
    (hn : recordAt program n = none) {st : Stepper} (h : Tracks program st) :
    (st.drain limit).isSome := by
  generalize hk : n - st.steps = k
  induction k generalizing st with
  | zero =>
      have hp := pull_delivers limit h
      rw [drain]
      split <;> rename_i heq <;> rw [heq] at hp
      · -- the stepper is behind the last record
        have hnone := recordAt_eq_none_of_le hn (show n ≤ st.steps by omega)
        rw [hp.1] at hnone
        exact absurd hnone (by simp)
      · rfl
      · rfl
  | succ k ih =>
      have hp := pull_delivers limit h
      rw [drain]
      split <;> rename_i heq <;> rw [heq] at hp
      · rename_i r after
        obtain ⟨rest, hrest⟩ := Option.isSome_iff_exists.mp (ih hp.2.2 (by rw [hp.2.1]; omega))
        rw [hrest]
        rfl
      · rfl
      · rfl

/-! ## Any sequence of requests -/

/-- What a driver can ask of a stepper. -/
inductive Request where
  /-- One step. -/
  | step
  /-- To go on to the end or to a limit; the records on the way are consumed. -/
  | run (limit : Option Int)
  /-- All records up to the end or to a limit. -/
  | records (limit : Option Int)
  /-- The first `count` records of such a listing, which is then left. -/
  | take (limit : Option Int) (count : Nat)

/-- Whether a request comes back for every program. -/
def Request.Bounded : Request → Prop
  | .step | .take _ _ => True
  | .run limit | .records limit => limit.isSome

/-- The listing of a single step. -/
def stepListing (st : Stepper) : Listing :=
  match st.step with
  | (.ok record, after) => ⟨record.toList, none, after⟩
  | (.error e, after) => ⟨[], some e, after⟩

/-- The records that a request delivers or consumes and the stepper behind it, if it comes back. -/
def serve (st : Stepper) : Request → Option Listing
  | .step => some st.stepListing
  | .run limit | .records limit => st.drain limit
  | .take limit count => some (st.take limit count)

/-- All records of a sequence of requests, and the stepper behind it; a request that ends in an
error does not keep the driver from going on. -/
def serveAll (st : Stepper) : List Request → Option (List Record × Stepper)
  | [] => some ([], st)
  | request :: requests => do
    let listing ← st.serve request
    let (records, after) ← listing.stepper.serveAll requests
    some (listing.records ++ records, after)

theorem stepListing_continues {program : List Stmt} {st : Stepper} (h : Tracks program st) :
    st.stepListing.Continues program st := by
  have hp := step_delivers h
  unfold stepListing
  split <;> rename_i heq <;> rw [heq] at hp
  · rename_i record after
    cases record with
    | none => exact Listing.continues_nil hp.1 hp.2
    | some r =>
        have hrest : Listing.Continues program after ⟨[], none, after⟩ :=
          Listing.continues_nil rfl hp.2.2
        exact Listing.continues_cons hp hrest
  · exact Listing.continues_nil hp.1 hp.2

theorem serve_continues {program : List Stmt} {st : Stepper} {request : Request} {l : Listing}
    (hl : st.serve request = some l) (h : Tracks program st) : l.Continues program st := by
  cases request with
  | step => injection hl with hl; subst hl; exact stepListing_continues h
  | run limit => exact drain_continues hl h
  | records limit => exact drain_continues hl h
  | take limit count => injection hl with hl; subst hl; exact take_continues limit count h

theorem continues_append {program : List Stmt} {d : Nat} {xs ys : List Record}
    (hx : Continues program d xs) (hy : Continues program (d + xs.length) ys) :
    Continues program d (xs ++ ys) := by
  induction xs generalizing d with
  | nil => exact hy
  | cons r xs ih =>
      refine ⟨hx.1, ih hx.2 ?_⟩
      rw [List.length_cons, Nat.add_comm xs.length, ← Nat.add_assoc] at hy
      exact hy

theorem serveAll_continues {program : List Stmt} {requests : List Request} {st after : Stepper}
    {delivered : List Record} (hs : st.serveAll requests = some (delivered, after))
    (h : Tracks program st) : Listing.Continues program st ⟨delivered, none, after⟩ := by
  induction requests generalizing st delivered with
  | nil =>
      injection hs with hs
      injection hs with hd ha
      subst hd; subst ha
      exact Listing.continues_nil rfl h
  | cons request requests ih =>
      rw [serveAll] at hs
      obtain ⟨l, hl, hs⟩ := Option.bind_eq_some_iff.mp hs
      obtain ⟨⟨more, last⟩, hmore, hs⟩ := Option.bind_eq_some_iff.mp hs
      injection hs with hs
      injection hs with hd ha
      subst hd; subst ha
      -- the next request starts where this one has left the stepper
      have hfirst := serve_continues hl h
      have hrest := ih hmore hfirst.tracks
      have hsteps := hfirst.steps
      refine ⟨continues_append hfirst.records ?_, ?_, hrest.tracks⟩
      · rw [← hsteps]; exact hrest.records
      · have := hrest.steps
        simp only [List.length_append] at this ⊢
        omega

theorem map_some_of_continues {program : List Stmt} {d : Nat} {rs : List Record}
    (h : Continues program d rs) :
    rs.map some = (List.range' d rs.length).map (recordAt program) := by
  induction rs generalizing d with
  | nil => rfl
  | cons r rs ih =>
      rw [List.length_cons, List.range'_succ, List.map_cons, List.map_cons, h.1, ih h.2]

/-- A request that does not ask for everything comes back, and so does every request to a program
whose records come to an end. -/
theorem serve_isSome {program : List Stmt} {st : Stepper} (request : Request)
    (h : Tracks program st) (hreq : request.Bounded ∨ ∃ n, recordAt program n = none) :
    (st.serve request).isSome := by
  have hdrain (limit : Option Int)
      (hlimit : limit.isSome ∨ ∃ n, recordAt program n = none) : (st.drain limit).isSome := by
    rcases hlimit with hlimit | ⟨n, hn⟩
    · -- a limit bounds the listing, whatever the program does
      obtain ⟨limit, rfl⟩ := Option.isSome_iff_exists.mp hlimit
      rw [drain_some]
      rfl
    · exact drain_isSome_of_recordAt limit hn h
  cases request with
  | step => rfl
  | run limit => exact hdrain limit hreq
  | records limit => exact hdrain limit hreq
  | take limit count => rfl

theorem serveAll_isSome {program : List Stmt} {requests : List Request} {st : Stepper}
    (h : Tracks program st)
    (hreq : ∀ request ∈ requests, request.Bounded ∨ ∃ n, recordAt program n = none) :
    (st.serveAll requests).isSome := by
  induction requests generalizing st with
  | nil => rfl
  | cons request requests ih =>
      obtain ⟨l, hl⟩ := Option.isSome_iff_exists.mp
        (serve_isSome request h (hreq request List.mem_cons_self))
      obtain ⟨⟨more, last⟩, hmore⟩ := Option.isSome_iff_exists.mp
        (ih (serve_continues hl h).tracks
          (fun other hmem => hreq other (List.mem_cons_of_mem _ hmem)))
      rw [serveAll, hl]
      show (l.stepper.serveAll requests >>= _).isSome
      rw [hmore]
      rfl

/-- A stepper that has finished stays as it is, whatever it is asked. -/
theorem serve_finished {st : Stepper} {result : RunResult} (h : st.result? = some result)
    (request : Request) : st.serve request = some ⟨[], none, st⟩ := by
  have hstep : st.step = (.ok none, st) := by
    unfold step
    rw [h]
  have hpull (limit : Option Int) : st.pull limit = (.ok none, st) := by
    unfold pull
    split
    · unfold lookAhead
      rw [h]
    · exact hstep
  have hdrain (limit : Option Int) : st.drain limit = some ⟨[], none, st⟩ := by
    rw [drain, hpull]
  cases request with
  | step =>
      rw [serve, stepListing, hstep]
      rfl
  | run limit => exact hdrain limit
  | records limit => exact hdrain limit
  | take limit count =>
      rw [serve]
      cases count with
      | zero => rfl
      | succ count => rw [take, hpull]

/-- A failure that is not the program's own has happened. -/
def Failed (st : Stepper) : Prop := ∃ s f, st.machine = .reached (.ended s (some (.failure f)))

/-- What a stepper of the program shows when these records have been delivered. -/
structure Faithful (program : List Stmt) (delivered : List Record) (st : Stepper) : Prop where
  /-- The records are the first ones of the program, as many as the stepper counts. -/
  records : delivered.map some = (List.range st.steps).map (recordAt program)
  /-- It has finished only where the program has no further record; it then has the program's own
  end and output, and nothing more comes of any request. -/
  finished : ∀ result, st.status = some (.finished result) →
    (∃ s, trail program (st.steps + 1) = .reached (.ended s (result.error.map .error)) ∧
      result.output = s.output) ∧
    st.pending = none ∧ ∀ request, st.serve request = some ⟨[], none, st⟩
  /-- Else, unless there was a failure, its status is the last record, if there is one, -/
  status : ¬st.Failed → st.result? = none →
    (st.steps = 0 → st.status = none) ∧
    (∀ d, st.steps = d + 1 → ∃ r, recordAt program d = some r ∧ st.status = some (.suspended r))
  /-- and the program stands at that record, or at the next one, which is then kept. -/
  position : ¬st.Failed → st.result? = none →
    (st.pending = none ∧ st.machine = trail program st.steps) ∨
    (∃ r, st.pending = some r ∧ recordAt program st.steps = some r ∧
      st.machine = trail program (st.steps + 1))

theorem standing_spec {program : List Stmt} {d : Nat} (hlive : (trail program d).Live) :
    (d = 0 → standing program d = none) ∧
    (∀ e, d = e + 1 → ∃ r, recordAt program e = some r ∧
      standing program d = some (.suspended r)) := by
  constructor
  · intro hd
    subst hd
    rfl
  · intro e hd
    subst hd
    obtain ⟨r, hr⟩ := exists_recordAt_of_live hlive
    exact ⟨r, hr, standing_succ hr⟩

/-- To stand at a place of the trail, level with what was delivered, is to be faithful. -/
theorem faithful_of_continues {program : List Stmt} {delivered : List Record} {st : Stepper}
    (h : Listing.Continues program (start program) ⟨delivered, none, st⟩) :
    Faithful program delivered st := by
  have hsteps : st.steps = delivered.length := by
    have := h.steps
    simpa [start] using this
  have hrecords := map_some_of_continues h.records
  obtain ⟨_, _, htracks⟩ := h
  dsimp only at htracks
  refine ⟨?_, ?_, ?_, ?_⟩
  · rw [hsteps, List.range_eq_range']
    exact hrecords
  · intro result hstatus
    have hresult : st.result? = some result := by rw [result?, hstatus]
    obtain ⟨hend, hpending⟩ := htracks.ended_of_result? hresult
    exact ⟨hend, hpending, serve_finished hresult⟩
  · -- of the four places of a stepper, two are excluded by the assumptions
    intro hfailed hresult
    cases htracks with
    | level hlive => exact standing_spec hlive
    | ahead hr => exact standing_spec (live_of_recordAt hr)
    | finished hend => exact absurd hresult (by simp [result?])
    | failed hend => exact absurd ⟨_, _, hend⟩ hfailed
  · intro hfailed hresult
    cases htracks with
    | level hlive => exact Or.inl ⟨rfl, rfl⟩
    | ahead hr => exact Or.inr ⟨_, rfl, hr, rfl⟩
    | finished hend => exact absurd hresult (by simp [result?])
    | failed hend => exact absurd ⟨_, _, hend⟩ hfailed

/--
**Delivery does not depend on the driver.** For every program and every sequence of requests: the
sequence comes back if its requests are bounded or the records of the program come to an end, and
when it has come back, the records that were delivered and consumed are the first ones of the
program, and the stepper shows just that.
-/
theorem serveAll_delivers_trail (program : List Stmt) (requests : List Request) :
    ((∀ request ∈ requests, request.Bounded ∨ ∃ n, recordAt program n = none) →
      ((start program).serveAll requests).isSome) ∧
    ∀ delivered st, (start program).serveAll requests = some (delivered, st) →
      Faithful program delivered st := by
  refine ⟨serveAll_isSome (tracks_start program), ?_⟩
  intro delivered st hs
  exact faithful_of_continues (serveAll_continues hs (tracks_start program))

/-- A look-ahead, a step and a listing that is left early, of a program that goes on forever. -/
theorem serveAll_delivers_trail_forever :
    ∃ delivered st,
      (start [.loop ⟨0, 14, by decide⟩ ⟨0, 5, by decide⟩ (.literal ⟨6, 10, by decide⟩ (.bool true))
        (.block ⟨11, 14, by decide⟩ [])]).serveAll
          [.records (some 0), .step, .take none 2, .run (some 1)] = some (delivered, st) ∧
      Faithful [.loop ⟨0, 14, by decide⟩ ⟨0, 5, by decide⟩
        (.literal ⟨6, 10, by decide⟩ (.bool true)) (.block ⟨11, 14, by decide⟩ [])]
        delivered st := by
  obtain ⟨hsome, hfaithful⟩ := serveAll_delivers_trail
    [.loop ⟨0, 14, by decide⟩ ⟨0, 5, by decide⟩ (.literal ⟨6, 10, by decide⟩ (.bool true))
      (.block ⟨11, 14, by decide⟩ [])] [.records (some 0), .step, .take none 2, .run (some 1)]
  have hbounded : ∀ request ∈ [Request.records (some 0), .step, .take none 2, .run (some 1)],
      request.Bounded := by simp [Request.Bounded]
  obtain ⟨⟨delivered, st⟩, hs⟩ := Option.isSome_iff_exists.mp
    (hsome fun request hmem => Or.inl (hbounded request hmem))
  exact ⟨delivered, st, hs, hfaithful delivered st hs⟩

end Stepper

end Stepwise
