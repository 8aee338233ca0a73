import Stepwise.Run.Machine

/-!
# The record sequence of a program

A program has one run. `Machine.trail program n` is the machine after it has been resumed `n`
times, with nothing in between, and the record that is announced there is the `n`-th record of the
program. Everything that is said about *when* records are handed out compares with this sequence.

A machine that has ended stays as it is, so the records are an initial part of the numbers: if
there is an `n`-th record, there are all the earlier ones.
-/

namespace Stepwise

/-- The record that a program waits with. -/
def Progress.record? : Progress → Option Record
  | .paused p => some p.record
  | .ended _ _ => none

/-- What follows a progress. -/
def Progress.next (p : Progress) : Progress := (Machine.reached p).resume

/-- What follows after `n` resumptions. -/
def Progress.after : Nat → Progress → Progress
  | 0, p => p
  | n + 1, p => p.next.after n

namespace Progress

@[simp] theorem record?_paused (p : Pause) : (Progress.paused p).record? = some p.record := rfl

@[simp] theorem record?_ended (s : State) (stop : Option Stop) :
    (Progress.ended s stop).record? = none := rfl

@[simp] theorem next_paused (p : Pause) : (Progress.paused p).next = p.resume := rfl

@[simp] theorem next_ended (s : State) (stop : Option Stop) :
    (Progress.ended s stop).next = .ended s stop := rfl

@[simp] theorem after_zero (p : Progress) : p.after 0 = p := rfl

theorem after_succ (n : Nat) (p : Progress) : p.after (n + 1) = p.next.after n := rfl

theorem after_add (m n : Nat) (p : Progress) : p.after (m + n) = (p.after m).after n := by
  induction m generalizing p with
  | zero => simp
  | succ m ih =>
      rw [Nat.succ_add, after_succ, after_succ]
      exact ih p.next

@[simp] theorem after_ended (n : Nat) (s : State) (stop : Option Stop) :
    (Progress.ended s stop).after n = .ended s stop := by
  induction n with
  | zero => rfl
  | succ n ih => rw [after_succ, next_ended]; exact ih

end Progress

namespace Machine

/-- The record that a machine waits with. -/
def record? : Machine → Option Record
  | .ready _ => none
  | .reached p => p.record?

/-- The machine of a program after `n` resumptions. -/
def trail (program : List Stmt) : Nat → Machine
  | 0 => .ready program
  | n + 1 => .reached (trail program n).resume

/-- The records of a program, counted from zero. -/
def recordAt (program : List Stmt) (n : Nat) : Option Record := (trail program (n + 1)).record?

/-- Whether a machine can still be resumed. -/
def Live : Machine → Prop
  | .ready _ | .reached (.paused _) => True
  | .reached (.ended _ _) => False

@[simp] theorem trail_zero (program : List Stmt) : trail program 0 = .ready program := rfl

theorem trail_succ (program : List Stmt) (n : Nat) :
    trail program (n + 1) = .reached (trail program n).resume := rfl

/-- The trail is the first progress, resumed again and again. -/
theorem trail_succ_eq_after (program : List Stmt) (n : Nat) :
    trail program (n + 1) = .reached ((Machine.ready program).resume.after n) := by
  induction n with
  | zero => rfl
  | succ n ih =>
      rw [trail_succ, ih, Progress.after_add n 1]
      rfl

/-- A machine that has ended stays where it is. -/
theorem trail_ended {program : List Stmt} {n : Nat} {s : State} {stop : Option Stop}
    (h : trail program n = .reached (.ended s stop)) (k : Nat) :
    trail program (n + k) = .reached (.ended s stop) := by
  induction k with
  | zero => exact h
  | succ k ih =>
      rw [← Nat.add_assoc, trail_succ, ih]
      rfl

theorem live_of_record? {m : Machine} {r : Record} (h : m.record? = some r) : m.Live := by
  cases m with
  | ready program => trivial
  | reached p =>
      cases p with
      | paused p => trivial
      | ended s stop => exact absurd h (by simp [record?])

/-- Before a record the program has not ended. -/
theorem live_of_recordAt {program : List Stmt} {n : Nat} {r : Record}
    (h : recordAt program n = some r) : (trail program n).Live := by
  cases hm : trail program n with
  | ready program => trivial
  | reached p =>
      cases p with
      | paused p => trivial
      | ended s stop =>
          -- an end has no record behind it
          have hn := trail_ended hm 1
          rw [recordAt, hn] at h
          exact absurd h (by simp [record?])

/-- A live machine is the start of the program or pauses. -/
theorem exists_pause_of_live {program : List Stmt} {n : Nat} (h : (trail program (n + 1)).Live) :
    ∃ p : Pause, trail program (n + 1) = .reached (.paused p) := by
  rw [trail_succ] at h ⊢
  cases hp : (trail program n).resume with
  | paused p => exact ⟨p, rfl⟩
  | ended s stop => rw [hp] at h; exact h.elim

theorem exists_pause_of_recordAt {program : List Stmt} {n : Nat} {r : Record}
    (h : recordAt program n = some r) :
    ∃ p : Pause, trail program (n + 1) = .reached (.paused p) ∧ p.record = r := by
  obtain ⟨p, hp⟩ := exists_pause_of_live (live_of_record? h)
  rw [recordAt, hp] at h
  injection h with h
  exact ⟨p, hp, h⟩

/-- A live machine is the start of the program or waits with its latest record. -/
theorem exists_recordAt_of_live {program : List Stmt} {n : Nat}
    (h : (trail program (n + 1)).Live) : ∃ r, recordAt program n = some r := by
  obtain ⟨p, hp⟩ := exists_pause_of_live h
  refine ⟨p.record, ?_⟩
  rw [recordAt, hp]
  rfl

/-- The first place of the trail that is an end. -/
theorem exists_first_end {program : List Stmt} {n : Nat} {t : State} {stop : Option Stop}
    (h : trail program n = .reached (.ended t stop)) :
    ∃ d, (trail program d).Live ∧ trail program (d + 1) = .reached (.ended t stop) := by
  induction n with
  | zero => cases h
  | succ n ih =>
      cases hm : trail program n with
      | ready other => exact ⟨n, by rw [hm]; trivial, h⟩
      | reached p =>
          cases p with
          | paused p => exact ⟨n, by rw [hm]; trivial, h⟩
          | ended t' stop' =>
              -- the place before is an end already, and the same one
              have hnext := trail_ended hm 1
              rw [h] at hnext
              cases hnext
              exact ih hm

/-- Behind the last record there is none. -/
theorem recordAt_eq_none_of_le {program : List Stmt} {n m : Nat}
    (h : recordAt program n = none) (hle : n ≤ m) : recordAt program m = none := by
  rw [recordAt, trail_succ] at h
  cases hp : (trail program n).resume with
  | paused p => rw [hp] at h; exact absurd h (by simp [record?])
  | ended s stop =>
      have hend : trail program (n + 1) = .reached (.ended s stop) := by rw [trail_succ, hp]
      -- no record means that the program has ended, and it stays so
      have hm := trail_ended hend (m - n)
      rw [show n + 1 + (m - n) = m + 1 by omega] at hm
      rw [recordAt, hm]
      rfl

end Machine

end Stepwise
