import Stepwise.Proofs.DescentProgram
import Stepwise.Proofs.Unambiguous
import Stepwise.Proofs.ViablePrefix

/-!
# What the recursive descent accepts and refuses

The procedures of `Stepwise.Proofs.Descent` come back with what the readers of `Stepwise.Parse`
come to (`settles_program`, `settles_wholeExpression`), so all that is known of the readers is
known of the procedures. They accept exactly what the grammar derives, with its tree
(`settles_iff_derives`), and complain at the first entry that no program has there
(`exists_complains`).
-/

namespace Stepwise.Descent

open Grammar

/-! ## The descent comes to what the reader comes to -/

section Settles

variable {α : Type} {x : Nat → Attempt α}

/-- An attempt comes to one end. -/
theorem Settles.unique {result result' : Attempt α} (h : Settles x result)
    (h' : Settles x result') : result = result' := by
  obtain ⟨enough, h⟩ := h
  obtain ⟨enough', h'⟩ := h'
  rw [← h (max enough enough') (Nat.le_max_left _ _), h' _ (Nat.le_max_right _ _)]

/-- The attempt that comes to what a reader comes to. -/
def Attempt.ofResult : Except ParseError α → Attempt α
  | .ok a => pure a
  | .error e => throw (.error e)

theorem Attempt.ofResult_inj {result result' : Except ParseError α} :
    ofResult result = ofResult result' ↔ result = result' := by
  constructor
  · intro h
    -- returning something is not throwing something
    cases result <;> cases result' <;> cases h <;> rfl
  · rintro rfl
    rfl

/-- An attempt that meets a result settles with it. -/
theorem Meets.settles {result : Except ParseError α} {inside : ParseError → Prop}
    (h : Meets x (fun a => result = .ok a) fun e => inside e ∧ result = .error e) :
    Settles x (.ofResult result) := by
  rcases h with ⟨a, hx, rfl⟩ | ⟨e, hx, _, rfl⟩
  · exact hx
  · exact hx

/-- An attempt that comes to a result comes to no other. -/
theorem Settles.ofResult_iff {result : Except ParseError α} (h : Settles x (.ofResult result))
    (result' : Except ParseError α) : Settles x (.ofResult result') ↔ result = result' := by
  constructor
  · intro h'
    exact Attempt.ofResult_inj.mp (h.unique h')
  · rintro rfl
    exact h

end Settles

variable {input : Input} {d : Dialect} {e : ParseError}

/-- Tokens of a text do not reach beyond its end. -/
theorem Input.Shaped.bounded (h : input.Shaped) : input.Bounded := by
  intro token htoken
  exact Nat.le_trans (h.before_end token htoken) input.endSpan.start_le_stop

theorem settles_program (hbounded : input.Bounded) (d : Dialect) :
    Settles (program input d · [] 0)
      (.ofResult (ProgramReader.read d input.tokens input.endSpan)) :=
  (program_meets hbounded d [] 0 (Nat.zero_le _)).settles

theorem settles_wholeExpression (hbounded : input.Bounded) :
    Settles (wholeExpression input) (.ofResult (ExprReader.read input.tokens input.endSpan)) :=
  (wholeExpression_meets hbounded).settles

/-! ## What is accepted -/

/-- **The recursive descent accepts exactly the grammar and builds its trees**, from tokens that
are in order and do not reach beyond the end of the text. -/
theorem settles_iff_derives (hordered : Ordered input.tokens) (hbounded : input.Bounded) :
    (∀ d stmts, Settles (program input d · [] 0) (pure stmts) ↔
      ∃ clauses, Derives d clauses input.tokens ∧ Clause.stmts clauses = stmts) ∧
    ∀ e, Settles (wholeExpression input) (pure e) ↔
      ∃ p : Phrase, p.Derives input.tokens ∧ p.expr = e := by
  constructor
  · intro d stmts
    rw [← read_program_eq_ok_iff_stmts hordered]
    exact (settles_program hbounded d).ofResult_iff (.ok stmts)
  · intro e
    rw [← read_expr_eq_ok_iff_expr hordered]
    exact (settles_wholeExpression hbounded).ofResult_iff (.ok e)

/-! ## What is refused -/

/-- Whether the recursive descent complains of the entry at an index, as the first one that does
not go on with a program. -/
structure Complains (d : Dialect) (input : Input) (e : ParseError) (k : Nat) : Prop where
  /-- It is the place of the error. -/
  place : ∃ entry, input.entries[k]? = some entry ∧ entry.region.span = e.span
  /-- With the entries up to it there is always this complaint. -/
  always : ∀ other : Input, other.Bounded →
    other.entries.take (k + 1) = input.entries.take (k + 1) →
    Settles (program other d · [] 0) (throw (.error e))
  /-- The entries in front of it can be continued. -/
  viable : ∃ other : Input, other.Shaped ∧ other.entries.take k = input.entries.take k ∧
    ∃ result, Acceptable result ∧ Settles (program other d · [] 0) (.ofResult result)

/-- What the reader blames, the procedures complain of. -/
theorem Blames.complains {k : Nat} (h : Blames d input e k) : Complains d input e k where
  place := h.place
  always other hbounded hentries :=
    ((settles_program hbounded d).ofResult_iff (.error e)).mpr (h.always other hentries)
  viable := by
    obtain ⟨other, hshape, hentries, hacceptable⟩ := h.viable
    exact ⟨other, hshape, hentries, _, hacceptable, settles_program hshape.bounded d⟩

/-- **The recursive descent complains at the first entry that no program has there**, if it is not
the target of an assignment that it complains of. -/
theorem exists_complains (hshape : input.Shaped)
    (h : Settles (program input d · [] 0) (throw (.error e)))
    (hcause : e.cause ≠ .invalidTarget) : ∃ k, Complains d input e k := by
  have hread : ProgramReader.read d input.tokens input.endSpan = .error e :=
    ((settles_program hshape.bounded d).ofResult_iff (.error e)).mp h
  obtain ⟨k, hblames⟩ := blames_of_stuck hshape (read_eq_error_iff.mp hread) hcause
  exact ⟨k, hblames.complains⟩

end Stepwise.Descent
