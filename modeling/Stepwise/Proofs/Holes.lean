import Stepwise.Proofs.LexicalScoping
import Stepwise.Proofs.Refinement

/-!
# Programs that were read have no holes

A tree may have holes, where a statement or an expression is missing, and a program that comes to
one cannot go on. The grammar has no rule that leaves a hole, so no text is read as such a program
(`Source.whole_parse`). What remains is calls: they can be written, and they are all that a
program from a text can fail with (`Source.failsByCall`).
-/

namespace Stepwise

/-! ## Trees without holes -/

/-- Whether no hole of the expression can be evaluated; a call is not looked into. -/
def Expr.Whole : Expr → Prop
  | .hole _ => False
  | .paren _ inner => inner.Whole
  | .shortCircuit _ left _ right | .binary _ left _ right => left.Whole ∧ right.Whole
  | .unary _ _ operand => operand.Whole
  | .var _ _ | .literal _ _ | .call _ _ _ => True

mutual

/-- Whether no hole of the statement can be run. -/
def Stmt.Whole : Stmt → Prop
  | .hole _ => False
  | .block _ body => Stmt.WholeAll body
  | .expr _ e | .print _ e | .declare _ _ (some e) | .assign _ _ e => e.Whole
  | .declare _ _ none => True
  | .branch _ _ condition yes none => condition.Whole ∧ yes.Whole
  | .branch _ _ condition yes (some no) => condition.Whole ∧ yes.Whole ∧ no.Whole
  | .loop _ _ condition body => condition.Whole ∧ body.Whole

/-- Whether no hole of the statements can be run. -/
def Stmt.WholeAll : List Stmt → Prop
  | [] => True
  | s :: rest => s.Whole ∧ Stmt.WholeAll rest

end

namespace Grammar

theorem Phrase.whole_built : (p : Phrase) → p.built.Whole
  | .var _ _ | .literal _ _ | .call _ _ _ | .callWith _ _ _ _ => trivial
  | .paren _ inner _ => inner.whole_built
  | .unary _ _ operand => operand.whole_built
  | .binary op left _ right => by
      cases op with
      | shortCircuit op => exact ⟨left.whole_built, right.whole_built⟩
      | binary op => exact ⟨left.whole_built, right.whole_built⟩

mutual

theorem Clause.whole_built : (c : Clause) → c.built.Whole
  | .block _ body _ => Clause.wholeAll_builtAll body
  | .branch _ condition yes => ⟨condition.whole_built, yes.whole_built⟩
  | .branchElse _ condition yes _ no =>
      ⟨condition.whole_built, yes.whole_built, no.whole_built⟩
  | .loop _ condition body => ⟨condition.whole_built, body.whole_built⟩
  | .var _ _ _ _ | .makeVar _ _ _ _ _ => trivial
  | .print _ value _ | .varWith _ _ _ _ value _ | .assignTo _ value _ _ _ _
  | .assign _ _ _ value _ | .expr value _ => value.whole_built

theorem Clause.wholeAll_builtAll :
    (clauses : List Clause) → Stmt.WholeAll (Clause.builtAll clauses)
  | [] => trivial
  | c :: rest => ⟨c.whole_built, Clause.wholeAll_builtAll rest⟩

end

end Grammar

/-- **A program that was read has no holes.** -/
theorem Source.whole_parse {s : Source} {d : Dialect} {program : List Stmt}
    (h : s.parse d = .ok program) : Stmt.WholeAll program := by
  obtain ⟨tokens, clauses, _, _, rfl⟩ := Source.exists_derives h
  exact Grammar.Clause.wholeAll_builtAll clauses

/-! ## Running them -/

/-- Whether a run is stopped by no failure but that of a call. -/
def FailsByCall (stop : Option Stop) : Prop :=
  ∀ f, stop = some (.failure f) → ∃ span, f = .unsupported span "function calls"

theorem failsByCall_none : FailsByCall none := by
  intro f hf
  cases hf

theorem failsByCall_error (e : RunError) : FailsByCall (some (.error e)) := by
  intro f hf
  cases hf

/-- An expression without holes is stopped by no failure but that of a call. -/
theorem Expr.failsByCall_of_yields {scopes : Scopes} {e : Expr} {r : Except Stop Value}
    (h : e.Yields scopes r) (hwhole : e.Whole) {stop : Stop} (hr : r = .error stop) :
    FailsByCall (some stop) := by
  induction h with
  | var | literal | decided | undecided | binary | unary => cases hr
  | uninitialized | undeclared | leftType | rightType | binaryFault | unaryFault =>
      -- these are errors of the program, not failures
      cases hr
      exact failsByCall_error _
  | @call span =>
      intro f hf
      cases hr
      cases hf
      exact ⟨span, rfl⟩
  | paren _ ih => exact ih hwhole hr
  | leftStop _ ih => exact ih hwhole.1 hr
  | rightStop _ _ _ _ ih => exact ih hwhole.2 hr
  | binaryLeft _ ih => exact ih hwhole.1 hr
  | binaryRight _ _ _ ih => exact ih hwhole.2 hr
  | unaryStop _ ih => exact ih hwhole hr
  -- the only other failure, and there is no hole
  | hole => exact hwhole.elim

/-- The expression of a statement without holes has none. -/
theorem Stmt.Whole.head? {statement : Stmt} {e : Expr} (h : statement.Whole)
    (he : statement.head? = some e) : e.Whole := by
  cases statement with
  | block | hole => cases he
  | declare span name initial =>
      cases initial with
      | none => cases he
      | some e' =>
          cases he
          exact h
  | branch span keyword condition yes no =>
      cases he
      cases no with
      -- whether there is another branch is no matter for the condition
      | none => exact h.1
      | some no => exact h.1
  | loop span keyword condition body =>
      cases he
      exact h.1
  | expr | print | assign =>
      cases he
      exact h

mutual

/-- A statement without holes is stopped by no failure but that of a call. -/
theorem Stmt.failsByCall_of_runs {statement : Stmt} {s t : State} {stop : Option Stop} :
    statement.Runs s t stop → statement.Whole → FailsByCall stop
  | .block hbody, h => Stmt.failsByCall_of_runsAll hbody h
  | .expr _, _ | .print _, _ | .declare, _ | .declareWith _, _ | .assign _ _, _ | .pass _, _
  | .leave _, _ => failsByCall_none
  | .undeclared _ _, _ | .branchType _ _, _ | .loopType _ _, _ => failsByCall_error _
  | @Stmt.Runs.yes _ _ _ yes no _ _ _ _ hyes, h => by
      cases no with
      | none => exact Stmt.failsByCall_of_runs hyes h.2
      | some no => exact Stmt.failsByCall_of_runs hyes h.2.1
  | .no _ hno, h => Stmt.failsByCall_of_runs hno h.2.2
  | .again _ _ hagain, h => Stmt.failsByCall_of_runs hagain h
  | .stopInside _ hbody, h => Stmt.failsByCall_of_runs hbody h.2
  | .stopAtOnce hs he, h => Expr.failsByCall_of_yields he (h.head? hs) rfl
  | .hole, h => h.elim

theorem Stmt.failsByCall_of_runsAll {body : List Stmt} {s t : State} {stop : Option Stop} :
    Stmt.RunsAll body s t stop → Stmt.WholeAll body → FailsByCall stop
  | .nil, _ => failsByCall_none
  | .cons _ hrest, h => Stmt.failsByCall_of_runsAll hrest h.2
  | .stop hfirst, h => Stmt.failsByCall_of_runs hfirst h.1

end

/-- **A program from a text fails with nothing but a call.** -/
theorem Source.failsByCall {s : Source} {d : Dialect} {program : List Stmt}
    (h : s.parse d = .ok program) {n : Nat} {t : State} {stop : Option Stop}
    (hend : Machine.trail program n = .reached (.ended t stop)) : FailsByCall stop := by
  -- how the machine ends is how the statements run, and these have no holes
  obtain ⟨u, hruns, _⟩ := Machine.trail_ended_iff.mp ⟨n, hend⟩
  exact Stmt.failsByCall_of_runsAll hruns (Source.whole_parse h)

end Stepwise
