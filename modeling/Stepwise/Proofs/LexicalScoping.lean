import Mathlib
import Stepwise.Proofs.Anchors

/-!
# Scoping is lexical

Scopes are opened and closed while a program runs, and names are looked up in what is open. For a
program that has been read from a text all of this is determined by the text: whichever way a run
has come to a point, the scopes there hold the declarations that precede the point, and a name
stands for the declaration that is seen from there. `Source.records_described` puts together the
invariant of runs, the positions of points and the order of tokens.
-/

namespace Stepwise

open Grammar

/-! ## Actions of variables -/

namespace Node

variable {node : Node} {a : Action}

theorem Announces.use?_of_unresolved (h : node.Announces a) {use : Span × String}
    (hu : a.unresolved? = some use) : node.use? = some use ∧ a.declaration = none := by
  unfold Announces at h
  split at h
  case h_1 span name span' name' declared =>
    obtain ⟨rfl, rfl⟩ := h
    cases declared with
    | none => exact ⟨hu, rfl⟩
    | some d => cases hu
  case h_6 span name e span' name' v declared =>
    obtain ⟨rfl, rfl, _⟩ := h
    cases declared with
    | none => exact ⟨hu, rfl⟩
    | some d => cases hu
  -- a node that announces no action at all
  case h_9 => exact h.elim
  all_goals cases hu

/-- The action of a node that uses a variable. -/
theorem Announces.of_use (h : node.Announces a) {span : Span} {name : String}
    (hu : node.use? = some (span, name)) :
    (a.declaration = none → a.unresolved? = some (span, name)) ∧
      ∀ {scopes : Scopes}, a.Resolved scopes →
        a.declaration = (scopes.lookup name).map (·.declared) := by
  unfold Announces at h
  split at h
  case h_1 span name span' name' declared =>
    obtain ⟨rfl, rfl⟩ := h
    cases hu
    refine ⟨fun hnone => ?_, fun hresolved => hresolved⟩
    replace hnone : declared = none := hnone
    rw [hnone]
    rfl
  case h_6 span name e span' name' v declared =>
    obtain ⟨rfl, rfl, _⟩ := h
    cases hu
    refine ⟨fun hnone => ?_, fun hresolved => hresolved⟩
    replace hnone : declared = none := hnone
    rw [hnone]
    rfl
  case h_9 => exact h.elim
  all_goals cases hu

end Node

/-! ## Programs that have been read -/

/-- A program that has been read has a derivation from the tokens of its text. -/
theorem Source.exists_derives {s : Source} {d : Dialect} {program : List Stmt}
    (h : s.parse d = .ok program) :
    ∃ tokens clauses, s.tokens = .ok tokens ∧ Derives d clauses tokens ∧
      Clause.builtAll clauses = program := by
  unfold Source.parse at h
  cases htokens : s.tokens with
  | error err =>
      rw [htokens] at h
      cases h
  | ok tokens =>
      rw [htokens] at h
      obtain ⟨clauses, hderives, hbuilt⟩ := read_program_eq_ok_iff.mp h
      exact ⟨tokens, clauses, rfl, hderives, hbuilt⟩

theorem Source.tidyAll_parse {s : Source} {d : Dialect} {program : List Stmt}
    (h : s.parse d = .ok program) : Stmt.TidyAll program := by
  obtain ⟨tokens, clauses, _, ⟨his, _⟩, rfl⟩ := Source.exists_derives h
  exact tidyAll_builtAll fun c hc => (his c hc).tidy

/-- **An action comes from one point of a program only.** -/
theorem Source.eq_of_announces {s : Source} {d : Dialect} {program : List Stmt}
    (h : s.parse d = .ok program) {p q : Point} (hp : p ∈ pointsOf program)
    (hq : q ∈ pointsOf program) {a : Action} (hpa : p.node.Announces a)
    (hqa : q.node.Announces a) :
    p = q := by
  obtain ⟨tokens, clauses, htokens, ⟨_, rfl⟩, rfl⟩ := Source.exists_derives h
  have hordered := (Source.ordered_tokens htokens).1
  -- The anchors are some of the places where tokens start, and these are all different.
  have hsublist := Clause.anchorsAll_sublist clauses hordered [] []
  have hnodup : (anchors (pointsOf (Clause.builtAll clauses))).Nodup :=
    ((Source.pairwise_start_tokens htokens).sublist hsublist).imp fun hlt => Nat.ne_of_lt hlt
  exact List.inj_on_of_nodup_map hnodup hp hq (hpa.anchor_eq.symm.trans hqa.anchor_eq)

/-- What a record shows if a point of the program has announced it. There is one scope for the
program and one for each block around the point. -/
structure Point.Describes (point : Point) (r : Record) : Prop where
  announces : point.node.Announces r.action
  depth : r.state.snapshot.scopes.length = point.around.length + 1
  scopes : r.state.snapshot.scopes.map Scope.outline =
    point.declarations.reverse.map Declarations.outline
  declaration : ∀ span name, point.node.use? = some (span, name) →
    r.action.declaration = point.resolve? name

theorem Source.exists_describes {s : Source} {d : Dialect} {program : List Stmt}
    (hparse : s.parse d = .ok program) {n : Nat} {r : Record}
    (h : Machine.recordAt program n = some r) : ∃ point ∈ pointsOf program, point.Describes r := by
  obtain ⟨p, hp, rfl⟩ := Machine.exists_pause_of_recordAt h
  have hfits := Machine.fits_trail (Source.tidyAll_parse hparse) n hp
  obtain ⟨point, hmem, hannounces, hresolved, hfollow⟩ := hfits.point
  have hscopes := hfollow.outlines
  refine ⟨point, hmem, hannounces, ?_, ?_, fun span name huse => ?_⟩
  · -- a picture lists the scopes from the outside in, so it is as deep as they are
    have hlength := hfollow.length_eq
    show p.state.scopes.reverse.length = _
    rw [List.length_reverse, hlength]
    simp [Point.declarations]
  · show p.state.scopes.reverse.map Scope.outline = _
    rw [List.map_reverse, List.map_reverse, hscopes]
  · rw [Point.resolve?, ← hfollow.lookup]
    exact (hannounces.of_use huse).2 hresolved

/-- **Scoping is lexical.** Every record of a program is announced by one point of its text, and
that point determines the scopes that the record shows, up to values, and the declaration that it
refers to. A program ends with the error that a variable is not declared just if it comes to a
point that uses the variable and no declaration is seen from there. -/
theorem Source.records_described {s : Source} {d : Dialect} {program : List Stmt}
    (hparse : s.parse d = .ok program) :
    (∀ n r, Machine.recordAt program n = some r →
      ∃ point ∈ pointsOf program, point.Describes r ∧
        ∀ point' ∈ pointsOf program, point'.node.Announces r.action → point' = point) ∧
    (∀ span name,
      (∃ n t, Machine.trail program n =
        .reached (.ended t (some (.error ⟨.undeclared name, span⟩)))) ↔
      ∃ point ∈ pointsOf program, point.node.use? = some (span, name) ∧
        point.resolve? name = none ∧
        ∃ n r, Machine.recordAt program n = some r ∧ point.node.Announces r.action) := by
  have hblamed := Machine.ends_blamed_iff (Source.tidyAll_parse hparse)
  refine ⟨fun n r hr => ?_, fun span name => ⟨?_, ?_⟩⟩
  · obtain ⟨point, hmem, hdescribes⟩ := Source.exists_describes hparse hr
    exact ⟨point, hmem, hdescribes, fun point' hmem' hannounces =>
      Source.eq_of_announces hparse hmem' hmem hannounces hdescribes.announces⟩
  · rintro ⟨n, t, hend⟩
    -- the record before the error uses the name, and has found no declaration
    obtain ⟨k, r, hr, hunresolved⟩ := (hblamed (span, name)).mp ⟨n, t, _, hend, rfl⟩
    obtain ⟨point, hmem, hdescribes⟩ := Source.exists_describes hparse hr
    obtain ⟨huse, hnone⟩ := hdescribes.announces.use?_of_unresolved hunresolved
    refine ⟨point, hmem, huse, ?_, k, r, hr, hdescribes.announces⟩
    rw [← hdescribes.declaration span name huse, hnone]
  · rintro ⟨point, hmem, huse, hresolve, k, r, hr, hannounces⟩
    obtain ⟨point', hmem', hdescribes⟩ := Source.exists_describes hparse hr
    -- the record is described by the point that announces it, as there is no other
    obtain rfl := Source.eq_of_announces hparse hmem hmem' hannounces hdescribes.announces
    have hnone : r.action.declaration = none := by
      rw [hdescribes.declaration span name huse, hresolve]
    obtain ⟨n, t, stop, hend, hstop⟩ :=
      (hblamed (span, name)).mpr ⟨k, r, hr, (hannounces.of_use huse).1 hnone⟩
    rw [Stop.blamed?_eq_some_iff.mp hstop] at hend
    exact ⟨n, t, hend⟩

/-- The program `var x = 1; { var x = x; } y = x;`. -/
def shadowing : List Stmt :=
  [.declare (.ofLength 0 10) "x" (some (.literal (.ofLength 8 1) (.int 1))),
   .block (.ofLength 11 14)
     [.declare (.ofLength 13 10) "x" (some (.var (.ofLength 21 1) "x"))],
   .assign (.ofLength 26 6) "y" (.var (.ofLength 30 1) "x")]

/-- The inner `x` is gone behind its block, and `y` is declared nowhere. -/
theorem Source.records_described_shadowing :
    Source.parse ⟨"main", "var x = 1; \x7b var x = x; \x7d y = x;"⟩ {} = .ok shadowing ∧
      (∀ n r, Machine.recordAt shadowing n = some r →
        ∃ point ∈ pointsOf shadowing, point.Describes r) ∧
      ∃ n t, Machine.trail shadowing n =
        .reached (.ended t (some (.error ⟨.undeclared "y", .ofLength 26 6⟩))) := by
  have hparse :
      Source.parse ⟨"main", "var x = 1; \x7b var x = x; \x7d y = x;"⟩ {} = .ok shadowing := by
    cbv
  have hrecord : Machine.recordAt shadowing 4 = some
      ⟨.assign (.ofLength 26 6) "y" ⟨.ofLength 30 1, .int 1⟩ none,
        ⟨[[("x", ⟨.ofLength 0 10, some (.int 1)⟩)]], ""⟩⟩ := by
    decide +kernel
  obtain ⟨hrecords, hends⟩ := Source.records_described hparse
  refine ⟨hparse, fun n r hr => ?_, (hends (.ofLength 26 6) "y").mpr ?_⟩
  · obtain ⟨point, hmem, hdescribes, _⟩ := hrecords n r hr
    exact ⟨point, hmem, hdescribes⟩
  · refine ⟨⟨.stmt (.assign (.ofLength 26 6) "y" (.var (.ofLength 30 1) "x")), shadowing.take 2,
      []⟩, ?_, rfl, rfl, 4, _, hrecord, rfl, rfl, rfl⟩
    simp [pointsOf, shadowing, Stmt.pointsAll, Stmt.points, Stmt.nodes, Expr.nodes]

end Stepwise
