import Mathlib
import Stepwise.Proofs.DescentExpr

/-!
# Recursive descent reads programs

What the reader of programs has pending, the blocks that are open and the arms of a chain,
is on the stack of the procedures. An attempt to read a statement `Agrees` with the reader
if it comes back, and whatever has been read before and is open around it, the reader comes
to what it comes to behind the statement that the attempt has returned, or to the error that
the attempt complains of.

A statement is read at an index if statements are read at all later ones, so that the induction is
again on the tokens that are left (`statementReady`). With it the loop over the statements of a
program ends as well (`program_meets`).
-/

namespace Stepwise

/-- Reads tokens up to the end of the text. -/
def ProgramReader.finish (d : Dialect) (endSpan : Span) (r : ProgramReader) (tokens : List Token) :
    Except ParseError (List Stmt) := do
  let r ← tokens.foldlM (feed d) r
  r.close.mapError (⟨·, endSpan⟩)

/-- The reader behind a block, with what stands before it and the blocks around it. -/
def BlockRole.after (role : BlockRole) (block : Stmt) (before : List Stmt)
    (outer : List OpenBlock) : ProgramReader :=
  match role with
  | .plain => ⟨.start, before ++ [block], outer⟩
  | .arm earlier keyword condition =>
    ⟨.afterArm ⟨⟨keyword, condition, block⟩, earlier⟩, before, outer⟩
  | .otherwise chain => ⟨.start, before ++ [chain.close (some block)], outer⟩
  | .loop keyword condition =>
    ⟨.start, before ++ [.loop (keyword.join block.span) keyword condition block], outer⟩

/-- What stands behind an expression, except for the `=` of an assignment. -/
def Site.ending : Site → Lexeme
  | .statement | .assigned _ | .printed _ | .initializer _ _ | .assignTarget _ _ =>
    .symbol .semicolon
  | .assignValue _ => .keyword .to
  | .ifCondition _ _ | .loopCondition _ => .symbol .leftBrace

/-- Whether the reader goes on with a lexeme, so far as the lexeme alone can tell. -/
def Mode.Takes (lexeme : Lexeme) : Mode → Prop
  | .start | .expr _ _ | .afterArm _ => True
  | .varName _ | .makeName _ => ∃ name, lexeme = .identifier name
  | .varRest _ _ => lexeme = .symbol .equal ∨ lexeme = .symbol .semicolon
  | .makeVar _ => lexeme = .keyword .var
  | .makeEnd _ _ => lexeme = .symbol .semicolon
  | .afterElse _ => lexeme = .keyword .if ∨ lexeme = .symbol .leftBrace

namespace Descent

open ProgramReader

/-! ## The reader from an index on -/

section Finish

variable {d : Dialect} {endSpan : Span} {done : List Stmt} {outer : List OpenBlock} {site : Site}
  {e : Expr} {token : Token}

theorem finish_cons (r : ProgramReader) (token : Token) (rest : List Token) :
    r.finish d endSpan (token :: rest) = r.feed d token >>= (finish d endSpan · rest) := by
  simp only [finish, List.foldlM_cons, bind_assoc]

theorem feed_wrong {mode : Mode} (h : ¬mode.Takes token.lexeme) :
    feed d ⟨mode, done, outer⟩ token = .error ⟨mode.complaint, token.span⟩ := by
  simp only [feed]
  split
  all_goals first
    | rfl
    | exact absurd (by simp [Mode.Takes, *]) h

theorem stepSite_wrong (hending : token.lexeme ≠ site.ending)
    (hequal : site = .statement → token.lexeme ≠ .symbol .equal) :
    stepSite d ⟨.start, done, outer⟩ site e token = .error ⟨site.complaint, token.span⟩ := by
  unfold stepSite
  split
  · rename_i heq
    exact absurd heq (hequal rfl)
  all_goals first
    | rfl
    | rename_i heq; exact absurd heq hending

/-- An expression in a statement is read up to its end, and then the token behind it. -/
theorem finish_expr (site : Site) (done : List Stmt) (outer : List OpenBlock)
    (tokens : List Token) :
    ∀ reader : ExprReader, finish d endSpan ⟨.expr site reader, done, outer⟩ tokens =
      match reader.finish endSpan tokens with
      | .error e => .error e
      | .ok (_, []) => .error ⟨site.complaint, endSpan⟩
      | .ok (e, token :: rest) =>
        stepSite d ⟨.start, done, outer⟩ site e token >>= (finish d endSpan · rest) := by
  induction tokens with
  | nil =>
      intro reader
      simp only [finish, ExprReader.finish, List.foldlM_nil, pure_bind, close]
      cases reader.close <;> rfl
  | cons token rest ih =>
      intro reader
      rw [finish_cons]
      simp only [feed, stepExpr, ExprReader.finish]
      cases reader.step token with
      | more reader => exact ih reader
      | done e => rfl
      | fail cause => rfl

end Finish

/-- What the reader comes to from an index on. -/
def Input.finish (input : Input) (d : Dialect) (i : Nat) (r : ProgramReader) :
    Except ParseError (List Stmt) :=
  r.finish d input.endSpan (input.tokens.drop i)

section Index

variable {input : Input} {d : Dialect} {i : Nat} {r : ProgramReader} {token : Token}

theorem Input.finish_token (h : input.tokens.drop i = token :: input.tokens.drop (i + 1)) :
    input.finish d i r = r.feed d token >>= input.finish d (i + 1) := by
  rw [Input.finish, h, finish_cons]
  rfl

theorem Input.finish_end (h : input.tokens.drop i = []) :
    input.finish d i r = r.close.mapError (⟨·, input.endSpan⟩) := by
  rw [Input.finish, h]
  rfl

/-- Reading stops at an entry that the reader does not accept. -/
theorem Input.finish_wrong {cause : ParseError.Cause} (hi : i ≤ input.tokens.length)
    (hfeed : ∀ token, input.tokens.drop i = token :: input.tokens.drop (i + 1) →
      r.feed d token = .error ⟨cause, token.span⟩)
    (hclose : input.tokens.drop i = [] → r.close = .error cause) :
    input.finish d i r = .error ⟨cause, (input.entry i).region.span⟩ := by
  rcases Input.drop_cases hi with ⟨_, hnil⟩ | ⟨token, _, _, hcons⟩
  · rw [Input.finish_end hnil, hclose hnil, Input.entry_of_drop_nil hnil]
    rfl
  · rw [Input.finish_token hcons, hfeed token hcons, Input.entry_of_drop_cons hcons]
    rfl

/-- Only an `else` goes on with a chain. -/
theorem Input.finish_settled (hi : i ≤ input.tokens.length)
    (h : (input.entry i).lexeme ≠ some (.keyword .else)) :
    input.finish d i r = input.finish d i (Grammar.settled r) := by
  -- at the end of the text a chain is closed as well
  rcases Input.drop_cases hi with ⟨_, hnil⟩ | ⟨token, _, _, hcons⟩
  · rw [Input.finish_end hnil, Input.finish_end hnil, Grammar.close_settled]
  · rw [Input.entry_of_drop_cons hcons] at h
    rw [Input.finish_token hcons, Input.finish_token hcons,
      Grammar.feed_settled fun hlexeme => h (congrArg some hlexeme)]

end Index

/-! ## Agreeing with the reader -/

section Agrees

variable (input : Input) (d : Dialect) (low : Nat)
  (answer : List Stmt → List OpenBlock → Except ParseError (List Stmt))
  (goal : Stmt → List Stmt → List OpenBlock → ProgramReader)

/-- Whether the reader gets to its answer by way of the statement that has been read. -/
structure Leads (p : Parsed Stmt) : Prop where
  low_le : low ≤ p.next
  next_le : p.next ≤ input.tokens.length
  places : input.Places p.node.span p.region
  answer_eq : ∀ done outer, answer done outer = input.finish d p.next (goal p.node done outer)

/-- Whether the answer of the reader is an error in the text. -/
structure Refuses (e : ParseError) : Prop where
  stop_le : e.span.stop ≤ input.endSpan.stop
  answer_eq : ∀ done outer, answer done outer = .error e

/-- Whether an attempt to read a statement comes back and agrees with what the reader
answers, given the statements before and the blocks around. Behind the statement the
reader is at `goal`. -/
def Agrees (x : Nat → Attempt (Parsed Stmt)) : Prop :=
  Meets x (Leads input d low answer goal) (Refuses input answer)

/-- The reader behind a statement. -/
abbrev added (s : Stmt) (done : List Stmt) (outer : List OpenBlock) : ProgramReader :=
  ⟨.start, done ++ [s], outer⟩

variable {input d low answer goal} {x : Nat → Attempt (Parsed Stmt)}

theorem Agrees.of_eq {low' : Nat}
    {answer' : List Stmt → List OpenBlock → Except ParseError (List Stmt)}
    (h : Agrees input d low' answer' goal x) (hlow : low ≤ low')
    (heq : ∀ done outer, answer done outer = answer' done outer) :
    Agrees input d low answer goal x := by
  refine h.mono (fun p hp => ?_) fun e he => ?_
  · exact ⟨Nat.le_trans hlow hp.low_le, hp.next_le, hp.places, fun done outer =>
      (heq done outer).trans (hp.answer_eq done outer)⟩
  · exact ⟨he.stop_le, fun done outer => (heq done outer).trans (he.answer_eq done outer)⟩

theorem Agrees.deeper (h : Agrees input d low answer goal fun depth => x (depth + 1)) :
    Agrees input d low answer goal x :=
  meets_succ_iff.mp h

theorem agrees_complain {cause : ParseError.Cause} {span : Span} {region : Region}
    (hplaces : input.Places span region)
    (h : ∀ done outer, answer done outer = .error ⟨cause, span⟩) :
    Agrees input d low answer goal (fun _ => complain cause region) := by
  obtain ⟨rfl, hle⟩ := hplaces
  exact meets_complain ⟨hle, h⟩

/-- A part of a statement is read, and then the others. -/
theorem Agrees.bind {low' : Nat} {goal' : Stmt → List Stmt → List OpenBlock → ProgramReader}
    {f : Parsed Stmt → Nat → Attempt (Parsed Stmt)} (hx : Agrees input d low answer goal x)
    (hf : ∀ p : Parsed Stmt, low ≤ p.next → p.next ≤ input.tokens.length →
      input.Places p.node.span p.region →
      Agrees input d low' (fun done outer => input.finish d p.next (goal p.node done outer)) goal'
        (f p)) :
    Agrees input d low' answer goal' (fun depth => x depth >>= fun p => f p depth) := by
  refine Meets.bind hx (fun e he => ⟨he.stop_le, he.answer_eq⟩) fun p hp => ?_
  exact (hf p hp.low_le hp.next_le hp.places).of_eq (Nat.le_refl _) hp.answer_eq

/-- What is read in a block may be read behind the statements before it there. -/
theorem Agrees.within (h : Agrees input d low answer goal x) (brace : Span) (role : BlockRole)
    (done : List Stmt) :
    Agrees input d low (fun before outer => answer done (⟨brace, role, before⟩ :: outer))
      (fun s before outer => goal s done (⟨brace, role, before⟩ :: outer)) x := by
  refine h.mono (fun p hp => ?_) fun e he => ?_
  · exact ⟨hp.low_le, hp.next_le, hp.places, fun before outer => hp.answer_eq _ _⟩
  · exact ⟨he.stop_le, fun before outer => he.answer_eq _ _⟩

variable {i : Nat} {r : List Stmt → List OpenBlock → ProgramReader}

/-- Two places in the text have a common one. -/
theorem agrees_join {a b : Span} {first last : Region} (hfirst : input.Places a first)
    (hlast : input.Places b last) {f : Region → Nat → Attempt (Parsed Stmt)}
    (hf : input.Places (a.join b) ⟨input.file, a.join b⟩ →
      Agrees input d low answer goal (f ⟨input.file, a.join b⟩)) :
    Agrees input d low answer goal (fun depth => join first last >>= fun p => f p depth) := by
  obtain ⟨hjoin, hjoined⟩ := hfirst.join hlast
  simp only [hjoin, pure_bind]
  exact hf hjoined

/-- The reader takes the lexeme that has to be there, and nothing else. -/
theorem agrees_expect {lexeme : Lexeme} {cause : ParseError.Cause} (hbounded : input.Bounded)
    (hi : i ≤ input.tokens.length) {f : Region × Nat → Nat → Attempt (Parsed Stmt)}
    (hwrong : ∀ done outer token, input.tokens.drop i = token :: input.tokens.drop (i + 1) →
      token.lexeme ≠ lexeme → (r done outer).feed d token = .error ⟨cause, token.span⟩)
    (hclose : ∀ done outer, (r done outer).close = .error cause)
    (hf : ∀ token ∈ input.tokens, i < input.tokens.length →
      input.tokens.drop i = token :: input.tokens.drop (i + 1) → token.lexeme = lexeme →
      Agrees input d low (fun done outer => (r done outer).feed d token >>= input.finish d (i + 1))
        goal (f (⟨input.file, token.span⟩, i + 1))) :
    Agrees input d low (fun done outer => input.finish d i (r done outer)) goal
      (fun depth => expect input lexeme cause i >>= fun p => f p depth) := by
  by_cases hlexeme : (input.entry i).lexeme = some lexeme
  · obtain ⟨token, hmem, hlt, hcons, htoken, hregion⟩ := Input.exists_token hi hlexeme
    simp only [expect_eq hi hlexeme, pure_bind, hregion]
    exact (hf token hmem hlt hcons htoken).of_eq (Nat.le_refl _)
      fun _ _ => Input.finish_token hcons
  · -- both complain about the entry at `i`, be it a token or the end
    rw [expect_ne hi hlexeme]
    refine agrees_complain (hbounded.entry hi) fun done outer => ?_
    refine Input.finish_wrong hi (fun token hcons => ?_) fun _ => hclose done outer
    refine hwrong done outer token hcons fun htoken => hlexeme ?_
    rw [Input.entry_of_drop_cons hcons, htoken]

/-- The name behind `var` is taken, and nothing else. -/
theorem agrees_expectName (hbounded : input.Bounded) (hi : i ≤ input.tokens.length)
    {f : String × Nat → Nat → Attempt (Parsed Stmt)}
    (hwrong : ∀ done outer token, (¬∃ name, token.lexeme = .identifier name) →
      (r done outer).feed d token = .error ⟨.expectedName, token.span⟩)
    (hclose : ∀ done outer, (r done outer).close = .error .expectedName)
    (hf : ∀ token name, i < input.tokens.length → token.lexeme = .identifier name →
      Agrees input d low (fun done outer => (r done outer).feed d token >>= input.finish d (i + 1))
        goal (f (name, i + 1))) :
    Agrees input d low (fun done outer => input.finish d i (r done outer)) goal
      (fun depth => expectName input i >>= fun p => f p depth) := by
  simp only [expectName, peek_eq hi, pure_bind]
  split
  · rename_i name hlexeme
    obtain ⟨token, _, hlt, hcons, htoken, _⟩ := Input.exists_token hi hlexeme
    simp only [take_eq hi hlexeme, pure_bind]
    exact (hf token name hlt htoken).of_eq (Nat.le_refl _) fun _ _ => Input.finish_token hcons
  · rename_i hname
    refine agrees_complain (hbounded.entry hi) fun done outer => ?_
    refine Input.finish_wrong hi (fun token hcons => ?_) fun _ => hclose done outer
    refine hwrong done outer token ?_
    rintro ⟨name, htoken⟩
    refine hname name ?_
    rw [Input.entry_of_drop_cons hcons, htoken]

/-! ## Expressions in statements -/

/-- An expression in a statement is read, and then what is behind it. -/
theorem agrees_expression (hbounded : input.Bounded) (hi : i ≤ input.tokens.length) {site : Site}
    {f : Parsed Expr → Nat → Attempt (Parsed Stmt)}
    (hf : ∀ e, Reads input i e →
      Agrees input d low
        (fun done outer => input.finish d e.next ⟨.expr site (behind e.node [] []), done, outer⟩)
        goal (f e)) :
    Agrees input d low (fun done outer => input.finish d i ⟨.expr site {}, done, outer⟩) goal
      (fun depth => expression input depth i >>= fun e => f e depth) := by
  refine Meets.bind (expression_meets hbounded hi) (fun e ⟨hle, he⟩ => ?_) fun e he => ?_
  · refine ⟨hle, fun done outer => ?_⟩
    rw [Input.finish, finish_expr, he]
  · -- the reader has come to the end of the same expression
    refine (hf e he).of_eq (Nat.le_refl _) fun done outer => ?_
    rw [Input.finish, Input.finish, finish_expr, finish_expr, he.finish_eq,
      finish_complete he.stops]

/-- Behind a complete expression, the token decides what becomes of it. -/
theorem feed_behind {e : Expr} {site : Site} {token : Token} {rest : List Token}
    (hstops : Stops 0 (token :: rest)) (done : List Stmt) (outer : List OpenBlock) :
    feed d ⟨.expr site (behind e [] []), done, outer⟩ token =
      stepSite d ⟨.start, done, outer⟩ site e token := by
  simp only [feed, stepExpr, step_stops hstops]
  rfl

/-- An expression is read with what has to stand behind it. -/
theorem agrees_site (hbounded : input.Bounded) (hi : i ≤ input.tokens.length) (site : Site)
    (hsite : site ≠ .statement) {f : Parsed Expr → Region × Nat → Nat → Attempt (Parsed Stmt)}
    (hf : ∀ e, Reads input i e → ∀ token ∈ input.tokens, e.next < input.tokens.length →
      token.lexeme = site.ending →
      Agrees input d low
        (fun done outer =>
          stepSite d ⟨.start, done, outer⟩ site e.node token >>= input.finish d (e.next + 1))
        goal (f e (⟨input.file, token.span⟩, e.next + 1))) :
    Agrees input d low (fun done outer => input.finish d i ⟨.expr site {}, done, outer⟩) goal
      (fun depth => expression input depth i >>= fun e =>
        expect input site.ending site.complaint e.next >>= fun p => f e p depth) := by
  refine agrees_expression hbounded hi fun e he => ?_
  refine agrees_expect hbounded he.next_le (fun done outer token hcons hne => ?_) (fun _ _ => rfl)
    fun token hmem hlt hcons hlexeme => ?_
  · rw [feed_behind (hcons ▸ he.stops)]
    exact stepSite_wrong hne fun h => absurd h hsite
  · refine (hf e he token hmem hlt hlexeme).of_eq (Nat.le_refl _) fun done outer => ?_
    rw [feed_behind (hcons ▸ he.stops)]

/-! ## Statements of one line -/

/-- Only a variable is assigned to. -/
theorem agrees_assignment {target : Parsed Expr}
    (htarget : input.Places target.node.span target.region) {span : Span}
    (hspan : input.Places span ⟨input.file, span⟩) {value : Expr} {next : Nat} (hlow : low ≤ next)
    (hnext : next ≤ input.tokens.length) :
    Agrees input d low
      (fun done outer =>
        pushAssign ⟨.start, done, outer⟩ span target.node value >>= input.finish d next)
      added (fun _ => assignment ⟨input.file, span⟩ target value next) := by
  obtain ⟨node, region, _⟩ := target
  cases node with
  | var _ name => exact meets_pure ⟨hlow, hnext, hspan, fun _ _ => rfl⟩
  | _ => exact agrees_complain htarget fun _ _ => rfl

variable {keyword : Span} {first : Region}

theorem agrees_print (hbounded : input.Bounded) (hfirst : input.Places keyword first)
    (hi : i ≤ input.tokens.length) :
    Agrees input d (i + 1)
      (fun done outer => input.finish d i ⟨.expr (.printed keyword) {}, done, outer⟩) added
      (fun depth => printStatement input depth first i) := by
  refine agrees_site hbounded hi (.printed keyword) (by simp)
    fun e he token hmem hlt hlexeme => ?_
  refine agrees_join hfirst (hbounded.token hmem) fun hjoined => ?_
  refine meets_pure ⟨Nat.le_succ_of_le he.lt_next, hlt, hjoined, fun done outer => ?_⟩
  simp only [stepSite, hlexeme, Site.ending]
  rfl

/-- The semicolon behind a declaration without a value. -/
theorem agrees_declared (hbounded : input.Bounded) (hfirst : input.Places keyword first)
    (hi : i ≤ input.tokens.length) (mode : Mode) {after : Terminated} {name : String}
    (hwrong : ∀ token, token.lexeme ≠ .symbol .semicolon →
      input.tokens.drop i = token :: input.tokens.drop (i + 1) → ¬mode.Takes token.lexeme)
    (hclose : ∀ done outer, close ⟨mode, done, outer⟩ = .error mode.complaint)
    (hcomplaint : mode.complaint = .expectedSemicolon after)
    (hfeed : ∀ done outer token, token.lexeme = .symbol .semicolon →
      feed d ⟨mode, done, outer⟩ token =
        .ok (added (.declare (keyword.join token.span) name none) done outer)) :
    Agrees input d (i + 1) (fun done outer => input.finish d i ⟨mode, done, outer⟩) added
      (fun _ => do
        let (semicolon, j) ← expect input (.symbol .semicolon) (.expectedSemicolon after) i
        let region ← join first semicolon
        pure ⟨.declare region.span name none, region, j⟩) := by
  rw [← hcomplaint]
  refine agrees_expect hbounded hi (fun done outer token hcons hne => ?_) hclose
    fun token hmem hlt _ hlexeme => ?_
  · exact feed_wrong (hwrong token hne hcons)
  · refine agrees_join hfirst (hbounded.token hmem) fun hjoined => ?_
    refine meets_pure ⟨Nat.le_refl _, hlt, hjoined, fun done outer => ?_⟩
    rw [hfeed done outer token hlexeme]
    rfl

theorem agrees_var (hbounded : input.Bounded) (hfirst : input.Places keyword first)
    (hi : i ≤ input.tokens.length) :
    Agrees input d (i + 1)
      (fun done outer => input.finish d i ⟨.varName keyword, done, outer⟩) added
      (fun depth => varStatement input depth first i) := by
  refine agrees_expectName hbounded hi (fun _ _ _ hname => feed_wrong hname) (fun _ _ => rfl)
    fun token name hlt hlexeme => ?_
  have hrest (done : List Stmt) (outer : List OpenBlock) :
      (feed d ⟨.varName keyword, done, outer⟩ token >>= input.finish d (i + 1)) =
        input.finish d (i + 1) ⟨.varRest keyword name, done, outer⟩ := by
    simp only [feed, hlexeme]
    rfl
  -- a value is optional, and announced by the sign in front of it
  by_cases hequal : (input.entry (i + 1)).lexeme = some (.symbol .equal)
  · obtain ⟨equal, _, hlt', hcons, hlexeme', _⟩ := Input.exists_token hlt hequal
    simp only [take?_eq hlt hequal, pure_bind]
    refine Agrees.of_eq (agrees_site hbounded hlt' (.initializer keyword name) (by simp)
      fun e he semicolon hmem hlt'' hsemicolon => ?_) (Nat.le_refl _) fun done outer => ?_
    · refine agrees_join hfirst (hbounded.token hmem) fun hjoined => ?_
      have := he.lt_next
      refine meets_pure ⟨by dsimp only; omega, hlt'', hjoined, fun done outer => ?_⟩
      simp only [stepSite, hsemicolon, Site.ending]
      rfl
    · rw [hrest, Input.finish_token hcons]
      simp only [feed, hlexeme']
      rfl
  · simp only [take?_ne hlt hequal, pure_bind]
    refine (agrees_declared hbounded hfirst hlt (.varRest keyword name)
      (fun semicolon hne hcons h => ?_) (fun _ _ => rfl) rfl
      fun done outer semicolon h => ?_).of_eq
      (Nat.le_succ _) hrest
    · rw [Input.entry_of_drop_cons hcons] at hequal
      rcases h with h | h
      · exact hequal (congrArg some h)
      · exact hne h
    · simp only [feed, h]
      rfl

theorem agrees_make (hbounded : input.Bounded) (hfirst : input.Places keyword first)
    (hi : i ≤ input.tokens.length) :
    Agrees input d (i + 1)
      (fun done outer => input.finish d i ⟨.makeVar keyword, done, outer⟩) added
      (fun _ => makeStatement input first i) := by
  refine agrees_expect hbounded hi (fun done outer token _ hne => feed_wrong hne) (fun _ _ => rfl)
    fun token _ hlt _ hlexeme => ?_
  refine Agrees.of_eq (agrees_expectName (r := fun done outer => ⟨.makeName keyword, done, outer⟩)
    hbounded hlt (fun _ _ _ hname => feed_wrong hname)
    (fun _ _ => rfl) fun token' name hlt' hlexeme' => ?_) (Nat.le_refl _) fun done outer => ?_
  · refine (agrees_declared hbounded hfirst hlt' (.makeEnd keyword name)
      (fun _ hne _ h => hne h) (fun _ _ => rfl) rfl fun done outer semicolon h => ?_).of_eq
      (by omega) fun done outer => ?_
    · simp only [feed, h]
      rfl
    · simp only [feed, hlexeme']
      rfl
  · simp only [feed, hlexeme]
    rfl

theorem agrees_assign (hbounded : input.Bounded) (hfirst : input.Places keyword first)
    (hi : i ≤ input.tokens.length) :
    Agrees input d (i + 1)
      (fun done outer => input.finish d i ⟨.expr (.assignValue keyword) {}, done, outer⟩) added
      (fun depth => assignStatement input depth first i) := by
  refine agrees_site hbounded hi (.assignValue keyword) (by simp)
    fun value hvalue word _ hlt hword => ?_
  -- the value comes first in this form, and then the target
  refine Agrees.of_eq (agrees_site hbounded hlt (.assignTarget keyword value.node) (by simp)
    fun target htarget semicolon hmem hlt' hsemicolon => ?_) (Nat.le_refl _) fun done outer => ?_
  · refine agrees_join hfirst (hbounded.token hmem) fun hjoined => ?_
    have := hvalue.lt_next
    have := htarget.lt_next
    refine (agrees_assignment htarget.places hjoined (by omega) hlt').of_eq (Nat.le_refl _)
      fun done outer => ?_
    simp only [stepSite, hsemicolon, Site.ending]
  · simp only [stepSite, hword, Site.ending]
    rfl

/-- A statement that starts with an expression is an assignment or the expression alone. -/
theorem agrees_expr (hbounded : input.Bounded) (hi : i ≤ input.tokens.length) :
    Agrees input d (i + 1)
      (fun done outer => input.finish d i ⟨.expr .statement {}, done, outer⟩) added
      (fun depth => exprStatement input d depth i) := by
  refine agrees_expression hbounded hi fun e he => ?_
  -- only behind the expression is it seen to be the target of an assignment
  by_cases hequal : (input.entry e.next).lexeme = some (.symbol .equal)
  · obtain ⟨equal, hmem, hlt, hcons, hlexeme, hregion⟩ := Input.exists_token he.next_le hequal
    have hanswer (done : List Stmt) (outer : List OpenBlock) :
        input.finish d e.next ⟨.expr .statement (behind e.node [] []), done, outer⟩ =
          stepSite d ⟨.start, done, outer⟩ .statement e.node equal >>=
            input.finish d (e.next + 1) := by
      rw [Input.finish_token hcons, feed_behind (hcons ▸ he.stops)]
    simp only [take?_eq he.next_le hequal, pure_bind, hregion]
    split
    · rename_i hallows
      refine Agrees.of_eq (agrees_site hbounded hlt (.assigned e.node) (by simp)
        fun value hvalue semicolon hmem' hlt' hsemicolon => ?_) (Nat.le_refl _)
        fun done outer => ?_
      · refine agrees_join he.places (hbounded.token hmem') fun hjoined => ?_
        have := he.lt_next
        have := hvalue.lt_next
        refine (agrees_assignment he.places hjoined (by omega) hlt').of_eq (Nat.le_refl _)
          fun done outer => ?_
        simp only [stepSite, hsemicolon, Site.ending]
      · rw [hanswer]
        simp only [stepSite, hlexeme, if_pos hallows]
        rfl
    · rename_i hallows
      -- the dialect has no such assignment, and the sign is blamed
      refine agrees_complain (hbounded.token hmem) fun done outer => ?_
      rw [hanswer]
      simp only [stepSite, hlexeme, if_neg hallows]
      rfl
  · simp only [take?_ne he.next_le hequal, pure_bind]
    refine agrees_expect hbounded he.next_le (fun done outer token hcons hne => ?_)
      (fun _ _ => rfl) fun token hmem hlt hcons hlexeme => ?_
    · rw [feed_behind (hcons ▸ he.stops)]
      refine stepSite_wrong hne fun _ h => hequal ?_
      rw [Input.entry_of_drop_cons hcons, h]
    · refine agrees_join he.places (hbounded.token hmem) fun hjoined => ?_
      refine meets_pure ⟨Nat.le_succ_of_le he.lt_next, hlt, hjoined, fun done outer => ?_⟩
      rw [feed_behind (hcons ▸ he.stops)]
      simp only [stepSite, hlexeme]
      rfl

end Agrees

/-! ## Blocks and statements with blocks -/

/-- Where the reader is when a statement is read at an index. A procedure does not know whether
there is a block around the statement that a brace may close, and takes the brace for an
expression, as it takes the end of the text. -/
def Input.opening (input : Input) (i : Nat) : Mode :=
  match (input.entry i).lexeme with
  | none | some (.symbol .rightBrace) => .expr .statement {}
  | _ => .start

theorem Input.opening_eq_start {input : Input} {i : Nat} (hend : (input.entry i).lexeme ≠ none)
    (hbrace : (input.entry i).lexeme ≠ some (.symbol .rightBrace)) :
    input.opening i = .start := by
  rw [Input.opening]
  split
  · rename_i h
    exact absurd h hend
  · rename_i h
    exact absurd h hbrace
  · rfl

/-- Outside of all blocks a brace closes nothing and is read like an expression. -/
theorem Input.finish_opening {input : Input} {d : Dialect} {i : Nat} {token : Token}
    (hcons : input.tokens.drop i = token :: input.tokens.drop (i + 1)) {done : List Stmt} :
    input.finish d i ⟨.start, done, []⟩ = input.finish d i ⟨input.opening i, done, []⟩ := by
  have hentry := Input.entry_of_drop_cons hcons
  by_cases hbrace : token.lexeme = .symbol .rightBrace
  · have hopening : input.opening i = .expr .statement {} := by
      rw [Input.opening, hentry, hbrace]
    rw [hopening, Input.finish_token hcons, Input.finish_token hcons]
    simp only [feed, stepStart, hbrace]
    rfl
  · rw [Input.opening_eq_start]
    · simp only [hentry, ne_eq, reduceCtorEq, not_false_eq_true]
    · simp only [hentry, ne_eq, Option.some.injEq, hbrace, not_false_eq_true]

/-- Whether statements are read at an index, and take at least one token. -/
def StatementReady (input : Input) (d : Dialect) (i : Nat) : Prop :=
  Agrees input d (i + 1) (fun done outer => input.finish d i ⟨input.opening i, done, outer⟩) added
    fun depth => statement input d depth i

section Procedures

variable {input : Input} {d : Dialect} {i : Nat}

/-- A branch statement that is an arm of a chain is what is done instead of the earlier arms. -/
theorem agrees_branch {keyword : Span} (hkeyword : input.Places keyword ⟨input.file, keyword⟩)
    (earlier : List Arm) (condition : Expr) {low : Nat} {yes : Parsed Stmt}
    (no : Option (Parsed Stmt)) (hlow : low ≤ (no.getD yes).next)
    (hnext : (no.getD yes).next ≤ input.tokens.length)
    (hplaces : input.Places (no.getD yes).node.span (no.getD yes).region) :
    Agrees input d low
      (fun done outer => input.finish d (no.getD yes).next
        (added (Chain.close ⟨⟨keyword, condition, yes.node⟩, earlier⟩ (no.map (·.node)))
          done outer))
      (fun s => added (Grammar.nest earlier s))
      (fun _ => branch ⟨input.file, keyword⟩ condition yes no) := by
  refine agrees_join hkeyword hplaces fun hjoined => ?_
  refine meets_pure ⟨hlow, hnext, hjoined, fun done outer => ?_⟩
  cases no <;> rfl

section First

variable {lexeme : Lexeme} (hi : i ≤ input.tokens.length)
  (hlexeme : (input.entry i).lexeme = some lexeme) (hbrace : lexeme ≠ .symbol .rightBrace)

include hi hlexeme hbrace

theorem exists_first : ∃ token ∈ input.tokens, i < input.tokens.length ∧ token.lexeme = lexeme ∧
    input.entry i = ⟨some lexeme, ⟨input.file, token.span⟩⟩ ∧
    ∀ done outer, input.finish d i ⟨input.opening i, done, outer⟩ =
      stepStart d ⟨.start, done, outer⟩ token >>= input.finish d (i + 1) := by
  obtain ⟨token, hmem, hlt, hcons, htoken, _⟩ := Input.exists_token hi hlexeme
  have hentry := Input.entry_of_drop_cons hcons
  rw [htoken] at hentry
  have hopening : input.opening i = .start := by
    apply Input.opening_eq_start <;> simp [hlexeme, hbrace]
  refine ⟨token, hmem, hlt, htoken, hentry, fun done outer => ?_⟩
  rw [hopening, Input.finish_token hcons]
  rfl

/-- A statement that starts with a lexeme of its own. -/
theorem agrees_first {r : Token → List Stmt → List OpenBlock → ProgramReader}
    {f : Entry × Nat → Nat → Attempt (Parsed Stmt)}
    (hstart : ∀ done outer token, token.lexeme = lexeme →
      stepStart d ⟨.start, done, outer⟩ token = .ok (r token done outer))
    (hf : ∀ token ∈ input.tokens, i < input.tokens.length →
      Agrees input d (i + 1 + 1) (fun done outer => input.finish d (i + 1) (r token done outer))
        added (f (⟨some lexeme, ⟨input.file, token.span⟩⟩, i + 1))) :
    Agrees input d (i + 1) (fun done outer => input.finish d i ⟨input.opening i, done, outer⟩)
      added (fun depth => take input i >>= fun p => f p depth) := by
  obtain ⟨token, hmem, hlt, htoken, hentry, hfinish⟩ := exists_first (d := d) hi hlexeme hbrace
  simp only [take_eq hi hlexeme, hentry, pure_bind]
  refine (hf token hmem hlt).of_eq (Nat.le_succ _) fun done outer => ?_
  rw [hfinish, hstart done outer token htoken]
  rfl

/-- A statement that cannot start like this. -/
theorem agrees_refused (hbounded : input.Bounded) {cause : ParseError.Cause}
    (hstart : ∀ done outer token, token.lexeme = lexeme →
      stepStart d ⟨.start, done, outer⟩ token = .error ⟨cause, token.span⟩) :
    Agrees input d (i + 1) (fun done outer => input.finish d i ⟨input.opening i, done, outer⟩)
      added (fun _ => complain cause (input.entry i).region) := by
  obtain ⟨token, hmem, _, htoken, hentry, hfinish⟩ := exists_first (d := d) hi hlexeme hbrace
  rw [hentry]
  refine agrees_complain (hbounded.token hmem) fun done outer => ?_
  rw [hfinish, hstart done outer token htoken]
  rfl

/-- A statement of a form that the dialect may leave out. -/
theorem agrees_form (hbounded : input.Bounded) {form : Form}
    {r : Token → List Stmt → List OpenBlock → ProgramReader}
    {f : Entry × Nat → Nat → Attempt (Parsed Stmt)}
    (hstart : ∀ done outer token, token.lexeme = lexeme →
      stepStart d ⟨.start, done, outer⟩ token = startForm d form token (r token done outer))
    (hf : ∀ token ∈ input.tokens, i < input.tokens.length →
      Agrees input d (i + 1 + 1) (fun done outer => input.finish d (i + 1) (r token done outer))
        added (f (⟨some lexeme, ⟨input.file, token.span⟩⟩, i + 1))) :
    Agrees input d (i + 1) (fun done outer => input.finish d i ⟨input.opening i, done, outer⟩)
      added (fun depth => if d.allows form then take input i >>= fun p => f p depth
        else complain (.disabled form) (input.entry i).region) := by
  split
  · rename_i hallows
    refine agrees_first hi hlexeme hbrace (fun done outer token htoken => ?_) hf
    rw [hstart done outer token htoken, startForm, if_pos hallows]
  · rename_i hallows
    refine agrees_refused hi hlexeme hbrace hbounded fun done outer token htoken => ?_
    rw [hstart done outer token htoken, startForm, if_neg hallows]

end First

variable (hbounded : input.Bounded)
  (ih : ∀ j, i < j → j ≤ input.tokens.length → StatementReady input d j)

include hbounded ih

/-- Statements are read up to the brace that closes the block. -/
theorem agrees_block {brace : Span} {first : Region} (hfirst : input.Places brace first)
    (role : BlockRole) (done : List Stmt) (j : Nat) (hij : i < j) (hj : j ≤ input.tokens.length) :
    Agrees input d (j + 1)
      (fun before outer => input.finish d j ⟨.start, done, ⟨brace, role, before⟩ :: outer⟩)
      role.after (fun depth => block input d depth first done j) := by
  refine Agrees.deeper ?_
  simp only [block, peek_eq hj, pure_bind]
  split
  · rename_i hend
    -- there is a brace, or the text is at its end and `expect` complains
    refine agrees_expect hbounded hj (fun before outer token hcons hne => ?_) (fun _ _ => rfl)
      fun token hmem hlt _ hlexeme => ?_
    · rw [Input.entry_of_drop_cons hcons] at hend
      rcases hend with hend | hend
      · exact absurd (Option.some.inj hend) hne
      · cases hend
    · refine agrees_join hfirst (hbounded.token hmem) fun hjoined => ?_
      refine meets_pure ⟨Nat.le_refl _, hlt, hjoined, fun before outer => ?_⟩
      simp only [feed, stepStart, hlexeme]
      cases role <;> rfl
  · rename_i hmore
    -- a statement is read, and then the others of the block
    have hready := (ih j hij hj).within brace role done
    rw [Input.opening_eq_start (fun h => hmore (.inr h)) fun h => hmore (.inl h)] at hready
    refine hready.bind fun s hlow hle _ => ?_
    exact (agrees_block hfirst role (done ++ [s.node]) s.next (by omega) hle).of_eq (by omega)
      fun _ _ => rfl
termination_by input.tokens.length - j

/-- The block behind an `else` is the last one of its chain. -/
theorem agrees_else {keyword : Span} (hkeyword : input.Places keyword ⟨input.file, keyword⟩)
    (earlier : List Arm) (condition : Expr) (yes : Parsed Stmt) {j : Nat} (hij : i < j)
    (hj : j ≤ input.tokens.length) (hif : (input.entry j).lexeme ≠ some (.keyword .if)) :
    Agrees input d (j + 1)
      (fun done outer => input.finish d j
        ⟨.afterElse ⟨⟨keyword, condition, yes.node⟩, earlier⟩, done, outer⟩)
      (fun s => added (Grammar.nest earlier s))
      (fun depth => do
        let (brace, j) ← expect input (.symbol .leftBrace) .expectedElseBranch j
        let no ← block input d depth brace [] j
        branch ⟨input.file, keyword⟩ condition yes (some no)) := by
  refine agrees_expect hbounded hj (fun done outer token hcons hne => ?_) (fun _ _ => rfl)
    fun brace hmem hlt _ hbrace => ?_
  · refine feed_wrong fun h => ?_
    rw [Input.entry_of_drop_cons hcons] at hif
    rcases h with h | h
    · exact hif (congrArg some h)
    · exact hne h
  · refine Agrees.of_eq (Agrees.bind (agrees_block hbounded ih (hbounded.token hmem)
      (.otherwise ⟨⟨keyword, condition, yes.node⟩, earlier⟩) [] (j + 1) (by omega) hlt)
      fun no hlow hle hno => ?_) (Nat.le_refl _) fun done outer => ?_
    · exact agrees_branch hkeyword earlier condition (some no) (Nat.le_of_succ_le hlow) hle hno
    · simp only [feed, hbrace]
      rfl

/-- A chain is read arm by arm. -/
theorem agrees_if {keyword : Span} (hkeyword : input.Places keyword ⟨input.file, keyword⟩)
    (earlier : List Arm) (j : Nat) (hij : i < j) (hj : j ≤ input.tokens.length) :
    Agrees input d (j + 1)
      (fun done outer => input.finish d j ⟨.expr (.ifCondition earlier keyword) {}, done, outer⟩)
      (fun s => added (Grammar.nest earlier s))
      (fun depth => ifStatement input d depth ⟨input.file, keyword⟩ j) := by
  refine Agrees.deeper ?_
  simp only [ifStatement]
  refine agrees_site hbounded hj (.ifCondition earlier keyword) (by simp)
    fun condition hcondition brace hmem hlt hbrace => ?_
  have hlt_next := hcondition.lt_next
  refine Agrees.of_eq (Agrees.bind (agrees_block hbounded ih (hbounded.token hmem)
    (.arm earlier keyword condition.node) [] (condition.next + 1) (by omega) hlt)
    fun yes hlow hle hyes => ?_) (Nat.le_refl _) fun done outer => ?_
  · -- behind the block of an arm, `else` goes on with the chain
    by_cases helse : (input.entry yes.next).lexeme = some (.keyword .else)
    · obtain ⟨token, _, hlt', hcons, hlexeme, _⟩ := Input.exists_token hle helse
      have hanswer (done : List Stmt) (outer : List OpenBlock) :
          input.finish d yes.next (BlockRole.after (.arm earlier keyword condition.node) yes.node
            done outer) =
          input.finish d (yes.next + 1)
            ⟨.afterElse ⟨⟨keyword, condition.node, yes.node⟩, earlier⟩, done, outer⟩ := by
        rw [Input.finish_token hcons]
        simp only [BlockRole.after, feed, hlexeme]
        rfl
      simp only [take?_eq hle helse, pure_bind]
      by_cases hif : (input.entry (yes.next + 1)).lexeme = some (.keyword .if)
      · -- a further arm
        obtain ⟨nested, hmem', hlt'', hcons', hlexeme', hregion⟩ := Input.exists_token hlt' hif
        simp only [take?_eq hlt' hif, pure_bind, hregion]
        refine Agrees.of_eq (Agrees.bind (agrees_if (hbounded.token hmem')
          (⟨keyword, condition.node, yes.node⟩ :: earlier) (yes.next + 1 + 1) (by omega) hlt'')
          fun no hlow' hle' hno => ?_) (Nat.le_refl _) fun done outer => ?_
        · exact agrees_branch hkeyword earlier condition.node (some no)
            (by dsimp only [Option.getD]; omega) hle' hno
        · rw [hanswer, Input.finish_token hcons']
          simp only [feed, hlexeme']
          rfl
      · -- the last block
        simp only [take?_ne hlt' hif, pure_bind]
        exact (agrees_else hbounded ih hkeyword earlier condition.node yes
          (by omega) hlt' hif).of_eq (by omega) hanswer
    · -- no `else`, so that the chain is complete
      simp only [take?_ne hle helse, pure_bind]
      exact (agrees_branch hkeyword earlier condition.node none
        (by dsimp only [Option.getD]; omega) hle hyes).of_eq (Nat.le_refl _)
        fun done outer => Input.finish_settled hle helse
  · simp only [stepSite, hbrace, Site.ending]
    rfl
termination_by input.tokens.length - j

theorem agrees_while {keyword : Span} (hkeyword : input.Places keyword ⟨input.file, keyword⟩)
    {j : Nat} (hij : i < j) (hj : j ≤ input.tokens.length) :
    Agrees input d (j + 1)
      (fun done outer => input.finish d j ⟨.expr (.loopCondition keyword) {}, done, outer⟩) added
      (fun depth => whileStatement input d depth ⟨input.file, keyword⟩ j) := by
  refine Agrees.deeper ?_
  simp only [whileStatement]
  refine agrees_site hbounded hj (.loopCondition keyword) (by simp)
    fun condition hcondition brace hmem hlt hbrace => ?_
  have hlt_next := hcondition.lt_next
  refine Agrees.of_eq (Agrees.bind (agrees_block hbounded ih (hbounded.token hmem)
    (.loop keyword condition.node) [] (condition.next + 1) (by omega) hlt)
    fun body hlow hle hbody => ?_) (Nat.le_refl _) fun done outer => ?_
  · refine agrees_join hkeyword hbody fun hjoined => ?_
    exact meets_pure ⟨by dsimp only; omega, hle, hjoined, fun _ _ => rfl⟩
  · simp only [stepSite, hbrace, Site.ending]
    rfl

/-- The first token of a statement decides what is read. -/
theorem agrees_statement (hi : i ≤ input.tokens.length) : StatementReady input d i := by
  refine Agrees.deeper ?_
  simp only [statement, peek_eq hi, pure_bind]
  -- the cases of `statement`, in its order
  split
  · rename_i hlexeme
    exact agrees_first hi hlexeme (by simp) (fun _ _ _ h => by simp only [stepStart, h]; rfl)
      fun token hmem hlt =>
        agrees_block hbounded ih (hbounded.token hmem) .plain [] (i + 1) (by omega) hlt
  · rename_i hlexeme
    exact agrees_first hi hlexeme (by simp) (fun _ _ _ h => by simp only [stepStart, h]; rfl)
      fun token hmem hlt =>
        agrees_if hbounded ih (hbounded.token hmem) [] (i + 1) (by omega) hlt
  · rename_i hlexeme
    exact agrees_first hi hlexeme (by simp) (fun _ _ _ h => by simp only [stepStart, h]; rfl)
      fun token hmem hlt => agrees_while hbounded ih (hbounded.token hmem) (by omega) hlt
  · rename_i hlexeme
    exact agrees_first hi hlexeme (by simp) (fun _ _ _ h => by simp only [stepStart, h]; rfl)
      fun token hmem hlt => agrees_print hbounded (hbounded.token hmem) hlt
  · rename_i hlexeme
    exact agrees_form hi hlexeme (by simp) hbounded (fun _ _ _ h => by simp only [stepStart, h])
      fun token hmem hlt => agrees_var hbounded (hbounded.token hmem) hlt
  · rename_i hlexeme
    exact agrees_form hi hlexeme (by simp) hbounded (fun _ _ _ h => by simp only [stepStart, h])
      fun token hmem hlt => agrees_make hbounded (hbounded.token hmem) hlt
  · rename_i hlexeme
    exact agrees_form hi hlexeme (by simp) hbounded
      (fun _ _ _ h => by simp only [stepStart, h]; rfl)
      fun token hmem hlt => agrees_assign hbounded (hbounded.token hmem) hlt
  -- the statements that the language does not have
  iterate 5
    rename_i hlexeme
    exact agrees_refused hi hlexeme (by simp) hbounded fun _ _ _ h => by simp only [stepStart, h]
  · -- anything else is read as an expression, by the reader as well
    refine (agrees_expr hbounded hi).of_eq (Nat.le_refl _) fun done outer => ?_
    rw [Input.opening]
    split
    · rfl
    · rfl
    · rename_i hend hbrace
      rcases Input.drop_cases hi with ⟨_, hnil⟩ | ⟨token, _, _, hcons⟩
      · exact absurd (congrArg Entry.lexeme (Input.entry_of_drop_nil hnil)) hend
      · simp only [Input.entry_of_drop_cons hcons, Option.some.injEq] at *
        rw [Input.finish_token hcons, Input.finish_token hcons]
        congr 1
        simp only [feed, stepStart]
        split
        all_goals first
          | rfl
          | contradiction

end Procedures

/-! ## Programs are read to their end -/

section Program

variable {input : Input} (hbounded : input.Bounded) (d : Dialect)

include hbounded

/-- Statements are read from every index on. -/
theorem statementReady {i : Nat} (hi : i ≤ input.tokens.length) : StatementReady input d i :=
  agrees_statement hbounded (fun _ _ hj => statementReady hj) hi
termination_by input.tokens.length - i

/-- An attempt to read a program comes back as the reader does. -/
theorem program_meets (done : List Stmt) (i : Nat) (hi : i ≤ input.tokens.length) :
    Meets (fun depth => program input d depth done i)
      (fun stmts => input.finish d i ⟨.start, done, []⟩ = .ok stmts)
      fun e => e.span.stop ≤ input.endSpan.stop ∧
        input.finish d i ⟨.start, done, []⟩ = .error e := by
  refine meets_succ_iff.mp ?_
  simp only [program, peek_eq hi, pure_bind]
  rcases Input.drop_cases hi with ⟨_, hnil⟩ | ⟨token, _, _, hcons⟩
  · simp only [Input.entry_of_drop_nil hnil, if_true]
    exact meets_pure (Input.finish_end hnil)
  · simp only [Input.entry_of_drop_cons hcons, reduceCtorEq, if_false]
    rw [Input.finish_opening hcons]
    refine Meets.bind (statementReady hbounded d hi)
      (fun e he => ⟨he.stop_le, he.answer_eq done []⟩) fun s hs => ?_
    have := hs.low_le
    rw [hs.answer_eq done []]
    -- the rest is read at a later index, where less is left
    exact program_meets (done ++ [s.node]) s.next hs.next_le
termination_by input.tokens.length - i

end Program

end Descent

/-! ## Parsing comes back -/

namespace Source

open Descent

/-- No token and no error of a text reaches beyond its end. -/
theorem scan_bounded {s : Source} {f : Except ParseError Token} (h : f ∈ s.scan) :
    (place f).stop ≤ s.endSpan.stop := by
  have haccount := @Cursor.account_scan (Cursor.start s.text) [] rfl
  exact (haccount.placed f h).2.2

theorem bounded_tokens {s : Source} {tokens : List Token} (h : s.tokens = .ok tokens)
    (file : Nat) :
    Input.Bounded ⟨file, tokens, s.endSpan⟩ := by
  intro token hmem
  have hscan := mapM_id_eq_ok_iff.mp h
  exact scan_bounded (f := .ok token) (hscan ▸ List.mem_map_of_mem hmem)

theorem tokens_error_bounded {s : Source} {e : ParseError} (h : s.tokens = .error e) :
    e.span.stop ≤ s.endSpan.stop := by
  obtain ⟨tokens, rest, hscan⟩ := mapM_id_eq_error_iff.mp h
  refine scan_bounded (f := .error e) ?_
  rw [hscan]
  exact List.mem_append_right _ List.mem_cons_self

/-- An attempt to read the tokens of a text comes back if it comes back for every text with
tokens. -/
theorem ofTokens_meets {α : Type} (file : Nat) (s : Source) {f : Input → Nat → Attempt α}
    {read : List Token → Span → Except ParseError α}
    (hf : ∀ input : Input, input.Bounded →
      Meets (f input) (fun a => read input.tokens input.endSpan = .ok a) fun e =>
        e.span.stop ≤ input.endSpan.stop ∧ read input.tokens input.endSpan = .error e) :
    Meets (fun depth => ofTokens file s (f · depth))
      (fun a => (s.tokens >>= (read · s.endSpan)) = .ok a) fun e =>
      e.span.stop ≤ s.length ∧ (s.tokens >>= (read · s.endSpan)) = .error e := by
  simp only [ofTokens]
  cases htokens : s.tokens with
  | ok tokens => exact hf ⟨file, tokens, s.endSpan⟩ (bounded_tokens htokens file)
  -- no depth is needed for an error of the tokens
  | error e => exact .inr ⟨e, settles_const _, tokens_error_bounded htokens, rfl⟩

/-- **Parsing any text comes back.** The procedures of the recursive descent could go on forever
or come to trouble of all kinds, but they do not. A text is read as a program, or as an
expression, and the result is that of `parse` or `parseExpr`; or there is a complaint about a
place in the text, and this is their error. At whatever index among the tokens the procedure for
statements or the one for expressions is called, it comes back with at least one token taken and
none beyond the last one, or with such a complaint. -/
theorem parsing_comes_back (s : Source) (d : Dialect) (file : Nat) :
    Meets (Descent.parse · file s d) (fun program => s.parse d = .ok program)
      (fun e => e.span.stop ≤ s.length ∧ s.parse d = .error e) ∧
    Meets (Descent.parseExpr · file s) (fun e => s.parseExpr = .ok e)
      (fun e => e.span.stop ≤ s.length ∧ s.parseExpr = .error e) ∧
    ∀ tokens, s.tokens = .ok tokens → ∀ i ≤ tokens.length,
      Meets (statement ⟨file, tokens, s.endSpan⟩ d · i)
        (fun p => i < p.next ∧ p.next ≤ tokens.length) (fun e => e.span.stop ≤ s.length) ∧
      Meets (expression ⟨file, tokens, s.endSpan⟩ · i)
        (fun p => i < p.next ∧ p.next ≤ tokens.length) (fun e => e.span.stop ≤ s.length) := by
  refine ⟨?_, ?_, fun tokens htokens i hi => ?_⟩
  · exact ofTokens_meets file s fun input hbounded =>
      program_meets hbounded d [] 0 (Nat.zero_le _)
  · exact ofTokens_meets file s fun input hbounded => wholeExpression_meets hbounded
  · have hbounded := bounded_tokens htokens file
    constructor
    · exact (statementReady hbounded d hi).mono (fun p hp => ⟨hp.low_le, hp.next_le⟩)
        fun e he => he.stop_le
    · exact (expression_meets hbounded hi).mono (fun p hp => ⟨hp.lt_next, hp.next_le⟩)
        fun e he => he.1

/-- A block and an argument list that are both left open. -/
def leftOpen : Source := ⟨"main", "\x7b print f(1,"⟩

/-- The tokens of `leftOpen`. -/
def leftOpenTokens : List Token :=
  [⟨.symbol .leftBrace, .ofLength 0 1⟩, ⟨.keyword .print, .ofLength 2 5⟩,
    ⟨.identifier "f", .ofLength 8 1⟩, ⟨.symbol .leftParen, .ofLength 9 1⟩,
    ⟨.int 1, .ofLength 10 1⟩, ⟨.symbol .comma, .ofLength 11 1⟩]

theorem parsing_comes_back_leftOpen :
    leftOpen.tokens = .ok leftOpenTokens ∧
      Settles (Descent.parse · 0 leftOpen {})
        (throw (.error ⟨.expectedExpression, .ofLength 12 0⟩)) ∧
      Meets (expression ⟨0, leftOpenTokens, leftOpen.endSpan⟩ · 4)
        (fun p => 4 < p.next ∧ p.next ≤ 6) (fun e => e.span.stop ≤ 12) := by
  have htokens : leftOpen.tokens = .ok leftOpenTokens := by cbv
  have hparse : leftOpen.parse {} = .error ⟨.expectedExpression, .ofLength 12 0⟩ := by cbv
  obtain ⟨hprogram, _, hcalls⟩ := parsing_comes_back leftOpen {} 0
  refine ⟨htokens, ?_, (hcalls leftOpenTokens htokens 4 (by decide)).2⟩
  rcases hprogram with ⟨program, _, hok⟩ | ⟨e, hthrow, _, herror⟩
  · rw [hparse] at hok
    cases hok
  · rw [hparse] at herror
    cases herror
    exact hthrow

end Source

end Stepwise
