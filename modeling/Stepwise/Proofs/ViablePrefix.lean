import Stepwise.Proofs.Descent

/-!
# Errors come at the first token that cannot be continued

The reader takes one token at a time, and it stops at the first one that it cannot take. So what
it reports there does not depend on anything that comes later (`read_eq_error_iff`). What remains
is that it never stops too late: the tokens in front of the one that it reports must be the
beginning of some program.

They are, because everything that a reader has pending can be brought to an end. `completion` says
how, from the inside out: an operand is supplied, the parentheses around it are closed, the
statement is ended, and then the blocks around it are closed. No dialect refuses any of these
lexemes (`acceptable_completion`). There is one thing that they cannot mend, an assignment to
something that is no variable, and that is only complained of once the assignment is over.
-/

namespace Stepwise

open Grammar

/-! ## How everything pending is brought to an end -/

/-- The lexemes that complete an expression. -/
def ExprReader.completion (r : ExprReader) : List Lexeme :=
  let operand : List Lexeme := match r.focus with
    | .operand => [.identifier "x"]
    | .arguments _ => [.symbol .rightParen]
    | .after _ => []
  operand ++ r.outer.map fun _ => .symbol .rightParen

/-- The lexemes that complete a statement behind an expression of it. -/
def Site.completion : Site → List Lexeme
  | .statement | .assigned _ | .printed _ | .initializer _ _ | .assignTarget _ _ =>
    [.symbol .semicolon]
  | .assignValue _ => [.keyword .to, .identifier "x", .symbol .semicolon]
  | .ifCondition _ _ | .loopCondition _ => [.symbol .leftBrace, .symbol .rightBrace]

/-- The lexemes that complete a statement. -/
def Mode.completion : Mode → List Lexeme
  | .start | .afterArm _ => []
  | .expr site reader => reader.completion ++ site.completion
  | .varName _ | .makeName _ => [.identifier "x", .symbol .semicolon]
  | .varRest _ _ | .makeEnd _ _ => [.symbol .semicolon]
  | .makeVar _ => [.keyword .var, .identifier "x", .symbol .semicolon]
  | .afterElse _ => [.symbol .leftBrace, .symbol .rightBrace]

/-- The lexemes that complete a program. -/
def ProgramReader.completion (r : ProgramReader) : List Lexeme :=
  r.mode.completion ++ r.outer.map fun _ => .symbol .rightBrace

/-! ## Expressions are completed -/

/-- Every open parenthesis can be closed behind an operand. -/
theorem exists_shifts_closers {outer : List Enclosing} {tokens : List Token}
    (h : tokens.map (·.lexeme) = outer.map fun _ => .symbol .rightParen) (e : Expr)
    (ops : List PendingOp) :
    ∃ e' ops', Shifts ⟨.after e, ops, outer⟩ tokens ⟨.after e', ops', []⟩ := by
  induction outer generalizing tokens e ops with
  | nil =>
      have hnil : tokens = [] := List.map_eq_nil_iff.mp h
      subst hnil
      exact ⟨e, ops, .nil⟩
  | cons around outer ih =>
      obtain ⟨token, rest, rfl, htoken, hrest⟩ := List.map_eq_cons_iff.mp h
      obtain ⟨enclosure, opsAround⟩ := around
      -- either kind of group becomes an operand of the group around it
      have hstep : ∃ e', ExprReader.step ⟨.after e, ops, ⟨enclosure, opsAround⟩ :: outer⟩ token =
          .more ⟨.after e', opsAround, outer⟩ := by
        cases enclosure with
        | paren opener =>
            refine ⟨.paren (opener.join token.span) (PendingOp.fillAll e ops), ?_⟩
            simp only [ExprReader.step, ExprReader.stepAfter, htoken, InfixOp.ofSymbol?,
              ExprReader.stepClose]
        | arguments callee args =>
            refine ⟨.call (callee.span.join token.span) callee
              (args ++ [PendingOp.fillAll e ops]), ?_⟩
            simp only [ExprReader.step, ExprReader.stepAfter, htoken, InfixOp.ofSymbol?,
              ExprReader.stepClose]
      obtain ⟨e₁, hstep⟩ := hstep
      obtain ⟨e', ops', hshifts⟩ := ih hrest e₁ opsAround
      exact ⟨e', ops', .cons hstep hshifts⟩

/-- **An expression that has been read in part can be completed.** -/
theorem ExprReader.exists_shifts_completion {r : ExprReader} {tokens : List Token}
    (h : tokens.map (·.lexeme) = r.completion) :
    ∃ e ops, Shifts r tokens ⟨.after e, ops, []⟩ := by
  obtain ⟨focus, ops, outer⟩ := r
  cases focus with
  | operand =>
      obtain ⟨token, rest, rfl, htoken, hrest⟩ := List.map_eq_cons_iff.mp h
      obtain ⟨e, ops', hshifts⟩ := exists_shifts_closers hrest (.var token.span "x") ops
      refine ⟨e, ops', .cons ?_ hshifts⟩
      simp only [ExprReader.step, ExprReader.stepOperand, htoken]
  -- an argument list may stay empty, so the parenthesis is enough
  | arguments callee =>
      obtain ⟨token, rest, rfl, htoken, hrest⟩ := List.map_eq_cons_iff.mp h
      obtain ⟨e, ops', hshifts⟩ :=
        exists_shifts_closers hrest (.call (callee.span.join token.span) callee []) ops
      refine ⟨e, ops', .cons ?_ hshifts⟩
      simp only [ExprReader.step, htoken]
  | after e => exact exists_shifts_closers h e ops

/-! ## Statements are completed -/

/-- Whether reading has come to the end of a statement, with these blocks open around it, or to an
assignment to something that is no variable. -/
def Completed (outer : List OpenBlock) : Except ParseError ProgramReader → Prop
  | .ok r => ∃ done, settled r = ⟨.start, done, outer⟩
  | .error e => e.cause = .invalidTarget

section Statement

variable {d : Dialect} {done : List Stmt} {outer : List OpenBlock} {tokens : List Token}

theorem foldlM_feed_cons {r m : ProgramReader} {token : Token} (h : r.feed d token = .ok m) :
    (token :: tokens).foldlM (ProgramReader.feed d) r =
      tokens.foldlM (ProgramReader.feed d) m := by
  rw [List.foldlM_cons, h]
  rfl

theorem completed_pushAssign (mode : Mode) (span : Span) (target value : Expr) :
    Completed outer (ProgramReader.pushAssign ⟨mode, done, outer⟩ span target value) := by
  unfold ProgramReader.pushAssign
  split
  · exact ⟨_, rfl⟩
  · exact rfl

/-- Behind a complete expression its statement takes over. -/
theorem feed_complete {site : Site} {e : Expr} {ops : List PendingOp} {token : Token}
    (h : EndsExpr token.lexeme) :
    ProgramReader.feed d ⟨.expr site ⟨.after e, ops, []⟩, done, outer⟩ token =
      ProgramReader.stepSite d ⟨.expr site ⟨.after e, ops, []⟩, done, outer⟩ site
        (PendingOp.fillAll e ops) token := by
  have hdone : ExprReader.step ⟨.after e, ops, []⟩ token = .done (PendingOp.fillAll e ops) := by
    rcases h with h | h | h | h <;>
      simp only [ExprReader.step, ExprReader.stepAfter, h, InfixOp.ofSymbol?, ExprReader.stepClose]
  simp only [ProgramReader.feed, ProgramReader.stepExpr, hdone]

/-- A brace closes the innermost block, whatever the block is part of. -/
theorem exists_feed_closer (b : OpenBlock) {closer : Token}
    (hclose : closer.lexeme = .symbol .rightBrace) :
    ∃ m done', ProgramReader.feed d ⟨.start, done, b :: outer⟩ closer = .ok m ∧
      settled m = ⟨.start, done', outer⟩ := by
  have hfeed : ProgramReader.feed d ⟨.start, done, b :: outer⟩ closer =
      .ok (ProgramReader.closeBlock ⟨.start, done, b :: outer⟩ b outer closer.span) := by
    simp only [ProgramReader.feed, ProgramReader.stepStart, hclose]
  obtain ⟨brace, role, before⟩ := b
  cases role <;> exact ⟨_, _, hfeed, rfl⟩

/-- An opening and a closing brace, where a block may stand. -/
theorem completed_braces {r : ProgramReader} (role : BlockRole) {opener : Token}
    (hopen : r.feed d opener = .ok (r.openBlock opener.span role))
    (h : tokens.map (·.lexeme) = [.symbol .rightBrace]) :
    Completed r.outer ((opener :: tokens).foldlM (ProgramReader.feed d) r) := by
  obtain ⟨closer, rfl, hclose⟩ := List.map_eq_singleton_iff.mp h
  obtain ⟨m, done, hfeed, hm⟩ : ∃ m done, (r.openBlock opener.span role).feed d closer = .ok m ∧
      settled m = ⟨.start, done, r.outer⟩ :=
    exists_feed_closer ⟨opener.span, role, r.done⟩ hclose
  rw [foldlM_feed_cons hopen, foldlM_feed_cons hfeed]
  exact ⟨done, hm⟩

/-- A semicolon behind an expression, where one may stand. -/
theorem completed_semicolon {site : Site} {e : Expr} {ops : List PendingOp}
    (h : tokens.map (·.lexeme) = [.symbol .semicolon])
    (hsite : site.completion = [.symbol .semicolon]) :
    Completed outer (tokens.foldlM (ProgramReader.feed d)
      ⟨.expr site ⟨.after e, ops, []⟩, done, outer⟩) := by
  obtain ⟨semicolon, rfl, hsemicolon⟩ := List.map_eq_singleton_iff.mp h
  simp only [List.foldlM_cons, List.foldlM_nil, bind_pure]
  rw [feed_complete (by simp [EndsExpr, hsemicolon])]
  cases site with
  | assigned target =>
      simp only [ProgramReader.stepSite, hsemicolon]
      -- the target may turn out to be no variable, which is allowed for here
      exact completed_pushAssign _ _ _ _
  | assignTarget keyword value =>
      simp only [ProgramReader.stepSite, hsemicolon]
      exact completed_pushAssign _ _ _ _
  | assignValue keyword => cases hsite
  | ifCondition earlier keyword => cases hsite
  | loopCondition keyword => cases hsite
  | _ =>
      simp only [ProgramReader.stepSite, hsemicolon]
      exact ⟨_, rfl⟩

/-- A statement can be completed behind each of its expressions. -/
theorem completed_site {site : Site} {e : Expr} {ops : List PendingOp}
    (h : tokens.map (·.lexeme) = site.completion) :
    Completed outer (tokens.foldlM (ProgramReader.feed d)
      ⟨.expr site ⟨.after e, ops, []⟩, done, outer⟩) := by
  cases site with
  | assignValue keyword =>
      obtain ⟨toToken, rest, rfl, hto, hrest⟩ := List.map_eq_cons_iff.mp h
      obtain ⟨name, semicolons, rfl, hname, hsemicolon⟩ := List.map_eq_cons_iff.mp hrest
      -- `to`, a name and a semicolon: the name is read as the target
      have hfirst : ProgramReader.feed d
          ⟨.expr (.assignValue keyword) ⟨.after e, ops, []⟩, done, outer⟩ toToken =
          .ok ⟨.expr (.assignTarget keyword (PendingOp.fillAll e ops)) {}, done, outer⟩ := by
        rw [feed_complete (by simp [EndsExpr, hto])]
        simp only [ProgramReader.stepSite, hto]
        rfl
      have hsecond : ProgramReader.feed d
          ⟨.expr (.assignTarget keyword (PendingOp.fillAll e ops)) {}, done, outer⟩ name =
          .ok ⟨.expr (.assignTarget keyword (PendingOp.fillAll e ops))
            ⟨.after (.var name.span "x"), [], []⟩, done, outer⟩ := by
        simp only [ProgramReader.feed, ProgramReader.stepExpr, ExprReader.step,
          ExprReader.stepOperand, hname]
      rw [foldlM_feed_cons hfirst, foldlM_feed_cons hsecond]
      exact completed_semicolon hsemicolon rfl
  | ifCondition earlier keyword =>
      obtain ⟨opener, rest, rfl, hopen, hrest⟩ := List.map_eq_cons_iff.mp h
      refine completed_braces (.arm earlier keyword (PendingOp.fillAll e ops)) ?_ hrest
      rw [feed_complete (by simp [EndsExpr, hopen])]
      simp only [ProgramReader.stepSite, hopen]
  | loopCondition keyword =>
      obtain ⟨opener, rest, rfl, hopen, hrest⟩ := List.map_eq_cons_iff.mp h
      refine completed_braces (.loop keyword (PendingOp.fillAll e ops)) ?_ hrest
      rw [feed_complete (by simp [EndsExpr, hopen])]
      simp only [ProgramReader.stepSite, hopen]
  | _ => exact completed_semicolon h rfl

/-- A declaration can be completed behind its name. -/
theorem completed_declared {mode : Mode} {keyword : Span} {name : String}
    (hmode : mode = .varRest keyword name ∨ mode = .makeEnd keyword name)
    (h : tokens.map (·.lexeme) = [.symbol .semicolon]) :
    Completed outer (tokens.foldlM (ProgramReader.feed d) ⟨mode, done, outer⟩) := by
  obtain ⟨semicolon, rfl, hsemicolon⟩ := List.map_eq_singleton_iff.mp h
  simp only [List.foldlM_cons, List.foldlM_nil, bind_pure]
  rcases hmode with rfl | rfl
  · simp only [ProgramReader.feed, hsemicolon]
    exact ⟨_, rfl⟩
  · simp only [ProgramReader.feed, hsemicolon]
    exact ⟨_, rfl⟩

/-- A declaration can be completed in front of its name. -/
theorem completed_named {mode : Mode} {keyword : Span}
    (hmode : mode = .varName keyword ∨ mode = .makeName keyword)
    (h : tokens.map (·.lexeme) = [.identifier "x", .symbol .semicolon]) :
    Completed outer (tokens.foldlM (ProgramReader.feed d) ⟨mode, done, outer⟩) := by
  obtain ⟨name, rest, rfl, hname, hrest⟩ := List.map_eq_cons_iff.mp h
  rcases hmode with rfl | rfl
  · have hfeed : ProgramReader.feed d ⟨.varName keyword, done, outer⟩ name =
        .ok ⟨.varRest keyword "x", done, outer⟩ := by simp only [ProgramReader.feed, hname]
    rw [foldlM_feed_cons hfeed]
    exact completed_declared (.inl rfl) hrest
  · have hfeed : ProgramReader.feed d ⟨.makeName keyword, done, outer⟩ name =
        .ok ⟨.makeEnd keyword "x", done, outer⟩ := by simp only [ProgramReader.feed, hname]
    rw [foldlM_feed_cons hfeed]
    exact completed_declared (.inr rfl) hrest

/-- **A statement that has been read in part can be completed.** -/
theorem completed_mode {mode : Mode} (h : tokens.map (·.lexeme) = mode.completion) :
    Completed outer (tokens.foldlM (ProgramReader.feed d) ⟨mode, done, outer⟩) := by
  cases mode with
  | start =>
      obtain rfl := List.map_eq_nil_iff.mp h
      exact ⟨done, rfl⟩
  | afterArm chain =>
      obtain rfl := List.map_eq_nil_iff.mp h
      exact ⟨_, rfl⟩
  | expr site reader =>
      obtain ⟨front, rest, rfl, hfront, hrest⟩ := List.map_eq_append_iff.mp h
      obtain ⟨e, ops, hshifts⟩ := reader.exists_shifts_completion hfront
      -- first the expression is completed, then the statement around it
      rw [List.foldlM_append, foldlM_eq_ok_iff.mpr (Feeds.of_shifts hshifts)]
      exact completed_site hrest
  | afterElse chain =>
      obtain ⟨opener, rest, rfl, hopen, hrest⟩ := List.map_eq_cons_iff.mp h
      refine completed_braces (.otherwise chain) ?_ hrest
      simp only [ProgramReader.feed, hopen]
  | varName keyword => exact completed_named (.inl rfl) h
  | makeName keyword => exact completed_named (.inr rfl) h
  | varRest keyword name => exact completed_declared (.inl rfl) h
  | makeEnd keyword name => exact completed_declared (.inr rfl) h
  | makeVar keyword =>
      obtain ⟨varToken, rest, rfl, hvar, hrest⟩ := List.map_eq_cons_iff.mp h
      have hfeed : ProgramReader.feed d ⟨.makeVar keyword, done, outer⟩ varToken =
          .ok ⟨.makeName keyword, done, outer⟩ := by simp only [ProgramReader.feed, hvar]
      rw [foldlM_feed_cons hfeed]
      exact completed_named (.inr rfl) hrest

end Statement

/-! ## Programs are completed -/

section Program

variable {d : Dialect} {tokens : List Token} {r : ProgramReader}

/-- Every open block can be closed behind a statement. -/
theorem exists_closed_blocks {outer : List OpenBlock}
    (h : tokens.map (·.lexeme) = outer.map fun _ => .symbol .rightBrace)
    (hr : ∃ done, settled r = ⟨.start, done, outer⟩) :
    ∃ r' done, tokens.foldlM (ProgramReader.feed d) r = .ok r' ∧
      settled r' = ⟨.start, done, []⟩ := by
  induction outer generalizing tokens r with
  | nil =>
      obtain rfl := List.map_eq_nil_iff.mp h
      obtain ⟨done, hr⟩ := hr
      exact ⟨r, done, rfl, hr⟩
  | cons b outer ih =>
      obtain ⟨closer, rest, rfl, hclose, hrest⟩ := List.map_eq_cons_iff.mp h
      obtain ⟨done, hr⟩ := hr
      -- the brace ends a chain of arms as well, so the reader may be taken as settled
      have hfeed : r.feed d closer = ProgramReader.feed d ⟨.start, done, b :: outer⟩ closer := by
        rw [feed_settled (by simp [hclose]), hr]
      obtain ⟨m, done', hm, hsettled⟩ := exists_feed_closer b hclose
      rw [foldlM_feed_cons (hfeed.trans hm)]
      exact ih hrest ⟨done', hsettled⟩

/-- Whether reading succeeds, or is refused for nothing but an assignment to something that is no
variable. -/
def Acceptable : Except ParseError (List Stmt) → Prop
  | .ok _ => True
  | .error e => e.cause = .invalidTarget

/-- **Whatever a reader has read, there is a program that goes on from there.** -/
theorem acceptable_completion (h : tokens.map (·.lexeme) = r.completion) (endSpan : Span) :
    Acceptable (do
      let r ← tokens.foldlM (ProgramReader.feed d) r
      r.close.mapError (⟨·, endSpan⟩)) := by
  obtain ⟨front, rest, rfl, hfront, hrest⟩ := List.map_eq_append_iff.mp h
  have hmode : Completed r.outer (front.foldlM (ProgramReader.feed d) r) := completed_mode hfront
  rw [List.foldlM_append]
  cases hm : front.foldlM (ProgramReader.feed d) r with
  | error e =>
      rw [hm] at hmode
      exact hmode
  | ok m =>
      rw [hm] at hmode
      -- behind the statement only the open blocks are left
      obtain ⟨r', done, hr', hsettled⟩ := exists_closed_blocks hrest hmode
      have hclose : r'.close = .ok done := by
        rw [close_settled, hsettled]
        rfl
      show Acceptable (rest.foldlM (ProgramReader.feed d) m >>= _)
      rw [hr']
      show Acceptable (r'.close.mapError _)
      rw [hclose]
      trivial

end Program

/-! ## Where reading stops -/

section Stuck

variable {d : Dialect} {tokens : List Token} {endSpan : Span} {e : ParseError}

/-- A reader reports the very token that it cannot take, except for a wrong target. -/
theorem span_of_feed_error {r : ProgramReader} {token : Token} (h : r.feed d token = .error e)
    (hcause : e.cause ≠ .invalidTarget) : e.span = token.span := by
  -- only this complaint is about another place
  have hassign : ∀ (r : ProgramReader) span target value,
      r.pushAssign span target value = .error e → e.span = token.span := by
    intro r span target value h
    unfold ProgramReader.pushAssign at h
    split at h
    · cases h
    · cases h
      exact absurd rfl hcause
  have hexpr : ∀ (r : ProgramReader) site reader,
      r.stepExpr d site reader token = .error e → e.span = token.span := by
    intro r site reader h
    unfold ProgramReader.stepExpr at h
    split at h
    · cases h
    · unfold ProgramReader.stepSite at h
      repeat' split at h
      all_goals first
        | cases h; done
        | (cases h; rfl)
        | exact hassign _ _ _ _ h
    · cases h
      rfl
  have hstart : ∀ r : ProgramReader, r.stepStart d token = .error e → e.span = token.span := by
    intro r h
    unfold ProgramReader.stepStart ProgramReader.startForm at h
    repeat' split at h
    all_goals first
      | cases h; done
      | (cases h; rfl)
      | exact hexpr _ _ _ h
  unfold ProgramReader.feed at h
  split at h
  all_goals first
    | cases h; done
    | (cases h; rfl)
    | exact hexpr _ _ _ h
    | exact hstart _ h

/-- Reading fails at a token, or at the end of the text. -/
inductive Stuck (d : Dialect) (tokens : List Token) (endSpan : Span) (e : ParseError) : Prop where
  | token {front rest : List Token} {token : Token} {r : ProgramReader} :
      tokens = front ++ token :: rest → Feeds d {} front r → r.feed d token = .error e →
      Stuck d tokens endSpan e
  | atEnd {r : ProgramReader} :
      Feeds d {} tokens r → r.close = .error e.cause → e.span = endSpan → Stuck d tokens endSpan e

theorem foldlM_eq_error_iff {σ ε : Type} {f : σ → Token → Except ε σ} {r : σ} {err : ε} :
    tokens.foldlM f r = .error err ↔ ∃ front token rest m, tokens = front ++ token :: rest ∧
      Along (fun r token m => f r token = .ok m) r front m ∧ f m token = .error err := by
  constructor
  · intro h
    induction tokens generalizing r with
    | nil => cases h
    | cons token tokens ih =>
        rw [List.foldlM_cons] at h
        cases hstep : f r token with
        -- the first token already cannot be taken
        | error err' =>
            rw [hstep] at h
            cases h
            exact ⟨[], token, tokens, r, rfl, .nil, hstep⟩
        | ok m =>
            rw [hstep] at h
            obtain ⟨front, stuck, rest, m', rfl, hfront, hstuck⟩ := ih h
            exact ⟨token :: front, stuck, rest, m', rfl, .cons hstep hfront, hstuck⟩
  · rintro ⟨front, token, rest, m, rfl, hfront, hstuck⟩
    rw [List.foldlM_append, foldlM_eq_ok_iff.mpr hfront]
    show (token :: rest).foldlM f m = _
    rw [List.foldlM_cons, hstuck]
    rfl

/-- **Reading fails just where it is stuck.** -/
theorem read_eq_error_iff : ProgramReader.read d tokens endSpan = .error e ↔
    Stuck d tokens endSpan e := by
  constructor
  · intro h
    unfold ProgramReader.read at h
    cases hfold : tokens.foldlM (ProgramReader.feed d) {} with
    | error err =>
        rw [hfold] at h
        cases h
        obtain ⟨front, token, rest, m, rfl, hfront, hstuck⟩ := foldlM_eq_error_iff.mp hfold
        exact .token rfl hfront hstuck
    | ok r =>
        rw [hfold] at h
        replace h : r.close.mapError (⟨·, endSpan⟩) = .error e := h
        cases hclose : r.close with
        | ok program =>
            rw [hclose] at h
            cases h
        | error cause =>
            rw [hclose] at h
            cases h
            exact .atEnd (foldlM_eq_ok_iff.mp hfold) hclose rfl
  · intro h
    unfold ProgramReader.read
    cases h with
    | token htokens hfront hstuck =>
        rw [foldlM_eq_error_iff.mpr ⟨_, _, _, _, htokens, hfront, hstuck⟩]
        rfl
    | @atEnd r hfeeds hclose hspan =>
        rw [foldlM_eq_ok_iff.mpr hfeeds]
        show r.close.mapError _ = _
        rw [hclose, ← hspan]
        rfl

end Stuck

/-! ## Tokens and the end behind them -/

/-- Tokens with these lexemes, one behind the other from an offset on. -/
def layOut (first : Nat) : List Lexeme → List Token
  | [] => []
  | l :: ls => ⟨l, .ofLength first 1⟩ :: layOut (first + 1) ls

section LayOut

variable {first : Nat} {lexemes : List Lexeme}

theorem map_lexeme_layOut (first : Nat) (lexemes : List Lexeme) :
    (layOut first lexemes).map (·.lexeme) = lexemes := by
  induction lexemes generalizing first with
  | nil => rfl
  | cons l ls ih => rw [layOut, List.map_cons, ih]

theorem bounds_layOut {token : Token} (h : token ∈ layOut first lexemes) :
    first ≤ token.span.start ∧ token.span.stop ≤ first + lexemes.length := by
  induction lexemes generalizing first with
  | nil => cases h
  | cons l ls ih =>
      rw [List.length_cons]
      rcases List.mem_cons.mp h with rfl | h
      · simp only [Span.start_ofLength, Span.stop_ofLength]
        omega
      · have := ih h
        omega

theorem ordered_layOut (first : Nat) (lexemes : List Lexeme) : Ordered (layOut first lexemes) := by
  induction lexemes generalizing first with
  | nil => exact List.Pairwise.nil
  | cons l ls ih => exact List.pairwise_cons.mpr ⟨fun b hb => (bounds_layOut hb).1, ih _⟩

end LayOut

namespace Descent

/-- The shape that the tokens of a text have: they stand in order, with the end of the text behind
them. -/
structure Input.Shaped (input : Input) : Prop where
  ordered : Ordered input.tokens
  before_end : ∀ token ∈ input.tokens, token.span.stop ≤ input.endSpan.start

/-- Lexemes may be put in the place of the end. -/
theorem Input.Shaped.extend {file : Nat} {front rest : List Token} {endSpan : Span}
    (h : Shaped ⟨file, front ++ rest, endSpan⟩) (lexemes : List Lexeme) :
    Shaped ⟨file, front ++ layOut endSpan.start lexemes,
      .ofLength (endSpan.start + lexemes.length) 0⟩ where
  ordered := by
    refine List.pairwise_append.mpr ⟨h.ordered.left, ordered_layOut _ _, fun a ha b hb => ?_⟩
    have hstop := h.before_end a (List.mem_append_left _ ha)
    have hstart := (bounds_layOut hb).1
    exact Nat.le_trans hstop hstart
  before_end token htoken := by
    rw [Span.start_ofLength]
    rcases List.mem_append.mp htoken with hfront | hmore
    · exact Nat.le_add_right_of_le (h.before_end token (List.mem_append_left _ hfront))
    · exact (bounds_layOut hmore).2

/-- The entry for a token. -/
def Entry.ofToken (file : Nat) (token : Token) : Entry := ⟨some token.lexeme, ⟨file, token.span⟩⟩

/-- The entry for the end of the text. -/
def Entry.atEnd (file : Nat) (endSpan : Span) : Entry := ⟨none, ⟨file, endSpan⟩⟩

theorem Entry.ofToken_inj {file file' : Nat} {a b : Token} :
    ofToken file a = ofToken file' b ↔ file = file' ∧ a = b := by
  obtain ⟨lexeme, span⟩ := a
  obtain ⟨lexeme', span'⟩ := b
  simp only [ofToken, mk.injEq, Option.some.injEq, Region.mk.injEq, Token.mk.injEq]
  exact and_left_comm

theorem Input.entries_eq (input : Input) : input.entries =
    input.tokens.map (Entry.ofToken input.file) ++ [Entry.atEnd input.file input.endSpan] :=
  rfl

/-- Entries that begin with those of some tokens are the entries of these tokens and
of what follows them. -/
theorem exists_tokens_behind {file file' : Nat} {front tokens : List Token} {endSpan : Span}
    {entry : Entry} {rest : List Entry}
    (h : Input.entries ⟨file', tokens, endSpan⟩ =
      front.map (Entry.ofToken file) ++ entry :: rest) :
    ∃ more, tokens = front ++ more ∧ Input.entries ⟨file', more, endSpan⟩ = entry :: rest := by
  induction front generalizing tokens with
  | nil => exact ⟨tokens, rfl, h⟩
  | cons first front ih =>
      cases tokens with
      -- the end of the text is no token
      | nil => cases (List.cons_eq_cons.mp h).1
      | cons token tokens =>
          obtain ⟨hhead, htail⟩ := List.cons_eq_cons.mp h
          obtain ⟨_, rfl⟩ := Entry.ofToken_inj.mp hhead
          obtain ⟨more, hmore, hentries⟩ := @ih tokens htail
          exact ⟨more, congrArg (token :: ·) hmore, hentries⟩

/-- A token that the entries have behind some tokens. -/
theorem exists_tokens_of_token {input : Input} {file : Nat} {front : List Token} {token : Token}
    {rest : List Entry}
    (h : input.entries = front.map (Entry.ofToken file) ++ Entry.ofToken file token :: rest) :
    ∃ more, input.tokens = front ++ token :: more := by
  obtain ⟨more, htokens, hmore⟩ := exists_tokens_behind h
  cases more with
  | nil => cases (List.cons_eq_cons.mp hmore).1
  | cons token' more =>
      obtain ⟨_, rfl⟩ := Entry.ofToken_inj.mp (List.cons_eq_cons.mp hmore).1
      exact ⟨more, htokens⟩

/-- The end that the entries have behind some tokens. -/
theorem tokens_of_atEnd {input : Input} {file : Nat} {front : List Token} {endSpan : Span}
    {rest : List Entry}
    (h : input.entries = front.map (Entry.ofToken file) ++ Entry.atEnd file endSpan :: rest) :
    input.tokens = front ∧ input.endSpan = endSpan := by
  obtain ⟨more, htokens, hmore⟩ := exists_tokens_behind h
  cases more with
  | nil =>
      cases (List.cons_eq_cons.mp hmore).1
      exact ⟨htokens.trans (List.append_nil front), rfl⟩
  | cons token' more => cases (List.cons_eq_cons.mp hmore).1

end Descent

/-- The tokens of a text have that shape. -/
theorem Source.shaped_tokens {s : Source} {tokens : List Token} (file : Nat)
    (h : s.tokens = .ok tokens) : Descent.Input.Shaped ⟨file, tokens, s.endSpan⟩ := by
  have haccount : Account ([] ++ s.text.toList) 0 s.scan := (Cursor.start s.text).account_scan rfl
  rw [Source.mapM_id_eq_ok_iff.mp h] at haccount
  refine ⟨List.pairwise_map.mp haccount.ordered, fun token htoken => ?_⟩
  obtain ⟨_, _, hstop⟩ := haccount.placed (.ok token) (List.mem_map_of_mem htoken)
  rwa [List.nil_append, String.length_toList] at hstop

/-! ## The first entry that cannot be continued -/

namespace Descent

section Continued

variable {d : Dialect} {input : Input} {e : ParseError}

/-- Whether the entry at an index is one that an error blames, as the first one that does not go on
with a program. -/
structure Blames (d : Dialect) (input : Input) (e : ParseError) (k : Nat) : Prop where
  /-- It is the place of the error. -/
  place : ∃ entry, input.entries[k]? = some entry ∧ entry.region.span = e.span
  /-- With the entries up to it there is always this error. -/
  always : ∀ other : Input, other.entries.take (k + 1) = input.entries.take (k + 1) →
    ProgramReader.read d other.tokens other.endSpan = .error e
  /-- The entries in front of it can be continued. -/
  viable : ∃ other : Input, other.Shaped ∧ other.entries.take k = input.entries.take k ∧
    Acceptable (ProgramReader.read d other.tokens other.endSpan)

/-- The tokens that a reader has taken can be continued. -/
theorem exists_viable (hshape : input.Shaped) {front rest : List Token} {r : ProgramReader}
    (htokens : input.tokens = front ++ rest) (hfeeds : Feeds d {} front r) :
    ∃ other : Input, other.Shaped ∧
      other.entries.take front.length = input.entries.take front.length ∧
      Acceptable (ProgramReader.read d other.tokens other.endSpan) := by
  obtain ⟨file, tokens, endSpan⟩ := input
  subst htokens
  -- what completes the program is put where the text ended
  refine ⟨_, hshape.extend r.completion, ?_, ?_⟩
  · simp only [Input.entries_eq, List.map_append, List.append_assoc]
    have hlength : (front.map (Entry.ofToken file)).length = front.length := List.length_map _
    rw [List.take_left' hlength, List.take_left' hlength]
  · rw [ProgramReader.read, List.foldlM_append, foldlM_eq_ok_iff.mpr hfeeds]
    exact acceptable_completion (map_lexeme_layOut _ _) _

/-- An error blames the entry behind the tokens that were taken, if no other entries with these
beginnings get around it. -/
theorem blames_of_entries (hshape : input.Shaped) {front rest : List Token} {r : ProgramReader}
    {entry : Entry} {behind : List Entry} (htokens : input.tokens = front ++ rest)
    (hentries : input.entries = front.map (Entry.ofToken input.file) ++ entry :: behind)
    (hfeeds : Feeds d {} front r) (hspan : entry.region.span = e.span)
    (halways : ∀ (other : Input) (behind : List Entry),
      other.entries = front.map (Entry.ofToken input.file) ++ entry :: behind →
      ProgramReader.read d other.tokens other.endSpan = .error e) :
    Blames d input e front.length where
  place := by
    have hlength : (front.map (Entry.ofToken input.file)).length ≤ front.length :=
      Nat.le_of_eq (List.length_map _)
    refine ⟨entry, ?_, hspan⟩
    rw [hentries, List.getElem?_append_right hlength, List.length_map, Nat.sub_self]
    rfl
  always other hother := by
    have htake : input.entries.take (front.length + 1) =
        front.map (Entry.ofToken input.file) ++ [entry] := by
      rw [hentries, List.append_cons]
      exact List.take_left' (by rw [List.length_append, List.length_map]; rfl)
    refine halways other (other.entries.drop (front.length + 1)) ?_
    rw [List.append_cons, ← htake, ← hother, List.take_append_drop]
  viable := exists_viable hshape htokens hfeeds

/-- Where reading is stuck, the entry that it is stuck at is to blame. -/
theorem blames_of_stuck (hshape : input.Shaped) (h : Stuck d input.tokens input.endSpan e)
    (hcause : e.cause ≠ .invalidTarget) : ∃ k, Blames d input e k := by
  cases h with
  | @token front rest token r htokens hfeeds hstuck =>
      have hentries : input.entries = front.map (Entry.ofToken input.file) ++
          Entry.ofToken input.file token ::
            (rest.map (Entry.ofToken input.file) ++ [Entry.atEnd input.file input.endSpan]) := by
        rw [Input.entries_eq, htokens, List.map_append, List.append_assoc]
        rfl
      have hspan : token.span = e.span := (span_of_feed_error hstuck hcause).symm
      refine ⟨_, blames_of_entries hshape htokens hentries hfeeds hspan
        fun other behind hother => ?_⟩
      -- whatever follows, the reader comes to the same token in the same way
      obtain ⟨more, hmore⟩ := exists_tokens_of_token hother
      exact read_eq_error_iff.mpr (.token hmore hfeeds hstuck)
  | @atEnd r hfeeds hclose hspan =>
      refine ⟨_, blames_of_entries hshape (List.append_nil _).symm input.entries_eq hfeeds
        hspan.symm fun other behind hother => ?_⟩
      obtain ⟨hsame, hend⟩ := tokens_of_atEnd hother
      rw [hsame, hend]
      exact read_eq_error_iff.mpr (.atEnd hfeeds hclose hspan)

/-- **An error is reported at the first entry that no program has there.** With the entries up to
it the error is always the same one, and those in front of it are the beginning of a program, or
of what would be one if every assignment had a variable for its target. -/
theorem exists_blames (hshape : input.Shaped)
    (h : ProgramReader.read d input.tokens input.endSpan = .error e)
    (hcause : e.cause ≠ .invalidTarget) : ∃ k, Blames d input e k :=
  blames_of_stuck hshape (read_eq_error_iff.mp h) hcause

end Continued

/-- The tokens of the text `{ assign f(1, }`, which breaks off in an argument list. -/
def brokenOff : Input where
  file := 0
  tokens :=
    [⟨.symbol .leftBrace, .ofLength 0 1⟩, ⟨.keyword .assign, .ofLength 2 6⟩,
     ⟨.identifier "f", .ofLength 9 1⟩, ⟨.symbol .leftParen, .ofLength 10 1⟩,
     ⟨.int 1, .ofLength 11 1⟩, ⟨.symbol .comma, .ofLength 12 1⟩,
     ⟨.symbol .rightBrace, .ofLength 14 1⟩]
  endSpan := .ofLength 15 0

/-- The brace is to blame; what stands in front of it only lacks an argument, a target and the
ends of the list, the statement and the block. -/
theorem exists_blames_brokenOff :
    ∃ k, Blames { assign := .keyword } brokenOff ⟨.expectedExpression, .ofLength 14 1⟩ k := by
  have hshape : brokenOff.Shaped := by
    refine ⟨?_, by decide⟩
    unfold Ordered
    decide
  exact exists_blames hshape rfl (by decide)

end Descent

end Stepwise
