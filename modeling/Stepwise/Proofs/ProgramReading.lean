import Stepwise.Proofs.ExprReading

/-!
# Reading programs by the grammar

The reader of programs keeps the open blocks and the statement at hand. As for expressions, there
are two directions:

* `Clause.Is.adds`: the tokens of a statement, read where a statement may start, leave the reader
  with that statement added. An `if` is the exception: until the next token is there, an `else` may
  still follow it, so the statement is there only once the chain is `settled`;
* `ProgramRead` says which tokens a reader has taken, as derivations of the statements, blocks and
  arms that it holds. Every token keeps it (`ProgramRead.feed`).
-/

namespace Stepwise.Grammar

/-- All of the tokens may be read in turn. -/
abbrev Feeds (d : Dialect) : ProgramReader → List Token → ProgramReader → Prop :=
  Along fun r token m => r.feed d token = .ok m

/-! ## Every clause is read -/

/-- The reader once it is clear that no further arm follows. -/
def settled (r : ProgramReader) : ProgramReader :=
  match r.mode with
  | .afterArm chain => r.push (chain.close none)
  | _ => r

theorem settled_settled (r : ProgramReader) : settled (settled r) = settled r := by
  obtain ⟨mode, done, outer⟩ := r
  cases mode <;> rfl

/-- Only an `else` goes on with a chain. -/
theorem feed_settled {d : Dialect} {r : ProgramReader} {token : Token}
    (h : token.lexeme ≠ .keyword .else) : r.feed d token = (settled r).feed d token := by
  obtain ⟨mode, done, outer⟩ := r
  cases mode with
  | afterArm chain =>
      show ProgramReader.feed d ⟨.afterArm chain, done, outer⟩ token =
        ProgramReader.stepStart d ⟨.start, done ++ [chain.close none], outer⟩ token
      simp only [ProgramReader.feed]
      rfl
  | _ => rfl

theorem close_settled (r : ProgramReader) : r.close = (settled r).close := by
  obtain ⟨mode, done, outer⟩ := r
  cases mode <;> rfl

theorem Feeds.of_settled {d : Dialect} {r r' : ProgramReader} {tokens : List Token}
    (hhead : ∀ token ∈ tokens.head?, token.lexeme ≠ .keyword .else)
    (h : Feeds d (settled r) tokens r') :
    ∃ r'', Feeds d r tokens r'' ∧ settled r'' = settled r' := by
  cases h with
  | nil => exact ⟨r, .nil, (settled_settled r).symm⟩
  | @cons _ m _ token tokens hstep h =>
      refine ⟨r', .cons ?_ h, rfl⟩
      rw [feed_settled (hhead token rfl)]
      exact hstep

/-- Reading an expression is all that happens until the expression is complete. -/
theorem Feeds.of_shifts {d : Dialect} {site : Site} {done : List Stmt} {outer : List OpenBlock}
    {reader reader' : ExprReader} {tokens : List Token} (h : Shifts reader tokens reader') :
    Feeds d ⟨.expr site reader, done, outer⟩ tokens ⟨.expr site reader', done, outer⟩ := by
  induction h with
  | nil => exact .nil
  | cons hstep _ ih =>
      refine .cons ?_ ih
      -- the statement around the expression only passes the token on
      simp only [ProgramReader.feed, ProgramReader.stepExpr, hstep]

/-- An expression in a statement, with the token behind it. -/
theorem Phrase.Is.feeds {d : Dialect} {p : Phrase} (hp : p.Is 0) {site : Site} {done : List Stmt}
    {outer : List OpenBlock} {token : Token} {m : ProgramReader} (hends : EndsExpr token.lexeme)
    (hsite : ProgramReader.stepSite d ⟨.start, done, outer⟩ site p.built token = .ok m) :
    Feeds d ⟨.expr site {}, done, outer⟩ (p.tokens ++ [token]) m := by
  obtain ⟨reader, hshifts, _, hdone⟩ := hp.reads
  refine (Feeds.of_shifts hshifts).append (.one ?_)
  simp only [ProgramReader.feed, ProgramReader.stepExpr, hdone token hends]
  exact hsite

/-- The step of a token is that of its lexeme, at its place. -/
theorem feed_of_lexeme {d : Dialect} {r m : ProgramReader} {token : Token} {l : Lexeme}
    (hl : token.lexeme = l) (h : r.feed d ⟨l, token.span⟩ = .ok m) : r.feed d token = .ok m := by
  subst hl
  exact h

/-- A value is read up to the semicolon behind it, with which the statement is complete. -/
theorem Phrase.Is.feeds_to_semicolon {d : Dialect} {value : Phrase} (hvalue : value.Is 0)
    {semicolon : Token} (hsemicolon : semicolon.lexeme = .symbol .semicolon) {site : Site}
    {done : List Stmt} {outer : List OpenBlock} {s : Stmt}
    (hsite : ProgramReader.stepSite d ⟨.start, done, outer⟩ site value.built
      ⟨.symbol .semicolon, semicolon.span⟩ = .ok ⟨.start, done ++ [s], outer⟩) :
    Feeds d ⟨.expr site {}, done, outer⟩ (value.tokens ++ [semicolon])
      ⟨.start, done ++ [s], outer⟩ := by
  obtain ⟨lexeme, span⟩ := semicolon
  cases hsemicolon
  exact hvalue.feeds (.inl rfl) hsite

/-- A statement that starts like an expression is read like one. -/
theorem feed_start {d : Dialect} {done : List Stmt} {outer : List OpenBlock} {token : Token}
    (h : StartsExpr token.lexeme) :
    ProgramReader.feed d ⟨.start, done, outer⟩ token =
      ProgramReader.feed d ⟨.expr .statement {}, done, outer⟩ token := by
  simp only [ProgramReader.feed, ProgramReader.stepStart]
  split
  -- all cases but the last one start a statement of another form
  all_goals first | rfl | skip
  all_goals
    rename_i heq
    rw [heq] at h
    first | exact h.elim | (rcases h with h | h | h <;> cases h)

theorem Feeds.start {d : Dialect} {done : List Stmt} {outer : List OpenBlock} {token : Token}
    {tokens : List Token} {r' : ProgramReader} (hstart : StartsExpr token.lexeme)
    (h : Feeds d ⟨.expr .statement {}, done, outer⟩ (token :: tokens) r') :
    Feeds d ⟨.start, done, outer⟩ (token :: tokens) r' := by
  cases h with
  | cons hstep h =>
      refine .cons ?_ h
      rw [feed_start hstart]
      exact hstep

theorem Clause.Is.head_ne_else {d : Dialect} {c : Clause} (h : c.Is d) :
    c.head.lexeme ≠ .keyword .else := by
  cases h with
  | block hopen _ _ => simp [Clause.head, hopen]
  | branch hif _ _ _ => simp [Clause.head, hif]
  | branchElse hif _ _ _ _ _ _ => simp [Clause.head, hif]
  | loop hwhile _ _ _ => simp [Clause.head, hwhile]
  | print hprint _ _ => simp [Clause.head, hprint]
  | var _ hvar _ _ => simp [Clause.head, hvar]
  | varWith _ hvar _ _ _ _ => simp [Clause.head, hvar]
  | makeVar _ hmake _ _ _ => simp [Clause.head, hmake]
  | assignTo _ hassign _ _ _ _ => simp [Clause.head, hassign]
  | assign _ hname _ _ _ => simp [Clause.head, hname]
  | expr hvalue _ =>
      intro helse
      have hstart := hvalue.startsExpr
      rw [Clause.head] at helse
      rw [helse] at hstart
      exact hstart

theorem Clause.IsBlock.exists_eq {c : Clause} (h : c.IsBlock) :
    ∃ opener body closer, c = .block opener body closer := by
  cases c with
  | block opener body closer => exact ⟨opener, body, closer, rfl⟩
  | _ => exact h.elim

/-- A statement as what is done instead of a chain of arms, the latest first. -/
def nest (arms : List Arm) (s : Stmt) : Stmt := arms.foldl (fun s arm => arm.toStmt (some s)) s

/-- Where a statement may be read: at the start of one, or behind the `else` of a chain. -/
inductive Awaits (c : Clause) : Mode → List Arm → Prop where
  | start : Awaits c .start []
  | afterElse (chain : Chain) : c.IsElse → Awaits c (.afterElse chain) chain.arms

/-- The tokens of a statement add it to the statements that have been read. -/
def Adds (d : Dialect) (c : Clause) : Prop :=
  ∀ mode arms done outer, Awaits c mode arms →
    ∃ r', Feeds d ⟨mode, done, outer⟩ c.tokens r' ∧
      settled r' = ⟨.start, done ++ [nest arms c.built], outer⟩

/-- The tokens of a list of statements add them all. -/
def AddsAll (d : Dialect) (clauses : List Clause) : Prop :=
  ∀ done outer, ∃ r', Feeds d ⟨.start, done, outer⟩ (Clause.tokensAll clauses) r' ∧
    settled r' = ⟨.start, done ++ Clause.builtAll clauses, outer⟩

theorem addsAll_of_adds {d : Dialect} {clauses : List Clause} (his : ∀ c ∈ clauses, c.Is d)
    (hadds : ∀ c ∈ clauses, Adds d c) : AddsAll d clauses := by
  induction clauses with
  | nil =>
      intro done outer
      exact ⟨_, .nil, by rw [Clause.builtAll, List.append_nil]; rfl⟩
  | cons c rest ih =>
      intro done outer
      obtain ⟨m, hfirst, hm⟩ := hadds c List.mem_cons_self _ _ done outer .start
      obtain ⟨r', hrest, hr'⟩ := ih (fun c hc => his c (List.mem_cons_of_mem _ hc))
        (fun c hc => hadds c (List.mem_cons_of_mem _ hc)) (done ++ [c.built]) outer
      -- No statement starts with `else`, so the first one is over when the next one starts.
      have hhead : ∀ token ∈ (Clause.tokensAll rest).head?, token.lexeme ≠ .keyword .else := by
        intro token htoken
        cases rest with
        | nil => cases htoken
        | cons c' rest =>
            obtain ⟨tail, htail⟩ := c'.exists_tokens_eq_head_cons
            rw [Clause.tokensAll, htail] at htoken
            cases htoken
            exact (his c' (by simp)).head_ne_else
      replace hm : settled m = ⟨.start, done ++ [c.built], outer⟩ := hm
      rw [← hm] at hrest
      obtain ⟨r'', hrest, hr''⟩ := Feeds.of_settled hhead hrest
      refine ⟨r'', hfirst.append hrest, ?_⟩
      rw [hr'', hr', Clause.builtAll, List.append_assoc]
      rfl

/-- A block is read to its closing brace, whatever it is part of. -/
theorem AddsAll.closes {d : Dialect} {body : List Clause} (hbody : AddsAll d body) {closer : Token}
    (hclose : closer.lexeme = .symbol .rightBrace) (b : OpenBlock) (outer : List OpenBlock) :
    Feeds d ⟨.start, [], b :: outer⟩ (Clause.tokensAll body ++ [closer])
      (ProgramReader.closeBlock ⟨.start, Clause.builtAll body, b :: outer⟩ b outer
        closer.span) := by
  obtain ⟨m, hfeeds, hm⟩ := hbody [] (b :: outer)
  refine hfeeds.append (.one ?_)
  rw [feed_settled (by rw [hclose]; exact nofun), hm]
  simp only [ProgramReader.feed, ProgramReader.stepStart, hclose, List.nil_append]

/-- A condition is read up to the brace behind it, and then the block to its end. -/
theorem Phrase.Is.feeds_guarded {d : Dialect} {condition : Phrase} (hcondition : condition.Is 0)
    {opener closer : Token} {body : List Clause} {site : Site} (role : BlockRole)
    {done : List Stmt} {outer : List OpenBlock} (hopen : opener.lexeme = .symbol .leftBrace)
    (hbody : AddsAll d body) (hclose : closer.lexeme = .symbol .rightBrace)
    (hsite : ProgramReader.stepSite d ⟨.start, done, outer⟩ site condition.built
      ⟨.symbol .leftBrace, opener.span⟩ =
        .ok (ProgramReader.openBlock ⟨.start, done, outer⟩ opener.span role)) :
    Feeds d ⟨.expr site {}, done, outer⟩
      (condition.tokens ++ (Clause.block opener body closer).tokens)
      (ProgramReader.closeBlock
        ⟨.start, Clause.builtAll body, ⟨opener.span, role, done⟩ :: outer⟩
        ⟨opener.span, role, done⟩ outer closer.span) := by
  rw [Clause.tokens, List.append_cons]
  refine Along.append ?_ (hbody.closes hclose ⟨opener.span, role, done⟩ outer)
  obtain ⟨lexeme, span⟩ := opener
  cases hopen
  exact hcondition.feeds (.inr (.inr (.inl rfl))) hsite

theorem Adds.of_start {d : Dialect} {c : Clause} (hc : ¬c.IsElse)
    (h : ∀ done outer, Feeds d ⟨.start, done, outer⟩ c.tokens ⟨.start, done ++ [c.built], outer⟩) :
    Adds d c := by
  intro mode arms done outer hawaits
  cases hawaits with
  | start => exact ⟨_, h done outer, rfl⟩
  | afterElse chain helse => exact absurd helse hc

/-- The token `if` opens an arm, behind the arms before it. -/
theorem Awaits.feed_if {d : Dialect} {c : Clause} {mode : Mode} {arms : List Arm} {keyword : Token}
    (h : Awaits c mode arms) (hif : keyword.lexeme = .keyword .if) (done : List Stmt)
    (outer : List OpenBlock) :
    ProgramReader.feed d ⟨mode, done, outer⟩ keyword =
      .ok ⟨.expr (.ifCondition arms keyword.span) {}, done, outer⟩ := by
  cases h <;> simp only [ProgramReader.feed, ProgramReader.stepStart, hif] <;> rfl

/-- An arm is read to its end, behind the arms before it. -/
theorem Awaits.feeds_arm {d : Dialect} {c : Clause} {mode : Mode} {arms : List Arm}
    {keyword opener closer : Token} {condition : Phrase} {body : List Clause}
    (h : Awaits c mode arms) (hif : keyword.lexeme = .keyword .if) (hcondition : condition.Is 0)
    (hopen : opener.lexeme = .symbol .leftBrace) (hbody : AddsAll d body)
    (hclose : closer.lexeme = .symbol .rightBrace) (done : List Stmt) (outer : List OpenBlock) :
    Feeds d ⟨mode, done, outer⟩
      (keyword :: (condition.tokens ++ (Clause.block opener body closer).tokens))
      ⟨.afterArm ⟨⟨keyword.span, condition.built, (Clause.block opener body closer).built⟩, arms⟩,
        done, outer⟩ := by
  exact .cons (h.feed_if hif done outer)
    (hcondition.feeds_guarded (.arm arms keyword.span condition.built) hopen hbody hclose rfl)

/-- **A statement is read to its end.** -/
theorem Clause.Is.adds {d : Dialect} {c : Clause} (h : c.Is d) :
    Adds d c ∧ ∀ opener body closer, c = .block opener body closer → AddsAll d body := by
  induction h with
  | @block opener closer body hopen his hclose ih =>
      have hbody : AddsAll d body := addsAll_of_adds his fun c hc => (ih c hc).1
      refine ⟨?_, fun _ _ _ heq => by cases heq; exact hbody⟩
      intro mode arms done outer hawaits
      -- what a block is part of is kept with it until it is closed
      cases hawaits with
      | start =>
          exact ⟨_, .cons (feed_of_lexeme hopen rfl)
            (hbody.closes hclose ⟨opener.span, .plain, done⟩ outer), rfl⟩
      | afterElse chain =>
          exact ⟨_, .cons (feed_of_lexeme hopen rfl)
            (hbody.closes hclose ⟨opener.span, .otherwise chain, done⟩ outer), rfl⟩
  | @branch keyword condition yes hif hcondition hyes hblock ih =>
      refine ⟨?_, by rintro _ _ _ ⟨⟩⟩
      obtain ⟨opener, body, closer, rfl⟩ := hblock.exists_eq
      intro mode arms done outer hawaits
      cases hyes with
      | block hopen _ hclose =>
          exact ⟨_, hawaits.feeds_arm hif hcondition hopen (ih.2 _ _ _ rfl) hclose done outer, rfl⟩
  | @branchElse keyword otherwise condition yes no hif hcondition hyes hblock helse hno hnoElse ih
      ihno =>
      refine ⟨?_, by rintro _ _ _ ⟨⟩⟩
      obtain ⟨opener, body, closer, rfl⟩ := hblock.exists_eq
      intro mode arms done outer hawaits
      cases hyes with
      | block hopen _ hclose =>
          have harm := hawaits.feeds_arm hif hcondition hopen (ih.2 _ _ _ rfl) hclose done outer
          -- what follows `else` is read behind one more arm
          obtain ⟨r', hno, hr'⟩ := ihno.1 _ _ done outer (.afterElse
            ⟨⟨keyword.span, condition.built, (Clause.block opener body closer).built⟩, arms⟩
            hnoElse)
          exact ⟨r', harm.append (.cons (feed_of_lexeme helse rfl) hno), hr'⟩
  | @loop keyword condition body hwhile hcondition hbody hblock ih =>
      refine ⟨.of_start nofun ?_, by rintro _ _ _ ⟨⟩⟩
      obtain ⟨opener, body, closer, rfl⟩ := hblock.exists_eq
      intro done outer
      cases hbody with
      | block hopen _ hclose =>
          exact .cons (feed_of_lexeme hwhile rfl)
            (hcondition.feeds_guarded (.loop keyword.span condition.built) hopen (ih.2 _ _ _ rfl)
              hclose rfl)
  | print hprint hvalue hsemicolon =>
      refine ⟨.of_start nofun fun done outer => ?_, by rintro _ _ _ ⟨⟩⟩
      exact .cons (feed_of_lexeme hprint rfl) (hvalue.feeds_to_semicolon hsemicolon rfl)
  | var hallows hvar hname hsemicolon =>
      refine ⟨.of_start nofun fun done outer => ?_, by rintro _ _ _ ⟨⟩⟩
      exact .cons (feed_of_lexeme hvar (if_pos hallows)) (.cons (feed_of_lexeme hname rfl)
        (.one (feed_of_lexeme hsemicolon rfl)))
  | varWith hallows hvar hname hequal hvalue hsemicolon =>
      refine ⟨.of_start nofun fun done outer => ?_, by rintro _ _ _ ⟨⟩⟩
      exact .cons (feed_of_lexeme hvar (if_pos hallows)) (.cons (feed_of_lexeme hname rfl)
        (.cons (feed_of_lexeme hequal rfl) (hvalue.feeds_to_semicolon hsemicolon rfl)))
  | makeVar hallows hmake hvar hname hsemicolon =>
      refine ⟨.of_start nofun fun done outer => ?_, by rintro _ _ _ ⟨⟩⟩
      exact .cons (feed_of_lexeme hmake (if_pos hallows)) (.cons (feed_of_lexeme hvar rfl)
        (.cons (feed_of_lexeme hname rfl) (.one (feed_of_lexeme hsemicolon rfl))))
  | @assignTo keyword toToken nameToken semicolon name value hallows hassign hvalue hto hname
      hsemicolon =>
      refine ⟨.of_start nofun fun done outer => ?_, by rintro _ _ _ ⟨⟩⟩
      have htarget : Phrase.Is 0 (.var nameToken name) := (Phrase.Is.var hname).mono (by omega)
      refine .cons (feed_of_lexeme hassign (if_pos hallows)) ?_
      rw [List.append_cons]
      refine Along.append
        (m := ⟨.expr (.assignTarget keyword.span value.built) {}, done, outer⟩) ?_
        (htarget.feeds_to_semicolon hsemicolon rfl)
      refine hvalue.feeds (by simp [EndsExpr, hto]) ?_
      simp only [ProgramReader.stepSite, hto]
      rfl
  | @assign nameToken equal semicolon name value hallows hname hequal hvalue hsemicolon =>
      refine ⟨.of_start nofun fun done outer => ?_, by rintro _ _ _ ⟨⟩⟩
      -- the target is read as an expression: only the `=` behind it shows that it is none
      have htarget : Phrase.Is 0 (.var nameToken name) := (Phrase.Is.var hname).mono (by omega)
      refine .start htarget.startsExpr ?_
      show Feeds d _ ([nameToken, equal] ++ (value.tokens ++ [semicolon])) _
      refine Along.append (m := ⟨.expr (.assigned (.var nameToken.span name)) {}, done, outer⟩) ?_
        (hvalue.feeds_to_semicolon hsemicolon rfl)
      refine htarget.feeds (by simp [EndsExpr, hequal]) ?_
      simp only [ProgramReader.stepSite, hequal, hallows, if_true]
      rfl
  | @expr value semicolon hvalue hsemicolon =>
      refine ⟨.of_start nofun fun done outer => ?_, by rintro _ _ _ ⟨⟩⟩
      obtain ⟨rest, hrest⟩ := value.exists_tokens_eq_head_cons
      have hfeeds : Feeds d ⟨.expr .statement {}, done, outer⟩ (value.tokens ++ [semicolon])
          ⟨.start, done ++ [(Clause.expr value semicolon).built], outer⟩ :=
        hvalue.feeds_to_semicolon hsemicolon rfl
      rw [Clause.tokens]
      rw [hrest, List.cons_append] at hfeeds ⊢
      exact .start hvalue.startsExpr hfeeds

/-! ## Whatever is read is a list of clauses -/

/-- Tokens of the arms before the current one, the latest first, each with the `else` behind it. -/
inductive ArmsRead (d : Dialect) : List Token → List Arm → Prop where
  | nil : ArmsRead d [] []
  | cons {tokens : List Token} {arms : List Arm} {keyword otherwise : Token} {condition : Phrase}
      {body : Clause} :
      ArmsRead d tokens arms → keyword.lexeme = .keyword .if → condition.Is 0 → body.Is d →
      body.IsBlock → otherwise.lexeme = .keyword .else →
      ArmsRead d (tokens ++ keyword :: (condition.tokens ++ body.tokens ++ [otherwise]))
        (⟨keyword.span, condition.built, body.built⟩ :: arms)

/-- Tokens between the statements before a block and its opening brace. -/
inductive RoleRead (d : Dialect) : List Token → BlockRole → Prop where
  | plain : RoleRead d [] .plain
  | arm {tokens : List Token} {arms : List Arm} {keyword : Token} {condition : Phrase} :
      ArmsRead d tokens arms → keyword.lexeme = .keyword .if → condition.Is 0 →
      RoleRead d (tokens ++ keyword :: condition.tokens) (.arm arms keyword.span condition.built)
  | otherwise {tokens : List Token} {chain : Chain} :
      ArmsRead d tokens chain.arms → RoleRead d tokens (.otherwise chain)
  | loop {keyword : Token} {condition : Phrase} :
      keyword.lexeme = .keyword .while → condition.Is 0 →
      RoleRead d (keyword :: condition.tokens) (.loop keyword.span condition.built)

/-- Tokens up to the start of the innermost list of statements, with these blocks open. -/
inductive BlocksRead (d : Dialect) : List Token → List OpenBlock → Prop where
  | nil : BlocksRead d [] []
  | cons {before tokens : List Token} {outer : List OpenBlock} {clauses : List Clause}
      {role : BlockRole} {opener : Token} :
      BlocksRead d before outer → (∀ c ∈ clauses, c.Is d) → RoleRead d tokens role →
      opener.lexeme = .symbol .leftBrace →
      BlocksRead d (before ++ Clause.tokensAll clauses ++ tokens ++ [opener])
        (⟨opener.span, role, Clause.builtAll clauses⟩ :: outer)

/-- Tokens of a statement up to an expression in it. -/
inductive SiteRead (d : Dialect) : List Token → Site → Prop where
  | statement : SiteRead d [] .statement
  | assigned {target : Phrase} {equal : Token} :
      d.allows .operatorAssign → target.Is 0 → equal.lexeme = .symbol .equal →
      SiteRead d (target.tokens ++ [equal]) (.assigned target.built)
  | printed {keyword : Token} :
      keyword.lexeme = .keyword .print → SiteRead d [keyword] (.printed keyword.span)
  | initial {keyword nameToken equal : Token} {name : String} :
      d.allows .varDecl → keyword.lexeme = .keyword .var → nameToken.lexeme = .identifier name →
      equal.lexeme = .symbol .equal →
      SiteRead d [keyword, nameToken, equal] (.initializer keyword.span name)
  | assignValue {keyword : Token} :
      d.allows .keywordAssign → keyword.lexeme = .keyword .assign →
      SiteRead d [keyword] (.assignValue keyword.span)
  | assignTarget {keyword toToken : Token} {value : Phrase} :
      d.allows .keywordAssign → keyword.lexeme = .keyword .assign → value.Is 0 →
      toToken.lexeme = .keyword .to →
      SiteRead d (keyword :: (value.tokens ++ [toToken])) (.assignTarget keyword.span value.built)
  | ifCondition {tokens : List Token} {arms : List Arm} {keyword : Token} :
      ArmsRead d tokens arms → keyword.lexeme = .keyword .if →
      SiteRead d (tokens ++ [keyword]) (.ifCondition arms keyword.span)
  | loopCondition {keyword : Token} :
      keyword.lexeme = .keyword .while → SiteRead d [keyword] (.loopCondition keyword.span)

/-- Tokens of the current statement. -/
inductive ModeRead (d : Dialect) : List Token → Mode → Prop where
  | start : ModeRead d [] .start
  | expr {before tokens : List Token} {site : Site} {reader : ExprReader} :
      SiteRead d before site → ExprRead tokens reader →
      ModeRead d (before ++ tokens) (.expr site reader)
  | varName {keyword : Token} :
      d.allows .varDecl → keyword.lexeme = .keyword .var →
      ModeRead d [keyword] (.varName keyword.span)
  | varRest {keyword nameToken : Token} {name : String} :
      d.allows .varDecl → keyword.lexeme = .keyword .var → nameToken.lexeme = .identifier name →
      ModeRead d [keyword, nameToken] (.varRest keyword.span name)
  | makeVar {keyword : Token} :
      d.allows .makeDecl → keyword.lexeme = .keyword .make →
      ModeRead d [keyword] (.makeVar keyword.span)
  | makeName {keyword varToken : Token} :
      d.allows .makeDecl → keyword.lexeme = .keyword .make → varToken.lexeme = .keyword .var →
      ModeRead d [keyword, varToken] (.makeName keyword.span)
  | makeEnd {keyword varToken nameToken : Token} {name : String} :
      d.allows .makeDecl → keyword.lexeme = .keyword .make → varToken.lexeme = .keyword .var →
      nameToken.lexeme = .identifier name →
      ModeRead d [keyword, varToken, nameToken] (.makeEnd keyword.span name)
  | afterArm {tokens : List Token} {arms : List Arm} {keyword : Token} {condition : Phrase}
      {body : Clause} :
      ArmsRead d tokens arms → keyword.lexeme = .keyword .if → condition.Is 0 → body.Is d →
      body.IsBlock →
      ModeRead d (tokens ++ keyword :: (condition.tokens ++ body.tokens))
        (.afterArm ⟨⟨keyword.span, condition.built, body.built⟩, arms⟩)
  | afterElse {tokens : List Token} {chain : Chain} :
      ArmsRead d tokens chain.arms → ModeRead d tokens (.afterElse chain)

/-- The tokens that a reader has taken. -/
inductive ProgramRead (d : Dialect) : List Token → ProgramReader → Prop where
  | intro {before tokens : List Token} {clauses : List Clause} {mode : Mode}
      {outer : List OpenBlock} :
      BlocksRead d before outer → (∀ c ∈ clauses, c.Is d) → ModeRead d tokens mode →
      ProgramRead d (before ++ Clause.tokensAll clauses ++ tokens)
        ⟨mode, Clause.builtAll clauses, outer⟩

theorem tokensAll_append (front rest : List Clause) :
    Clause.tokensAll (front ++ rest) = Clause.tokensAll front ++ Clause.tokensAll rest := by
  induction front with
  | nil => rfl
  | cons c front ih =>
      rw [List.cons_append, Clause.tokensAll, ih, Clause.tokensAll, List.append_assoc]

theorem builtAll_append (front rest : List Clause) :
    Clause.builtAll (front ++ rest) = Clause.builtAll front ++ Clause.builtAll rest := by
  induction front with
  | nil => rfl
  | cons c front ih =>
      rw [List.cons_append, Clause.builtAll, ih, Clause.builtAll, List.cons_append]

/-- A statement that may follow `else` ends a chain, and the chain is a statement that may follow
`else`. -/
theorem ArmsRead.nest {d : Dialect} {tokens : List Token} {arms : List Arm}
    (h : ArmsRead d tokens arms) : ∀ {c : Clause}, c.Is d → c.IsElse →
      ∃ c' : Clause, c'.Is d ∧ c'.built = nest arms c.built ∧ c'.tokens = tokens ++ c.tokens := by
  induction h with
  | nil =>
      intro c hc _
      exact ⟨c, hc, rfl, rfl⟩
  | @cons tokens arms keyword otherwise condition body _ hif hcondition hbody hblock helse ih =>
      intro c hc hcElse
      -- the latest arm takes the statement as its `else`, and the arms before it take the rest
      obtain ⟨c', hc', hbuilt, htokens⟩ := ih
        (.branchElse hif hcondition hbody hblock helse hc hcElse :
          Clause.Is d (.branchElse keyword condition body otherwise c)) trivial
      refine ⟨c', hc', hbuilt, ?_⟩
      rw [htokens]
      simp [Clause.tokens]

theorem ProgramRead.of_eq {d : Dialect} {tokens tokens' : List Token} {r : ProgramReader}
    (h : ProgramRead d tokens r) (htokens : tokens = tokens') : ProgramRead d tokens' r :=
  htokens ▸ h

theorem ProgramRead.push {d : Dialect} {before tokens : List Token} {outer : List OpenBlock}
    {clauses : List Clause} {c : Clause} {s : Stmt} (houter : BlocksRead d before outer)
    (hclauses : ∀ c ∈ clauses, c.Is d) (hc : c.Is d) (hbuilt : c.built = s)
    (htokens : c.tokens = tokens) :
    ProgramRead d (before ++ Clause.tokensAll clauses ++ tokens)
      ⟨.start, Clause.builtAll clauses ++ [s], outer⟩ := by
  subst hbuilt htokens
  have hall : ∀ c' ∈ clauses ++ [c], c'.Is d := by
    intro c' hc'
    rcases List.mem_append.mp hc' with h | h
    · exact hclauses c' h
    · rw [List.mem_singleton.mp h]
      exact hc
  have hread := ProgramRead.intro houter hall .start
  rw [tokensAll_append, builtAll_append] at hread
  exact hread.of_eq (by simp [Clause.tokensAll])

/-- An expression is to be read next. -/
theorem ProgramRead.expect {d : Dialect} {before tokens : List Token} {outer : List OpenBlock}
    {clauses : List Clause} {site : Site} (houter : BlocksRead d before outer)
    (hclauses : ∀ c ∈ clauses, c.Is d) (hsite : SiteRead d tokens site) :
    ProgramRead d (before ++ Clause.tokensAll clauses ++ tokens)
      ⟨.expr site {}, Clause.builtAll clauses, outer⟩ :=
  .of_eq (.intro houter hclauses (.expr hsite exprRead_nil)) (by simp)

theorem ProgramRead.openBlock {d : Dialect} {before tokens : List Token} {outer : List OpenBlock}
    {clauses : List Clause} {mode : Mode} {role : BlockRole} {opener : Token}
    (houter : BlocksRead d before outer) (hclauses : ∀ c ∈ clauses, c.Is d)
    (hrole : RoleRead d tokens role) (hopen : opener.lexeme = .symbol .leftBrace) :
    ProgramRead d (before ++ Clause.tokensAll clauses ++ (tokens ++ [opener]))
      (ProgramReader.openBlock ⟨mode, Clause.builtAll clauses, outer⟩ opener.span role) := by
  have hnil : ∀ c ∈ ([] : List Clause), c.Is d := nofun
  exact .of_eq (.intro (.cons houter hclauses hrole hopen) hnil .start)
    (by simp [Clause.tokensAll])

/-- A closing brace makes a statement of the innermost block, or an arm of a chain. -/
theorem ProgramRead.closeBlock {d : Dialect} {before : List Token} {b : OpenBlock}
    {outer : List OpenBlock} {clauses : List Clause} {mode : Mode} {closer : Token}
    (houter : BlocksRead d before (b :: outer)) (hclauses : ∀ c ∈ clauses, c.Is d)
    (hclose : closer.lexeme = .symbol .rightBrace) :
    ProgramRead d (before ++ Clause.tokensAll clauses ++ [closer])
      (ProgramReader.closeBlock ⟨mode, Clause.builtAll clauses, b :: outer⟩ b outer
        closer.span) := by
  cases houter with
  | @cons before tokens _ clauses' role opener houter hclauses' hrole hopen =>
      have hblock : Clause.Is d (.block opener clauses closer) := .block hopen hclauses hclose
      cases hrole with
      | plain =>
          have hread := ProgramRead.push houter hclauses' hblock rfl rfl
          exact hread.of_eq (by simp [Clause.tokens])
      | arm harms hif hcondition =>
          have hread := ProgramRead.intro houter hclauses'
            (.afterArm harms hif hcondition hblock trivial)
          exact hread.of_eq (by simp [Clause.tokens])
      -- the block ends its chain, which becomes one statement
      | otherwise harms =>
          obtain ⟨c, hc, hbuilt, htokens⟩ := harms.nest hblock trivial
          have hread := ProgramRead.push houter hclauses' hc hbuilt htokens
          exact hread.of_eq (by simp [Clause.tokens])
      | loop hwhile hcondition =>
          have hread := ProgramRead.push houter hclauses' (.loop hwhile hcondition hblock trivial)
            rfl rfl
          exact hread.of_eq (by simp [Clause.tokens])

theorem Phrase.eq_var_of_built {p : Phrase} {span : Span} {name : String}
    (h : p.built = .var span name) : ∃ token, p = .var token name := by
  cases p with
  | var token name' =>
      cases h
      exact ⟨token, rfl⟩
  | binary op left sign right => cases op <;> cases h
  | _ => cases h

theorem Phrase.Is.lexeme_var {k : Nat} {p : Phrase} {token : Token} {name : String} :
    p.Is k → p = .var token name → token.lexeme = .identifier name
  | .var h, heq => by
      cases heq
      exact h
  | .tighter h, heq => h.lexeme_var heq
  | .literal _, heq | .paren _ _ _, heq | .call _ _ _, heq | .callWith _ _ _ _, heq
  | .unary _ _ _, heq | .binary _ _ _ _, heq => nomatch heq

/-- Only a variable can be assigned to. -/
theorem exists_target {p : Phrase} (hp : p.Is 0) {r r' : ProgramReader} {span : Span}
    {value : Expr} (h : r.pushAssign span p.built value = .ok r') :
    ∃ token name, p = .var token name ∧ token.lexeme = .identifier name ∧
      r' = r.push (.assign span name value) := by
  unfold ProgramReader.pushAssign at h
  split at h
  · rename_i name hvar
    obtain ⟨token, rfl⟩ := Phrase.eq_var_of_built hvar
    cases h
    exact ⟨token, name, rfl, hp.lexeme_var rfl, rfl⟩
  · cases h

/-- The token behind an expression ends the statement or goes on with it. -/
theorem ProgramRead.stepSite {d : Dialect} {before tokens : List Token} {outer : List OpenBlock}
    {clauses : List Clause} {mode : Mode} {site : Site} {p : Phrase} {token : Token}
    {r' : ProgramReader} (houter : BlocksRead d before outer) (hclauses : ∀ c ∈ clauses, c.Is d)
    (hsite : SiteRead d tokens site) (hp : p.Is 0)
    (h : ProgramReader.stepSite d ⟨mode, Clause.builtAll clauses, outer⟩ site p.built token =
      .ok r') :
    ProgramRead d (before ++ Clause.tokensAll clauses ++ (tokens ++ p.tokens ++ [token])) r' := by
  unfold ProgramReader.stepSite at h
  split at h
  case h_1 hequal =>
    cases hsite with
    | statement =>
        split at h
        · rename_i hallows
          cases h
          exact .expect houter hclauses (.assigned hallows hp hequal)
        · cases h
  case h_2 hsemicolon =>
    cases hsite with
    | statement =>
        cases h
        exact .push houter hclauses (.expr hp hsemicolon) rfl rfl
  case h_3 hsemicolon =>
    cases hsite with
    | assigned hallows htarget hequal =>
        obtain ⟨nameToken, name, rfl, hname, rfl⟩ := exists_target htarget h
        exact .push houter hclauses (.assign hallows hname hequal hp hsemicolon) rfl rfl
  case h_4 hsemicolon =>
    cases hsite with
    | printed hprint =>
        cases h
        exact .push houter hclauses (.print hprint hp hsemicolon) rfl rfl
  case h_5 hsemicolon =>
    cases hsite with
    | initial hallows hvar hname hequal =>
        cases h
        exact .push houter hclauses (.varWith hallows hvar hname hequal hp hsemicolon) rfl rfl
  case h_6 hto =>
    cases hsite with
    | assignValue hallows hassign =>
        cases h
        exact .expect houter hclauses (.assignTarget hallows hassign hp hto)
  case h_7 hsemicolon =>
    -- here the value was read first, and the target is the expression that has just ended
    cases hsite with
    | assignTarget hallows hassign hvalue hto =>
        obtain ⟨nameToken, name, rfl, hname, rfl⟩ := exists_target hp h
        refine .push houter hclauses (.assignTo hallows hassign hvalue hto hname hsemicolon) rfl ?_
        simp [Clause.tokens, Phrase.tokens]
  case h_8 hopen =>
    cases hsite with
    | ifCondition harms hif =>
        cases h
        exact .of_eq (.openBlock houter hclauses (.arm harms hif hp) hopen) (by simp)
  case h_9 hopen =>
    cases hsite with
    | loopCondition hwhile =>
        cases h
        exact .of_eq (.openBlock houter hclauses (.loop hwhile hp) hopen) (by simp)
  case h_10 => cases h

theorem ProgramRead.stepExpr {d : Dialect} {before tokens front : List Token}
    {outer : List OpenBlock} {clauses : List Clause} {mode : Mode} {site : Site}
    {reader : ExprReader} {token : Token} {r' : ProgramReader} (houter : BlocksRead d before outer)
    (hclauses : ∀ c ∈ clauses, c.Is d) (hsite : SiteRead d front site)
    (hread : ExprRead tokens reader)
    (h : ProgramReader.stepExpr d ⟨mode, Clause.builtAll clauses, outer⟩ site reader token =
      .ok r') :
    ProgramRead d (before ++ Clause.tokensAll clauses ++ (front ++ tokens ++ [token])) r' := by
  unfold ProgramReader.stepExpr at h
  split at h
  · rename_i reader' hstep
    cases h
    rw [List.append_assoc front]
    exact .intro houter hclauses (.expr hsite (hread.step hstep))
  · rename_i e hstep
    -- the token is not part of the expression, and the site decides about it
    obtain ⟨p, hp, rfl, rfl⟩ := hread.done hstep
    exact .stepSite houter hclauses hsite hp h
  · cases h

theorem ProgramRead.stepStart {d : Dialect} {tokens : List Token} {done : List Stmt}
    {outer : List OpenBlock} {mode : Mode} {token : Token} {r' : ProgramReader}
    (hread : ProgramRead d tokens ⟨.start, done, outer⟩)
    (h : ProgramReader.stepStart d ⟨mode, done, outer⟩ token = .ok r') :
    ProgramRead d (tokens ++ [token]) r' := by
  obtain @⟨before, _, clauses, _, _, houter, hclauses, ⟨⟩⟩ := hread
  rw [List.append_nil]
  -- a statement of an optional form is started only where the dialect allows it
  have hform : ∀ {form : Form} {next : ProgramReader},
      ProgramReader.startForm d form token next = .ok r' → d.allows form ∧ r' = next := by
    intro form next h
    unfold ProgramReader.startForm at h
    split at h
    · rename_i hallows
      cases h
      exact ⟨hallows, rfl⟩
    · cases h
  unfold ProgramReader.stepStart at h
  split at h
  case h_1 hopen =>
    cases h
    exact .openBlock houter hclauses .plain hopen
  case h_2 b outer' hclose heq =>
    cases h
    obtain rfl : outer = b :: outer' := heq
    exact .closeBlock houter hclauses hclose
  case h_3 hif =>
    cases h
    exact .expect houter hclauses (.ifCondition .nil hif)
  case h_4 hwhile =>
    cases h
    exact .expect houter hclauses (.loopCondition hwhile)
  case h_5 hprint =>
    cases h
    exact .expect houter hclauses (.printed hprint)
  case h_6 hvar =>
    obtain ⟨hallows, rfl⟩ := hform h
    exact .intro houter hclauses (.varName hallows hvar)
  case h_7 hmake =>
    obtain ⟨hallows, rfl⟩ := hform h
    exact .intro houter hclauses (.makeVar hallows hmake)
  case h_8 hassign =>
    obtain ⟨hallows, rfl⟩ := hform h
    exact .expect houter hclauses (.assignValue hallows hassign)
  case h_14 => exact .stepExpr houter hclauses .statement exprRead_nil h
  all_goals cases h

theorem ProgramRead.settle {d : Dialect} {tokens : List Token} {r : ProgramReader}
    (hread : ProgramRead d tokens r) : ProgramRead d tokens (settled r) := by
  obtain @⟨before, tokens, clauses, mode, outer, houter, hclauses, hmode⟩ := hread
  cases hmode with
  | afterArm harms hif hcondition hbody hblock =>
      -- The last arm is a branch of its own, and the chain is what the arms before it
      -- make of that.
      obtain ⟨c, hc, hbuilt, htokens⟩ := harms.nest (.branch hif hcondition hbody hblock) trivial
      exact .push houter hclauses hc hbuilt htokens
  | start => exact .intro houter hclauses .start
  | expr hsite hexpr => exact .intro houter hclauses (.expr hsite hexpr)
  | varName h₁ h₂ => exact .intro houter hclauses (.varName h₁ h₂)
  | varRest h₁ h₂ h₃ => exact .intro houter hclauses (.varRest h₁ h₂ h₃)
  | makeVar h₁ h₂ => exact .intro houter hclauses (.makeVar h₁ h₂)
  | makeName h₁ h₂ h₃ => exact .intro houter hclauses (.makeName h₁ h₂ h₃)
  | makeEnd h₁ h₂ h₃ h₄ => exact .intro houter hclauses (.makeEnd h₁ h₂ h₃ h₄)
  | afterElse harms => exact .intro houter hclauses (.afterElse harms)

/-- A token that goes on with the statement. -/
theorem ProgramRead.next {d : Dialect} {before tokens : List Token} {outer : List OpenBlock}
    {clauses : List Clause} {mode : Mode} {token : Token} (houter : BlocksRead d before outer)
    (hclauses : ∀ c ∈ clauses, c.Is d) (hmode : ModeRead d (tokens ++ [token]) mode) :
    ProgramRead d (before ++ Clause.tokensAll clauses ++ tokens ++ [token])
      ⟨mode, Clause.builtAll clauses, outer⟩ := by
  rw [List.append_assoc]
  exact .intro houter hclauses hmode

/-- A token that ends the statement. -/
theorem ProgramRead.last {d : Dialect} {before tokens : List Token} {outer : List OpenBlock}
    {clauses : List Clause} {c : Clause} {token : Token} (houter : BlocksRead d before outer)
    (hclauses : ∀ c ∈ clauses, c.Is d) (hc : c.Is d) (htokens : c.tokens = tokens ++ [token]) :
    ProgramRead d (before ++ Clause.tokensAll clauses ++ tokens ++ [token])
      ⟨.start, Clause.builtAll clauses ++ [c.built], outer⟩ := by
  rw [List.append_assoc]
  exact .push houter hclauses hc rfl htokens

/-- **Every token that is taken keeps the derivations.** -/
theorem ProgramRead.feed {d : Dialect} {tokens : List Token} {r r' : ProgramReader} {token : Token}
    (hread : ProgramRead d tokens r) (h : r.feed d token = .ok r') :
    ProgramRead d (tokens ++ [token]) r' := by
  obtain @⟨before, tokens, clauses, mode, outer, houter, hclauses, hmode⟩ := hread
  unfold ProgramReader.feed at h
  split at h
  case h_1 hstart =>
    obtain rfl : mode = .start := hstart
    exact .stepStart (.intro houter hclauses hmode) h
  case h_2 site reader hexpr =>
    obtain rfl : mode = .expr site reader := hexpr
    cases hmode with
    | expr hsite hexpr => exact .of_eq (.stepExpr houter hclauses hsite hexpr h) (by simp)
  case h_3 keyword name heq hname =>
    obtain rfl : mode = .varName keyword := heq
    cases h
    cases hmode with
    | varName hallows hvar => exact .next houter hclauses (.varRest hallows hvar hname)
  case h_4 keyword name heq hequal =>
    obtain rfl : mode = .varRest keyword name := heq
    cases h
    cases hmode with
    | varRest hallows hvar hname =>
        exact .of_eq (.expect houter hclauses (.initial hallows hvar hname hequal)) (by simp)
  case h_5 keyword name heq hsemicolon =>
    obtain rfl : mode = .varRest keyword name := heq
    cases h
    cases hmode with
    | varRest hallows hvar hname =>
        exact .last houter hclauses (.var hallows hvar hname hsemicolon) rfl
  case h_6 keyword heq hvar =>
    obtain rfl : mode = .makeVar keyword := heq
    cases h
    cases hmode with
    | makeVar hallows hmake => exact .next houter hclauses (.makeName hallows hmake hvar)
  case h_7 keyword name heq hname =>
    obtain rfl : mode = .makeName keyword := heq
    cases h
    cases hmode with
    | makeName hallows hmake hvar =>
        exact .next houter hclauses (.makeEnd hallows hmake hvar hname)
  case h_8 keyword name heq hsemicolon =>
    obtain rfl : mode = .makeEnd keyword name := heq
    cases h
    cases hmode with
    | makeEnd hallows hmake hvar hname =>
        exact .last houter hclauses (.makeVar hallows hmake hvar hname hsemicolon) rfl
  case h_9 chain heq helse =>
    obtain rfl : mode = .afterArm chain := heq
    cases h
    cases hmode with
    | afterArm harms hif hcondition hbody hblock =>
        exact .of_eq (.intro houter hclauses
          (.afterElse (.cons harms hif hcondition hbody hblock helse))) (by simp)
  case h_10 chain heq _ =>
    obtain rfl : mode = .afterArm chain := heq
    -- the chain is over, and the token starts the next statement
    exact .stepStart (ProgramRead.settle (.intro houter hclauses hmode)) h
  case h_11 chain heq hif =>
    obtain rfl : mode = .afterElse chain := heq
    cases h
    cases hmode with
    | afterElse harms => exact .of_eq (.expect houter hclauses (.ifCondition harms hif)) (by simp)
  case h_12 chain heq hopen =>
    obtain rfl : mode = .afterElse chain := heq
    cases h
    cases hmode with
    | afterElse harms =>
        exact .of_eq (.openBlock houter hclauses (.otherwise harms) hopen) (by simp)
  case h_13 => cases h

theorem ProgramRead.feeds {d : Dialect} {before tokens : List Token} {r r' : ProgramReader}
    (hread : ProgramRead d before r) (h : Feeds d r tokens r') :
    ProgramRead d (before ++ tokens) r' := by
  induction h generalizing before with
  | nil => rwa [List.append_nil]
  | cons hstep _ ih => exact (ih (hread.feed hstep)).of_eq (by simp)

theorem programRead_nil (d : Dialect) : ProgramRead d [] {} := by
  have hnil : ∀ c ∈ ([] : List Clause), c.Is d := nofun
  exact .intro .nil hnil .start

/-- Reading may end only between statements, with no block open. -/
theorem settled_eq_of_close {r : ProgramReader} {program : List Stmt} (h : r.close = .ok program) :
    settled r = ⟨.start, program, []⟩ := by
  have hlist : ∀ {done : List Stmt} {outer : List OpenBlock},
      ProgramReader.closeList ⟨.start, done, outer⟩ = .ok program →
        done = program ∧ outer = [] := by
    intro done outer h
    cases outer with
    | nil =>
        cases h
        exact ⟨rfl, rfl⟩
    | cons b outer => cases h
  obtain ⟨mode, done, outer⟩ := r
  cases mode with
  | start =>
      obtain ⟨rfl, rfl⟩ := hlist h
      rfl
  | afterArm chain =>
      obtain ⟨rfl, rfl⟩ := hlist h
      rfl
  | expr site reader =>
      simp only [ProgramReader.close] at h
      -- an expression that is not ended is an error, whatever has been read of it
      split at h <;> cases h
  | _ => cases h

theorem ProgramRead.close {d : Dialect} {tokens : List Token} {r : ProgramReader}
    {program : List Stmt} (hread : ProgramRead d tokens r) (h : r.close = .ok program) :
    ∃ clauses, Derives d clauses tokens ∧ Clause.builtAll clauses = program := by
  replace hread := hread.settle
  rw [settled_eq_of_close h] at hread
  obtain @⟨before, _, clauses, _, _, ⟨⟩, hclauses, ⟨⟩⟩ := hread
  exact ⟨clauses, ⟨hclauses, by simp⟩, rfl⟩

/-! ## Reading a text that is a program -/

/-- **The programs that are read are those that are derived.** -/
theorem read_program_eq_ok_iff {d : Dialect} {tokens : List Token} {endSpan : Span}
    {program : List Stmt} :
    ProgramReader.read d tokens endSpan = .ok program ↔
      ∃ clauses, Derives d clauses tokens ∧ Clause.builtAll clauses = program := by
  unfold ProgramReader.read
  rw [bind_mapError_eq_ok_iff]
  constructor
  · rintro ⟨r, hfold, hclose⟩
    exact ((programRead_nil d).feeds (foldlM_eq_ok_iff.mp hfold)).close hclose
  · rintro ⟨clauses, ⟨his, rfl⟩, rfl⟩
    obtain ⟨r, hfeeds, hr⟩ := addsAll_of_adds his (fun c hc => (his c hc).adds.1) [] []
    refine ⟨r, foldlM_eq_ok_iff.mpr hfeeds, ?_⟩
    rw [close_settled, hr]
    rfl

end Stepwise.Grammar
