import Stepwise.Parse.Program

/-!
# Reading does not look at places

A reader passes the places of its tokens on to the tree, and joins them; it never decides anything
by them. So if all places are replaced, then what is read is what was read before, with its places
replaced. The map has to go along with joins, because a node has the least place that covers its
parts. Moving every place by the same distance does so, and so does forgetting all places.

`mapSpans` replaces the places in everything that a reader consists of. Each function of the
readers then commutes with it, from `PendingOp.fill` up to `ProgramReader.feed`, and so does
reading as a whole (`ProgramReader.read_mapSpans`).
-/

namespace Stepwise

/-! ## Replacing places -/

section Maps

variable (f : Span → Span)

/-- The same at another place. -/
def Located.mapSpan {α : Type} (x : Located α) : Located α := ⟨f x.span, x.value⟩

/-- The token at another place. -/
def Token.mapSpan (token : Token) : Token := ⟨token.lexeme, f token.span⟩

/-- The error at another place. -/
def ParseError.mapSpan (e : ParseError) : ParseError := ⟨e.cause, f e.span⟩

mutual

/-- The expression with other places. -/
def Expr.mapSpans : Expr → Expr
  | .var span name => .var (f span) name
  | .literal span v => .literal (f span) v
  | .paren span inner => .paren (f span) inner.mapSpans
  | .call span callee arguments => .call (f span) callee.mapSpans (Expr.mapSpansAll arguments)
  | .shortCircuit span left op right =>
    .shortCircuit (f span) left.mapSpans (op.mapSpan f) right.mapSpans
  | .binary span left op right => .binary (f span) left.mapSpans (op.mapSpan f) right.mapSpans
  | .unary span op operand => .unary (f span) (op.mapSpan f) operand.mapSpans
  | .hole span => .hole (f span)

/-- The expressions with other places. -/
def Expr.mapSpansAll : List Expr → List Expr
  | [] => []
  | e :: rest => e.mapSpans :: Expr.mapSpansAll rest

end

mutual

/-- The statement with other places. -/
def Stmt.mapSpans : Stmt → Stmt
  | .block span body => .block (f span) (Stmt.mapSpansAll body)
  | .expr span e => .expr (f span) (e.mapSpans f)
  | .print span e => .print (f span) (e.mapSpans f)
  | .declare span name initial => .declare (f span) name (initial.map (·.mapSpans f))
  | .assign span name e => .assign (f span) name (e.mapSpans f)
  | .branch span keyword condition yes none =>
    .branch (f span) (f keyword) (condition.mapSpans f) yes.mapSpans none
  | .branch span keyword condition yes (some no) =>
    .branch (f span) (f keyword) (condition.mapSpans f) yes.mapSpans (some no.mapSpans)
  | .loop span keyword condition body =>
    .loop (f span) (f keyword) (condition.mapSpans f) body.mapSpans
  | .hole span => .hole (f span)

/-- The statements with other places. -/
def Stmt.mapSpansAll : List Stmt → List Stmt
  | [] => []
  | s :: rest => s.mapSpans :: Stmt.mapSpansAll rest

end

/-- The operator with other places. -/
def PendingOp.mapSpans : PendingOp → PendingOp
  | .unary op => .unary (op.mapSpan f)
  | .binary left op => .binary (left.mapSpans f) (op.mapSpan f)

/-- The parenthesis with other places. -/
def Enclosure.mapSpans : Enclosure → Enclosure
  | .paren opener => .paren (f opener)
  | .arguments callee args => .arguments (callee.mapSpans f) (Expr.mapSpansAll f args)

/-- The group with other places. -/
def Enclosing.mapSpans (around : Enclosing) : Enclosing :=
  ⟨around.enclosure.mapSpans f, around.ops.map (·.mapSpans f)⟩

/-- The focus with other places. -/
def Focus.mapSpans : Focus → Focus
  | .operand => .operand
  | .arguments callee => .arguments (callee.mapSpans f)
  | .after e => .after (e.mapSpans f)

/-- The reader with other places. -/
def ExprReader.mapSpans (r : ExprReader) : ExprReader :=
  ⟨r.focus.mapSpans f, r.ops.map (·.mapSpans f), r.outer.map (·.mapSpans f)⟩

/-- The step with other places. -/
def ExprReader.Step.mapSpans : ExprReader.Step → ExprReader.Step
  | .more reader => .more (reader.mapSpans f)
  | .done e => .done (e.mapSpans f)
  | .fail cause => .fail cause

/-- The arm with other places. -/
def Arm.mapSpans (arm : Arm) : Arm :=
  ⟨f arm.keyword, arm.condition.mapSpans f, arm.body.mapSpans f⟩

/-- The chain with other places. -/
def Chain.mapSpans (chain : Chain) : Chain :=
  ⟨chain.last.mapSpans f, chain.earlier.map (·.mapSpans f)⟩

/-- The site with other places. -/
def Site.mapSpans : Site → Site
  | .statement => .statement
  | .assigned target => .assigned (target.mapSpans f)
  | .printed keyword => .printed (f keyword)
  | .initializer keyword name => .initializer (f keyword) name
  | .assignValue keyword => .assignValue (f keyword)
  | .assignTarget keyword value => .assignTarget (f keyword) (value.mapSpans f)
  | .ifCondition earlier keyword => .ifCondition (earlier.map (·.mapSpans f)) (f keyword)
  | .loopCondition keyword => .loopCondition (f keyword)

/-- The mode with other places. -/
def Mode.mapSpans : Mode → Mode
  | .start => .start
  | .expr site reader => .expr (site.mapSpans f) (reader.mapSpans f)
  | .varName keyword => .varName (f keyword)
  | .varRest keyword name => .varRest (f keyword) name
  | .makeVar keyword => .makeVar (f keyword)
  | .makeName keyword => .makeName (f keyword)
  | .makeEnd keyword name => .makeEnd (f keyword) name
  | .afterArm chain => .afterArm (chain.mapSpans f)
  | .afterElse chain => .afterElse (chain.mapSpans f)

/-- The role with other places. -/
def BlockRole.mapSpans : BlockRole → BlockRole
  | .plain => .plain
  | .arm earlier keyword condition =>
    .arm (earlier.map (·.mapSpans f)) (f keyword) (condition.mapSpans f)
  | .otherwise chain => .otherwise (chain.mapSpans f)
  | .loop keyword condition => .loop (f keyword) (condition.mapSpans f)

/-- The block with other places. -/
def OpenBlock.mapSpans (b : OpenBlock) : OpenBlock :=
  ⟨f b.brace, b.role.mapSpans f, Stmt.mapSpansAll f b.before⟩

/-- The reader with other places. -/
def ProgramReader.mapSpans (r : ProgramReader) : ProgramReader :=
  ⟨r.mode.mapSpans f, Stmt.mapSpansAll f r.done, r.outer.map (·.mapSpans f)⟩

/-- What reading comes to, with other places. -/
def mapRead {α : Type} (g : α → α) : Except ParseError α → Except ParseError α
  | .ok x => .ok (g x)
  | .error e => .error (e.mapSpan f)

end Maps

section Commute

variable {f : Span → Span} {d : Dialect}

theorem Expr.span_mapSpans (e : Expr) : (e.mapSpans f).span = f e.span := by
  cases e <;> simp only [Expr.mapSpans, Expr.span]

theorem Stmt.span_mapSpans (s : Stmt) : (s.mapSpans f).span = f s.span := by
  cases s with
  | branch span keyword condition yes no => cases no <;> simp only [Stmt.mapSpans, Stmt.span]
  | _ => simp only [Stmt.mapSpans, Stmt.span]

theorem Expr.mapSpansAll_append (front rest : List Expr) :
    Expr.mapSpansAll f (front ++ rest) = Expr.mapSpansAll f front ++ Expr.mapSpansAll f rest := by
  induction front with
  | nil => rfl
  | cons e front ih => rw [List.cons_append, mapSpansAll, ih, mapSpansAll, List.cons_append]

theorem Stmt.mapSpansAll_append (front rest : List Stmt) :
    Stmt.mapSpansAll f (front ++ rest) = Stmt.mapSpansAll f front ++ Stmt.mapSpansAll f rest := by
  induction front with
  | nil => rfl
  | cons s front ih => rw [List.cons_append, mapSpansAll, ih, mapSpansAll, List.cons_append]

theorem PendingOp.level_mapSpans (p : PendingOp) : (p.mapSpans f).level = p.level := by
  cases p <;> rfl

theorem Enclosure.complaint_mapSpans (enclosure : Enclosure) :
    (enclosure.mapSpans f).complaint = enclosure.complaint := by
  cases enclosure <;> rfl

theorem Site.complaint_mapSpans (site : Site) : (site.mapSpans f).complaint = site.complaint := by
  cases site <;> rfl

/-! ## Reading expressions -/

section Join

variable (hf : ∀ a b : Span, f (a.join b) = (f a).join (f b))

include hf

theorem PendingOp.mapSpans_fill (e : Expr) (p : PendingOp) :
    (p.fill e).mapSpans f = (p.mapSpans f).fill (e.mapSpans f) := by
  cases p with
  | unary op =>
      simp only [fill, mapSpans, Expr.mapSpans, Located.mapSpan, hf, Expr.span_mapSpans]
  | binary left op =>
      obtain ⟨span, op⟩ := op
      cases op <;>
        simp only [fill, mapSpans, Expr.mapSpans, Located.mapSpan, hf, Expr.span_mapSpans]

theorem PendingOp.mapSpans_fillAll (e : Expr) (ops : List PendingOp) :
    (fillAll e ops).mapSpans f = fillAll (e.mapSpans f) (ops.map (·.mapSpans f)) := by
  induction ops generalizing e with
  | nil => rfl
  | cons p ops ih =>
      show (fillAll (p.fill e) ops).mapSpans f = fillAll ((p.mapSpans f).fill (e.mapSpans f)) _
      rw [ih, mapSpans_fill hf]

theorem PendingOp.mapSpans_reduce (level : Nat) (e : Expr) (ops : List PendingOp) :
    reduce level (e.mapSpans f) (ops.map (·.mapSpans f)) =
      ((reduce level e ops).1.map (·.mapSpans f), (reduce level e ops).2.mapSpans f) := by
  induction ops generalizing e with
  | nil => rfl
  | cons p ops ih =>
      rw [List.map_cons, reduce, reduce, level_mapSpans, ← mapSpans_fill hf, ih]
      -- which operators are closed depends on their levels, not on their places
      split <;> rfl

end Join

namespace ExprReader

theorem mapSpans_stepOperand (r : ExprReader) (token : Token) :
    (r.mapSpans f).stepOperand (token.mapSpan f) = (r.stepOperand token).mapSpans f := by
  obtain ⟨lexeme, span⟩ := token
  cases lexeme with
  | symbol s =>
      cases s <;> rfl
  | _ => rfl

variable (hf : ∀ a b : Span, f (a.join b) = (f a).join (f b))

include hf

theorem mapSpans_stepClose (r : ExprReader) (e : Expr) (token : Token) :
    (r.mapSpans f).stepClose (e.mapSpans f) (token.mapSpan f) =
      (r.stepClose e token).mapSpans f := by
  obtain ⟨focus, ops, outer⟩ := r
  obtain ⟨lexeme, span⟩ := token
  cases outer with
  -- behind the outermost expression there is no group to close
  | nil => rfl
  | cons around outer =>
      obtain ⟨enclosure, opsAround⟩ := around
      cases enclosure with
      | paren opener =>
          cases lexeme with
          | symbol s =>
              cases s <;>
                simp only [stepClose, mapSpans, Token.mapSpan, List.map_cons, Enclosing.mapSpans,
                  Enclosure.mapSpans, Step.mapSpans, Focus.mapSpans, Expr.mapSpans, hf,
                  Enclosure.complaint]
          | _ => rfl
      | arguments callee args =>
          cases lexeme with
          | symbol s =>
              cases s <;>
                simp only [stepClose, mapSpans, Token.mapSpan, List.map_cons, List.map_nil,
                  Enclosing.mapSpans, Enclosure.mapSpans, Step.mapSpans, Focus.mapSpans,
                  Expr.mapSpans, hf, Expr.span_mapSpans, Expr.mapSpansAll_append, Expr.mapSpansAll,
                  Enclosure.complaint]
          | _ => rfl

theorem mapSpans_stepAfter (r : ExprReader) (e : Expr) (token : Token) :
    (r.mapSpans f).stepAfter (e.mapSpans f) (token.mapSpan f) =
      (r.stepAfter e token).mapSpans f := by
  obtain ⟨lexeme, span⟩ := token
  -- every token that is no operator closes the group, after the waiting operators
  have hclose (l : Lexeme) : (r.mapSpans f).stepClose
      (PendingOp.fillAll (e.mapSpans f) (r.mapSpans f).ops) ⟨l, f span⟩ =
      (r.stepClose (PendingOp.fillAll e r.ops) ⟨l, span⟩).mapSpans f := by
    rw [← mapSpans_stepClose hf, PendingOp.mapSpans_fillAll hf]
    rfl
  have hreduce (level : Nat) : PendingOp.reduce level (e.mapSpans f) (r.mapSpans f).ops = _ :=
    PendingOp.mapSpans_reduce hf level e r.ops
  cases lexeme with
  | symbol s =>
      cases s <;>
        simp only [stepAfter, Token.mapSpan, InfixOp.ofSymbol?, hclose, hreduce] <;>
        rfl
  | _ =>
      simp only [stepAfter, Token.mapSpan, hclose]

/-- A step does not look at places. -/
theorem mapSpans_step (r : ExprReader) (token : Token) :
    (r.mapSpans f).step (token.mapSpan f) = (r.step token).mapSpans f := by
  obtain ⟨focus, ops, outer⟩ := r
  cases focus with
  | operand => exact mapSpans_stepOperand ⟨.operand, ops, outer⟩ token
  | arguments callee =>
      -- unless the list of arguments is empty, this token starts the first of them
      have hoperand := mapSpans_stepOperand (f := f)
        ⟨.operand, [], ⟨.arguments callee [], ops⟩ :: outer⟩ token
      obtain ⟨lexeme, span⟩ := token
      cases lexeme with
      | symbol s =>
          cases s <;>
            first
              | exact hoperand
              | simp only [step, mapSpans, Focus.mapSpans, Token.mapSpan, Step.mapSpans,
                  Expr.mapSpans, hf, Expr.span_mapSpans, Expr.mapSpansAll]
      | _ => exact hoperand
  | after e => exact mapSpans_stepAfter hf ⟨.after e, ops, outer⟩ e token

end ExprReader

theorem ExprReader.close_mapSpans (hf : ∀ a b : Span, f (a.join b) = (f a).join (f b))
    (r : ExprReader) : (r.mapSpans f).close = r.close.map (·.mapSpans f) := by
  obtain ⟨focus, ops, outer⟩ := r
  cases focus with
  | after e =>
      cases outer with
      | nil => simp only [close, mapSpans, Focus.mapSpans, List.map_nil, Except.map,
          PendingOp.mapSpans_fillAll hf]
      | cons around outer =>
          simp only [close, mapSpans, Focus.mapSpans, List.map_cons, Enclosing.mapSpans,
            Enclosure.complaint_mapSpans, Except.map]
  | operand | arguments callee => rfl

/-! ## Reading programs -/

section Join

variable (hf : ∀ a b : Span, f (a.join b) = (f a).join (f b))

include hf

theorem Arm.mapSpans_toStmt (arm : Arm) (no : Option Stmt) :
    (arm.toStmt no).mapSpans f = (arm.mapSpans f).toStmt (no.map (·.mapSpans f)) := by
  cases no <;>
    simp only [toStmt, mapSpans, Stmt.mapSpans, hf, Option.getD, Option.map, Stmt.span_mapSpans]

theorem Chain.mapSpans_close (chain : Chain) (no : Option Stmt) :
    (chain.close no).mapSpans f = (chain.mapSpans f).close (no.map (·.mapSpans f)) := by
  obtain ⟨last, earlier⟩ := chain
  have hfold : ∀ s : Stmt, (earlier.foldl (fun s arm => arm.toStmt (some s)) s).mapSpans f =
      (earlier.map (·.mapSpans f)).foldl (fun s arm => arm.toStmt (some s)) (s.mapSpans f) := by
    induction earlier with
    | nil => exact fun s => rfl
    | cons arm earlier ih =>
        intro s
        rw [List.foldl_cons, ih, Arm.mapSpans_toStmt hf]
        rfl
  simp only [close, mapSpans, hfold, Arm.mapSpans_toStmt hf]

end Join

namespace ProgramReader

theorem mapSpans_push (r : ProgramReader) (s : Stmt) :
    (r.push s).mapSpans f = (r.mapSpans f).push (s.mapSpans f) := by
  simp only [push, mapSpans, Mode.mapSpans, Stmt.mapSpansAll_append, Stmt.mapSpansAll]

theorem mapSpans_startForm (form : Form) (token : Token) (next : ProgramReader) :
    startForm d form (token.mapSpan f) (next.mapSpans f) =
      mapRead f (mapSpans f) (startForm d form token next) := by
  unfold startForm
  split <;> rfl

theorem mapSpans_pushAssign (r : ProgramReader) (span : Span) (target value : Expr) :
    (r.mapSpans f).pushAssign (f span) (target.mapSpans f) (value.mapSpans f) =
      mapRead f (mapSpans f) (r.pushAssign span target value) := by
  cases target <;>
    simp only [pushAssign, Expr.mapSpans, mapRead, mapSpans_push, Stmt.mapSpans,
      ParseError.mapSpan, Expr.span]

theorem closeList_mapSpans (r : ProgramReader) :
    (r.mapSpans f).closeList = r.closeList.map (Stmt.mapSpansAll f) := by
  obtain ⟨mode, done, outer⟩ := r
  cases outer <;> rfl

variable (hf : ∀ a b : Span, f (a.join b) = (f a).join (f b))

include hf

theorem mapSpans_closeBlock (r : ProgramReader) (b : OpenBlock) (outer : List OpenBlock)
    (brace : Span) :
    (r.mapSpans f).closeBlock (b.mapSpans f) (outer.map (·.mapSpans f)) (f brace) =
      (r.closeBlock b outer brace).mapSpans f := by
  obtain ⟨opener, role, before⟩ := b
  cases role <;>
    simp only [closeBlock, OpenBlock.mapSpans, BlockRole.mapSpans, mapSpans, Mode.mapSpans, push,
      Stmt.mapSpansAll_append, Stmt.mapSpansAll, Stmt.mapSpans, Chain.mapSpans, Arm.mapSpans, hf,
      Stmt.span, Chain.mapSpans_close hf, Option.map]

theorem mapSpans_stepSite_semicolon (r : ProgramReader) (site : Site) (e : Expr) (span : Span) :
    (r.mapSpans f).stepSite d (site.mapSpans f) (e.mapSpans f) ⟨.symbol .semicolon, f span⟩ =
      mapRead f (mapSpans f) (r.stepSite d site e ⟨.symbol .semicolon, span⟩) := by
  cases site with
  | statement | printed | initializer =>
      simp only [stepSite, Site.mapSpans, mapRead, mapSpans_push, Stmt.mapSpans, hf,
        Expr.span_mapSpans, Option.map]
  | assigned | assignTarget =>
      simp only [stepSite, Site.mapSpans, ← mapSpans_pushAssign, hf, Expr.span_mapSpans]
  | assignValue | ifCondition | loopCondition => rfl

theorem mapSpans_stepSite (r : ProgramReader) (site : Site) (e : Expr) (token : Token) :
    (r.mapSpans f).stepSite d (site.mapSpans f) (e.mapSpans f) (token.mapSpan f) =
      mapRead f (mapSpans f) (r.stepSite d site e token) := by
  have hsemicolon := mapSpans_stepSite_semicolon (d := d) hf r site e token.span
  obtain ⟨lexeme, span⟩ := token
  cases lexeme with
  | symbol s =>
      cases s with
      | semicolon => exact hsemicolon
      | equal =>
          -- only here does the dialect have a say
          cases site with
          | statement =>
              simp only [stepSite, Site.mapSpans, Token.mapSpan]
              split <;> rfl
          | _ => rfl
      | _ => cases site <;> rfl
  | keyword k => cases site <;> cases k <;> rfl
  | _ => cases site <;> rfl

theorem mapSpans_stepExpr (r : ProgramReader) (site : Site) (reader : ExprReader) (token : Token) :
    (r.mapSpans f).stepExpr d (site.mapSpans f) (reader.mapSpans f) (token.mapSpan f) =
      mapRead f (mapSpans f) (r.stepExpr d site reader token) := by
  unfold stepExpr
  rw [ExprReader.mapSpans_step hf]
  cases reader.step token with
  | more reader => rfl
  | done e => exact mapSpans_stepSite hf r site e token
  | fail cause => rfl

theorem mapSpans_stepStart (r : ProgramReader) (token : Token) :
    (r.mapSpans f).stepStart d (token.mapSpan f) =
      mapRead f (mapSpans f) (r.stepStart d token) := by
  have hexpr := mapSpans_stepExpr (d := d) hf r .statement {} token
  obtain ⟨mode, done, outer⟩ := r
  obtain ⟨lexeme, span⟩ := token
  cases lexeme with
  | keyword k =>
      cases k with
      | var => exact mapSpans_startForm .varDecl ⟨.keyword .var, span⟩ ⟨.varName span, done, outer⟩
      | make =>
          exact mapSpans_startForm .makeDecl ⟨.keyword .make, span⟩ ⟨.makeVar span, done, outer⟩
      | assign =>
          exact mapSpans_startForm .keywordAssign ⟨.keyword .assign, span⟩
            ⟨.expr (.assignValue span) {}, done, outer⟩
      | «else» | «to» => exact hexpr
      | _ => rfl
  | symbol s =>
      -- only the closing brace is left: it ends a block, or no statement starts with it
      cases s <;> first | rfl | exact hexpr | skip
      cases outer with
      | nil => exact hexpr
      | cons b outer =>
          exact congrArg Except.ok (mapSpans_closeBlock hf ⟨mode, done, b :: outer⟩ b outer span)
  | _ => exact hexpr

/-- Reading a token does not look at places. -/
theorem mapSpans_feed (r : ProgramReader) (token : Token) :
    (r.mapSpans f).feed d (token.mapSpan f) = mapRead f (mapSpans f) (r.feed d token) := by
  have hexpr := fun site reader => mapSpans_stepExpr (d := d) hf r site reader token
  have hstart := fun s => mapSpans_stepStart (d := d) hf (r.push s) token
  obtain ⟨mode, done, outer⟩ := r
  cases mode with
  | start => exact mapSpans_stepStart hf ⟨.start, done, outer⟩ token
  | expr site reader => exact hexpr site reader
  | afterArm chain =>
      -- any token but `else` closes the chain first, and starts the next statement
      specialize hstart (chain.close none)
      rw [mapSpans_push, Chain.mapSpans_close hf] at hstart
      obtain ⟨lexeme, span⟩ := token
      cases lexeme with
      | keyword k => cases k <;> first | exact hstart | rfl
      | _ => exact hstart
  | varRest keyword name | makeEnd keyword name =>
      obtain ⟨lexeme, span⟩ := token
      cases lexeme with
      | symbol s =>
          cases s with
          | semicolon =>
              simp only [feed, mapSpans, Mode.mapSpans, Token.mapSpan, mapRead, push,
                Stmt.mapSpansAll_append, Stmt.mapSpansAll, Stmt.mapSpans, hf, Option.map]
          | _ => rfl
      | _ => rfl
  -- these expect one lexeme and complain about all others
  | varName | makeVar | makeName | afterElse =>
      obtain ⟨lexeme, span⟩ := token
      cases lexeme with
      | symbol s => cases s <;> rfl
      | keyword k => cases k <;> rfl
      | _ => rfl

theorem close_mapSpans (r : ProgramReader) :
    (r.mapSpans f).close = r.close.map (Stmt.mapSpansAll f) := by
  obtain ⟨mode, done, outer⟩ := r
  cases mode with
  | start => exact closeList_mapSpans ⟨.start, done, outer⟩
  | afterArm chain =>
      have hpush := closeList_mapSpans (f := f)
        (push ⟨.afterArm chain, done, outer⟩ (chain.close none))
      rw [mapSpans_push, Chain.mapSpans_close hf] at hpush
      exact hpush
  | expr site reader =>
      simp only [close, mapSpans, Mode.mapSpans, ExprReader.close_mapSpans hf]
      cases reader.close with
      -- the expression is complete but its statement is not
      | ok e => exact congrArg Except.error (Site.complaint_mapSpans site)
      | error cause => rfl
  | _ => rfl

theorem foldlM_feed_mapSpans (tokens : List Token) (r : ProgramReader) :
    (tokens.map (Token.mapSpan f)).foldlM (feed d) (r.mapSpans f) =
      mapRead f (mapSpans f) (tokens.foldlM (feed d) r) := by
  induction tokens generalizing r with
  | nil => rfl
  | cons token tokens ih =>
      rw [List.map_cons, List.foldlM_cons, List.foldlM_cons, mapSpans_feed hf]
      cases r.feed d token with
      | ok m => exact ih m
      | error e => rfl

/-- **Tokens at other places are read as the same program or with the same error, at other
places.** -/
theorem read_mapSpans (tokens : List Token) (endSpan : Span) :
    read d (tokens.map (Token.mapSpan f)) (f endSpan) =
      mapRead f (Stmt.mapSpansAll f) (read d tokens endSpan) := by
  have hfold : (tokens.map (Token.mapSpan f)).foldlM (feed d) {} =
      mapRead f (mapSpans f) (tokens.foldlM (feed d) {}) := foldlM_feed_mapSpans hf tokens {}
  unfold read
  rw [hfold]
  cases tokens.foldlM (feed d) {} with
  | error e => rfl
  | ok r =>
      show (r.mapSpans f).close.mapError _ = mapRead f _ (r.close.mapError _)
      rw [close_mapSpans hf]
      cases r.close <;> rfl

end ProgramReader

end Commute

end Stepwise
