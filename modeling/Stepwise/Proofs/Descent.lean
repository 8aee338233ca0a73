import Stepwise.Proofs.ProgramReading
import Stepwise.Proofs.Tokenization
import Stepwise.Source.Region

/-!
# Reading by recursive descent

One procedure for each rule of the grammar. A procedure starts at an index of the token list and
says with what it returns at which index it has stopped; it calls other procedures, and itself, as
the rules have it. Where a rule repeats something, the procedure calls itself to go on. Behind the
tokens there is an entry for the end of the text, which is never passed.

Nothing in the rules keeps a procedure from calling itself forever, from looking beyond the list,
from joining places of different sources or from taking a token for a literal that has no value.
There is a `Trouble` for each of the latter. As for the first, a procedure is given the depth to
which calls may be nested, and is `unfinished` if they go deeper; one that goes on forever is
unfinished at every depth. That an attempt `Settles` from some depth on, and without trouble, is
the subject of `Stepwise.Proofs.DescentExpr` and `Stepwise.Proofs.DescentProgram`, which also
prove that the procedures read what the readers of `Stepwise.Parse` read.
`Stepwise.Proofs.DescentGrammar` says which texts they accept, and where they refuse one.
-/

namespace Stepwise.Descent

/-! ## Attempts -/

/-- What keeps a procedure from returning. -/
inductive Trouble where
  /-- The text is wrong. -/
  | error (e : ParseError)
  /-- There is no entry at the index. -/
  | noEntry
  /-- Two regions cannot be joined. -/
  | noRegion (e : RegionError)
  /-- What was taken for a literal has no value. -/
  | noValue (lexeme : Lexeme)

/-- What a procedure does: it returns something or comes to trouble, unless it does not come
back. -/
abbrev Attempt := ExceptT Trouble Option

/-- Calls are nested more deeply than allowed. -/
def unfinished {α : Type} : Attempt α := ExceptT.mk none

/-- A token, or the end of the text. -/
structure Entry where
  lexeme : Option Lexeme
  region : Region

/-- The tokens of the source with this number. -/
structure Input where
  file : Nat
  tokens : List Token
  /-- The place behind the last token. -/
  endSpan : Span

/-- The tokens, and the end of the text behind them. -/
def Input.entries (input : Input) : List Entry :=
  input.tokens.map (fun token => ⟨some token.lexeme, ⟨input.file, token.span⟩⟩) ++
    [⟨none, ⟨input.file, input.endSpan⟩⟩]

/-- What was read, the region that it covers and the index behind it. -/
structure Parsed (α : Type) where
  node : α
  region : Region
  next : Nat

/-- Complains of what stands in a region. -/
def complain {α : Type} (cause : ParseError.Cause) (region : Region) : Attempt α :=
  throw (.error ⟨cause, region.span⟩)

/-- The least region that covers both, if there is one. -/
def join (a b : Region) : Attempt Region :=
  if a.file = b.file then
    match Region.ofBounds a.file (min a.span.start b.span.start) (max a.span.stop b.span.stop) with
    | .ok region => pure region
    | .error e => throw (.noRegion e)
  else throw (.noRegion .differentFiles)

section Procedures

variable (input : Input)

/-- The entry at an index. -/
def peek (i : Nat) : Attempt Entry :=
  match input.entries[i]? with
  | some entry => pure entry
  | none => throw .noEntry

/-- The entry at an index and the index behind it; the end of the text is not passed. -/
def take (i : Nat) : Attempt (Entry × Nat) := do
  let entry ← peek input i
  pure (entry, if entry.lexeme.isSome then i + 1 else i)

/-- Takes this lexeme, which has to be there. -/
def expect (lexeme : Lexeme) (cause : ParseError.Cause) (i : Nat) : Attempt (Region × Nat) := do
  let entry ← peek input i
  if entry.lexeme = some lexeme then
    let (entry, j) ← take input i
    pure (entry.region, j)
  else complain cause entry.region

/-- Takes this lexeme if it is there. -/
def take? (lexeme : Lexeme) (i : Nat) : Attempt (Option (Region × Nat)) := do
  let entry ← peek input i
  if entry.lexeme = some lexeme then
    let (entry, j) ← take input i
    pure (some (entry.region, j))
  else pure none

/-- Takes a name, which has to be there. -/
def expectName (i : Nat) : Attempt (String × Nat) := do
  let entry ← peek input i
  match entry.lexeme with
  | some (.identifier name) =>
    let (_, j) ← take input i
    pure (name, j)
  | _ => complain .expectedName entry.region

/-! ## Expressions -/

/-- The operator of a level that an entry stands for between two operands. -/
def Entry.operator? (k : Nat) (entry : Entry) : Option InfixOp :=
  match entry.lexeme with
  | some (.symbol s) => (InfixOp.ofSymbol? s).filter (·.level = k)
  | _ => none

/-- The operator that an entry stands for in front of an operand. -/
def Entry.sign? (entry : Entry) : Option UnaryOp :=
  match entry.lexeme with
  | some (.symbol s) => UnaryOp.ofSign? s
  | _ => none

mutual

/-- An expression whose operators bind at least as tightly as level `k`, from an index on. -/
def level : Nat → Nat → Nat → Attempt (Parsed Expr)
  | 0, _, _ => unfinished
  | depth + 1, k, i =>
    if k < 6 then do
      let left ← level depth (k + 1) i
      operators depth k left
    else unary depth i

/-- The operators of level `k` with their right operands, behind a left operand. -/
def operators : Nat → Nat → Parsed Expr → Attempt (Parsed Expr)
  | 0, _, _ => unfinished
  | depth + 1, k, left => do
    let entry ← peek input left.next
    match entry.operator? k with
    | none => pure left
    | some op =>
      let (sign, j) ← take input left.next
      let right ← level depth (k + 1) j
      let region ← join left.region right.region
      operators depth k
        ⟨Grammar.operation region.span left.node ⟨sign.region.span, op⟩ right.node, region,
          right.next⟩

/-- An operand with the operators in front of it. -/
def unary : Nat → Nat → Attempt (Parsed Expr)
  | 0, _ => unfinished
  | depth + 1, i => do
    let entry ← peek input i
    match entry.sign? with
    | some op =>
      let (sign, j) ← take input i
      let operand ← unary depth j
      let region ← join sign.region operand.region
      pure ⟨.unary region.span ⟨sign.region.span, op⟩ operand.node, region, operand.next⟩
    | none =>
      let callee ← primary depth i
      calls depth callee

/-- The argument lists behind a callee. -/
def calls : Nat → Parsed Expr → Attempt (Parsed Expr)
  | 0, _ => unfinished
  | depth + 1, callee => do
    match ← take? input (.symbol .leftParen) callee.next with
    | none => pure callee
    | some (_, j) =>
      let entry ← peek input j
      if entry.lexeme = some (.symbol .rightParen) then
        let (closer, j) ← expect input (.symbol .rightParen) .unclosedArguments j
        let region ← join callee.region closer
        calls depth ⟨.call region.span callee.node [], region, j⟩
      else
        let argument ← level depth 0 j
        arguments depth callee [argument.node] argument.next

/-- The further arguments of a call, and what follows the call. -/
def arguments : Nat → Parsed Expr → List Expr → Nat → Attempt (Parsed Expr)
  | 0, _, _, _ => unfinished
  | depth + 1, callee, args, i => do
    match ← take? input (.symbol .comma) i with
    | some (_, j) =>
      let argument ← level depth 0 j
      arguments depth callee (args ++ [argument.node]) argument.next
    | none =>
      let (closer, j) ← expect input (.symbol .rightParen) .unclosedArguments i
      let region ← join callee.region closer
      calls depth ⟨.call region.span callee.node args, region, j⟩

/-- A variable, a literal or an expression in parentheses. -/
def primary : Nat → Nat → Attempt (Parsed Expr)
  | 0, _ => unfinished
  | depth + 1, i => do
    let (entry, j) ← take input i
    match entry.lexeme with
    | some (.identifier name) => pure ⟨.var entry.region.span name, entry.region, j⟩
    | some (.symbol .leftParen) =>
      let inner ← level depth 0 j
      let (closer, j) ← expect input (.symbol .rightParen) .unclosedParen inner.next
      let region ← join entry.region closer
      pure ⟨.paren region.span inner.node, region, j⟩
    | some (.symbol _) | some (.keyword _) | none => complain .expectedExpression entry.region
    | some literal =>
      match literal.value? with
      | some v => pure ⟨.literal entry.region.span v, entry.region, j⟩
      | none => throw (.noValue literal)

end

/-- An expression, from an index on. -/
def expression (depth i : Nat) : Attempt (Parsed Expr) := level input depth 0 i

/-! ## Statements -/

variable (d : Dialect)

/-- An assignment; only a variable can be assigned to. -/
def assignment (region : Region) (target : Parsed Expr) (value : Expr) (next : Nat) :
    Attempt (Parsed Stmt) :=
  match target.node with
  | .var _ name => pure ⟨.assign region.span name value, region, next⟩
  | _ => complain .invalidTarget target.region

/-- A statement behind `print`. -/
def printStatement (depth : Nat) (keyword : Region) (i : Nat) : Attempt (Parsed Stmt) := do
  let value ← expression input depth i
  let (semicolon, j) ← expect input (.symbol .semicolon) (.expectedSemicolon .print) value.next
  let region ← join keyword semicolon
  pure ⟨.print region.span value.node, region, j⟩

/-- A statement behind `var`. -/
def varStatement (depth : Nat) (keyword : Region) (i : Nat) : Attempt (Parsed Stmt) := do
  let (name, j) ← expectName input i
  match ← take? input (.symbol .equal) j with
  | some (_, j) =>
    let value ← expression input depth j
    let (semicolon, j) ← expect input (.symbol .semicolon) (.expectedSemicolon .var) value.next
    let region ← join keyword semicolon
    pure ⟨.declare region.span name (some value.node), region, j⟩
  | none =>
    let (semicolon, j) ← expect input (.symbol .semicolon) (.expectedSemicolon .var) j
    let region ← join keyword semicolon
    pure ⟨.declare region.span name none, region, j⟩

/-- A statement behind `make`. -/
def makeStatement (keyword : Region) (i : Nat) : Attempt (Parsed Stmt) := do
  let (_, j) ← expect input (.keyword .var) .expectedVar i
  let (name, j) ← expectName input j
  let (semicolon, j) ← expect input (.symbol .semicolon) (.expectedSemicolon .makeVar) j
  let region ← join keyword semicolon
  pure ⟨.declare region.span name none, region, j⟩

/-- A statement behind `assign`. -/
def assignStatement (depth : Nat) (keyword : Region) (i : Nat) : Attempt (Parsed Stmt) := do
  let value ← expression input depth i
  let (_, j) ← expect input (.keyword .to) .expectedTo value.next
  let target ← expression input depth j
  let (semicolon, j) ← expect input (.symbol .semicolon) (.expectedSemicolon .assign) target.next
  let region ← join keyword semicolon
  assignment region target value.node j

/-- A statement that starts with an expression. -/
def exprStatement (depth i : Nat) : Attempt (Parsed Stmt) := do
  let first ← expression input depth i
  match ← take? input (.symbol .equal) first.next with
  | some (equal, j) =>
    if d.allows .operatorAssign then
      let value ← expression input depth j
      let (semicolon, j) ←
        expect input (.symbol .semicolon) (.expectedSemicolon .assignment) value.next
      let region ← join first.region semicolon
      assignment region first value.node j
    else complain (.disabled .operatorAssign) equal
  | none =>
    let (semicolon, j) ←
      expect input (.symbol .semicolon) (.expectedSemicolon .expression) first.next
    let region ← join first.region semicolon
    pure ⟨.expr region.span first.node, region, j⟩

/-- A branch statement, up to the last of its parts. -/
def branch (keyword : Region) (condition : Expr) (yes : Parsed Stmt) (no : Option (Parsed Stmt)) :
    Attempt (Parsed Stmt) := do
  let last := no.getD yes
  let region ← join keyword last.region
  pure ⟨.branch region.span keyword.span condition yes.node (no.map (·.node)), region, last.next⟩

mutual

/-- A statement, from an index on. -/
def statement : Nat → Nat → Attempt (Parsed Stmt)
  | 0, _ => unfinished
  | depth + 1, i => do
    let entry ← peek input i
    match entry.lexeme with
    | some (.symbol .leftBrace) =>
      let (brace, j) ← take input i
      block depth brace.region [] j
    | some (.keyword .if) =>
      let (keyword, j) ← take input i
      ifStatement depth keyword.region j
    | some (.keyword .while) =>
      let (keyword, j) ← take input i
      whileStatement depth keyword.region j
    | some (.keyword .print) =>
      let (keyword, j) ← take input i
      printStatement input depth keyword.region j
    | some (.keyword .var) =>
      if d.allows .varDecl then
        let (keyword, j) ← take input i
        varStatement input depth keyword.region j
      else complain (.disabled .varDecl) entry.region
    | some (.keyword .make) =>
      if d.allows .makeDecl then
        let (keyword, j) ← take input i
        makeStatement input keyword.region j
      else complain (.disabled .makeDecl) entry.region
    | some (.keyword .assign) =>
      if d.allows .keywordAssign then
        let (keyword, j) ← take input i
        assignStatement input depth keyword.region j
      else complain (.disabled .keywordAssign) entry.region
    | some (.keyword .for) => complain (.reserved .forLoop) entry.region
    | some (.keyword .break) => complain (.reserved .breakOut) entry.region
    | some (.keyword .continue) => complain (.reserved .continueOn) entry.region
    | some (.keyword .return) => complain (.reserved .returnFrom) entry.region
    | some (.keyword .fn) => complain (.reserved .function) entry.region
    | _ => exprStatement input d depth i

/-- The further statements of a block and its closing brace. -/
def block : Nat → Region → List Stmt → Nat → Attempt (Parsed Stmt)
  | 0, _, _, _ => unfinished
  | depth + 1, brace, done, i => do
    let entry ← peek input i
    if entry.lexeme = some (.symbol .rightBrace) ∨ entry.lexeme = none then
      let (closer, j) ← expect input (.symbol .rightBrace) .unclosedBlock i
      let region ← join brace closer
      pure ⟨.block region.span done, region, j⟩
    else
      let inner ← statement depth i
      block depth brace (done ++ [inner.node]) inner.next

/-- A statement behind `if`. -/
def ifStatement : Nat → Region → Nat → Attempt (Parsed Stmt)
  | 0, _, _ => unfinished
  | depth + 1, keyword, i => do
    let condition ← expression input depth i
    let (brace, j) ← expect input (.symbol .leftBrace) .expectedThenBlock condition.next
    let yes ← block depth brace [] j
    match ← take? input (.keyword .else) yes.next with
    | none => branch keyword condition.node yes none
    | some (_, j) =>
      match ← take? input (.keyword .if) j with
      | some (nested, j) =>
        let no ← ifStatement depth nested j
        branch keyword condition.node yes (some no)
      | none =>
        let (brace, j) ← expect input (.symbol .leftBrace) .expectedElseBranch j
        let no ← block depth brace [] j
        branch keyword condition.node yes (some no)

/-- A statement behind `while`. -/
def whileStatement : Nat → Region → Nat → Attempt (Parsed Stmt)
  | 0, _, _ => unfinished
  | depth + 1, keyword, i => do
    let condition ← expression input depth i
    let (brace, j) ← expect input (.symbol .leftBrace) .expectedLoopBody condition.next
    let body ← block depth brace [] j
    let region ← join keyword body.region
    pure ⟨.loop region.span keyword.span condition.node body.node, region, body.next⟩

end

/-- The further statements of a program, up to the end of the text. -/
def program : Nat → List Stmt → Nat → Attempt (List Stmt)
  | 0, _, _ => unfinished
  | depth + 1, done, i => do
    let entry ← peek input i
    if entry.lexeme = none then pure done
    else
      let s ← statement input d depth i
      program depth (done ++ [s.node]) s.next

/-- The expression that the whole text is. -/
def wholeExpression (depth : Nat) : Attempt Expr := do
  let e ← expression input depth 0
  let entry ← peek input e.next
  if entry.lexeme = none then pure e.node else complain .extraneousInput entry.region

end Procedures

/-- Reads the tokens of a text. -/
def ofTokens {α : Type} (file : Nat) (s : Source) (f : Input → Attempt α) : Attempt α :=
  match s.tokens with
  | .ok tokens => f ⟨file, tokens, s.endSpan⟩
  | .error e => throw (.error e)

/-- The program of a text. -/
def parse (depth file : Nat) (s : Source) (d : Dialect) : Attempt (List Stmt) :=
  ofTokens file s (program · d depth [] 0)

/-- The expression that a text is. -/
def parseExpr (depth file : Nat) (s : Source) : Attempt Expr :=
  ofTokens file s (wholeExpression · depth)

/-! ## Attempts that come back -/

/-- Whether an attempt comes to the same end at every depth from some depth on. -/
def Settles {α : Type} (x : Nat → Attempt α) (result : Attempt α) : Prop :=
  ∃ enough, ∀ depth, enough ≤ depth → x depth = result

/-- Whether an attempt comes back, with something `good` or with an error of the text that is as
`bad` says; it comes to no other trouble. -/
def Meets {α : Type} (x : Nat → Attempt α) (good : α → Prop) (bad : ParseError → Prop) : Prop :=
  (∃ a, Settles x (pure a) ∧ good a) ∨ ∃ e, Settles x (throw (.error e)) ∧ bad e

section Meets

variable {α β : Type} {x : Nat → Attempt α} {good good' : α → Prop} {bad bad' : ParseError → Prop}

theorem settles_const (result : Attempt α) : Settles (fun _ => result) result :=
  ⟨0, fun _ _ => rfl⟩

/-- One more call makes no difference. -/
theorem settles_succ_iff {result : Attempt α} :
    Settles (fun depth => x (depth + 1)) result ↔ Settles x result := by
  constructor
  · rintro ⟨enough, h⟩
    -- one call more has to fit
    refine ⟨enough + 1, fun depth hdepth => ?_⟩
    obtain ⟨rest, rfl⟩ := Nat.exists_eq_add_of_le hdepth
    rw [Nat.add_right_comm]
    exact h _ (Nat.le_add_right _ _)
  · rintro ⟨enough, h⟩
    exact ⟨enough, fun depth hdepth => h _ (Nat.le_succ_of_le hdepth)⟩

/-- Where two attempts are made one behind the other, both have to settle. -/
theorem Settles.bind {f : α → Nat → Attempt β} {first : Attempt α} {result : Attempt β}
    (hx : Settles x first)
    (hf : Settles (fun depth => first >>= fun a => f a depth) result) :
    Settles (fun depth => x depth >>= fun a => f a depth) result := by
  obtain ⟨enough, hx⟩ := hx
  obtain ⟨enough', hf⟩ := hf
  -- deep enough for both
  refine ⟨max enough enough', fun depth hdepth => ?_⟩
  dsimp only
  rw [hx depth (by omega)]
  exact hf depth (by omega)

theorem meets_pure {a : α} (h : good a) : Meets (fun _ => pure a) good bad :=
  .inl ⟨a, settles_const _, h⟩

theorem meets_complain {cause : ParseError.Cause} {region : Region}
    (h : bad ⟨cause, region.span⟩) :
    Meets (fun _ => (complain cause region : Attempt α)) good bad :=
  .inr ⟨_, settles_const _, h⟩

theorem meets_succ_iff : Meets (fun depth => x (depth + 1)) good bad ↔ Meets x good bad := by
  simp only [Meets, settles_succ_iff]

theorem Meets.mono (h : Meets x good bad) (hgood : ∀ a, good a → good' a)
    (hbad : ∀ e, bad e → bad' e) : Meets x good' bad' := by
  rcases h with ⟨a, hx, ha⟩ | ⟨e, hx, he⟩
  · exact .inl ⟨a, hx, hgood a ha⟩
  · exact .inr ⟨e, hx, hbad e he⟩

/-- What is done behind an attempt is done behind what it returns. -/
theorem Meets.bind {f : α → Nat → Attempt β} {good' : β → Prop} (hx : Meets x good bad)
    (hbad : ∀ e, bad e → bad' e) (hf : ∀ a, good a → Meets (f a) good' bad') :
    Meets (fun depth => x depth >>= fun a => f a depth) good' bad' := by
  rcases hx with ⟨a, hx, ha⟩ | ⟨e, hx, he⟩
  · rcases hf a ha with ⟨b, hf, hb⟩ | ⟨e, hf, he⟩
    · exact .inl ⟨b, hx.bind hf, hb⟩
    · exact .inr ⟨e, hx.bind hf, he⟩
  · -- the first attempt complains, and the second one is never made
    exact .inr ⟨e, hx.bind (settles_const _), hbad e he⟩

end Meets

/-! ## Entries and regions -/

namespace Input

variable (input : Input)

/-- The entry at an index of the list; the last one stands for all behind it. -/
def entry (i : Nat) : Entry :=
  match input.tokens[i]? with
  | some token => ⟨some token.lexeme, ⟨input.file, token.span⟩⟩
  | none => ⟨none, ⟨input.file, input.endSpan⟩⟩

/-- Whether no token reaches beyond the end of the text. -/
def Bounded : Prop := ∀ token ∈ input.tokens, token.span.stop ≤ input.endSpan.stop

/-- Whether a region is that of a place in the text. -/
structure Places (span : Span) (region : Region) : Prop where
  region_eq : region = ⟨input.file, span⟩
  stop_le : span.stop ≤ input.endSpan.stop

variable {input} {i : Nat}

theorem entry_of_drop_nil (h : input.tokens.drop i = []) :
    input.entry i = ⟨none, ⟨input.file, input.endSpan⟩⟩ := by
  rw [entry, List.getElem?_eq_none (List.drop_eq_nil_iff.mp h)]

theorem entry_of_drop_cons {token : Token} {rest : List Token}
    (h : input.tokens.drop i = token :: rest) :
    input.entry i = ⟨some token.lexeme, ⟨input.file, token.span⟩⟩ := by
  have hget : input.tokens[i]? = some token := by
    rw [← List.head?_drop, h]
    rfl
  rw [entry, hget]

/-- What is left of the tokens at an index: nothing, or a token and what is left behind it. -/
theorem drop_cases (hi : i ≤ input.tokens.length) :
    (i = input.tokens.length ∧ input.tokens.drop i = []) ∨
      ∃ token ∈ input.tokens, i < input.tokens.length ∧
        input.tokens.drop i = token :: input.tokens.drop (i + 1) := by
  rcases Nat.lt_or_eq_of_le hi with hlt | heq
  · exact .inr ⟨input.tokens[i], List.getElem_mem hlt, hlt, List.drop_eq_getElem_cons hlt⟩
  · exact .inl ⟨heq, List.drop_eq_nil_of_le (Nat.le_of_eq heq.symm)⟩

/-- The token with the lexeme that stands at an index. -/
theorem exists_token {lexeme : Lexeme} (hi : i ≤ input.tokens.length)
    (h : (input.entry i).lexeme = some lexeme) :
    ∃ token ∈ input.tokens, i < input.tokens.length ∧
      input.tokens.drop i = token :: input.tokens.drop (i + 1) ∧ token.lexeme = lexeme ∧
      (input.entry i).region = ⟨input.file, token.span⟩ := by
  rcases drop_cases hi with ⟨_, hnil⟩ | ⟨token, hmem, hlt, hcons⟩
  · -- at the end there is no lexeme
    rw [entry_of_drop_nil hnil] at h
    cases h
  · rw [entry_of_drop_cons hcons] at h ⊢
    exact ⟨token, hmem, hlt, hcons, Option.some.inj h, rfl⟩

theorem Bounded.entry (h : input.Bounded) (hi : i ≤ input.tokens.length) :
    input.Places (input.entry i).region.span (input.entry i).region := by
  rcases drop_cases hi with ⟨_, hnil⟩ | ⟨token, hmem, _, hcons⟩
  · rw [entry_of_drop_nil hnil]
    exact ⟨rfl, Nat.le_refl _⟩
  · rw [entry_of_drop_cons hcons]
    exact ⟨rfl, h token hmem⟩

theorem Bounded.token (h : input.Bounded) {token : Token} (hmem : token ∈ input.tokens) :
    input.Places token.span ⟨input.file, token.span⟩ := ⟨rfl, h token hmem⟩

theorem Places.join {a b : Span} {ra rb : Region} (ha : input.Places a ra)
    (hb : input.Places b rb) :
    Descent.join ra rb = pure ⟨input.file, a.join b⟩ ∧
      input.Places (a.join b) ⟨input.file, a.join b⟩ := by
  obtain ⟨rfl, ha⟩ := ha
  obtain ⟨rfl, hb⟩ := hb
  refine ⟨?_, rfl, Nat.max_le.mpr ⟨ha, hb⟩⟩
  -- both regions are of one source, and their span is in order by its type
  have hbounds : Span.ofBounds? (min a.start b.start) (max a.stop b.stop) = some (a.join b) :=
    dif_pos (a.join b).start_le_stop
  simp only [Descent.join, Region.ofBounds, hbounds, if_true]

end Input

section Entries

variable {input : Input} {i : Nat} {lexeme : Lexeme} {cause : ParseError.Cause}

theorem peek_eq (hi : i ≤ input.tokens.length) : peek input i = pure (input.entry i) := by
  have hentry : input.entries[i]? = some (input.entry i) := by
    rcases Input.drop_cases hi with ⟨heq, hnil⟩ | ⟨token, _, hlt, hcons⟩
    · -- behind the last token stands the entry for the end
      rw [Input.entry_of_drop_nil hnil, Input.entries, heq]
      simp
    · rw [Input.entry_of_drop_cons hcons, Input.entries]
      rw [List.drop_eq_getElem_cons hlt] at hcons
      injection hcons with hget
      rw [List.getElem?_append_left (by simpa using hlt)]
      simp [hlt, hget]
  rw [peek, hentry]

theorem take_eq (hi : i ≤ input.tokens.length) {found : Lexeme}
    (h : (input.entry i).lexeme = some found) : take input i = pure (input.entry i, i + 1) := by
  rw [take, peek_eq hi, pure_bind, h]
  rfl

theorem take_end (hi : i ≤ input.tokens.length) (h : (input.entry i).lexeme = none) :
    take input i = pure (input.entry i, i) := by
  rw [take, peek_eq hi, pure_bind, h]
  rfl

theorem expect_eq (hi : i ≤ input.tokens.length) (h : (input.entry i).lexeme = some lexeme) :
    expect input lexeme cause i = pure ((input.entry i).region, i + 1) := by
  rw [expect, peek_eq hi, pure_bind, if_pos h, take_eq hi h, pure_bind]

theorem expect_ne (hi : i ≤ input.tokens.length) (h : (input.entry i).lexeme ≠ some lexeme) :
    expect input lexeme cause i = complain cause (input.entry i).region := by
  rw [expect, peek_eq hi, pure_bind, if_neg h]

theorem take?_eq (hi : i ≤ input.tokens.length) (h : (input.entry i).lexeme = some lexeme) :
    take? input lexeme i = pure (some ((input.entry i).region, i + 1)) := by
  rw [take?, peek_eq hi, pure_bind, if_pos h, take_eq hi h, pure_bind]

theorem take?_ne (hi : i ≤ input.tokens.length) (h : (input.entry i).lexeme ≠ some lexeme) :
    take? input lexeme i = pure none := by
  rw [take?, peek_eq hi, pure_bind, if_neg h]

end Entries

end Stepwise.Descent
