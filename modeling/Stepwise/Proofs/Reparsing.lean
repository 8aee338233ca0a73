import Stepwise.Proofs.Excerpt
import Stepwise.Proofs.LexicalScoping

/-!
# Spans are faithful

The text that a node covers is a text of its own, and reading it gives the node again, with places
that count from its start. A node of a program has a derivation inside that of the program, so
that its tokens are a stretch of the tokens of the program (`Grammar.ReadsExpr.within`,
`Grammar.ReadsStmt.within`). The text from the first to the last of them has these tokens and no
others (`Source.tokens_cover`), and the derivation is moved to the start of that text.
-/

namespace Stepwise

/-! ## The nodes of a program -/

/-- The expressions that an expression is made of. -/
def Expr.children : Expr → List Expr
  | .var _ _ | .literal _ _ | .hole _ => []
  | .paren _ inner => [inner]
  | .call _ callee arguments => callee :: arguments
  | .shortCircuit _ left _ right | .binary _ left _ right => [left, right]
  | .unary _ _ operand => [operand]

/-- The expressions that a statement is made of. -/
def Stmt.exprs : Stmt → List Expr
  | .block _ _ | .declare _ _ none | .hole _ => []
  | .expr _ e | .print _ e | .declare _ _ (some e) | .assign _ _ e | .branch _ _ e _ _
  | .loop _ _ e _ => [e]

/-- The statements that a statement is made of. -/
def Stmt.children : Stmt → List Stmt
  | .block _ body => body
  | .branch _ _ _ yes no => yes :: no.toList
  | .loop _ _ _ body => [body]
  | .expr _ _ | .print _ _ | .declare _ _ _ | .assign _ _ _ | .hole _ => []

/-- Whether an expression is a node of another one, at any depth. -/
inductive Expr.Within (e : Expr) : Expr → Prop where
  | self : Within e e
  | child {around inner : Expr} : inner ∈ around.children → Within e inner → Within e around

/-- Whether a statement is a node of another one, at any depth. -/
inductive Stmt.Within (s : Stmt) : Stmt → Prop where
  | self : Within s s
  | child {around inner : Stmt} : inner ∈ around.children → Within s inner → Within s around

/-- Whether a statement is a node of a program. -/
def Stmt.Of (program : List Stmt) (s : Stmt) : Prop := ∃ outer ∈ program, s.Within outer

/-- Whether an expression is a node of a program. -/
def Expr.Of (program : List Stmt) (e : Expr) : Prop :=
  ∃ s : Stmt, s.Of program ∧ ∃ outer ∈ s.exprs, e.Within outer

namespace Grammar

/-! ## Derivations of nodes -/

/-- Whether an expression has a derivation from a stretch of the tokens. -/
def ReadsExpr (tokens : List Token) (e : Expr) : Prop :=
  ∃ p : Phrase, p.Is 0 ∧ p.built = e ∧ p.tokens <:+: tokens

/-- Whether a statement has a derivation from a stretch of the tokens. -/
def ReadsStmt (d : Dialect) (tokens : List Token) (s : Stmt) : Prop :=
  ∃ c : Clause, c.Is d ∧ c.built = s ∧ c.tokens <:+: tokens

theorem ReadsExpr.mono {tokens tokens' : List Token} {e : Expr} (h : ReadsExpr tokens e)
    (hpart : tokens <:+: tokens') : ReadsExpr tokens' e := by
  obtain ⟨p, hp, hbuilt, htokens⟩ := h
  exact ⟨p, hp, hbuilt, htokens.trans hpart⟩

theorem ReadsStmt.mono {d : Dialect} {tokens tokens' : List Token} {s : Stmt}
    (h : ReadsStmt d tokens s) (hpart : tokens <:+: tokens') : ReadsStmt d tokens' s := by
  obtain ⟨c, hc, hbuilt, htokens⟩ := h
  exact ⟨c, hc, hbuilt, htokens.trans hpart⟩

theorem Phrase.Is.readsExpr {k : Nat} {p : Phrase} (h : p.Is k) {tokens : List Token}
    (hpart : p.tokens <:+: tokens) : ReadsExpr tokens p.built :=
  ⟨p, h.mono (Nat.zero_le k), rfl, hpart⟩

theorem infix_behind (front : List Token) (token : Token) (rest : List Token) :
    rest <:+: front ++ token :: rest :=
  ((List.suffix_cons token rest).trans (List.suffix_append front _)).isInfix

theorem Arguments.Are.readsExpr {a : Arguments} {e : Expr} :
    a.Are → e ∈ a.built → ReadsExpr a.tokens e
  | @Arguments.Are.first argument h, he => by
      obtain rfl := List.mem_singleton.mp he
      exact h.readsExpr (List.infix_refl _)
  | @Arguments.Are.more earlier comma argument hearlier _ h, he => by
      -- an earlier argument, or the one behind the last comma
      rcases List.mem_append.mp he with he | he
      · exact (hearlier.readsExpr he).mono (List.prefix_append _ _).isInfix
      · obtain rfl := List.mem_singleton.mp he
        exact h.readsExpr (infix_behind earlier.tokens comma _)

theorem children_operation (span : Span) (left right : Expr) (op : Located InfixOp) :
    (operation span left op right).children = [left, right] := by
  unfold operation
  cases op.value <;> rfl

/-- What an expression is made of is derived from some of its tokens. -/
theorem Phrase.Is.readsExpr_child {k : Nat} {p : Phrase} {e : Expr} :
    p.Is k → e ∈ p.built.children → ReadsExpr p.tokens e
  | .var _, he | .literal _, he => absurd he List.not_mem_nil
  | @Phrase.Is.paren opener closer inner _ hinner _, he => by
      obtain rfl := List.mem_singleton.mp he
      exact hinner.readsExpr ⟨[opener], [closer], rfl⟩
  | @Phrase.Is.call callee opener closer hcallee _ _, he => by
      obtain rfl := List.mem_singleton.mp he
      exact hcallee.readsExpr (List.prefix_append _ _).isInfix
  | @Phrase.Is.callWith callee opener closer arguments hcallee _ harguments _, he => by
      rcases List.mem_cons.mp he with rfl | he
      · exact hcallee.readsExpr (List.prefix_append _ _).isInfix
      · -- the arguments stand between the parentheses
        exact (harguments.readsExpr he).mono
          ((List.prefix_append _ [closer]).isInfix.trans (infix_behind callee.tokens opener _))
  | @Phrase.Is.unary op sign s operand _ _ hoperand, he => by
      obtain rfl := List.mem_singleton.mp he
      exact hoperand.readsExpr (List.suffix_cons sign _).isInfix
  | @Phrase.Is.binary k op sign s left right _ _ hleft hright, he => by
      rcases List.mem_pair.mp (children_operation _ _ _ _ ▸ he) with rfl | rfl
      · exact hleft.readsExpr (List.prefix_append _ _).isInfix
      · exact hright.readsExpr (infix_behind left.tokens sign _)
  | .tighter h, he => h.readsExpr_child he

/-- The nodes of an expression are derived from some of its tokens. -/
theorem ReadsExpr.within {tokens : List Token} {e outer : Expr} (houter : ReadsExpr tokens outer)
    (h : e.Within outer) : ReadsExpr tokens e := by
  induction h with
  | self => exact houter
  | child hmem _ ih =>
      -- one level down, from some of the tokens that the node around it has
      obtain ⟨p, hp, rfl, htokens⟩ := houter
      exact ih ((hp.readsExpr_child hmem).mono htokens)

theorem readsStmt_of_mem {d : Dialect} {clauses : List Clause} (his : ∀ c ∈ clauses, c.Is d)
    {s : Stmt} (hs : s ∈ Clause.builtAll clauses) : ReadsStmt d (Clause.tokensAll clauses) s := by
  induction clauses with
  | nil => cases hs
  | cons c rest ih =>
      rw [List.forall_mem_cons] at his
      rw [Clause.builtAll, List.mem_cons] at hs
      rw [Clause.tokensAll]
      rcases hs with rfl | hs
      · exact ⟨c, his.1, rfl, (List.prefix_append _ _).isInfix⟩
      · exact (ih his.2 hs).mono (List.suffix_append _ _).isInfix

/-- The statements that a statement is made of are derived from some of its tokens. -/
theorem Clause.Is.readsStmt_child {d : Dialect} {c : Clause} {s : Stmt} (h : c.Is d)
    (hs : s ∈ c.built.children) : ReadsStmt d c.tokens s := by
  cases h with
  | @block opener closer body _ his _ =>
      exact (readsStmt_of_mem his hs).mono ⟨[opener], [closer], rfl⟩
  | @branch keyword condition yes _ _ hyes _ =>
      obtain rfl := List.mem_singleton.mp hs
      exact ⟨yes, hyes, rfl, ⟨keyword :: condition.tokens, [], by simp [Clause.tokens]⟩⟩
  | @branchElse keyword otherwise condition yes no _ _ hyes _ _ hno _ =>
      rcases List.mem_pair.mp hs with rfl | rfl
      · -- both branches are whole stretches, with the other one before or behind
        exact ⟨yes, hyes, rfl,
          ⟨keyword :: condition.tokens, otherwise :: no.tokens, by simp [Clause.tokens]⟩⟩
      · exact ⟨no, hno, rfl,
          ⟨keyword :: (condition.tokens ++ yes.tokens ++ [otherwise]), [],
            by simp [Clause.tokens]⟩⟩
  | @loop keyword condition body _ _ hbody _ =>
      obtain rfl := List.mem_singleton.mp hs
      exact ⟨body, hbody, rfl, ⟨keyword :: condition.tokens, [], by simp [Clause.tokens]⟩⟩
  | print | var | varWith | makeVar | assignTo | assign | expr => cases hs

/-- The expressions that a statement is made of are derived from some of its tokens. -/
theorem Clause.Is.readsExpr {d : Dialect} {c : Clause} {e : Expr} (h : c.Is d)
    (he : e ∈ c.built.exprs) : ReadsExpr c.tokens e := by
  cases h with
  | block | var | makeVar => cases he
  | @branch keyword condition yes _ hcondition =>
      obtain rfl := List.mem_singleton.mp he
      exact hcondition.readsExpr ⟨[keyword], yes.tokens, by simp [Clause.tokens]⟩
  | @branchElse keyword otherwise condition yes no _ hcondition =>
      obtain rfl := List.mem_singleton.mp he
      exact hcondition.readsExpr
        ⟨[keyword], yes.tokens ++ otherwise :: no.tokens, by simp [Clause.tokens]⟩
  | @loop keyword condition body _ hcondition =>
      obtain rfl := List.mem_singleton.mp he
      exact hcondition.readsExpr ⟨[keyword], body.tokens, by simp [Clause.tokens]⟩
  | @print keyword semicolon value _ hvalue =>
      obtain rfl := List.mem_singleton.mp he
      exact hvalue.readsExpr ⟨[keyword], [semicolon], rfl⟩
  | @varWith keyword nameToken equal semicolon name value _ _ _ _ hvalue =>
      obtain rfl := List.mem_singleton.mp he
      exact hvalue.readsExpr ⟨[keyword, nameToken, equal], [semicolon], rfl⟩
  | @assignTo keyword toToken nameToken semicolon name value _ _ hvalue =>
      obtain rfl := List.mem_singleton.mp he
      exact hvalue.readsExpr ⟨[keyword], [toToken, nameToken, semicolon], rfl⟩
  | @assign nameToken equal semicolon name value _ _ _ hvalue =>
      obtain rfl := List.mem_singleton.mp he
      exact hvalue.readsExpr ⟨[nameToken, equal], [semicolon], rfl⟩
  | @expr value semicolon hvalue =>
      obtain rfl := List.mem_singleton.mp he
      exact hvalue.readsExpr ⟨[], [semicolon], rfl⟩

/-- The nodes of a statement are derived from some of its tokens. -/
theorem ReadsStmt.within {d : Dialect} {tokens : List Token} {s outer : Stmt}
    (houter : ReadsStmt d tokens outer) (h : s.Within outer) : ReadsStmt d tokens s := by
  induction h with
  | self => exact houter
  | child hmem _ ih =>
      obtain ⟨c, hc, rfl, htokens⟩ := houter
      exact ih ((hc.readsStmt_child hmem).mono htokens)

end Grammar

open Grammar

namespace Source

/-! ## Reading what a node covers -/

variable {s : Source} {d : Dialect} {tokens : List Token}

/-- The text from the first to the last of some tokens has these tokens, and none of them starts
before that text does. -/
theorem tokens_cover {before part behind more front : List Token} {first last : Token}
    (h : s.tokens = .ok (before ++ part ++ behind)) (hfirst : part = first :: more)
    (hlast : part = front ++ [last]) {span : Span} (hspan : span = first.span.join last.span)
    (name : String) :
    Source.tokens ⟨name, s.slice span⟩ = .ok (part.map (Token.unshift span.start)) ∧
      ∀ token ∈ part, span.start ≤ token.span.start := by
  have hordered : Ordered part := (ordered_tokens h).1.left.right
  -- in order, so the first token starts first and the last one ends last
  have hle : ∀ token ∈ part, first.span.start ≤ token.span.start ∧
      first.span.stop ≤ token.span.stop := by
    intro token htoken
    rw [hfirst] at hordered htoken
    rcases List.mem_cons.mp htoken with rfl | htoken
    · exact ⟨Nat.le_refl _, Nat.le_refl _⟩
    · exact start_le_of_stop_le (hordered.head htoken)
  have hmem : last ∈ part := by
    rw [hlast]
    exact List.mem_append_right _ (List.mem_singleton.mpr rfl)
  have hends := hle last hmem
  -- which makes these two the ends of the span
  have hstart : span.start = first.span.start := by
    rw [hspan, Span.start_join]
    omega
  have hstop : span.stop = last.span.stop := by
    rw [hspan, Span.stop_join]
    omega
  refine ⟨tokens_slice h hfirst hlast hstart hstop name, fun token htoken => ?_⟩
  rw [hstart]
  exact (hle token htoken).1

theorem parseExpr_of_derives (htokens : s.tokens = .ok tokens) {p : Phrase}
    (h : p.Derives tokens) :
    s.parseExpr = .ok p.built := by
  rw [parseExpr, htokens]
  exact read_expr_eq_ok_iff.mpr ⟨p, h, rfl⟩

theorem parse_of_derives (htokens : s.tokens = .ok tokens) {clauses : List Clause}
    (h : Derives d clauses tokens) : s.parse d = .ok (Clause.builtAll clauses) := by
  rw [parse, htokens]
  exact read_program_eq_ok_iff.mpr ⟨clauses, h, rfl⟩

/-- Reading the text that an expression covers gives the expression. -/
theorem parseExpr_slice (htokens : s.tokens = .ok tokens) {e : Expr} (h : ReadsExpr tokens e)
    (name : String) :
    (Source.parseExpr ⟨name, s.slice e.span⟩).map (Expr.shift e.span.start) = .ok e := by
  obtain ⟨p, hp, rfl, before, behind, rfl⟩ := h
  obtain ⟨more, hmore⟩ := p.exists_tokens_eq_head_cons
  obtain ⟨front, hfront⟩ := p.exists_tokens_eq_append_last
  have hspan := p.span_built (ordered_tokens htokens).1.left.right
  -- the text that is covered has the tokens of the derivation, moved to its start
  obtain ⟨hslice, hplaces⟩ := tokens_cover htokens hmore hfront hspan name
  -- the rules do not look at places, so what was derived is derived there too
  have hmoved : (p.mapTokens (Token.unshift p.built.span.start)).Derives
      (p.tokens.map (Token.unshift p.built.span.start)) :=
    ⟨hp.mapTokens (Token.lexeme_unshift _), p.tokens_mapTokens _⟩
  rw [parseExpr_of_derives hslice hmoved]
  exact congrArg Except.ok (Phrase.shift_built_unshift hplaces)

/-- Reading the text that a statement covers gives the statement and no other. -/
theorem parse_slice (htokens : s.tokens = .ok tokens) {st : Stmt} (h : ReadsStmt d tokens st)
    (name : String) :
    (Source.parse ⟨name, s.slice st.span⟩ d).map (Stmt.shiftAll st.span.start) = .ok [st] := by
  obtain ⟨c, hc, rfl, before, behind, rfl⟩ := h
  obtain ⟨more, hmore⟩ := c.exists_tokens_eq_head_cons
  obtain ⟨front, hfront⟩ := c.exists_tokens_eq_append_last
  have hspan := c.span_built (ordered_tokens htokens).1.left.right
  obtain ⟨hslice, hplaces⟩ := tokens_cover htokens hmore hfront hspan name
  -- a derivation of one statement is one of a program
  have hmoved : Derives d [c.mapTokens (Token.unshift c.built.span.start)]
      (c.tokens.map (Token.unshift c.built.span.start)) := by
    refine ⟨List.forall_mem_singleton.mpr (hc.mapTokens (Token.lexeme_unshift _)), ?_⟩
    rw [Clause.tokensAll, Clause.tokensAll, List.append_nil, c.tokens_mapTokens]
  rw [parse_of_derives hslice hmoved]
  exact congrArg (fun st => Except.ok [st]) (Clause.shift_built_unshift hplaces)

/-- **Spans are faithful**: reading the text that a node covers gives back the node. The text of
an expression is an expression, and the text of a statement is a program of this one statement;
both are the node after all their spans have been moved right to where the node starts. -/
theorem reparse_nodes {program : List Stmt} (hparse : s.parse d = .ok program) (name : String) :
    (∀ e : Expr, e.Of program →
      (Source.parseExpr ⟨name, s.slice e.span⟩).map (Expr.shift e.span.start) = .ok e) ∧
    ∀ st : Stmt, st.Of program →
      (Source.parse ⟨name, s.slice st.span⟩ d).map (Stmt.shiftAll st.span.start) = .ok [st] := by
  obtain ⟨tokens, clauses, htokens, ⟨his, rfl⟩, rfl⟩ := Source.exists_derives hparse
  -- every statement at any depth has a derivation from a stretch of the tokens
  have hstmt {st : Stmt} (h : st.Of (Clause.builtAll clauses)) :
      ReadsStmt d (Clause.tokensAll clauses) st := by
    obtain ⟨outer, hmem, hwithin⟩ := h
    exact (readsStmt_of_mem his hmem).within hwithin
  refine ⟨fun e he => ?_, fun st hst => parse_slice htokens (hstmt hst) name⟩
  -- and an expression has one inside the stretch of its statement
  obtain ⟨st, hst, outer, hmem, hwithin⟩ := he
  obtain ⟨c, hc, rfl, hpart⟩ := hstmt hst
  exact parseExpr_slice htokens (((hc.readsExpr hmem).mono hpart).within hwithin) name

/-- A sum in parentheses, and a chain of branches with a comment in it. -/
def nested : Source :=
  ⟨"main", "x = (1 + 2) * 3; if a \x7b \x7d // \"\n else if b \x7b y = 4; \x7d"⟩

/-- The sum in the first statement of `nested`. -/
def nestedSum : Expr :=
  .binary (.ofLength 5 5) (.literal (.ofLength 5 1) (.int 1)) ⟨.ofLength 7 1, .arith .add⟩
    (.literal (.ofLength 9 1) (.int 2))

/-- The statement behind `else` in `nested`. -/
def nestedElse : Stmt :=
  .branch (.ofLength 37 15) (.ofLength 37 2) (.var (.ofLength 40 1) "b")
    (.block (.ofLength 42 10)
      [.assign (.ofLength 44 6) "y" (.literal (.ofLength 48 1) (.int 4))]) none

/-- The program of `nested`. -/
def nestedProgram : List Stmt :=
  [.assign (.ofLength 0 16) "x"
    (.binary (.ofLength 4 11) (.paren (.ofLength 4 7) nestedSum) ⟨.ofLength 12 1, .arith .multiply⟩
      (.literal (.ofLength 14 1) (.int 3))),
   .branch (.ofLength 17 35) (.ofLength 17 2) (.var (.ofLength 20 1) "a")
    (.block (.ofLength 22 3) []) (some nestedElse)]

/-- The sum and the second branch are read again from their own texts, in which neither the product
around the sum nor the first branch is left. -/
theorem reparse_nodes_nested :
    nested.parse {} = .ok nestedProgram ∧
      (Source.parseExpr ⟨"sum", "1 + 2"⟩).map (Expr.shift 5) = .ok nestedSum ∧
      (Source.parse ⟨"branch", "if b \x7b y = 4; \x7d"⟩ {}).map (Stmt.shiftAll 37) =
        .ok [nestedElse] := by
  have hparse : nested.parse {} = .ok nestedProgram := by cbv
  have hsum : nested.slice nestedSum.span = "1 + 2" := by decide +kernel
  have hbranch : nested.slice nestedElse.span = "if b \x7b y = 4; \x7d" := by decide +kernel
  refine ⟨hparse, ?_, ?_⟩
  · rw [← hsum]
    refine (reparse_nodes hparse "sum").1 nestedSum ⟨_, ⟨_, List.mem_cons_self, .self⟩, _,
      List.mem_cons_self, ?_⟩
    exact .child List.mem_cons_self (.child List.mem_cons_self .self)
  · rw [← hbranch]
    refine (reparse_nodes hparse "branch").2 nestedElse
      ⟨_, List.mem_cons_of_mem _ List.mem_cons_self, .child ?_ .self⟩
    exact List.mem_cons_of_mem _ List.mem_cons_self

end Source

end Stepwise
