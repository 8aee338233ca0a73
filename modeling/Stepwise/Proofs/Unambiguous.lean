import Stepwise.Proofs.ProgramReading

/-!
# The grammar is unambiguous

A derivation is determined by its tokens. The reader is a function, so two derivations from
the same tokens build the same tree; and a tree together with the tokens in front of it
leaves one derivation only (`Phrase.determined`, `Clause.Is.determined`). There is one lemma
for each form of statement.
-/

namespace Stepwise.Grammar

theorem operation_inj {span span' : Span} {left left' right right' : Expr}
    {op op' : Located InfixOp}
    (h : operation span left op right = operation span' left' op' right') :
    left = left' ∧ op.value = op'.value ∧ right = right' := by
  obtain ⟨sign, o⟩ := op
  obtain ⟨sign', o'⟩ := op'
  cases o <;> cases o'
  case shortCircuit.binary => cases h
  case binary.shortCircuit => cases h
  all_goals
    injection h with _ hleft hop hright
    injection hop with _ hop
    subst hop
    exact ⟨hleft, rfl, hright⟩

theorem Arguments.built_ne_nil (a : Arguments) : a.built ≠ [] := by
  cases a <;> simp [Arguments.built]

/-- Whether no other derivation of an expression builds the same tree from the same tokens. Other
tokens may follow. -/
def Phrase.Determined (p : Phrase) : Prop :=
  ∀ ⦃p' : Phrase⦄ ⦃rest rest' : List Token⦄, p.built = p'.built →
    p.tokens ++ rest = p'.tokens ++ rest' → p = p' ∧ rest = rest'

/-- The same of the arguments of a call. -/
def Arguments.Determined (a : Arguments) : Prop :=
  ∀ ⦃a' : Arguments⦄ ⦃rest rest' : List Token⦄, a.built = a'.built →
    a.tokens ++ rest = a'.tokens ++ rest' → a = a' ∧ rest = rest'

/-- The token behind an expression is determined with it. -/
theorem Phrase.Determined.ended {p p' : Phrase} {token token' : Token} {rest rest' : List Token}
    (h : p.Determined) (hbuilt : p.built = p'.built)
    (htokens : p.tokens ++ token :: rest = p'.tokens ++ token' :: rest') :
    p = p' ∧ token = token' ∧ rest = rest' := by
  obtain ⟨hp, hafter⟩ := h hbuilt htokens
  injection hafter with htoken hrest
  exact ⟨hp, htoken, hrest⟩

mutual

/-- **The tree and the tokens determine the derivation of an expression.** -/
theorem Phrase.determined : (p : Phrase) → p.Determined
  | .var token name => by
      intro p' rest rest' hbuilt htokens
      cases p' with
      | var token' name' =>
          injection hbuilt with _ hname
          injection htokens with htoken hrest
          subst hname htoken
          exact ⟨rfl, hrest⟩
      | binary op left sign right => cases op <;> cases hbuilt
      | _ => cases hbuilt
  | .literal token v => by
      intro p' rest rest' hbuilt htokens
      cases p' with
      | literal token' v' =>
          injection hbuilt with _ hv
          injection htokens with htoken hrest
          subst hv htoken
          exact ⟨rfl, hrest⟩
      | binary op left sign right => cases op <;> cases hbuilt
      | _ => cases hbuilt
  | .paren opener inner closer => by
      intro p' rest rest' hbuilt htokens
      cases p' with
      | paren opener' inner' closer' =>
          injection hbuilt with _ hinner
          simp only [Phrase.tokens, List.cons_append, List.append_assoc,
            List.cons.injEq] at htokens
          obtain ⟨rfl, hafter⟩ := htokens
          obtain ⟨rfl, rfl, hrest⟩ := inner.determined.ended hinner hafter
          exact ⟨rfl, hrest⟩
      | binary op left sign right => cases op <;> cases hbuilt
      | _ => cases hbuilt
  | .call callee opener closer => by
      intro p' rest rest' hbuilt htokens
      cases p' with
      | call callee' opener' closer' =>
          injection hbuilt with _ hcallee
          simp only [Phrase.tokens, List.append_assoc] at htokens
          obtain ⟨rfl, rfl, hclose⟩ := callee.determined.ended hcallee htokens
          injection hclose with hcloser hrest
          subst hcloser
          exact ⟨rfl, hrest⟩
      | callWith callee' opener' arguments' closer' =>
          -- a list of arguments that has been written down is not empty
          injection hbuilt with _ _ harguments
          exact absurd harguments.symm arguments'.built_ne_nil
      | binary op left sign right => cases op <;> cases hbuilt
      | _ => cases hbuilt
  | .callWith callee opener arguments closer => by
      intro p' rest rest' hbuilt htokens
      cases p' with
      | call callee' opener' closer' =>
          injection hbuilt with _ _ harguments
          exact absurd harguments arguments.built_ne_nil
      | callWith callee' opener' arguments' closer' =>
          injection hbuilt with _ hcallee harguments
          simp only [Phrase.tokens, List.append_assoc, List.cons_append] at htokens
          obtain ⟨rfl, rfl, hinner⟩ := callee.determined.ended hcallee htokens
          obtain ⟨rfl, hclose⟩ := arguments.determined harguments hinner
          injection hclose with hcloser hrest
          subst hcloser
          exact ⟨rfl, hrest⟩
      | binary op left sign right => cases op <;> cases hbuilt
      | _ => cases hbuilt
  | .unary op sign operand => by
      intro p' rest rest' hbuilt htokens
      cases p' with
      | unary op' sign' operand' =>
          injection hbuilt with _ hop hoperand
          injection hop with _ hop
          injection htokens with hsign hafter
          obtain ⟨rfl, hrest⟩ := operand.determined hoperand hafter
          subst hop hsign
          exact ⟨rfl, hrest⟩
      | binary op left sign right => cases op <;> cases hbuilt
      | _ => cases hbuilt
  | .binary op left sign right => by
      intro p' rest rest' hbuilt htokens
      cases p' with
      | binary op' left' sign' right' =>
          obtain ⟨hleft, hop, hright⟩ := operation_inj hbuilt
          simp only [Phrase.tokens, List.append_assoc, List.cons_append] at htokens
          obtain ⟨rfl, rfl, hafter⟩ := left.determined.ended hleft htokens
          obtain ⟨rfl, hrest⟩ := right.determined hright hafter
          obtain rfl : op = op' := hop
          exact ⟨rfl, hrest⟩
      | _ => cases op <;> cases hbuilt

theorem Arguments.determined : (a : Arguments) → a.Determined
  | .first argument => by
      intro a' rest rest' hbuilt htokens
      cases a' with
      | first argument' =>
          injection hbuilt with hargument _
          obtain ⟨rfl, hrest⟩ := argument.determined hargument htokens
          exact ⟨rfl, hrest⟩
      | more earlier' comma' argument' =>
          -- one argument is less than two
          have hlen := congrArg List.length hbuilt
          simp [Arguments.built] at hlen
          exact absurd hlen earlier'.built_ne_nil
  | .more earlier comma argument => by
      intro a' rest rest' hbuilt htokens
      cases a' with
      | first argument' =>
          have hlen := congrArg List.length hbuilt
          simp [Arguments.built] at hlen
          exact absurd hlen earlier.built_ne_nil
      | more earlier' comma' argument' =>
          obtain ⟨hearlier, hargument⟩ := List.append_inj' hbuilt rfl
          injection hargument with hargument _
          simp only [Arguments.tokens, List.append_assoc, List.cons_append] at htokens
          obtain ⟨rfl, hafter⟩ := earlier.determined hearlier htokens
          injection hafter with hcomma hafter
          obtain ⟨rfl, hrest⟩ := argument.determined hargument hafter
          subst hcomma
          exact ⟨rfl, hrest⟩

end

/-! ## Statements -/

section Statements

variable {d : Dialect}

/-- Whether no other derivation of a statement builds the same tree from the same tokens. -/
def Clause.Determined (d : Dialect) (c : Clause) : Prop :=
  ∀ ⦃c' : Clause⦄ ⦃rest rest' : List Token⦄, c'.Is d → c.built = c'.built →
    c.tokens ++ rest = c'.tokens ++ rest' → c = c' ∧ rest = rest'

/-- Statements that are determined make up a list that is determined. -/
theorem Clause.determinedAll {cs : List Clause} (h : ∀ c ∈ cs, c.Determined d) {cs' : List Clause}
    {rest rest' : List Token} (hcs' : ∀ c ∈ cs', c.Is d)
    (hbuilt : Clause.builtAll cs = Clause.builtAll cs')
    (htokens : Clause.tokensAll cs ++ rest = Clause.tokensAll cs' ++ rest') :
    cs = cs' ∧ rest = rest' := by
  induction cs generalizing cs' with
  | nil =>
      cases cs' with
      | nil => exact ⟨rfl, htokens⟩
      | cons c' cs' => cases hbuilt
  | cons c cs ih =>
      cases cs' with
      | nil => cases hbuilt
      | cons c' cs' =>
          obtain ⟨hc, hcs⟩ := List.forall_mem_cons.mp h
          obtain ⟨hc', hmore'⟩ := List.forall_mem_cons.mp hcs'
          injection hbuilt with hfirst hlist
          simp only [Clause.tokensAll, List.append_assoc] at htokens
          -- the first statements are the same, and so what is left of the tokens is
          obtain ⟨rfl, hafter⟩ := hc hc' hfirst htokens
          obtain ⟨rfl, hrest⟩ := ih hcs hmore' hlist hafter
          exact ⟨rfl, hrest⟩

/-- A token that two lists start with has one lexeme. -/
theorem lexeme_of_cons_eq {token token' : Token} {rest rest' : List Token} {l l' : Lexeme}
    (h : token :: rest = token' :: rest') (hl : token.lexeme = l) (hl' : token'.lexeme = l') :
    l = l' := by
  injection h with htoken _
  rw [← hl, ← hl', htoken]

namespace Clause.Determined

variable {keyword nameToken equal semicolon : Token} {name : String} {value condition : Phrase}
  {yes no body : Clause}

/-- What is done under a condition is determined with the condition. -/
theorem guarded (hbody : body.Determined d) {condition' : Phrase} {body' : Clause}
    {rest rest' : List Token} (hbody' : body'.Is d)
    (hcondition : condition.built = condition'.built)
    (hbuilt : body.built = body'.built)
    (htokens : condition.tokens ++ (body.tokens ++ rest) =
      condition'.tokens ++ (body'.tokens ++ rest')) :
    condition = condition' ∧ body = body' ∧ rest = rest' := by
  obtain ⟨hc, hafter⟩ := condition.determined hcondition htokens
  obtain ⟨hb, hrest⟩ := hbody hbody' hbuilt hafter
  exact ⟨hc, hb, hrest⟩

theorem block {opener closer : Token} {body : List Clause} (hbody : ∀ c ∈ body, c.Determined d) :
    (Clause.block opener body closer).Determined d := by
  intro c' rest rest' hc' hbuilt htokens
  cases hc' with
  | block _ hbody' _ =>
      injection hbuilt with _ hlist
      simp only [tokens, List.cons_append, List.append_assoc, List.cons.injEq] at htokens
      obtain ⟨rfl, hafter⟩ := htokens
      obtain ⟨rfl, hclose⟩ := determinedAll hbody hbody' hlist hafter
      injection hclose with hcloser hrest
      subst hcloser
      exact ⟨rfl, hrest⟩
  | _ => cases hbuilt

theorem branch (hyes : yes.Determined d) :
    (Clause.branch keyword condition yes).Determined d := by
  intro c' rest rest' hc' hbuilt htokens
  cases hc' with
  | branch _ _ hyes' _ =>
      injection hbuilt with _ _ hcondition hbody _
      simp only [tokens, List.cons_append, List.append_assoc, List.cons.injEq] at htokens
      obtain ⟨rfl, hafter⟩ := htokens
      obtain ⟨rfl, rfl, hrest⟩ := hyes.guarded hyes' hcondition hbody hafter
      exact ⟨rfl, hrest⟩
  | branchElse _ _ _ _ _ _ _ =>
      -- the trees differ in whether there is an `else`
      injection hbuilt with _ _ _ _ hinstead
      cases hinstead
  | _ => cases hbuilt

theorem branchElse {otherwise : Token} (hyes : yes.Determined d) (hno : no.Determined d) :
    (Clause.branchElse keyword condition yes otherwise no).Determined d := by
  intro c' rest rest' hc' hbuilt htokens
  cases hc' with
  | branchElse _ _ hyes' _ _ hno' _ =>
      injection hbuilt with _ _ hcondition hbody hinstead
      injection hinstead with hinstead
      simp only [tokens, List.cons_append, List.append_assoc, List.cons.injEq] at htokens
      obtain ⟨rfl, hafter⟩ := htokens
      obtain ⟨rfl, rfl, helse⟩ := hyes.guarded hyes' hcondition hbody hafter
      injection helse with hotherwise helse
      obtain ⟨rfl, hrest⟩ := hno hno' hinstead helse
      subst hotherwise
      exact ⟨rfl, hrest⟩
  | branch _ _ _ _ =>
      injection hbuilt with _ _ _ _ hinstead
      cases hinstead
  | _ => cases hbuilt

theorem loop (hbody : body.Determined d) : (Clause.loop keyword condition body).Determined d := by
  intro c' rest rest' hc' hbuilt htokens
  cases hc' with
  | loop _ _ hbody' _ =>
      injection hbuilt with _ _ hcondition hblock
      simp only [tokens, List.cons_append, List.append_assoc, List.cons.injEq] at htokens
      obtain ⟨rfl, hafter⟩ := htokens
      obtain ⟨rfl, rfl, hrest⟩ := hbody.guarded hbody' hcondition hblock hafter
      exact ⟨rfl, hrest⟩
  | _ => cases hbuilt

theorem print : (Clause.print keyword value semicolon).Determined d := by
  intro c' rest rest' hc' hbuilt htokens
  cases hc' with
  | print _ _ _ =>
      injection hbuilt with _ hvalue
      simp only [tokens, List.cons_append, List.append_assoc, List.cons.injEq] at htokens
      obtain ⟨rfl, hafter⟩ := htokens
      obtain ⟨rfl, rfl, hrest⟩ := value.determined.ended hvalue hafter
      exact ⟨rfl, hrest⟩
  | _ => cases hbuilt

theorem var (hvar : keyword.lexeme = .keyword .var) :
    (Clause.var keyword name nameToken semicolon).Determined d := by
  intro c' rest rest' hc' hbuilt htokens
  cases hc' with
  | var _ _ _ _ =>
      injection hbuilt with _ hname _
      simp only [tokens, List.cons_append, List.nil_append, List.cons.injEq] at htokens
      obtain ⟨rfl, rfl, rfl, hrest⟩ := htokens
      subst hname
      exact ⟨rfl, hrest⟩
  | makeVar _ hmake _ _ _ =>
      -- the trees are the same, but not the keywords
      cases lexeme_of_cons_eq htokens hvar hmake
  | varWith _ _ _ _ _ _ =>
      injection hbuilt with _ _ hvalue
      cases hvalue
  | _ => cases hbuilt

theorem varWith :
    (Clause.varWith keyword name nameToken equal value semicolon).Determined d := by
  intro c' rest rest' hc' hbuilt htokens
  cases hc' with
  | varWith _ _ _ _ _ _ =>
      injection hbuilt with _ hname hvalue
      injection hvalue with hvalue
      simp only [tokens, List.cons_append, List.append_assoc, List.cons.injEq] at htokens
      obtain ⟨rfl, rfl, rfl, hafter⟩ := htokens
      obtain ⟨rfl, rfl, hrest⟩ := value.determined.ended hvalue hafter
      subst hname
      exact ⟨rfl, hrest⟩
  | var _ _ _ _ =>
      injection hbuilt with _ _ hvalue
      cases hvalue
  | makeVar _ _ _ _ _ =>
      injection hbuilt with _ _ hvalue
      cases hvalue
  | _ => cases hbuilt

theorem makeVar {varToken : Token} (hmake : keyword.lexeme = .keyword .make) :
    (Clause.makeVar keyword varToken name nameToken semicolon).Determined d := by
  intro c' rest rest' hc' hbuilt htokens
  cases hc' with
  | makeVar _ _ _ _ _ =>
      injection hbuilt with _ hname _
      simp only [tokens, List.cons_append, List.nil_append, List.cons.injEq] at htokens
      obtain ⟨rfl, rfl, rfl, rfl, hrest⟩ := htokens
      subst hname
      exact ⟨rfl, hrest⟩
  | var _ hvar _ _ => cases lexeme_of_cons_eq htokens hmake hvar
  | varWith _ _ _ _ _ _ =>
      injection hbuilt with _ _ hvalue
      cases hvalue
  | _ => cases hbuilt

theorem assignTo {toToken : Token} (hassign : keyword.lexeme = .keyword .assign) :
    (Clause.assignTo keyword value toToken name nameToken semicolon).Determined d := by
  intro c' rest rest' hc' hbuilt htokens
  cases hc' with
  | assignTo _ _ _ _ _ _ =>
      injection hbuilt with _ hname hvalue
      simp only [tokens, List.cons_append, List.append_assoc, List.cons.injEq] at htokens
      obtain ⟨rfl, hafter⟩ := htokens
      obtain ⟨rfl, rfl, htarget⟩ := value.determined.ended hvalue hafter
      simp only [List.nil_append, List.cons.injEq] at htarget
      obtain ⟨rfl, rfl, hrest⟩ := htarget
      subst hname
      exact ⟨rfl, hrest⟩
  | assign _ hname _ _ _ =>
      -- the trees are the same, but one form starts with a keyword and the other with a name
      cases lexeme_of_cons_eq htokens hassign hname
  | _ => cases hbuilt

theorem assign (hname : nameToken.lexeme = .identifier name) :
    (Clause.assign name nameToken equal value semicolon).Determined d := by
  intro c' rest rest' hc' hbuilt htokens
  cases hc' with
  | assign _ _ _ _ _ =>
      injection hbuilt with _ hnames hvalue
      simp only [tokens, List.cons_append, List.append_assoc, List.cons.injEq] at htokens
      obtain ⟨rfl, rfl, hafter⟩ := htokens
      obtain ⟨rfl, rfl, hrest⟩ := value.determined.ended hvalue hafter
      subst hnames
      exact ⟨rfl, hrest⟩
  | assignTo _ hassign _ _ _ _ => cases lexeme_of_cons_eq htokens hname hassign
  | _ => cases hbuilt

theorem expr : (Clause.expr value semicolon).Determined d := by
  intro c' rest rest' hc' hbuilt htokens
  cases hc' with
  | expr _ _ =>
      injection hbuilt with _ hvalue
      simp only [tokens, List.append_assoc] at htokens
      obtain ⟨rfl, rfl, hrest⟩ := value.determined.ended hvalue htokens
      exact ⟨rfl, hrest⟩
  | _ => cases hbuilt

end Clause.Determined

/-- **The tree and the tokens determine the derivation of a statement**: where two forms build the
same tree, they start with different tokens. -/
theorem Clause.Is.determined {c : Clause} (h : c.Is d) : c.Determined d := by
  induction h with
  | block _ _ _ ih => exact .block ih
  | branch _ _ _ _ ih => exact .branch ih
  | branchElse _ _ _ _ _ _ _ ihyes ihno => exact .branchElse ihyes ihno
  | loop _ _ _ _ ih => exact .loop ih
  | print _ _ _ => exact .print
  | var _ hvar _ _ => exact .var hvar
  | varWith _ _ _ _ _ _ => exact .varWith
  | makeVar _ hmake _ _ _ => exact .makeVar hmake
  | assignTo _ hassign _ _ _ _ => exact .assignTo hassign
  | assign _ hname _ _ _ => exact .assign hname
  | expr _ _ => exact .expr

end Statements

/-! ## The language that is read -/

theorem Phrase.Derives.unique {p p' : Phrase} {tokens : List Token} (h : p.Derives tokens)
    (h' : p'.Derives tokens) : p = p' := by
  -- Where the text ends does not matter for what is read.
  have hread : ExprReader.read tokens (.ofLength 0 0) = .ok p.built :=
    read_expr_eq_ok_iff.mpr ⟨p, h, rfl⟩
  have hread' : ExprReader.read tokens (.ofLength 0 0) = .ok p'.built :=
    read_expr_eq_ok_iff.mpr ⟨p', h', rfl⟩
  rw [hread] at hread'
  injection hread' with hbuilt
  have htokens : p.tokens ++ [] = p'.tokens ++ [] := by rw [h.2, h'.2]
  exact (p.determined hbuilt htokens).1

theorem Derives.unique {d : Dialect} {clauses clauses' : List Clause} {tokens : List Token}
    (h : Derives d clauses tokens) (h' : Derives d clauses' tokens) : clauses = clauses' := by
  have hread : ProgramReader.read d tokens (.ofLength 0 0) = .ok (Clause.builtAll clauses) :=
    read_program_eq_ok_iff.mpr ⟨clauses, h, rfl⟩
  have hread' : ProgramReader.read d tokens (.ofLength 0 0) = .ok (Clause.builtAll clauses') :=
    read_program_eq_ok_iff.mpr ⟨clauses', h', rfl⟩
  rw [hread] at hread'
  injection hread' with hbuilt
  have htokens : Clause.tokensAll clauses ++ [] = Clause.tokensAll clauses' ++ [] := by
    rw [h.2, h'.2]
  exact (Clause.determinedAll (fun c hc => (h.1 c hc).determined) h'.1 hbuilt htokens).1

/-- Among tokens that are in order, what a derived program builds is what its tokens cover. -/
theorem read_program_eq_ok_iff_stmts {tokens : List Token} (hordered : Ordered tokens)
    {endSpan : Span} {d : Dialect} {program : List Stmt} :
    ProgramReader.read d tokens endSpan = .ok program ↔
      ∃ clauses, Derives d clauses tokens ∧ Clause.stmts clauses = program := by
  rw [read_program_eq_ok_iff]
  refine exists_congr fun clauses => and_congr_right fun hderives => ?_
  rw [Clause.builtAll_eq_stmts clauses (by rw [hderives.2]; exact hordered)]

/-- The same of an expression. -/
theorem read_expr_eq_ok_iff_expr {tokens : List Token} (hordered : Ordered tokens)
    {endSpan : Span} {e : Expr} :
    ExprReader.read tokens endSpan = .ok e ↔ ∃ p : Phrase, p.Derives tokens ∧ p.expr = e := by
  rw [read_expr_eq_ok_iff]
  refine exists_congr fun p => and_congr_right fun hderives => ?_
  rw [p.built_eq_expr (by rw [hderives.2]; exact hordered)]

/-- **Reading accepts exactly the grammar and builds its trees.** A program or an expression is
read from tokens just if it is derived from them, with the span of every node going from its first
to its last token; and there is only one derivation. -/
theorem read_eq_ok_iff_derives {tokens : List Token} (hordered : Ordered tokens) (endSpan : Span) :
    (∀ d program, ProgramReader.read d tokens endSpan = .ok program ↔
      ∃ clauses, Derives d clauses tokens ∧ Clause.stmts clauses = program) ∧
    (∀ d clauses clauses', Derives d clauses tokens → Derives d clauses' tokens →
      clauses = clauses') ∧
    (∀ e, ExprReader.read tokens endSpan = .ok e ↔
      ∃ p : Phrase, p.Derives tokens ∧ p.expr = e) ∧
    (∀ p p' : Phrase, p.Derives tokens → p'.Derives tokens → p = p') := by
  refine ⟨?_, fun _ _ _ => Derives.unique, ?_, fun _ _ => Phrase.Derives.unique⟩
  · intro d program
    exact read_program_eq_ok_iff_stmts hordered
  · intro e
    exact read_expr_eq_ok_iff_expr hordered

/-- The tokens of `if a {} else if b { x = 1 - 2 * 3 - 4; }`. -/
def chainTokens : List Token :=
  [⟨.keyword .if, .ofLength 0 2⟩, ⟨.identifier "a", .ofLength 3 1⟩,
   ⟨.symbol .leftBrace, .ofLength 5 1⟩, ⟨.symbol .rightBrace, .ofLength 6 1⟩,
   ⟨.keyword .else, .ofLength 8 4⟩, ⟨.keyword .if, .ofLength 13 2⟩,
   ⟨.identifier "b", .ofLength 16 1⟩, ⟨.symbol .leftBrace, .ofLength 18 1⟩,
   ⟨.identifier "x", .ofLength 20 1⟩, ⟨.symbol .equal, .ofLength 22 1⟩,
   ⟨.int 1, .ofLength 24 1⟩, ⟨.symbol .minus, .ofLength 26 1⟩, ⟨.int 2, .ofLength 28 1⟩,
   ⟨.symbol .star, .ofLength 30 1⟩, ⟨.int 3, .ofLength 32 1⟩,
   ⟨.symbol .minus, .ofLength 34 1⟩, ⟨.int 4, .ofLength 36 1⟩,
   ⟨.symbol .semicolon, .ofLength 37 1⟩, ⟨.symbol .rightBrace, .ofLength 39 1⟩]

/-- The chain has one derivation, in which the difference is that of a difference and `4`. -/
theorem read_eq_ok_iff_derives_chain :
    Ordered chainTokens ∧
      ∃ clauses, Derives {} clauses chainTokens ∧
        (∀ clauses', Derives {} clauses' chainTokens → clauses' = clauses) ∧
        Clause.stmts clauses =
          [.branch (.ofLength 0 40) (.ofLength 0 2) (.var (.ofLength 3 1) "a")
            (.block (.ofLength 5 2) [])
            (some (.branch (.ofLength 13 27) (.ofLength 13 2) (.var (.ofLength 16 1) "b")
              (.block (.ofLength 18 22)
                [.assign (.ofLength 20 18) "x"
                  (.binary (.ofLength 24 13)
                    (.binary (.ofLength 24 9) (.literal (.ofLength 24 1) (.int 1))
                      ⟨.ofLength 26 1, .arith .subtract⟩
                      (.binary (.ofLength 28 5) (.literal (.ofLength 28 1) (.int 2))
                        ⟨.ofLength 30 1, .arith .multiply⟩ (.literal (.ofLength 32 1) (.int 3))))
                    ⟨.ofLength 34 1, .arith .subtract⟩ (.literal (.ofLength 36 1) (.int 4)))])
              none))] := by
  have hordered : Ordered chainTokens := by
    unfold Ordered
    decide
  have hread := read_eq_ok_iff_derives hordered (.ofLength 40 0)
  obtain ⟨clauses, hderives, hstmts⟩ := (hread.1 {} _).mp rfl
  exact ⟨hordered, clauses, hderives, fun clauses' h => hread.2.1 {} clauses' clauses h hderives,
    hstmts⟩

end Stepwise.Grammar
