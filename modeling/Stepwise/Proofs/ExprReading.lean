import Stepwise.Proofs.GrammarSpan

/-!
# Reading expressions by the grammar

The reader takes a token at a time and keeps a stack of operators that wait for their right
operand. The grammar has one rule for each tier. Both directions go through what the stack means:

* `Phrase.Is.shifts`: the tokens of a phrase of tier `k`, read behind operators that bind less
  tightly, leave an operand and further operators of tier `k` and above, which together make up the
  phrase. Each form of phrase has its own lemma (`Phrase.Shifted`);
* `ExprRead` says which tokens a reader has taken, as the derivations that its stack holds. Every
  token that the reader takes keeps it (`ExprRead.step`), so whatever is read to its end has a
  derivation.
-/

/-! ## Operators that wait for an operand -/

namespace Stepwise.PendingOp

theorem level_le_six (q : PendingOp) : q.level ≤ 6 := by
  cases q with
  | unary op => exact Nat.le_refl 6
  | binary left op =>
      obtain ⟨span, op⟩ := op
      cases op with
      | shortCircuit o => cases o <;> simp [level, InfixOp.level]
      | binary o =>
          cases o with
          | compare c => cases c <;> simp [level, InfixOp.level]
          | arith a => cases a <;> simp [level, InfixOp.level]

theorem reduce_append {k : Nat} {ops : List PendingOp} (hops : ∀ q ∈ ops.head?, q.level < k) :
    ∀ (front : List PendingOp) (e : Expr), (∀ q ∈ front, k ≤ q.level) →
      reduce k e (front ++ ops) = (ops, fillAll e front) := by
  intro front
  induction front with
  | nil =>
      intro e _
      cases ops with
      | nil => rfl
      | cons q ops =>
          have hq : q.level < k := hops q rfl
          simp only [List.nil_append, reduce, Nat.not_le.mpr hq, if_false]
          rfl
  | cons q front ih =>
      intro e hfront
      have hq : k ≤ q.level := hfront q List.mem_cons_self
      simp only [List.cons_append, reduce, hq, if_true]
      exact ih _ fun p hp => hfront p (List.mem_cons_of_mem _ hp)

theorem fillAll_append (e : Expr) (front : List PendingOp) (q : PendingOp) :
    fillAll e (front ++ [q]) = q.fill (fillAll e front) := by
  simp [fillAll]

end Stepwise.PendingOp

namespace Stepwise.Grammar

/-! ## Operators and tiers -/

theorem stands_iff {k : Nat} {s : Symbol} {op : InfixOp} :
    Stands k s op ↔ InfixOp.ofSymbol? s = some op ∧ op.level = k := by
  constructor
  · intro ⟨tier, htier, hmem⟩
    -- tier by tier, and in each tier operator by operator
    rcases k with _ | _ | _ | _ | _ | _ | k
    all_goals
      simp only [tiers, List.getElem?_cons_zero, List.getElem?_cons_succ, List.getElem?_nil,
        Option.some.injEq, reduceCtorEq] at htier
    all_goals
      subst htier
      simp only [List.mem_cons, List.not_mem_nil, or_false, Prod.mk.injEq] at hmem
    · obtain ⟨rfl, rfl⟩ := hmem
      exact ⟨rfl, rfl⟩
    · obtain ⟨rfl, rfl⟩ := hmem
      exact ⟨rfl, rfl⟩
    · rcases hmem with ⟨rfl, rfl⟩ | ⟨rfl, rfl⟩ <;> exact ⟨rfl, rfl⟩
    · rcases hmem with ⟨rfl, rfl⟩ | ⟨rfl, rfl⟩ | ⟨rfl, rfl⟩ | ⟨rfl, rfl⟩ <;> exact ⟨rfl, rfl⟩
    · rcases hmem with ⟨rfl, rfl⟩ | ⟨rfl, rfl⟩ <;> exact ⟨rfl, rfl⟩
    · rcases hmem with ⟨rfl, rfl⟩ | ⟨rfl, rfl⟩ | ⟨rfl, rfl⟩ <;> exact ⟨rfl, rfl⟩
  · intro ⟨hs, hk⟩
    subst hk
    cases s
    all_goals first
      | cases hs; done
      | (injection hs with hs; subst hs; exact ⟨_, rfl, by simp⟩)

theorem level_le {k : Nat} {s : Symbol} {op : InfixOp} (h : Stands k s op) : k ≤ 5 := by
  obtain ⟨tier, htier, _⟩ := h
  have hlt := (List.getElem?_eq_some_iff.mp htier).1
  have hlen : tiers.length = 6 := rfl
  omega

theorem mem_signs_iff {s : Symbol} {op : UnaryOp} :
    (s, op) ∈ signs ↔ UnaryOp.ofSign? s = some op := by
  constructor
  · intro h
    simp only [signs, List.mem_cons, List.not_mem_nil, or_false, Prod.mk.injEq] at h
    rcases h with ⟨rfl, rfl⟩ | ⟨rfl, rfl⟩ <;> rfl
  · intro h
    cases s
    all_goals first
      | cases h; done
      | (injection h with h; subst h; simp [signs])

/-- What may stand in a tier may stand in every looser one. -/
theorem Phrase.Is.mono {j k : Nat} {p : Phrase} (h : p.Is j) (hk : k ≤ j) : p.Is k := by
  obtain ⟨n, rfl⟩ := Nat.exists_eq_add_of_le hk
  clear hk
  induction n with
  | zero => exact h
  | succ n ih => exact ih (.tighter h)

theorem fill_binary (right left : Expr) (op : Located InfixOp) :
    (PendingOp.binary left op).fill right =
      operation (left.span.join right.span) left op right := by
  obtain ⟨span, o⟩ := op
  cases o <;> rfl

/-- The lexemes that an expression can start with. -/
def StartsExpr : Lexeme → Prop
  | .identifier _ | .int _ | .float _ | .string _ | .bool _ => True
  | .symbol s => s = .leftParen ∨ s = .bang ∨ s = .minus
  | .keyword _ => False

theorem startsExpr_of_mem_signs {s : Symbol} {op : UnaryOp} (h : (s, op) ∈ signs) :
    StartsExpr (.symbol s) := by
  simp only [signs, List.mem_cons, List.not_mem_nil, or_false, Prod.mk.injEq] at h
  exact Or.inr (h.imp And.left And.left)

theorem startsExpr_of_value {lexeme : Lexeme} {v : Value} (h : lexeme.value? = some v) :
    StartsExpr lexeme := by
  cases lexeme with
  | symbol s => cases h
  | keyword w => cases h
  | _ => trivial

theorem Phrase.Is.startsExpr {k : Nat} {p : Phrase} (h : p.Is k) : StartsExpr p.head.lexeme := by
  -- nothing has to be known of argument lists: they never stand first
  refine @Phrase.Is.rec (fun _ p _ => StartsExpr p.head.lexeme) (fun _ _ => True)
    ?var ?literal ?paren ?call ?callWith ?unary ?binary ?tighter ?first ?more k p h
  case var =>
    intro token name hname
    rw [Phrase.head, hname]
    trivial
  case literal =>
    intro token v hvalue
    exact startsExpr_of_value hvalue
  case paren =>
    intro opener closer inner hopen _ _ _
    rw [Phrase.head, hopen]
    exact Or.inl rfl
  case call => exact fun _ _ _ hcallee => hcallee
  case callWith => exact fun _ _ _ _ hcallee _ => hcallee
  case unary =>
    intro op sign s operand hsign hop _ _
    rw [Phrase.head, hsign]
    exact startsExpr_of_mem_signs hop
  case binary => exact fun _ _ _ _ hleft _ => hleft
  case tighter => exact fun _ htight => htight
  all_goals
    intros
    trivial

/-! ## Every phrase is read -/

/-- Steps along a list of tokens, one for each. -/
inductive Along {σ : Type} (step : σ → Token → σ → Prop) : σ → List Token → σ → Prop where
  | nil {r : σ} : Along step r [] r
  | cons {r m r' : σ} {token : Token} {tokens : List Token} :
      step r token m → Along step m tokens r' → Along step r (token :: tokens) r'

theorem Along.one {σ : Type} {step : σ → Token → σ → Prop} {r r' : σ} {token : Token}
    (h : step r token r') : Along step r [token] r' :=
  .cons h .nil

theorem Along.append {σ : Type} {step : σ → Token → σ → Prop} {r m r' : σ}
    {front tokens : List Token} (hfront : Along step r front m) (h : Along step m tokens r') :
    Along step r (front ++ tokens) r' := by
  induction hfront with
  | nil => exact h
  | cons hstep _ ih => exact .cons hstep (ih h)

theorem foldlM_eq_ok_iff {σ ε : Type} {f : σ → Token → Except ε σ} {tokens : List Token}
    {r r' : σ} :
    tokens.foldlM f r = .ok r' ↔ Along (fun r token m => f r token = .ok m) r tokens r' := by
  induction tokens generalizing r with
  | nil =>
      constructor
      · intro h
        cases h
        exact .nil
      · intro h
        cases h
        rfl
  | cons token tokens ih =>
      rw [List.foldlM_cons]
      constructor
      · intro h
        cases hstep : f r token with
        | error err =>
            rw [hstep] at h
            cases h
        | ok m =>
            rw [hstep] at h
            exact .cons hstep (ih.mp h)
      · intro h
        cases h with
        | @cons _ m _ _ _ hstep h =>
            rw [hstep]
            exact ih.mpr h

/-- All of the tokens belong to the expression that is being read. -/
abbrev Shifts : ExprReader → List Token → ExprReader → Prop :=
  Along fun r token m => r.step token = .more m

/-- Nothing that waits for an operand binds as tightly as a call. -/
theorem front_eq_nil {front : List PendingOp} (h : ∀ q ∈ front, 7 ≤ q.level) : front = [] := by
  cases front with
  | nil => rfl
  | cons q front =>
      have hq := h q List.mem_cons_self
      have := q.level_le_six
      omega

theorem step_sign {s : Symbol} {op : UnaryOp} {sign : Token} (hsign : sign.lexeme = .symbol s)
    (hop : (s, op) ∈ signs) (ops : List PendingOp) (outer : List Enclosing) :
    ExprReader.step ⟨.operand, ops, outer⟩ sign =
      .more ⟨.operand, .unary ⟨sign.span, op⟩ :: ops, outer⟩ := by
  simp only [signs, List.mem_cons, List.not_mem_nil, or_false, Prod.mk.injEq] at hop
  rcases hop with ⟨rfl, rfl⟩ | ⟨rfl, rfl⟩ <;>
    simp only [ExprReader.step, ExprReader.stepOperand, hsign, UnaryOp.ofSign?]

theorem step_infixOp {s : Symbol} {op : InfixOp} {k : Nat} {sign : Token}
    (hsign : sign.lexeme = .symbol s) (hop : Stands k s op) (e : Expr) (ops : List PendingOp)
    (outer : List Enclosing) :
    ExprReader.step ⟨.after e, ops, outer⟩ sign =
      .more ⟨.operand, .binary (PendingOp.reduce k e ops).2 ⟨sign.span, op⟩ ::
        (PendingOp.reduce k e ops).1, outer⟩ := by
  obtain ⟨hs, rfl⟩ := stands_iff.mp hop
  have hparen : s ≠ .leftParen := by
    rintro rfl
    cases hs
  simp only [ExprReader.step, ExprReader.stepAfter, hsign, hs]

/-- The first token of an argument is read like that of any expression. -/
theorem Shifts.arguments {callee : Expr} {ops : List PendingOp} {outer : List Enclosing}
    {token : Token} {tokens : List Token} {r' : ExprReader} (hstart : StartsExpr token.lexeme)
    (h : Shifts ⟨.operand, [], ⟨.arguments callee [], ops⟩ :: outer⟩ (token :: tokens) r') :
    Shifts ⟨.arguments callee, ops, outer⟩ (token :: tokens) r' := by
  cases h with
  | cons hstep h =>
      refine .cons ?_ h
      rw [← hstep]
      simp only [ExprReader.step]
      split
      · rename_i heq
        rw [heq] at hstart
        rcases hstart with h | h | h <;> cases h
      · rfl

/-- The step of a token is that of its lexeme, at its place. -/
theorem step_of_lexeme {r : ExprReader} {token : Token} {l : Lexeme} {result : ExprReader.Step}
    (hl : token.lexeme = l) (h : r.step ⟨l, token.span⟩ = result) : r.step token = result := by
  subst hl
  exact h

/-- Whether a phrase is read to its end: behind operators that bind less tightly than tier `k`, its
tokens leave an operand and operators of the tier and above, which together make up the phrase. -/
def Phrase.Shifted (k : Nat) (p : Phrase) : Prop :=
  ∀ (ops : List PendingOp) (outer : List Enclosing), (k < 6 → ∀ q ∈ ops.head?, q.level < k) →
    ∃ e front, Shifts ⟨.operand, ops, outer⟩ p.tokens ⟨.after e, front ++ ops, outer⟩ ∧
      (∀ q ∈ front, k ≤ q.level) ∧ PendingOp.fillAll e front = p.built

/-- Whether arguments are read to their end: the last one may still go on, and the others are
complete. -/
def Arguments.Shifted (a : Arguments) : Prop :=
  ∀ (callee : Expr) (ops : List PendingOp) (outer : List Enclosing),
    ∃ e front args, Shifts ⟨.arguments callee, ops, outer⟩ a.tokens
        ⟨.after e, front, ⟨.arguments callee args, ops⟩ :: outer⟩ ∧
      args ++ [PendingOp.fillAll e front] = a.built

namespace Phrase.Shifted

variable {k : Nat} {opener closer sign : Token}

/-- A single token that is an operand. -/
theorem single {p : Phrase} {token : Token} (htokens : p.tokens = [token])
    (hstep : ∀ ops outer, ExprReader.step ⟨.operand, ops, outer⟩ token =
      .more ⟨.after p.built, ops, outer⟩) : p.Shifted k := by
  intro ops outer _
  refine ⟨p.built, [], ?_, nofun, rfl⟩
  rw [htokens]
  exact .one (hstep ops outer)

theorem literal {token : Token} {v : Value} (h : token.lexeme.value? = some v) :
    (Phrase.literal token v).Shifted k := by
  refine single rfl fun ops outer => ?_
  cases hl : token.lexeme with
  | symbol s => rw [hl] at h; cases h
  | keyword w => rw [hl] at h; cases h
  | identifier n => rw [hl] at h; cases h
  | _ =>
      rw [hl] at h
      cases h
      exact step_of_lexeme hl rfl

/-- An expression in a group of its own is complete at the end of the group, whatever waits outside
of it. -/
theorem enclosed {p : Phrase} (h : p.Shifted 0) (around : Enclosing) (outer : List Enclosing) :
    ∃ e front, Shifts ⟨.operand, [], around :: outer⟩ p.tokens ⟨.after e, front, around :: outer⟩ ∧
      PendingOp.fillAll e front = p.built := by
  obtain ⟨e, front, hshifts, _, hbuilt⟩ := h [] (around :: outer) nofun
  rw [List.append_nil] at hshifts
  exact ⟨e, front, hshifts, hbuilt⟩

theorem paren {inner : Phrase} (hopen : opener.lexeme = .symbol .leftParen)
    (hinner : inner.Shifted 0) (hclose : closer.lexeme = .symbol .rightParen) :
    (Phrase.paren opener inner closer).Shifted k := by
  intro ops outer _
  -- the operators in front of the group wait outside of it
  obtain ⟨e, front, hshifts, hbuilt⟩ := hinner.enclosed ⟨.paren opener.span, ops⟩ outer
  refine ⟨.paren (opener.span.join closer.span) inner.built, [],
    .cons (step_of_lexeme hopen rfl) (hshifts.append (.one ?_)), nofun, rfl⟩
  rw [← hbuilt]
  exact step_of_lexeme hclose rfl

/-- A callee is complete in front of its arguments: no operator has a tier above the sixth, so it
leaves none behind. -/
theorem called {callee : Phrase} (h : callee.Shifted 7)
    (hopen : opener.lexeme = .symbol .leftParen) (ops : List PendingOp) (outer : List Enclosing) :
    Shifts ⟨.operand, ops, outer⟩ (callee.tokens ++ [opener])
      ⟨.arguments callee.built, ops, outer⟩ := by
  obtain ⟨e, front, hshifts, hfront, hbuilt⟩ := h ops outer (by omega)
  obtain rfl := front_eq_nil hfront
  obtain rfl : e = callee.built := hbuilt
  exact hshifts.append (.one (step_of_lexeme hopen rfl))

theorem call {callee : Phrase} (hcallee : callee.Shifted 7)
    (hopen : opener.lexeme = .symbol .leftParen) (hclose : closer.lexeme = .symbol .rightParen) :
    (Phrase.call callee opener closer).Shifted k := by
  intro ops outer _
  refine ⟨_, [], ?_, nofun, rfl⟩
  rw [Phrase.tokens, List.append_cons]
  exact (hcallee.called hopen ops outer).append (.one (step_of_lexeme hclose rfl))

theorem callWith {callee : Phrase} {arguments : Arguments} (hcallee : callee.Shifted 7)
    (hopen : opener.lexeme = .symbol .leftParen) (harguments : arguments.Shifted)
    (hclose : closer.lexeme = .symbol .rightParen) :
    (Phrase.callWith callee opener arguments closer).Shifted k := by
  intro ops outer _
  obtain ⟨e, front, args, hargs, hbuilt⟩ := harguments callee.built ops outer
  refine ⟨.call (callee.built.span.join closer.span) callee.built arguments.built, [], ?_, nofun,
    rfl⟩
  rw [Phrase.tokens, List.append_cons, ← hbuilt]
  exact (hcallee.called hopen ops outer).append (hargs.append (.one (step_of_lexeme hclose rfl)))

/-- **An operator waits for its operand**: it is left behind with what the operand leaves behind,
and it is filled with the operand. -/
theorem waits {j : Nat} {operand : Phrase} {q : PendingOp} {ops : List PendingOp}
    {outer : List Enclosing} {r : ExprReader} {before : List Token} (h : operand.Shifted j)
    (hbefore : Shifts r before ⟨.operand, q :: ops, outer⟩) (hkj : k ≤ j) (hkq : k ≤ q.level)
    (hqj : j < 6 → q.level < j) :
    ∃ e front, Shifts r (before ++ operand.tokens) ⟨.after e, front ++ ops, outer⟩ ∧
      (∀ q ∈ front, k ≤ q.level) ∧ PendingOp.fillAll e front = q.fill operand.built := by
  obtain ⟨e, front, hshifts, hfront, hbuilt⟩ := h (q :: ops) outer (by
    rintro hj _ ⟨⟩
    exact hqj hj)
  refine ⟨e, front ++ [q], ?_, ?_, ?_⟩
  · rw [List.append_assoc]
    exact hbefore.append hshifts
  · intro q' hq'
    rcases List.mem_append.mp hq' with hq' | hq'
    · exact Nat.le_trans hkj (hfront q' hq')
    · rw [List.mem_singleton.mp hq']
      exact hkq
  · rw [PendingOp.fillAll_append, hbuilt]

theorem unary {op : UnaryOp} {s : Symbol} {operand : Phrase} (hsign : sign.lexeme = .symbol s)
    (hop : (s, op) ∈ signs) (hoperand : operand.Shifted 6) :
    (Phrase.unary op sign operand).Shifted 6 := by
  intro ops outer _
  exact hoperand.waits (.one (step_sign hsign hop ops outer)) (Nat.le_refl 6) (Nat.le_refl 6)
    (by omega)

theorem binary {op : InfixOp} {s : Symbol} {left right : Phrase} (hsign : sign.lexeme = .symbol s)
    (hop : Stands k s op) (hleft : left.Shifted k) (hright : right.Shifted (k + 1)) :
    (Phrase.binary op left sign right).Shifted k := by
  intro ops outer hops
  have hk := level_le hop
  obtain ⟨e, front, hshifts, hfront, hbuilt⟩ := hleft ops outer hops
  -- the operator takes all that the left operand has left behind, and nothing before it
  have hstep : ExprReader.step ⟨.after e, front ++ ops, outer⟩ sign =
      .more ⟨.operand, .binary left.built ⟨sign.span, op⟩ :: ops, outer⟩ := by
    rw [step_infixOp hsign hop, PendingOp.reduce_append (hops (by omega)) front e hfront, hbuilt]
  have hlevel : (PendingOp.binary left.built ⟨sign.span, op⟩).level = k := (stands_iff.mp hop).2
  have hwaits := hright.waits (hshifts.append (.one hstep)) (Nat.le_succ k)
    (Nat.le_of_eq hlevel.symm) (by omega)
  rw [List.append_assoc, fill_binary] at hwaits
  exact hwaits

theorem tighter {p : Phrase} (h : p.Shifted (k + 1)) : p.Shifted k := by
  intro ops outer hops
  obtain ⟨e, front, hshifts, hfront, hbuilt⟩ := h ops outer fun hk q hq =>
    Nat.lt_succ_of_lt (hops (by omega) q hq)
  exact ⟨e, front, hshifts, fun q hq => Nat.le_of_succ_le (hfront q hq), hbuilt⟩

end Phrase.Shifted

theorem Arguments.Shifted.first {argument : Phrase} (hstart : StartsExpr argument.head.lexeme)
    (hargument : argument.Shifted 0) : (Arguments.first argument).Shifted := by
  intro callee ops outer
  obtain ⟨e, front, hshifts, hbuilt⟩ := hargument.enclosed ⟨.arguments callee [], ops⟩ outer
  obtain ⟨rest, hrest⟩ := argument.exists_tokens_eq_head_cons
  refine ⟨e, front, [], ?_, by rw [hbuilt]; rfl⟩
  rw [Arguments.tokens]
  rw [hrest] at hshifts ⊢
  exact .arguments hstart hshifts

theorem Arguments.Shifted.more {earlier : Arguments} {comma : Token} {argument : Phrase}
    (hearlier : earlier.Shifted) (hcomma : comma.lexeme = .symbol .comma)
    (hargument : argument.Shifted 0) : (Arguments.more earlier comma argument).Shifted := by
  intro callee ops outer
  obtain ⟨e₁, front₁, args, hshifts₁, hbuilt₁⟩ := hearlier callee ops outer
  obtain ⟨e, front, hshifts, hbuilt⟩ :=
    hargument.enclosed ⟨.arguments callee earlier.built, ops⟩ outer
  refine ⟨e, front, earlier.built, hshifts₁.append (.cons ?_ hshifts), by rw [hbuilt]; rfl⟩
  rw [← hbuilt₁]
  exact step_of_lexeme hcomma rfl

mutual

/-- **A phrase is read to its end.** -/
theorem Phrase.Is.shifts {k : Nat} {p : Phrase} : p.Is k → p.Shifted k
  | .var h => .single rfl fun _ _ => step_of_lexeme h rfl
  | .literal h => .literal h
  | .paren hopen hinner hclose => .paren hopen hinner.shifts hclose
  | .call hcallee hopen hclose => .call hcallee.shifts hopen hclose
  | .callWith hcallee hopen harguments hclose =>
      .callWith hcallee.shifts hopen harguments.shifts hclose
  | .unary hsign hop hoperand => .unary hsign hop hoperand.shifts
  | .binary hsign hop hleft hright => .binary hsign hop hleft.shifts hright.shifts
  | .tighter h => .tighter h.shifts

theorem Arguments.Are.shifts {a : Arguments} : a.Are → a.Shifted
  | .first hargument => .first hargument.startsExpr hargument.shifts
  | .more hearlier hcomma hargument => .more hearlier.shifts hcomma hargument.shifts

end

/-! ## Whatever is read is a phrase -/

/-- Tokens that have left these pending operators in one group. What comes next has to bind at
least as tightly as tier `j`. -/
inductive OpsRead : Nat → List Token → List PendingOp → Prop where
  | nil : OpsRead 0 [] []
  | unary {j : Nat} {tokens : List Token} {ops : List PendingOp} {sign : Token} {s : Symbol}
      {op : UnaryOp} :
      OpsRead j tokens ops → sign.lexeme = .symbol s → (s, op) ∈ signs →
      OpsRead 6 (tokens ++ [sign]) (.unary ⟨sign.span, op⟩ :: ops)
  | binary {j k : Nat} {tokens : List Token} {ops : List PendingOp} {left : Phrase} {sign : Token}
      {s : Symbol} {op : InfixOp} :
      OpsRead j tokens ops → j ≤ k → left.Is k → sign.lexeme = .symbol s → Stands k s op →
      OpsRead (k + 1) (tokens ++ left.tokens ++ [sign]) (.binary left.built ⟨sign.span, op⟩ :: ops)

/-- Tokens up to the start of the innermost group, with these groups open. -/
inductive OuterRead : List Token → List Enclosing → Prop where
  | nil : OuterRead [] []
  | paren {j : Nat} {before tokens : List Token} {outer : List Enclosing} {ops : List PendingOp}
      {opener : Token} :
      OuterRead before outer → OpsRead j tokens ops → opener.lexeme = .symbol .leftParen →
      OuterRead (before ++ tokens ++ [opener]) (⟨.paren opener.span, ops⟩ :: outer)
  | first {j : Nat} {before tokens : List Token} {outer : List Enclosing} {ops : List PendingOp}
      {callee : Phrase} {opener : Token} :
      OuterRead before outer → OpsRead j tokens ops → callee.Is 7 →
      opener.lexeme = .symbol .leftParen →
      OuterRead (before ++ tokens ++ callee.tokens ++ [opener])
        (⟨.arguments callee.built [], ops⟩ :: outer)
  | more {j : Nat} {before tokens : List Token} {outer : List Enclosing} {ops : List PendingOp}
      {callee : Phrase} {opener comma : Token} {arguments : Arguments} :
      OuterRead before outer → OpsRead j tokens ops → callee.Is 7 →
      opener.lexeme = .symbol .leftParen → arguments.Are → comma.lexeme = .symbol .comma →
      OuterRead (before ++ tokens ++ callee.tokens ++ opener :: (arguments.tokens ++ [comma]))
        (⟨.arguments callee.built arguments.built, ops⟩ :: outer)

/-- The tokens that a reader has taken. -/
inductive ExprRead : List Token → ExprReader → Prop where
  | operand {j : Nat} {before tokens : List Token} {outer : List Enclosing}
      {ops : List PendingOp} :
      OuterRead before outer → OpsRead j tokens ops →
      ExprRead (before ++ tokens) ⟨.operand, ops, outer⟩
  | arguments {j : Nat} {before tokens : List Token} {outer : List Enclosing}
      {ops : List PendingOp} {callee : Phrase} {opener : Token} :
      OuterRead before outer → OpsRead j tokens ops → callee.Is 7 →
      opener.lexeme = .symbol .leftParen →
      ExprRead (before ++ tokens ++ callee.tokens ++ [opener])
        ⟨.arguments callee.built, ops, outer⟩
  | after {j : Nat} {before tokens : List Token} {outer : List Enclosing} {ops : List PendingOp}
      {p : Phrase} :
      OuterRead before outer → OpsRead j tokens ops → p.Is 7 →
      ExprRead (before ++ tokens ++ p.tokens) ⟨.after p.built, ops, outer⟩

theorem OpsRead.le_six {j : Nat} {tokens : List Token} {ops : List PendingOp}
    (h : OpsRead j tokens ops) : j ≤ 6 := by
  cases h with
  | nil => omega
  | unary _ _ _ => exact Nat.le_refl 6
  | binary _ _ _ _ hop =>
      have := level_le hop
      omega

/-- An operator of tier `k` takes what has been read back to the next looser operator as its left
operand, and that is a phrase of tier `k`. -/
theorem OpsRead.reduce {k : Nat} (hk : k ≤ 6) {ops : List PendingOp} :
    ∀ {j : Nat} {tokens : List Token} {p : Phrase}, OpsRead j tokens ops → p.Is j → p.Is k →
      ∃ j' tokens' p', OpsRead j' tokens' (PendingOp.reduce k p.built ops).1 ∧ j' ≤ k ∧
        Phrase.Is k p' ∧ p'.built = (PendingOp.reduce k p.built ops).2 ∧
        tokens' ++ p'.tokens = tokens ++ p.tokens := by
  induction ops with
  | nil =>
      intro j tokens p h _ hp
      cases h with
      | nil => exact ⟨0, [], p, .nil, Nat.zero_le k, hp, rfl, rfl⟩
  | cons q ops ih =>
      intro j tokens p h hj hp
      cases h with
      | unary h hsign hop =>
          rename_i tokens sign s op
          -- a sign binds more tightly than every operator between operands
          have hfilled : Phrase.Is 6 (.unary op sign p) := .unary hsign hop hj
          obtain ⟨j', tokens', p', hread, hle, his, hbuilt, htokens⟩ :=
            ih h (hfilled.mono h.le_six) (hfilled.mono hk)
          have hreduce : PendingOp.reduce k p.built (.unary ⟨sign.span, op⟩ :: ops) =
              PendingOp.reduce k (Phrase.unary op sign p).built ops := by
            simp only [PendingOp.reduce, PendingOp.level, hk, if_true]
            rfl
          rw [hreduce]
          exact ⟨j', tokens', p', hread, hle, his, hbuilt, by simpa [Phrase.tokens] using htokens⟩
      | binary h hjk hleft hsign hop =>
          rename_i j₀ k₀ tokens left sign s op
          have hlevel : (PendingOp.binary left.built ⟨sign.span, op⟩).level = k₀ :=
            (stands_iff.mp hop).2
          by_cases hle : k ≤ k₀
          · -- the waiting operator binds at least as tightly, so it gets the phrase and goes on
            have hfilled : Phrase.Is k₀ (.binary op left sign p) := .binary hsign hop hleft hj
            obtain ⟨j', tokens', p', hread, hle', his, hbuilt, htokens⟩ :=
              ih h (hfilled.mono hjk) (hfilled.mono hle)
            have hreduce : PendingOp.reduce k p.built (.binary left.built ⟨sign.span, op⟩ :: ops) =
                PendingOp.reduce k (Phrase.binary op left sign p).built ops := by
              rw [PendingOp.reduce, hlevel, if_pos hle, fill_binary]
              rfl
            rw [hreduce]
            exact ⟨j', tokens', p', hread, hle', his, hbuilt,
              by simpa [Phrase.tokens] using htokens⟩
          · -- the waiting operator is looser, and stays
            have hreduce : PendingOp.reduce k p.built (.binary left.built ⟨sign.span, op⟩ :: ops) =
                (.binary left.built ⟨sign.span, op⟩ :: ops, p.built) := by
              rw [PendingOp.reduce, hlevel, if_neg hle]
            rw [hreduce]
            exact ⟨k₀ + 1, _, p, .binary h hjk hleft hsign hop, by omega, hp, rfl, rfl⟩

/-- All that has been read of a group is a phrase once its last operand is there. -/
theorem OpsRead.fillAll {j : Nat} {tokens : List Token} {ops : List PendingOp} {p : Phrase}
    (h : OpsRead j tokens ops) (hp : p.Is 7) :
    ∃ p', Phrase.Is 0 p' ∧ p'.built = PendingOp.fillAll p.built ops ∧
      p'.tokens = tokens ++ p.tokens := by
  have hle := h.le_six
  have hreduce : PendingOp.reduce 0 p.built ops = ([], PendingOp.fillAll p.built ops) := by
    have hnil : ∀ q ∈ ([] : List PendingOp).head?, q.level < 0 := nofun
    have hreduce := PendingOp.reduce_append hnil ops p.built (by simp)
    rwa [List.append_nil] at hreduce
  obtain ⟨j', tokens', p', hread, _, his, hbuilt, htokens⟩ :=
    h.reduce (Nat.zero_le 6) (hp.mono (by omega)) (hp.mono (Nat.zero_le 7))
  rw [hreduce] at hread hbuilt
  cases hread with
  | nil => exact ⟨p', his, hbuilt, htokens⟩

theorem ExprRead.stepOperand {j : Nat} {before tokens : List Token} {ops : List PendingOp}
    {outer : List Enclosing} {focus : Focus} {token : Token} {r' : ExprReader}
    (houter : OuterRead before outer) (hops : OpsRead j tokens ops)
    (h : ExprReader.stepOperand ⟨focus, ops, outer⟩ token = .more r') :
    ExprRead (before ++ tokens ++ [token]) r' := by
  unfold ExprReader.stepOperand at h
  have hliteral : ∀ v, token.lexeme.value? = some v →
      ExprRead (before ++ tokens ++ [token]) ⟨.after (.literal token.span v), ops, outer⟩ :=
    fun v hv => .after (p := .literal token v) houter hops (.literal hv)
  split at h
  case h_1 name hl =>
    cases h
    exact .after (p := .var token name) houter hops (.var hl)
  case h_2 n hl =>
    cases h
    exact hliteral (.int n) (by rw [hl]; rfl)
  case h_3 x hl =>
    cases h
    exact hliteral (.float x) (by rw [hl]; rfl)
  case h_4 s hl =>
    cases h
    exact hliteral (.string s) (by rw [hl]; rfl)
  case h_5 b hl =>
    cases h
    exact hliteral (.bool b) (by rw [hl]; rfl)
  case h_6 => cases h
  case h_7 hl =>
    cases h
    have hread := ExprRead.operand (.paren houter hops hl) .nil
    rwa [List.append_nil] at hread
  case h_8 s _ hl =>
    split at h
    · cases h
      rename_i op hop
      have hread := ExprRead.operand houter (.unary hops hl (mem_signs_iff.mpr hop))
      rwa [← List.append_assoc] at hread
    · cases h

theorem ExprRead.stepClose {before : List Token} {ops : List PendingOp} {outer : List Enclosing}
    {focus : Focus} {p : Phrase} {token : Token} {r' : ExprReader}
    (houter : OuterRead before outer) (hp : p.Is 0)
    (h : ExprReader.stepClose ⟨focus, ops, outer⟩ p.built token = .more r') :
    ExprRead (before ++ p.tokens ++ [token]) r' := by
  cases houter with
  | nil => cases h
  | @paren _ before tokens _ ops opener houter hops hopen =>
      simp only [ExprReader.stepClose] at h
      split at h
      · rename_i hclose
        cases h
        have hread := ExprRead.after (p := .paren opener p token) houter hops
          (.paren hopen hp hclose)
        simpa [Phrase.tokens, Phrase.built] using hread
      · cases h
  | @first _ before tokens _ ops callee opener houter hops hcallee hopen =>
      simp only [ExprReader.stepClose] at h
      split at h
      · rename_i hclose
        cases h
        have hread := ExprRead.after (p := .callWith callee opener (.first p) token) houter hops
          (.callWith hcallee hopen (.first hp) hclose)
        simpa [Phrase.tokens, Arguments.tokens, Phrase.built, Arguments.built] using hread
      · rename_i hcomma
        cases h
        have hread := ExprRead.operand
          (.more houter hops hcallee hopen (.first hp) hcomma) .nil
        simpa [Arguments.tokens, Arguments.built] using hread
      · cases h
  | @more _ before tokens _ ops callee opener comma arguments houter hops hcallee hopen harguments
      hcomma =>
      simp only [ExprReader.stepClose] at h
      split at h
      · rename_i hclose
        cases h
        have hread := ExprRead.after (p := .callWith callee opener (.more arguments comma p) token)
          houter hops (.callWith hcallee hopen (.more harguments hcomma hp) hclose)
        simpa [Phrase.tokens, Arguments.tokens, Phrase.built, Arguments.built] using hread
      · rename_i hcomma'
        cases h
        have hread := ExprRead.operand
          (.more houter hops hcallee hopen (.more harguments hcomma hp) hcomma') .nil
        simpa [Arguments.tokens, Arguments.built] using hread
      · cases h

/-- **Every token that is taken keeps the derivations.** -/
theorem ExprRead.step {tokens : List Token} {r r' : ExprReader} {token : Token}
    (hread : ExprRead tokens r) (h : r.step token = .more r') :
    ExprRead (tokens ++ [token]) r' := by
  cases hread with
  | operand houter hops => exact .stepOperand houter hops h
  | @arguments _ before tokens outer ops callee opener houter hops hcallee hopen =>
      simp only [ExprReader.step] at h
      split at h
      · rename_i hclose
        cases h
        have hread := ExprRead.after (p := .call callee opener token) houter hops
          (.call hcallee hopen hclose)
        simpa [Phrase.tokens, Phrase.built] using hread
      · have hread := ExprRead.stepOperand (.first houter hops hcallee hopen) .nil h
        simpa using hread
  | @after j before tokens outer ops p houter hops hp =>
      simp only [ExprReader.step, ExprReader.stepAfter] at h
      -- What ends the group makes a phrase of all of it.
      have hclose : ExprReader.stepClose ⟨.after p.built, ops, outer⟩
          (PendingOp.fillAll p.built ops) token = .more r' →
          ExprRead (before ++ tokens ++ p.tokens ++ [token]) r' := by
        intro h
        obtain ⟨p', hp', hbuilt, htokens⟩ := hops.fillAll hp
        rw [← hbuilt] at h
        rw [List.append_assoc before, ← htokens]
        exact .stepClose houter hp' h
      split at h
      · rename_i hopen
        cases h
        exact .arguments houter hops hp hopen
      · rename_i s _ hs
        split at h
        · -- an operator takes its left operand from the stack
          rename_i op hop
          cases h
          have hstands : Stands op.level s op := stands_iff.mpr ⟨hop, rfl⟩
          have hk := level_le hstands
          have hj := hops.le_six
          obtain ⟨j', tokens', p', hread, hle, his, hbuilt, htokens⟩ :=
            hops.reduce (k := op.level) (by omega) (hp.mono (by omega)) (hp.mono (by omega))
          rw [← hbuilt, List.append_assoc before, ← htokens]
          have hread := ExprRead.operand houter (.binary hread hle his hs hstands)
          simpa using hread
        · exact hclose h
      · exact hclose h

theorem ExprRead.shifts {before tokens : List Token} {r r' : ExprReader}
    (hread : ExprRead before r) (h : Shifts r tokens r') : ExprRead (before ++ tokens) r' := by
  induction h generalizing before with
  | nil => rwa [List.append_nil]
  | cons hstep _ ih =>
      have := ih (hread.step hstep)
      rwa [List.append_assoc] at this

theorem exprRead_nil : ExprRead [] {} := .operand .nil .nil

/-- What has been read with no group open is a phrase. -/
theorem ExprRead.phrase {tokens : List Token} {e : Expr} {ops : List PendingOp}
    (h : ExprRead tokens ⟨.after e, ops, []⟩) :
    ∃ p, Phrase.Is 0 p ∧ p.built = PendingOp.fillAll e ops ∧ p.tokens = tokens := by
  cases h with
  | after houter hops hp =>
      cases houter with
      | nil => exact hops.fillAll hp

theorem stepOperand_ne_done {r : ExprReader} {token : Token} {e : Expr} :
    r.stepOperand token ≠ .done e := by
  unfold ExprReader.stepOperand
  repeat' split
  all_goals exact nofun

/-- An expression is complete only behind an operand, with no group open. -/
theorem eq_of_step_done {r : ExprReader} {token : Token} {e : Expr} (h : r.step token = .done e) :
    ∃ e₀, r = ⟨.after e₀, r.ops, []⟩ ∧ e = PendingOp.fillAll e₀ r.ops := by
  obtain ⟨focus, ops, outer⟩ := r
  have hclose : ∀ e₀,
      ExprReader.stepClose ⟨.after e₀, ops, outer⟩ (PendingOp.fillAll e₀ ops) token = .done e →
        outer = [] ∧ e = PendingOp.fillAll e₀ ops := by
    intro e₀ h
    unfold ExprReader.stepClose at h
    split at h
    · rename_i hnil
      cases h
      exact ⟨hnil, rfl⟩
    · split at h <;> cases h
    · split at h <;> cases h
  cases focus with
  | operand => exact absurd h stepOperand_ne_done
  | arguments callee =>
      simp only [ExprReader.step] at h
      split at h
      · cases h
      · exact absurd h stepOperand_ne_done
  | after e₀ =>
      simp only [ExprReader.step, ExprReader.stepAfter] at h
      have hafter : outer = [] ∧ e = PendingOp.fillAll e₀ ops := by
        split at h
        · cases h
        · split at h
          · cases h
          · exact hclose e₀ h
        · exact hclose e₀ h
      obtain ⟨rfl, he⟩ := hafter
      exact ⟨e₀, rfl, he⟩

theorem ExprRead.done {tokens : List Token} {r : ExprReader} {token : Token} {e : Expr}
    (hread : ExprRead tokens r) (h : r.step token = .done e) :
    ∃ p, Phrase.Is 0 p ∧ p.built = e ∧ p.tokens = tokens := by
  obtain ⟨e₀, hr, rfl⟩ := eq_of_step_done h
  rw [hr] at hread
  exact hread.phrase

theorem ExprRead.close {tokens : List Token} {r : ExprReader} {e : Expr}
    (hread : ExprRead tokens r)
    (h : r.close = .ok e) : ∃ p, Phrase.Is 0 p ∧ p.built = e ∧ p.tokens = tokens := by
  obtain ⟨focus, ops, outer⟩ := r
  unfold ExprReader.close at h
  split at h
  · rename_i hfocus houter
    cases h
    obtain rfl : focus = _ := hfocus
    obtain rfl : outer = _ := houter
    exact hread.phrase
  · cases h
  · cases h

/-! ## Reading a text that is an expression -/

/-- The lexemes that may stand behind an expression in a statement. -/
def EndsExpr (l : Lexeme) : Prop :=
  l = .symbol .semicolon ∨ l = .symbol .equal ∨ l = .symbol .leftBrace ∨ l = .keyword .to

/-- A phrase is read to its end, and it is complete there. -/
theorem Phrase.Is.reads {p : Phrase} (hp : p.Is 0) :
    ∃ r, Shifts {} p.tokens r ∧ r.close = .ok p.built ∧
      ∀ token : Token, EndsExpr token.lexeme → r.step token = .done p.built := by
  obtain ⟨e, front, hshifts, _, hbuilt⟩ := hp.shifts [] [] (by simp)
  rw [List.append_nil] at hshifts
  refine ⟨_, hshifts, congrArg Except.ok hbuilt, ?_⟩
  intro token hends
  rcases hends with h | h | h | h <;>
    simp only [ExprReader.step, ExprReader.stepAfter, h, InfixOp.ofSymbol?, ExprReader.stepClose,
      hbuilt]

theorem feed_eq_ok_iff {r m : ExprReader} {token : Token} :
    r.feed token = .ok m ↔ r.step token = .more m := by
  unfold ExprReader.feed
  cases h : r.step token <;> simp

theorem foldlM_feed_eq_ok_iff {tokens : List Token} {r r' : ExprReader} :
    tokens.foldlM ExprReader.feed r = .ok r' ↔ Shifts r tokens r' := by
  simp only [foldlM_eq_ok_iff, feed_eq_ok_iff]

/-- Reading succeeds if all tokens are read and what has been read is complete. -/
theorem bind_mapError_eq_ok_iff {ε ε' α β : Type} {x : Except ε α} {close : α → Except ε' β}
    {f : ε' → ε} {b : β} :
    (do let r ← x; (close r).mapError f) = .ok b ↔ ∃ r, x = .ok r ∧ close r = .ok b := by
  cases x with
  | error err =>
      constructor
      · exact nofun
      · rintro ⟨r, ⟨⟩, _⟩
  | ok r =>
      change (close r).mapError f = .ok b ↔ _
      constructor
      · intro h
        refine ⟨r, rfl, ?_⟩
        cases hclose : close r with
        | error cause =>
            rw [hclose] at h
            have herror : Except.error (f cause) = Except.ok b := h
            cases herror
        | ok b' =>
            rw [hclose] at h
            cases h
            rfl
      · rintro ⟨r, ⟨⟩, hclose⟩
        rw [hclose]
        rfl

/-- **The expressions that are read are those that are derived.** -/
theorem read_expr_eq_ok_iff {tokens : List Token} {endSpan : Span} {e : Expr} :
    ExprReader.read tokens endSpan = .ok e ↔ ∃ p, Phrase.Derives p tokens ∧ p.built = e := by
  unfold ExprReader.read
  rw [bind_mapError_eq_ok_iff]
  constructor
  · rintro ⟨r, hfold, hclose⟩
    have hread := exprRead_nil.shifts (foldlM_feed_eq_ok_iff.mp hfold)
    obtain ⟨p, hp, hbuilt, htokens⟩ := hread.close hclose
    exact ⟨p, ⟨hp, htokens⟩, hbuilt⟩
  · rintro ⟨p, ⟨hp, rfl⟩, rfl⟩
    obtain ⟨r, hshifts, hclose, _⟩ := hp.reads
    exact ⟨r, foldlM_feed_eq_ok_iff.mpr hshifts, hclose⟩

end Stepwise.Grammar
