import Stepwise.Proofs.Grammar

/-!
# Spans of derivations

Trees are built from the inside out, and the span of a node is put together from the spans of its
parts (`Phrase.built`, `Clause.built`). Where tokens are ordered by their places this is the span
from the first to the last token, so that the tree that is built is the tree of the grammar
(`Phrase.built_eq_expr`, `Clause.built_eq_stmt`).
-/

namespace Stepwise.Grammar

mutual

/-- The expression with spans that are put together from its parts. -/
def Phrase.built : Phrase → Expr
  | .var token name => .var token.span name
  | .literal token v => .literal token.span v
  | .paren opener inner closer => .paren (opener.span.join closer.span) inner.built
  | .call callee _ closer => .call (callee.built.span.join closer.span) callee.built []
  | .callWith callee _ arguments closer =>
    .call (callee.built.span.join closer.span) callee.built arguments.built
  | .unary op sign operand =>
    .unary (sign.span.join operand.built.span) ⟨sign.span, op⟩ operand.built
  | .binary op left sign right =>
    operation (left.built.span.join right.built.span) left.built ⟨sign.span, op⟩ right.built

/-- The arguments with such spans. -/
def Arguments.built : Arguments → List Expr
  | .first argument => [argument.built]
  | .more earlier _ argument => earlier.built ++ [argument.built]

end

mutual

/-- The statement with spans that are put together from its parts. -/
def Clause.built : Clause → Stmt
  | .block opener body closer => .block (opener.span.join closer.span) (Clause.builtAll body)
  | .branch keyword condition yes =>
    .branch (keyword.span.join yes.built.span) keyword.span condition.built yes.built none
  | .branchElse keyword condition yes _ no =>
    .branch (keyword.span.join no.built.span) keyword.span condition.built yes.built
      (some no.built)
  | .loop keyword condition body =>
    .loop (keyword.span.join body.built.span) keyword.span condition.built body.built
  | .print keyword value semicolon => .print (keyword.span.join semicolon.span) value.built
  | .var keyword name _ semicolon => .declare (keyword.span.join semicolon.span) name none
  | .varWith keyword name _ _ value semicolon =>
    .declare (keyword.span.join semicolon.span) name (some value.built)
  | .makeVar keyword _ name _ semicolon => .declare (keyword.span.join semicolon.span) name none
  | .assignTo keyword value _ name _ semicolon =>
    .assign (keyword.span.join semicolon.span) name value.built
  | .assign name nameToken _ value semicolon =>
    .assign (nameToken.span.join semicolon.span) name value.built
  | .expr value semicolon => .expr (value.built.span.join semicolon.span) value.built

/-- The statements with such spans. -/
def Clause.builtAll : List Clause → List Stmt
  | [] => []
  | c :: rest => c.built :: Clause.builtAll rest

end

/-! ## First and last tokens -/

theorem Phrase.exists_tokens_eq_head_cons : (p : Phrase) → ∃ rest, p.tokens = p.head :: rest
  | .var token _ => ⟨[], rfl⟩
  | .literal token _ => ⟨[], rfl⟩
  | .paren _ _ _ => ⟨_, rfl⟩
  | .call callee opener closer => by
      obtain ⟨rest, h⟩ := callee.exists_tokens_eq_head_cons
      exact ⟨rest ++ [opener, closer], by rw [tokens, h]; rfl⟩
  | .callWith callee opener arguments closer => by
      obtain ⟨rest, h⟩ := callee.exists_tokens_eq_head_cons
      exact ⟨rest ++ opener :: (arguments.tokens ++ [closer]), by rw [tokens, h]; rfl⟩
  | .unary _ _ _ => ⟨_, rfl⟩
  | .binary _ left sign right => by
      obtain ⟨rest, h⟩ := left.exists_tokens_eq_head_cons
      exact ⟨rest ++ sign :: right.tokens, by rw [tokens, h]; rfl⟩

theorem Phrase.exists_tokens_eq_append_last : (p : Phrase) → ∃ front, p.tokens = front ++ [p.last]
  | .var token _ => ⟨[], rfl⟩
  | .literal token _ => ⟨[], rfl⟩
  | .paren opener inner _ => ⟨opener :: inner.tokens, rfl⟩
  | .call callee opener closer => ⟨callee.tokens ++ [opener], by simp [tokens, last]⟩
  | .callWith callee opener arguments closer =>
      ⟨callee.tokens ++ opener :: arguments.tokens, by simp [tokens, last]⟩
  | .unary _ sign operand => by
      obtain ⟨front, h⟩ := operand.exists_tokens_eq_append_last
      exact ⟨sign :: front, by rw [tokens, h]; rfl⟩
  | .binary _ left sign right => by
      obtain ⟨front, h⟩ := right.exists_tokens_eq_append_last
      exact ⟨left.tokens ++ sign :: front, by rw [tokens, h]; simp [last]⟩

theorem Phrase.head_mem (p : Phrase) : p.head ∈ p.tokens := by
  obtain ⟨rest, h⟩ := p.exists_tokens_eq_head_cons
  rw [h]
  exact List.mem_cons_self

theorem Phrase.last_mem (p : Phrase) : p.last ∈ p.tokens := by
  obtain ⟨front, h⟩ := p.exists_tokens_eq_append_last
  rw [h]
  exact List.mem_append_right _ (List.mem_singleton.mpr rfl)

theorem Clause.exists_tokens_eq_head_cons (c : Clause) : ∃ rest, c.tokens = c.head :: rest := by
  cases c with
  | expr value semicolon =>
      obtain ⟨rest, h⟩ := value.exists_tokens_eq_head_cons
      exact ⟨rest ++ [semicolon], by rw [tokens, h]; rfl⟩
  -- all other statements are written with their first token in front
  | _ => exact ⟨_, rfl⟩

theorem Clause.last_mem : (c : Clause) → c.last ∈ c.tokens
  | .block _ _ _ => by simp [tokens, last]
  | .branch _ _ yes => by simp [tokens, last, yes.last_mem]
  | .branchElse _ _ _ _ no => by simp [tokens, last, no.last_mem]
  | .loop _ _ body => by simp [tokens, last, body.last_mem]
  | .print _ _ _ => by simp [tokens, last]
  | .var _ _ _ _ => by simp [tokens, last]
  | .varWith _ _ _ _ _ _ => by simp [tokens, last]
  | .makeVar _ _ _ _ _ => by simp [tokens, last]
  | .assignTo _ _ _ _ _ _ => by simp [tokens, last]
  | .assign _ _ _ _ _ => by simp [tokens, last]
  | .expr _ _ => by simp [tokens, last]

theorem Clause.exists_tokens_eq_append_last : (c : Clause) → ∃ front, c.tokens = front ++ [c.last]
  | .block opener body _ => ⟨opener :: Clause.tokensAll body, rfl⟩
  | .branch keyword condition yes => by
      obtain ⟨front, h⟩ := yes.exists_tokens_eq_append_last
      exact ⟨keyword :: (condition.tokens ++ front), by rw [tokens, h]; simp [last]⟩
  | .branchElse keyword condition yes otherwise no => by
      obtain ⟨front, h⟩ := no.exists_tokens_eq_append_last
      exact ⟨keyword :: (condition.tokens ++ yes.tokens ++ otherwise :: front), by
        rw [tokens, h]; simp [last]⟩
  | .loop keyword condition body => by
      obtain ⟨front, h⟩ := body.exists_tokens_eq_append_last
      exact ⟨keyword :: (condition.tokens ++ front), by rw [tokens, h]; simp [last]⟩
  | .print keyword value _ => ⟨keyword :: value.tokens, rfl⟩
  | .var keyword _ nameToken _ => ⟨[keyword, nameToken], rfl⟩
  | .varWith keyword _ nameToken equal value _ =>
      ⟨keyword :: nameToken :: equal :: value.tokens, rfl⟩
  | .makeVar keyword varToken _ nameToken _ => ⟨[keyword, varToken, nameToken], rfl⟩
  | .assignTo keyword value toToken _ nameToken _ =>
      ⟨keyword :: (value.tokens ++ [toToken, nameToken]), by simp [tokens, last]⟩
  | .assign _ nameToken equal value _ => ⟨nameToken :: equal :: value.tokens, rfl⟩
  | .expr value _ => ⟨value.tokens, rfl⟩

/-! ## Spans of ordered tokens -/

/-- A token before another one starts and ends before it. -/
theorem start_le_of_stop_le {a b : Token} (h : a.span.stop ≤ b.span.start) :
    a.span.start ≤ b.span.start ∧ a.span.stop ≤ b.span.stop := by
  have ha := a.span.start_le_stop
  have hb := b.span.start_le_stop
  omega

theorem Ordered.left {xs ys : List Token} (h : Ordered (xs ++ ys)) : Ordered xs :=
  (List.pairwise_append.mp h).1

theorem Ordered.right {xs ys : List Token} (h : Ordered (xs ++ ys)) : Ordered ys :=
  (List.pairwise_append.mp h).2.1

theorem Ordered.cross {xs ys : List Token} (h : Ordered (xs ++ ys)) {a b : Token} (ha : a ∈ xs)
    (hb : b ∈ ys) : a.span.stop ≤ b.span.start :=
  (List.pairwise_append.mp h).2.2 a ha b hb

theorem Ordered.tail {a : Token} {xs : List Token} (h : Ordered (a :: xs)) : Ordered xs :=
  (List.pairwise_cons.mp h).2

theorem Ordered.head {a b : Token} {xs : List Token} (h : Ordered (a :: xs)) (hb : b ∈ xs) :
    a.span.stop ≤ b.span.start :=
  (List.pairwise_cons.mp h).1 b hb

/-- The outer ends of two adjacent spans are the ends of both together. -/
theorem join_join_of_le {a b c d : Token} (hab : a.span.start ≤ b.span.start)
    (hbc : b.span.stop ≤ c.span.start) (hcd : c.span.stop ≤ d.span.stop) :
    (a.span.join b.span).join (c.span.join d.span) = a.span.join d.span := by
  have hb := b.span.start_le_stop
  have hc := c.span.start_le_stop
  refine Span.ext ?_ ?_
  · simp only [Span.start_join]
    omega
  · simp only [Span.stop_join]
    omega

theorem join_join_left {a b c : Token} (hab : a.span.start ≤ b.span.start)
    (hbc : b.span.stop ≤ c.span.start) :
    (a.span.join b.span).join c.span = a.span.join c.span := by
  have hb := b.span.start_le_stop
  have hc := c.span.start_le_stop
  refine Span.ext ?_ ?_
  · simp only [Span.start_join]
    omega
  · simp only [Span.stop_join]
    omega

theorem join_join_right {a b c : Token} (hab : a.span.stop ≤ b.span.start)
    (hbc : b.span.stop ≤ c.span.stop) :
    a.span.join (b.span.join c.span) = a.span.join c.span := by
  have ha := a.span.start_le_stop
  have hb := b.span.start_le_stop
  refine Span.ext ?_ ?_
  · simp only [Span.start_join]
    omega
  · simp only [Span.stop_join]
    omega

/-- The first token of an expression starts first and its last one ends last. -/
theorem Phrase.head_le_last (p : Phrase) (h : Ordered p.tokens) :
    p.head.span.start ≤ p.last.span.start ∧ p.head.span.stop ≤ p.last.span.stop := by
  obtain ⟨rest, hrest⟩ := p.exists_tokens_eq_head_cons
  have hlast := p.last_mem
  rw [hrest] at h hlast
  -- the last token is the first one, or it comes later in the list
  rcases List.mem_cons.mp hlast with heq | hmem
  · rw [heq]
    exact ⟨Nat.le_refl _, Nat.le_refl _⟩
  · exact start_le_of_stop_le (h.head hmem)

theorem span_operation (span : Span) (left right : Expr) (op : Located InfixOp) :
    (operation span left op right).span = span := by
  unfold operation
  cases op.value <;> rfl

/-- The span that is put together goes from the first to the last token. -/
theorem Phrase.span_built : (p : Phrase) → Ordered p.tokens → p.built.span = p.span
  | .var token _, _ => by simp [built, Expr.span, span, head, last, Span.join]
  | .literal token _, _ => by simp [built, Expr.span, span, head, last, Span.join]
  | .paren opener inner closer, _ => rfl
  | .call callee opener closer, h => by
      rw [tokens] at h
      show (callee.built.span.join closer.span) = _
      rw [callee.span_built h.left]
      -- the parentheses only move the end: what comes first is the callee
      exact join_join_left (callee.head_le_last h.left).1 (h.cross callee.last_mem (by simp))
  | .callWith callee opener arguments closer, h => by
      rw [tokens] at h
      show (callee.built.span.join closer.span) = _
      rw [callee.span_built h.left]
      exact join_join_left (callee.head_le_last h.left).1 (h.cross callee.last_mem (by simp))
  | .unary _ sign operand, h => by
      rw [tokens] at h
      have hoperand := operand.span_built h.tail
      -- and here only the start moves
      have hcross := h.head operand.head_mem
      show sign.span.join operand.built.span = _
      rw [hoperand]
      exact join_join_right hcross (operand.head_le_last h.tail).2
  | .binary _ left sign right, h => by
      rw [tokens] at h
      have hl := left.span_built h.left
      have hr := right.span_built h.right.tail
      -- the sign stands between the operands, so it does not matter for the outer ends
      have hcross : left.last.span.stop ≤ right.head.span.start :=
        h.cross left.last_mem (List.mem_cons_of_mem _ right.head_mem)
      rw [built, span_operation, hl, hr]
      exact join_join_of_le (left.head_le_last h.left).1 hcross
        (right.head_le_last h.right.tail).2

mutual

/-- **The expression that is built is the one of the grammar.** -/
theorem Phrase.built_eq_expr : (p : Phrase) → Ordered p.tokens → p.built = p.expr
  | .var _ _, _ => rfl
  | .literal _ _, _ => rfl
  | .paren opener inner closer, h => by
      rw [Phrase.tokens] at h
      rw [Phrase.built, Phrase.expr, inner.built_eq_expr h.tail.left]
  | .call callee opener closer, h => by
      -- the tree is the same by induction, and what it covers is known already
      have hspan := (Phrase.call callee opener closer).span_built h
      rw [Phrase.tokens] at h
      rw [Phrase.built] at hspan ⊢
      rw [Phrase.expr, ← callee.built_eq_expr h.left]
      exact congrArg (Expr.call · _ _) hspan
  | .callWith callee opener arguments closer, h => by
      have hspan := (Phrase.callWith callee opener arguments closer).span_built h
      rw [Phrase.tokens] at h
      have hcallee := callee.built_eq_expr h.left
      have harguments := arguments.built_eq_exprs h.right.tail.left
      rw [Phrase.built] at hspan ⊢
      rw [Phrase.expr, ← hcallee, ← harguments]
      exact congrArg (Expr.call · _ _) hspan
  | .unary op sign operand, h => by
      have hspan := (Phrase.unary op sign operand).span_built h
      rw [Phrase.tokens] at h
      rw [Phrase.built] at hspan ⊢
      rw [Phrase.expr, ← operand.built_eq_expr h.tail]
      exact congrArg (Expr.unary · _ _) hspan
  | .binary op left sign right, h => by
      have hspan := (Phrase.binary op left sign right).span_built h
      rw [Phrase.tokens] at h
      rw [Phrase.built, span_operation] at hspan
      rw [Phrase.built, Phrase.expr, hspan, left.built_eq_expr h.left,
        right.built_eq_expr h.right.tail]
      rfl

theorem Arguments.built_eq_exprs : (a : Arguments) → Ordered a.tokens → a.built = a.exprs
  | .first argument, h => by
      rw [Arguments.tokens] at h
      rw [Arguments.built, Arguments.exprs, argument.built_eq_expr h]
  | .more earlier comma argument, h => by
      rw [Arguments.tokens] at h
      rw [Arguments.built, Arguments.exprs, earlier.built_eq_exprs h.left,
        argument.built_eq_expr h.right.tail]

end

/-- The first token of a statement starts first and its last one ends last. -/
theorem Clause.head_le_last (c : Clause) (h : Ordered c.tokens) :
    c.head.span.start ≤ c.last.span.start ∧ c.head.span.stop ≤ c.last.span.stop := by
  obtain ⟨rest, hrest⟩ := c.exists_tokens_eq_head_cons
  have hlast := c.last_mem
  rw [hrest] at h hlast
  rcases List.mem_cons.mp hlast with heq | hmem
  · rw [heq]
    exact ⟨Nat.le_refl _, Nat.le_refl _⟩
  · exact start_le_of_stop_le (h.head hmem)

theorem Clause.head_mem (c : Clause) : c.head ∈ c.tokens := by
  obtain ⟨rest, h⟩ := c.exists_tokens_eq_head_cons
  rw [h]
  exact List.mem_cons_self

/-- A keyword and what it introduces. -/
theorem join_span_built {keyword : Token} {c : Clause} {front : List Token}
    (h : Ordered (keyword :: (front ++ c.tokens))) (hc : c.built.span = c.span) :
    keyword.span.join c.built.span = keyword.span.join c.last.span := by
  -- what is between them makes no difference
  rw [hc]
  exact join_join_right (h.head (List.mem_append_right _ c.head_mem))
    (c.head_le_last h.tail.right).2

/-- The span that is put together goes from the first to the last token. -/
theorem Clause.span_built : (c : Clause) → Ordered c.tokens → c.built.span = c.span
  | .block _ _ _, _ => rfl
  | .branch keyword condition yes, h => by
      rw [tokens] at h
      exact join_span_built h (yes.span_built h.tail.right)
  | .branchElse keyword condition yes otherwise no, h => by
      -- the last part counts, so all before it is put together
      rw [tokens, List.append_cons] at h
      exact join_span_built h (no.span_built h.tail.right)
  | .loop keyword condition body, h => by
      rw [tokens] at h
      exact join_span_built h (body.span_built h.tail.right)
  | .print _ _ _, _ => rfl
  | .var _ _ _ _, _ => rfl
  | .varWith _ _ _ _ _ _, _ => rfl
  | .makeVar _ _ _ _ _, _ => rfl
  | .assignTo _ _ _ _ _ _, _ => rfl
  | .assign _ _ _ _ _, _ => rfl
  | .expr value semicolon, h => by
      rw [tokens] at h
      show value.built.span.join semicolon.span = _
      rw [value.span_built h.left]
      exact join_join_left (value.head_le_last h.left).1 (h.cross value.last_mem (by simp))

mutual

/-- **The statement that is built is the one of the grammar.** -/
theorem Clause.built_eq_stmt : (c : Clause) → Ordered c.tokens → c.built = c.stmt
  | .block opener body closer, h => by
      rw [Clause.tokens] at h
      rw [Clause.built, Clause.stmt, Clause.builtAll_eq_stmts body h.tail.left]
  | .branch keyword condition yes, h => by
      have hspan := (Clause.branch keyword condition yes).span_built h
      rw [Clause.tokens] at h
      rw [Clause.built] at hspan ⊢
      rw [Clause.stmt, ← condition.built_eq_expr h.tail.left, ← yes.built_eq_stmt h.tail.right]
      exact congrArg (Stmt.branch · _ _ _ _) hspan
  | .branchElse keyword condition yes otherwise no, h => by
      have hspan := (Clause.branchElse keyword condition yes otherwise no).span_built h
      rw [Clause.tokens] at h
      -- the condition and the first branch are in front of `else`
      have hfront := h.tail.left
      rw [Clause.built] at hspan ⊢
      rw [Clause.stmt, ← condition.built_eq_expr hfront.left, ← yes.built_eq_stmt hfront.right,
        ← no.built_eq_stmt h.tail.right.tail]
      exact congrArg (Stmt.branch · _ _ _ _) hspan
  | .loop keyword condition body, h => by
      have hspan := (Clause.loop keyword condition body).span_built h
      rw [Clause.tokens] at h
      rw [Clause.built] at hspan ⊢
      rw [Clause.stmt, ← condition.built_eq_expr h.tail.left, ← body.built_eq_stmt h.tail.right]
      exact congrArg (Stmt.loop · _ _ _) hspan
  | .print keyword value semicolon, h => by
      rw [Clause.tokens] at h
      rw [Clause.built, Clause.stmt, value.built_eq_expr h.tail.left]
  | .var _ _ _ _, _ => rfl
  | .varWith keyword name nameToken equal value semicolon, h => by
      rw [Clause.tokens] at h
      rw [Clause.built, Clause.stmt, value.built_eq_expr h.tail.tail.tail.left]
  | .makeVar _ _ _ _ _, _ => rfl
  | .assignTo keyword value toToken name nameToken semicolon, h => by
      rw [Clause.tokens] at h
      rw [Clause.built, Clause.stmt, value.built_eq_expr h.tail.left]
  | .assign name nameToken equal value semicolon, h => by
      rw [Clause.tokens] at h
      rw [Clause.built, Clause.stmt, value.built_eq_expr h.tail.tail.left]
  | .expr value semicolon, h => by
      have hspan := (Clause.expr value semicolon).span_built h
      rw [Clause.tokens] at h
      rw [Clause.built] at hspan ⊢
      rw [Clause.stmt, ← value.built_eq_expr h.left]
      exact congrArg (Stmt.expr · _) hspan

theorem Clause.builtAll_eq_stmts :
    (clauses : List Clause) → Ordered (Clause.tokensAll clauses) →
      Clause.builtAll clauses = Clause.stmts clauses
  | [], _ => rfl
  | c :: rest, h => by
      rw [Clause.tokensAll] at h
      rw [Clause.builtAll, Clause.stmts, c.built_eq_stmt h.left,
        Clause.builtAll_eq_stmts rest h.right]

end

end Stepwise.Grammar
