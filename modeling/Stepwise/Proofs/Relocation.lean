import Stepwise.Proofs.GrammarSpan

/-!
# Moving trees and derivations

A text that stands at another place of a larger one has the same tokens and the same trees, with
other spans. `Expr.shift` and `Stmt.shift` move all spans of a tree to the right; a derivation is
moved through its tokens (`Phrase.mapTokens`, `Clause.mapTokens`). Moving the tokens keeps the
rules, since these do not look at places, and it moves the tree that is built, since the least
span that covers two others moves with them.

Moving to the left loses nothing as long as nothing starts too far on the left. So a derivation
can be brought to the start of a text, and the tree that is built there is the old one after it
has been moved back (`Phrase.shift_built_unshift`, `Clause.shift_built_unshift`).
-/

namespace Stepwise

/-! ## Places -/

/-- The span moved left by `n` characters, as far as there are that many. -/
def Span.unshift (n : Nat) (a : Span) : Span :=
  ⟨a.start - n, a.stop - n, Nat.sub_le_sub_right a.start_le_stop n⟩

theorem Span.shift_unshift {n : Nat} {a : Span} (h : n ≤ a.start) : (a.unshift n).shift n = a :=
  Span.ext (Nat.sub_add_cancel h) (Nat.sub_add_cancel (Nat.le_trans h a.start_le_stop))

/-- The same, at a place that is moved right by `n` characters. -/
def Located.shift {α : Type} (n : Nat) (x : Located α) : Located α := ⟨x.span.shift n, x.value⟩

namespace Token

/-- The token, moved right by `n` characters. -/
def shift (n : Nat) (token : Token) : Token := { token with span := token.span.shift n }

/-- The token, moved left by `n` characters. -/
def unshift (n : Nat) (token : Token) : Token := { token with span := token.span.unshift n }

@[simp] theorem span_shift (n : Nat) (token : Token) :
    (token.shift n).span = token.span.shift n := rfl

@[simp] theorem lexeme_shift (n : Nat) (token : Token) :
    (token.shift n).lexeme = token.lexeme := rfl

@[simp] theorem lexeme_unshift (n : Nat) (token : Token) :
    (token.unshift n).lexeme = token.lexeme := rfl

theorem shift_unshift {n : Nat} {token : Token} (h : n ≤ token.span.start) :
    (token.unshift n).shift n = token := by
  rw [shift, unshift, Span.shift_unshift h]

end Token

/-! ## Trees -/

mutual

/-- The expression with all spans moved right by `n` characters. -/
def Expr.shift (n : Nat) : Expr → Expr
  | .var span name => .var (span.shift n) name
  | .literal span v => .literal (span.shift n) v
  | .paren span inner => .paren (span.shift n) (inner.shift n)
  | .call span callee arguments =>
    .call (span.shift n) (callee.shift n) (Expr.shiftAll n arguments)
  | .shortCircuit span left op right =>
    .shortCircuit (span.shift n) (left.shift n) (op.shift n) (right.shift n)
  | .binary span left op right =>
    .binary (span.shift n) (left.shift n) (op.shift n) (right.shift n)
  | .unary span op operand => .unary (span.shift n) (op.shift n) (operand.shift n)
  | .hole span => .hole (span.shift n)

/-- The expressions with all spans moved right. -/
def Expr.shiftAll (n : Nat) : List Expr → List Expr
  | [] => []
  | e :: rest => e.shift n :: Expr.shiftAll n rest

end

mutual

/-- The statement with all spans moved right by `n` characters. -/
def Stmt.shift (n : Nat) : Stmt → Stmt
  | .block span body => .block (span.shift n) (Stmt.shiftAll n body)
  | .expr span e => .expr (span.shift n) (e.shift n)
  | .print span e => .print (span.shift n) (e.shift n)
  | .declare span name initial => .declare (span.shift n) name (initial.map (·.shift n))
  | .assign span name e => .assign (span.shift n) name (e.shift n)
  | .branch span keyword condition yes none =>
    .branch (span.shift n) (keyword.shift n) (condition.shift n) (yes.shift n) none
  | .branch span keyword condition yes (some no) =>
    .branch (span.shift n) (keyword.shift n) (condition.shift n) (yes.shift n) (some (no.shift n))
  | .loop span keyword condition body =>
    .loop (span.shift n) (keyword.shift n) (condition.shift n) (body.shift n)
  | .hole span => .hole (span.shift n)

/-- The statements with all spans moved right. -/
def Stmt.shiftAll (n : Nat) : List Stmt → List Stmt
  | [] => []
  | s :: rest => s.shift n :: Stmt.shiftAll n rest

end

theorem Expr.span_shift (n : Nat) (e : Expr) : (e.shift n).span = e.span.shift n := by
  cases e <;> simp only [Expr.shift, Expr.span]

theorem Stmt.span_shift (n : Nat) (s : Stmt) : (s.shift n).span = s.span.shift n := by
  cases s with
  | branch span keyword condition yes no => cases no <;> simp only [Stmt.shift, Stmt.span]
  | _ => simp only [Stmt.shift, Stmt.span]

theorem Expr.shiftAll_append (n : Nat) (front rest : List Expr) :
    Expr.shiftAll n (front ++ rest) = Expr.shiftAll n front ++ Expr.shiftAll n rest := by
  induction front with
  | nil => rfl
  | cons e front ih => rw [List.cons_append, shiftAll, ih, shiftAll, List.cons_append]

namespace Grammar

/-! ## Derivations of expressions -/

mutual

/-- The derivation with other tokens. -/
def Phrase.mapTokens (f : Token → Token) : Phrase → Phrase
  | .var token name => .var (f token) name
  | .literal token v => .literal (f token) v
  | .paren opener inner closer => .paren (f opener) (inner.mapTokens f) (f closer)
  | .call callee opener closer => .call (callee.mapTokens f) (f opener) (f closer)
  | .callWith callee opener arguments closer =>
    .callWith (callee.mapTokens f) (f opener) (arguments.mapTokens f) (f closer)
  | .unary op sign operand => .unary op (f sign) (operand.mapTokens f)
  | .binary op left sign right => .binary op (left.mapTokens f) (f sign) (right.mapTokens f)

/-- The derivation of arguments with other tokens. -/
def Arguments.mapTokens (f : Token → Token) : Arguments → Arguments
  | .first argument => .first (argument.mapTokens f)
  | .more earlier comma argument =>
    .more (earlier.mapTokens f) (f comma) (argument.mapTokens f)

end

section Phrases

variable (f g : Token → Token)

mutual

theorem Phrase.tokens_mapTokens : (p : Phrase) → (p.mapTokens f).tokens = p.tokens.map f
  | .var _ _ | .literal _ _ => rfl
  | .paren _ inner _ => by simp [Phrase.mapTokens, Phrase.tokens, inner.tokens_mapTokens]
  | .call callee _ _ => by simp [Phrase.mapTokens, Phrase.tokens, callee.tokens_mapTokens]
  | .callWith callee _ arguments _ => by
      simp [Phrase.mapTokens, Phrase.tokens, callee.tokens_mapTokens, arguments.tokens_mapTokens]
  | .unary _ _ operand => by simp [Phrase.mapTokens, Phrase.tokens, operand.tokens_mapTokens]
  | .binary _ left _ right => by
      simp [Phrase.mapTokens, Phrase.tokens, left.tokens_mapTokens, right.tokens_mapTokens]

theorem Arguments.tokens_mapTokens : (a : Arguments) → (a.mapTokens f).tokens = a.tokens.map f
  | .first argument => argument.tokens_mapTokens
  | .more earlier _ argument => by
      simp [Arguments.mapTokens, Arguments.tokens, earlier.tokens_mapTokens,
        argument.tokens_mapTokens]

end

mutual

/-- A derivation is restored with its tokens. -/
theorem Phrase.mapTokens_mapTokens : (p : Phrase) → (∀ token ∈ p.tokens, f (g token) = token) →
    (p.mapTokens g).mapTokens f = p
  | .var token name, h | .literal token v, h => by
      simp only [Phrase.mapTokens, h token (List.mem_singleton.mpr rfl)]
  | .paren opener inner closer, h => by
      -- what holds of all tokens holds of those of each part
      simp only [Phrase.tokens, List.forall_mem_cons, List.forall_mem_append] at h
      obtain ⟨hopener, hinner, hcloser, _⟩ := h
      simp only [Phrase.mapTokens, hopener, inner.mapTokens_mapTokens hinner, hcloser]
  | .call callee opener closer, h => by
      simp only [Phrase.tokens, List.forall_mem_cons, List.forall_mem_append] at h
      obtain ⟨hcallee, hopener, hcloser, _⟩ := h
      simp only [Phrase.mapTokens, callee.mapTokens_mapTokens hcallee, hopener, hcloser]
  | .callWith callee opener arguments closer, h => by
      simp only [Phrase.tokens, List.forall_mem_cons, List.forall_mem_append] at h
      obtain ⟨hcallee, hopener, harguments, hcloser, _⟩ := h
      simp only [Phrase.mapTokens, callee.mapTokens_mapTokens hcallee, hopener,
        arguments.mapTokens_mapTokens harguments, hcloser]
  | .unary op sign operand, h => by
      simp only [Phrase.tokens, List.forall_mem_cons] at h
      simp only [Phrase.mapTokens, h.1, operand.mapTokens_mapTokens h.2]
  | .binary op left sign right, h => by
      simp only [Phrase.tokens, List.forall_mem_cons, List.forall_mem_append] at h
      obtain ⟨hleft, hsign, hright⟩ := h
      simp only [Phrase.mapTokens, left.mapTokens_mapTokens hleft, hsign,
        right.mapTokens_mapTokens hright]

theorem Arguments.mapTokens_mapTokens : (a : Arguments) →
    (∀ token ∈ a.tokens, f (g token) = token) → (a.mapTokens g).mapTokens f = a
  | .first argument, h => by
      simp only [Arguments.mapTokens, argument.mapTokens_mapTokens h]
  | .more earlier comma argument, h => by
      simp only [Arguments.tokens, List.forall_mem_cons, List.forall_mem_append] at h
      obtain ⟨hearlier, hcomma, hargument⟩ := h
      simp only [Arguments.mapTokens, earlier.mapTokens_mapTokens hearlier, hcomma,
        argument.mapTokens_mapTokens hargument]

end

theorem shift_operation (n : Nat) (span : Span) (left right : Expr) (op : Located InfixOp) :
    (operation span left op right).shift n =
      operation (span.shift n) (left.shift n) (op.shift n) (right.shift n) := by
  obtain ⟨place, value⟩ := op
  -- which tree it is depends on the operator, and that stays
  cases value <;> rfl

mutual

/-- Moving the tokens moves what is built from them. -/
theorem Phrase.built_shift (n : Nat) : (p : Phrase) →
    (p.mapTokens (Token.shift n)).built = p.built.shift n
  | .var _ _ | .literal _ _ => rfl
  | .paren _ inner _ => by
      simp only [Phrase.mapTokens, Phrase.built, Expr.shift, Span.shift_join, Token.span_shift,
        inner.built_shift]
  | .call callee _ _ => by
      simp only [Phrase.mapTokens, Phrase.built, Expr.shift, Expr.shiftAll, Span.shift_join,
        Token.span_shift, Expr.span_shift, callee.built_shift]
  | .callWith callee _ arguments _ => by
      simp only [Phrase.mapTokens, Phrase.built, Expr.shift, Span.shift_join, Token.span_shift,
        Expr.span_shift, callee.built_shift, arguments.built_shift]
  | .unary _ _ operand => by
      simp only [Phrase.mapTokens, Phrase.built, Expr.shift, Located.shift, Span.shift_join,
        Token.span_shift, Expr.span_shift, operand.built_shift]
  | .binary _ left _ right => by
      simp only [Phrase.mapTokens, Phrase.built, shift_operation, Located.shift, Span.shift_join,
        Token.span_shift, Expr.span_shift, left.built_shift, right.built_shift]

theorem Arguments.built_shift (n : Nat) : (a : Arguments) →
    (a.mapTokens (Token.shift n)).built = Expr.shiftAll n a.built
  | .first argument => by
      simp only [Arguments.mapTokens, Arguments.built, Expr.shiftAll, argument.built_shift]
  | .more earlier _ argument => by
      simp only [Arguments.mapTokens, Arguments.built, Expr.shiftAll, Expr.shiftAll_append,
        earlier.built_shift, argument.built_shift]

end

/-- A derivation that is brought to the left builds a tree that is the old one after moving
back. -/
theorem Phrase.shift_built_unshift {p : Phrase} {n : Nat}
    (h : ∀ token ∈ p.tokens, n ≤ token.span.start) :
    (p.mapTokens (Token.unshift n)).built.shift n = p.built := by
  -- the tokens are moved back first, so the tree is built where it was
  rw [← Phrase.built_shift,
    p.mapTokens_mapTokens _ _ fun token htoken => Token.shift_unshift (h token htoken)]

variable {f}

mutual

/-- The rules look at the lexemes of tokens only. -/
theorem Phrase.Is.mapTokens (hf : ∀ token, (f token).lexeme = token.lexeme) {k : Nat}
    {p : Phrase} :
    p.Is k → (p.mapTokens f).Is k
  | .var h => .var ((hf _).trans h)
  | .literal h => .literal (by rw [hf, h])
  | .paren hopen hinner hclose =>
      .paren ((hf _).trans hopen) (hinner.mapTokens hf) ((hf _).trans hclose)
  | .call hcallee hopen hclose =>
      .call (hcallee.mapTokens hf) ((hf _).trans hopen) ((hf _).trans hclose)
  | .callWith hcallee hopen harguments hclose =>
      .callWith (hcallee.mapTokens hf) ((hf _).trans hopen) (harguments.mapTokens hf)
        ((hf _).trans hclose)
  | .unary hsign hmem hoperand => .unary ((hf _).trans hsign) hmem (hoperand.mapTokens hf)
  | .binary hsign hstands hleft hright =>
      .binary ((hf _).trans hsign) hstands (hleft.mapTokens hf) (hright.mapTokens hf)
  | .tighter h => .tighter (h.mapTokens hf)

theorem Arguments.Are.mapTokens (hf : ∀ token, (f token).lexeme = token.lexeme) {a : Arguments} :
    a.Are → (a.mapTokens f).Are
  | .first h => .first (h.mapTokens hf)
  | .more hearlier hcomma h =>
      .more (hearlier.mapTokens hf) ((hf _).trans hcomma) (h.mapTokens hf)

end

end Phrases

/-! ## Derivations of statements -/

mutual

/-- The derivation with other tokens. -/
def Clause.mapTokens (f : Token → Token) : Clause → Clause
  | .block opener body closer => .block (f opener) (Clause.mapTokensAll f body) (f closer)
  | .branch keyword condition yes =>
    .branch (f keyword) (condition.mapTokens f) (yes.mapTokens f)
  | .branchElse keyword condition yes otherwise no =>
    .branchElse (f keyword) (condition.mapTokens f) (yes.mapTokens f) (f otherwise)
      (no.mapTokens f)
  | .loop keyword condition body => .loop (f keyword) (condition.mapTokens f) (body.mapTokens f)
  | .print keyword value semicolon => .print (f keyword) (value.mapTokens f) (f semicolon)
  | .var keyword name nameToken semicolon => .var (f keyword) name (f nameToken) (f semicolon)
  | .varWith keyword name nameToken equal value semicolon =>
    .varWith (f keyword) name (f nameToken) (f equal) (value.mapTokens f) (f semicolon)
  | .makeVar keyword varToken name nameToken semicolon =>
    .makeVar (f keyword) (f varToken) name (f nameToken) (f semicolon)
  | .assignTo keyword value toToken name nameToken semicolon =>
    .assignTo (f keyword) (value.mapTokens f) (f toToken) name (f nameToken) (f semicolon)
  | .assign name nameToken equal value semicolon =>
    .assign name (f nameToken) (f equal) (value.mapTokens f) (f semicolon)
  | .expr value semicolon => .expr (value.mapTokens f) (f semicolon)

/-- The derivations of a list of statements with other tokens. -/
def Clause.mapTokensAll (f : Token → Token) : List Clause → List Clause
  | [] => []
  | c :: rest => c.mapTokens f :: Clause.mapTokensAll f rest

end

section Clauses

variable (f g : Token → Token)

mutual

theorem Clause.tokens_mapTokens : (c : Clause) → (c.mapTokens f).tokens = c.tokens.map f
  | .block _ body _ => by
      simp [Clause.mapTokens, Clause.tokens, Clause.tokensAll_mapTokensAll body]
  | .branch _ condition yes => by
      simp [Clause.mapTokens, Clause.tokens, condition.tokens_mapTokens, yes.tokens_mapTokens]
  | .branchElse _ condition yes _ no => by
      simp [Clause.mapTokens, Clause.tokens, condition.tokens_mapTokens, yes.tokens_mapTokens,
        no.tokens_mapTokens]
  | .loop _ condition body => by
      simp [Clause.mapTokens, Clause.tokens, condition.tokens_mapTokens, body.tokens_mapTokens]
  | .var _ _ _ _ | .makeVar _ _ _ _ _ => rfl
  | .print _ value _ | .varWith _ _ _ _ value _ | .assignTo _ value _ _ _ _
  | .assign _ _ _ value _ | .expr value _ => by
      simp [Clause.mapTokens, Clause.tokens, value.tokens_mapTokens]

theorem Clause.tokensAll_mapTokensAll : (clauses : List Clause) →
    Clause.tokensAll (Clause.mapTokensAll f clauses) = (Clause.tokensAll clauses).map f
  | [] => rfl
  | c :: rest => by
      simp [Clause.mapTokensAll, Clause.tokensAll, c.tokens_mapTokens,
        Clause.tokensAll_mapTokensAll rest]

end

mutual

theorem Clause.mapTokens_mapTokens : (c : Clause) → (∀ token ∈ c.tokens, f (g token) = token) →
    (c.mapTokens g).mapTokens f = c
  | .block opener body closer, h => by
      -- again the tokens are those of the parts, in the order of the rule
      simp only [Clause.tokens, List.forall_mem_cons, List.forall_mem_append] at h
      obtain ⟨hopener, hbody, hcloser, _⟩ := h
      simp only [Clause.mapTokens, hopener, Clause.mapTokensAll_mapTokensAll body hbody, hcloser]
  | .branch keyword condition yes, h | .loop keyword condition yes, h => by
      simp only [Clause.tokens, List.forall_mem_cons, List.forall_mem_append] at h
      obtain ⟨hkeyword, hcondition, hyes⟩ := h
      simp only [Clause.mapTokens, hkeyword, condition.mapTokens_mapTokens _ _ hcondition,
        yes.mapTokens_mapTokens hyes]
  | .branchElse keyword condition yes otherwise no, h => by
      simp only [Clause.tokens, List.forall_mem_cons, List.forall_mem_append] at h
      obtain ⟨hkeyword, ⟨hcondition, hyes⟩, hotherwise, hno⟩ := h
      simp only [Clause.mapTokens, hkeyword, condition.mapTokens_mapTokens _ _ hcondition,
        yes.mapTokens_mapTokens hyes, hotherwise, no.mapTokens_mapTokens hno]
  | .var keyword name nameToken semicolon, h => by
      simp only [Clause.tokens, List.forall_mem_cons] at h
      simp only [Clause.mapTokens, h]
  | .makeVar keyword varToken name nameToken semicolon, h => by
      simp only [Clause.tokens, List.forall_mem_cons] at h
      simp only [Clause.mapTokens, h]
  | .print keyword value semicolon, h => by
      simp only [Clause.tokens, List.forall_mem_cons, List.forall_mem_append] at h
      simp only [Clause.mapTokens, h, value.mapTokens_mapTokens _ _ h.2.1]
  | .varWith keyword name nameToken equal value semicolon, h => by
      simp only [Clause.tokens, List.forall_mem_cons, List.forall_mem_append] at h
      simp only [Clause.mapTokens, h, value.mapTokens_mapTokens _ _ h.2.2.2.1]
  | .assignTo keyword value toToken name nameToken semicolon, h => by
      simp only [Clause.tokens, List.forall_mem_cons, List.forall_mem_append] at h
      simp only [Clause.mapTokens, h, value.mapTokens_mapTokens _ _ h.2.1]
  | .assign name nameToken equal value semicolon, h => by
      simp only [Clause.tokens, List.forall_mem_cons, List.forall_mem_append] at h
      simp only [Clause.mapTokens, h, value.mapTokens_mapTokens _ _ h.2.2.1]
  | .expr value semicolon, h => by
      simp only [Clause.tokens, List.forall_mem_cons, List.forall_mem_append] at h
      simp only [Clause.mapTokens, h, value.mapTokens_mapTokens _ _ h.1]

theorem Clause.mapTokensAll_mapTokensAll : (clauses : List Clause) →
    (∀ token ∈ Clause.tokensAll clauses, f (g token) = token) →
    Clause.mapTokensAll f (Clause.mapTokensAll g clauses) = clauses
  | [], _ => rfl
  | c :: rest, h => by
      rw [Clause.tokensAll, List.forall_mem_append] at h
      rw [Clause.mapTokensAll, Clause.mapTokensAll, c.mapTokens_mapTokens h.1,
        Clause.mapTokensAll_mapTokensAll rest h.2]

end

mutual

/-- Moving the tokens moves what is built from them. -/
theorem Clause.built_shift (n : Nat) : (c : Clause) →
    (c.mapTokens (Token.shift n)).built = c.built.shift n
  | .block _ body _ => by
      simp only [Clause.mapTokens, Clause.built, Stmt.shift, Span.shift_join, Token.span_shift,
        Clause.builtAll_shift n body]
  | .branch _ condition yes => by
      simp only [Clause.mapTokens, Clause.built, Stmt.shift, Span.shift_join, Token.span_shift,
        Stmt.span_shift, condition.built_shift, yes.built_shift n]
  | .branchElse _ condition yes _ no => by
      simp only [Clause.mapTokens, Clause.built, Stmt.shift, Span.shift_join, Token.span_shift,
        Stmt.span_shift, condition.built_shift, yes.built_shift n, no.built_shift n]
  | .loop _ condition body => by
      simp only [Clause.mapTokens, Clause.built, Stmt.shift, Span.shift_join, Token.span_shift,
        Stmt.span_shift, condition.built_shift, body.built_shift n]
  | .var _ _ _ _ | .makeVar _ _ _ _ _ => by
      simp only [Clause.mapTokens, Clause.built, Stmt.shift, Span.shift_join, Token.span_shift,
        Option.map_none]
  | .varWith _ _ _ _ value _ => by
      simp only [Clause.mapTokens, Clause.built, Stmt.shift, Span.shift_join, Token.span_shift,
        Option.map_some, value.built_shift]
  | .print _ value _ | .assignTo _ value _ _ _ _ | .assign _ _ _ value _ => by
      simp only [Clause.mapTokens, Clause.built, Stmt.shift, Span.shift_join, Token.span_shift,
        value.built_shift]
  | .expr value _ => by
      simp only [Clause.mapTokens, Clause.built, Stmt.shift, Span.shift_join, Token.span_shift,
        Expr.span_shift, value.built_shift]

theorem Clause.builtAll_shift (n : Nat) : (clauses : List Clause) →
    Clause.builtAll (Clause.mapTokensAll (Token.shift n) clauses) =
      Stmt.shiftAll n (Clause.builtAll clauses)
  | [] => rfl
  | c :: rest => by
      rw [Clause.mapTokensAll, Clause.builtAll, Clause.builtAll, Stmt.shiftAll, c.built_shift n,
        Clause.builtAll_shift n rest]

end

theorem Clause.shift_built_unshift {c : Clause} {n : Nat}
    (h : ∀ token ∈ c.tokens, n ≤ token.span.start) :
    (c.mapTokens (Token.unshift n)).built.shift n = c.built := by
  -- as for expressions
  rw [← Clause.built_shift,
    c.mapTokens_mapTokens _ _ fun token htoken => Token.shift_unshift (h token htoken)]

variable {f}

theorem Clause.IsBlock.mapTokens {c : Clause} (h : c.IsBlock) : (c.mapTokens f).IsBlock := by
  cases c with
  | block => trivial
  | _ => cases h

theorem Clause.IsElse.mapTokens {c : Clause} (h : c.IsElse) : (c.mapTokens f).IsElse := by
  cases c with
  | block | branch | branchElse => trivial
  | _ => cases h

theorem Clause.mapTokensAll_eq_map (clauses : List Clause) :
    Clause.mapTokensAll f clauses = clauses.map (·.mapTokens f) := by
  induction clauses with
  | nil => rfl
  | cons c rest ih => rw [mapTokensAll, ih, List.map_cons]

/-- The rules look at the lexemes of tokens only. -/
theorem Clause.Is.mapTokens (hf : ∀ token, (f token).lexeme = token.lexeme) {d : Dialect}
    {c : Clause} (h : c.Is d) : (c.mapTokens f).Is d := by
  induction h with
  | block hopen _ hclose ih =>
      refine .block ((hf _).trans hopen) (fun c hc => ?_) ((hf _).trans hclose)
      -- each statement of the new body comes from one of the old body
      rw [Clause.mapTokensAll_eq_map] at hc
      obtain ⟨c', hc', rfl⟩ := List.mem_map.mp hc
      exact ih c' hc'
  | branch hkeyword hcondition _ hblock ih =>
      exact .branch ((hf _).trans hkeyword) (hcondition.mapTokens hf) ih hblock.mapTokens
  | branchElse hkeyword hcondition _ hblock hotherwise _ helse ihyes ihno =>
      exact .branchElse ((hf _).trans hkeyword) (hcondition.mapTokens hf) ihyes hblock.mapTokens
        ((hf _).trans hotherwise) ihno helse.mapTokens
  | loop hkeyword hcondition _ hblock ih =>
      exact .loop ((hf _).trans hkeyword) (hcondition.mapTokens hf) ih hblock.mapTokens
  | print hkeyword hvalue hsemicolon =>
      exact .print ((hf _).trans hkeyword) (hvalue.mapTokens hf) ((hf _).trans hsemicolon)
  | var hallows hkeyword hname hsemicolon =>
      exact .var hallows ((hf _).trans hkeyword) ((hf _).trans hname) ((hf _).trans hsemicolon)
  | varWith hallows hkeyword hname hequal hvalue hsemicolon =>
      exact .varWith hallows ((hf _).trans hkeyword) ((hf _).trans hname) ((hf _).trans hequal)
        (hvalue.mapTokens hf) ((hf _).trans hsemicolon)
  | makeVar hallows hkeyword hvar hname hsemicolon =>
      exact .makeVar hallows ((hf _).trans hkeyword) ((hf _).trans hvar) ((hf _).trans hname)
        ((hf _).trans hsemicolon)
  | assignTo hallows hkeyword hvalue hto hname hsemicolon =>
      exact .assignTo hallows ((hf _).trans hkeyword) (hvalue.mapTokens hf) ((hf _).trans hto)
        ((hf _).trans hname) ((hf _).trans hsemicolon)
  | assign hallows hname hequal hvalue hsemicolon =>
      exact .assign hallows ((hf _).trans hname) ((hf _).trans hequal) (hvalue.mapTokens hf)
        ((hf _).trans hsemicolon)
  | expr hvalue hsemicolon => exact .expr (hvalue.mapTokens hf) ((hf _).trans hsemicolon)

end Clauses

end Grammar

end Stepwise
