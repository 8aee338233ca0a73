import Stepwise.Proofs.Descent

/-!
# Recursive descent reads expressions

The reader of expressions takes one token at a time and keeps what is pending on a stack; a
procedure of the recursive descent has it on the stack of its callers. `Follows` compares the two:
an attempt to read an expression comes back, and whatever is pending, the reader goes on from
there as it does from the expression that the attempt has returned, or stops with the error that
the attempt complains of.

Each procedure follows the reader if those that it calls do (`Follows.bind`). All calls but one are
made at a later index, and that one is made for a tighter level at the same index, so that the
induction is on the tokens that are left (`follows_level`).
-/

namespace Stepwise

/-- Reads tokens until the expression is complete: the expression, and the tokens behind it. -/
def ExprReader.finish (endSpan : Span) :
    ExprReader → List Token → Except ParseError (Expr × List Token)
  | r, [] =>
    match r.close with
    | .ok e => .ok (e, [])
    | .error cause => .error ⟨cause, endSpan⟩
  | r, token :: rest =>
    match r.step token with
    | .more r => r.finish endSpan rest
    | .done e => .ok (e, token :: rest)
    | .fail cause => .error ⟨cause, token.span⟩

/-- What a group becomes behind its closing parenthesis. -/
def Enclosure.built (closer : Span) (e : Expr) : Enclosure → Expr
  | .paren opener => .paren (opener.join closer) e
  | .arguments callee args => .call (callee.span.join closer) callee (args ++ [e])

namespace Descent

open ExprReader

/-! ## Where an expression of a level ends -/

/-- Whether an expression of level `k` does not go on with these tokens: they start with no
operator of its level or a tighter one, and, unless it is a callee, with no argument list. -/
def Stops (k : Nat) (rest : List Token) : Prop :=
  ∀ token ∈ rest.head?, (k ≤ 6 → token.lexeme ≠ .symbol .leftParen) ∧
    ∀ s op, token.lexeme = .symbol s → InfixOp.ofSymbol? s = some op → op.level < k

/-- Whether an expression of level `k` is not cut short by what is pending. -/
def Below (k : Nat) (ops : List PendingOp) : Prop := k < 6 → ∀ q ∈ ops.head?, q.level < k

theorem below_nil (k : Nat) : Below k [] := fun _ _ h => absurd h (by simp)

theorem Below.succ {k : Nat} {ops : List PendingOp} (h : Below k ops) : Below (k + 1) ops :=
  fun hk q hq => Nat.lt_succ_of_lt (h (Nat.lt_of_succ_lt hk) q hq)

theorem level_le_five (op : InfixOp) : op.level ≤ 5 := by
  cases op with
  | shortCircuit o => cases o <;> simp [InfixOp.level]
  | binary o =>
      cases o with
      | compare c => cases c <;> simp [InfixOp.level]
      | arith a => cases a <;> simp [InfixOp.level]

/-- Behind a callee or a primary there may be anything. -/
theorem stops_seven (rest : List Token) : Stops 7 rest := fun _ _ =>
  ⟨fun h => absurd h (by omega), fun _ op _ _ => by
    have := level_le_five op
    omega⟩

theorem Entry.symbol_of_sign? {entry : Entry} {op : UnaryOp} (h : entry.sign? = some op) :
    ∃ s, entry.lexeme = some (.symbol s) ∧ UnaryOp.ofSign? s = some op := by
  simp only [Entry.sign?] at h
  split at h
  · rename_i s hs
    exact ⟨s, hs, h⟩
  · cases h

theorem Entry.stands_of_operator? {entry : Entry} {k : Nat} {op : InfixOp}
    (h : entry.operator? k = some op) :
    ∃ s, entry.lexeme = some (.symbol s) ∧ Grammar.Stands k s op := by
  simp only [Entry.operator?] at h
  split at h
  · rename_i s hs
    obtain ⟨hop, hlevel⟩ := Option.filter_eq_some_iff.mp h
    exact ⟨s, hs, Grammar.stands_iff.mpr ⟨hop, of_decide_eq_true hlevel⟩⟩
  · cases h

/-- Where there is no further operator of its level, an expression of this level ends. -/
theorem Stops.of_operator? {input : Input} {k j : Nat} (h : Stops (k + 1) (input.tokens.drop j))
    (hk : k < 6) (hop : (input.entry j).operator? k = none) : Stops k (input.tokens.drop j) := by
  intro token htoken
  obtain ⟨hparen, hlevel⟩ := h token htoken
  refine ⟨fun _ => hparen hk, fun s op hs hsymbol => ?_⟩
  obtain ⟨rest, hcons⟩ := List.head?_eq_some_iff.mp htoken
  rw [Input.entry_of_drop_cons hcons] at hop
  simp only [Entry.operator?, hs, hsymbol, Option.filter_eq_none_iff, Option.some.injEq,
    decide_eq_true_eq] at hop
  -- below `k + 1` and not `k` itself
  have hne : op.level ≠ k := hop op rfl
  have := hlevel s op hs hsymbol
  omega

section Finish

variable {endSpan : Span} {ops : List PendingOp} {outer : List Enclosing} {e : Expr}
  {rest : List Token} {token : Token}

theorem finish_of_more {r r' : ExprReader} (h : r.step token = .more r') :
    r.finish endSpan (token :: rest) = r'.finish endSpan rest := by
  rw [finish, h]

/-- An operand that no tighter operator takes goes to the operator before it. -/
theorem finish_fill {q : PendingOp} {k : Nat} (hstops : Stops k rest) (hk : k ≤ 6)
    (hq : k ≤ q.level + 1) :
    finish endSpan ⟨.after e, q :: ops, outer⟩ rest =
      finish endSpan ⟨.after (q.fill e), ops, outer⟩ rest := by
  cases rest with
  | nil => cases outer <;> rfl
  | cons token rest =>
      obtain ⟨hparen, hop⟩ := hstops token rfl
      have hstep : ExprReader.step ⟨.after e, q :: ops, outer⟩ token =
          ExprReader.step ⟨.after (q.fill e), ops, outer⟩ token := by
        simp only [ExprReader.step, ExprReader.stepAfter]
        split
        · rename_i heq
          exact absurd heq (hparen hk)
        · rename_i s _ heq
          cases hs : InfixOp.ofSymbol? s with
          | none => rfl
          | some op =>
              -- the next operator is looser and gives the operand away before it is taken
              have hle : op.level ≤ q.level := by
                have := hop s op heq hs
                omega
              simp only [PendingOp.reduce, if_pos hle]
        · rfl
      rw [finish, finish, hstep]

/-- A complete expression that nothing goes on with ends its group. -/
theorem step_stops (hstops : Stops 0 (token :: rest)) :
    ExprReader.step ⟨.after e, [], outer⟩ token = stepClose ⟨.after e, [], outer⟩ e token := by
  obtain ⟨hparen, hop⟩ := hstops token rfl
  simp only [ExprReader.step, ExprReader.stepAfter]
  split
  · rename_i heq
    exact absurd heq (hparen (by omega))
  · rename_i s _ heq
    cases hs : InfixOp.ofSymbol? s with
    | none => rfl
    | some op => exact absurd (hop s op heq hs) (Nat.not_lt_zero _)
  · rfl

/-- Outside of all groups it is the result. -/
theorem finish_complete (hstops : Stops 0 rest) :
    finish endSpan ⟨.after e, [], []⟩ rest = .ok (e, rest) := by
  cases rest with
  | nil => rfl
  | cons token rest =>
      rw [finish, step_stops hstops]
      rfl

/-- Reading stops at an entry that the reader does not accept. -/
theorem finish_of_fail {input : Input} {i : Nat} (hi : i ≤ input.tokens.length) {r : ExprReader}
    {cause : ParseError.Cause}
    (hstep : ∀ token, (input.entry i).lexeme = some token.lexeme → r.step token = .fail cause)
    (hclose : (input.entry i).lexeme = none → r.close = .error cause) :
    r.finish input.endSpan (input.tokens.drop i) =
      .error ⟨cause, (input.entry i).region.span⟩ := by
  -- the end of the input counts as one more entry, at which the reader is closed
  rcases Input.drop_cases hi with ⟨_, hnil⟩ | ⟨token, _, _, hcons⟩
  · rw [Input.entry_of_drop_nil hnil] at hclose ⊢
    rw [hnil, finish, hclose rfl]
  · rw [Input.entry_of_drop_cons hcons] at hstep ⊢
    rw [hcons, finish, hstep token rfl]

end Finish

/-! ## Following the reader -/

/-- Whether what an attempt has returned is where the reader gets to, from index `i` on
and whatever is pending. -/
structure Arrives (input : Input) (k low i : Nat)
    (start : List PendingOp → List Enclosing → ExprReader) (p : Parsed Expr) : Prop where
  low_le : low ≤ p.next
  next_le : p.next ≤ input.tokens.length
  places : input.Places p.node.span p.region
  stops : Stops k (input.tokens.drop p.next)
  finish_eq : ∀ ops outer, Below k ops →
    (start ops outer).finish input.endSpan (input.tokens.drop i) =
      finish input.endSpan ⟨.after p.node, ops, outer⟩ (input.tokens.drop p.next)

/-- Whether an error is the one that the reader comes to. -/
structure Fails (input : Input) (k i : Nat)
    (start : List PendingOp → List Enclosing → ExprReader) (e : ParseError) : Prop where
  stop_le : e.span.stop ≤ input.endSpan.stop
  finish_eq : ∀ ops outer, Below k ops →
    (start ops outer).finish input.endSpan (input.tokens.drop i) = .error e

/-- Whether an attempt to read an expression of level `k` comes back and does what the reader does
from index `i` on. It comes to index `low` at least. -/
def Follows (input : Input) (k low i : Nat)
    (start : List PendingOp → List Enclosing → ExprReader)
    (x : Nat → Attempt (Parsed Expr)) : Prop :=
  Meets x (Arrives input k low i start) (Fails input k i start)

/-- The reader where an operand must stand. -/
abbrev atOperand (ops : List PendingOp) (outer : List Enclosing) : ExprReader :=
  ⟨.operand, ops, outer⟩

/-- The reader behind a complete operand. -/
abbrev behind (e : Expr) (ops : List PendingOp) (outer : List Enclosing) : ExprReader :=
  ⟨.after e, ops, outer⟩

section Follows

variable {input : Input} {k low i : Nat} {start : List PendingOp → List Enclosing → ExprReader}
  {x : Nat → Attempt (Parsed Expr)}

/-- What the reader has done before does not matter. -/
theorem Follows.of_eq {j low' : Nat} {start' : List PendingOp → List Enclosing → ExprReader}
    (h : Follows input k low' j start' x) (hlow : low ≤ low')
    (heq : ∀ ops outer, Below k ops →
      (start ops outer).finish input.endSpan (input.tokens.drop i) =
        (start' ops outer).finish input.endSpan (input.tokens.drop j)) :
    Follows input k low i start x := by
  refine h.mono (fun p hp => ?_) fun e he => ?_
  · exact ⟨Nat.le_trans hlow hp.low_le, hp.next_le, hp.places, hp.stops, fun ops outer hops =>
      (heq ops outer hops).trans (hp.finish_eq ops outer hops)⟩
  · exact ⟨he.stop_le, fun ops outer hops =>
      (heq ops outer hops).trans (he.finish_eq ops outer hops)⟩

theorem Follows.deeper (h : Follows input k low i start fun depth => x (depth + 1)) :
    Follows input k low i start x :=
  meets_succ_iff.mp h

theorem follows_pure {p : Parsed Expr} (hlow : low ≤ p.next) (hnext : p.next ≤ input.tokens.length)
    (hplaces : input.Places p.node.span p.region) (hstops : Stops k (input.tokens.drop p.next)) :
    Follows input k low p.next (behind p.node) (fun _ => pure p) :=
  meets_pure ⟨hlow, hnext, hplaces, hstops, fun _ _ _ => rfl⟩

theorem follows_complain {cause : ParseError.Cause} (hbounded : input.Bounded)
    (hi : i ≤ input.tokens.length)
    (hstep : ∀ token, (input.entry i).lexeme = some token.lexeme →
      ∀ ops outer, (start ops outer).step token = .fail cause)
    (hclose : (input.entry i).lexeme = none →
      ∀ ops outer, (start ops outer).close = .error cause) :
    Follows input k low i start (fun _ => complain cause (input.entry i).region) :=
  meets_complain ⟨(hbounded.entry hi).stop_le, fun ops outer _ =>
    finish_of_fail hi (fun token h => hstep token h ops outer) fun h => hclose h ops outer⟩

/-- A part of an expression is read with more pending than there was before it. -/
theorem Follows.bind {k' low' : Nat} {f : Parsed Expr → Nat → Attempt (Parsed Expr)}
    (pending : List PendingOp → List PendingOp)
    (groups : List PendingOp → List Enclosing → List Enclosing)
    (hx : Follows input k low i start x) (hbelow : ∀ ops, Below k' ops → Below k (pending ops))
    (hf : ∀ p : Parsed Expr, low ≤ p.next → p.next ≤ input.tokens.length →
      input.Places p.node.span p.region → Stops k (input.tokens.drop p.next) →
      Follows input k' low' p.next
        (fun ops outer => behind p.node (pending ops) (groups ops outer)) (f p)) :
    Follows input k' low' i (fun ops outer => start (pending ops) (groups ops outer))
      (fun depth => x depth >>= fun p => f p depth) := by
  refine Meets.bind hx (fun e he => ?_) fun p hp => ?_
  · -- an error inside the part is the error of the whole
    exact ⟨he.stop_le, fun ops outer hops => he.finish_eq _ _ (hbelow ops hops)⟩
  · exact (hf p hp.low_le hp.next_le hp.places hp.stops).of_eq (Nat.le_refl _)
      fun ops outer hops => hp.finish_eq _ _ (hbelow ops hops)

end Follows

/-! ## Groups -/

section Groups

variable {e : Expr} {ops : List PendingOp} {outer : List Enclosing} {token : Token}

theorem step_group_end {enclosure : Enclosure} (h : token.lexeme = .symbol .rightParen) :
    ExprReader.step ⟨.after e, [], ⟨enclosure, ops⟩ :: outer⟩ token =
      .more (behind (enclosure.built token.span e) ops outer) := by
  cases enclosure <;>
    simp only [ExprReader.step, ExprReader.stepAfter, h, InfixOp.ofSymbol?,
      ExprReader.stepClose] <;>
    rfl

/-- A group does not go on with anything but its end, or the comma behind an argument. -/
theorem step_group_fail {enclosure : Enclosure} {rest : List Token}
    (hstops : Stops 0 (token :: rest)) (hend : token.lexeme ≠ .symbol .rightParen)
    (hcomma : ∀ callee args, enclosure = .arguments callee args → token.lexeme ≠ .symbol .comma) :
    ExprReader.step ⟨.after e, [], ⟨enclosure, ops⟩ :: outer⟩ token =
      .fail enclosure.complaint := by
  rw [step_stops hstops]
  cases enclosure with
  | paren opener =>
      simp only [ExprReader.stepClose]
  | arguments callee args =>
      simp only [ExprReader.stepClose]
      split
      · rename_i heq
        exact absurd heq hend
      · rename_i heq
        exact absurd heq (hcomma callee args rfl)
      · rfl

/-- The end of a group makes an operand of it, and all else is wrong. -/
theorem follows_group_end {input : Input} (hbounded : input.Bounded) {k low j : Nat}
    (enclosure : Enclosure) {f : Region × Nat → Nat → Attempt (Parsed Expr)}
    (hj : j ≤ input.tokens.length) (hstops : Stops 0 (input.tokens.drop j))
    (hcomma : ∀ callee args, enclosure = .arguments callee args →
      (input.entry j).lexeme ≠ some (.symbol .comma))
    (hf : ∀ token ∈ input.tokens, j < input.tokens.length →
      Follows input k low (j + 1) (behind (enclosure.built token.span e))
        (f (⟨input.file, token.span⟩, j + 1))) :
    Follows input k low j (fun ops outer => behind e [] (⟨enclosure, ops⟩ :: outer))
      (fun depth =>
        expect input (.symbol .rightParen) enclosure.complaint j >>= fun p => f p depth) := by
  by_cases hend : (input.entry j).lexeme = some (.symbol .rightParen)
  · obtain ⟨token, hmem, hlt, hcons, hlexeme, hregion⟩ := Input.exists_token hj hend
    simp only [expect_eq hj hend, pure_bind, hregion]
    refine (hf token hmem hlt).of_eq (Nat.le_refl _) fun ops outer _ => ?_
    rw [hcons, finish_of_more (step_group_end hlexeme)]
  · rw [expect_ne hj hend]
    refine follows_complain hbounded hj (fun token htoken ops outer => ?_) fun _ _ _ => rfl
    rw [htoken] at hend hcomma
    -- the group stops here, so that the token is no operator either
    have hhead : Stops 0 [token] := by
      rcases Input.drop_cases hj with ⟨_, hnil⟩ | ⟨token', _, _, hcons⟩
      · rw [Input.entry_of_drop_nil hnil] at htoken
        cases htoken
      · rw [Input.entry_of_drop_cons hcons] at htoken
        injection htoken with htoken
        rw [hcons] at hstops
        rintro _ ⟨⟩
        rw [← htoken]
        exact hstops token' rfl
    exact step_group_fail hhead (fun h => hend (congrArg some h))
      fun callee args heq h => hcomma callee args heq (congrArg some h)

end Groups

/-! ## The procedures follow the reader -/

/-- Whether expressions of every level are read at an index, and take at least one token. -/
def Ready (input : Input) (i : Nat) : Prop :=
  ∀ k ≤ 6, Follows input k (i + 1) i atOperand fun depth => level input depth k i

theorem Ready.unary {input : Input} {i : Nat} (h : Ready input i) :
    Follows input 6 (i + 1) i atOperand fun depth => unary input depth i := by
  have hlevel (depth : Nat) : level input (depth + 1) 6 i = Descent.unary input depth i := by
    rw [level, if_neg (Nat.lt_irrefl 6)]
  simp only [← hlevel]
  exact meets_succ_iff.mpr (h 6 (Nat.le_refl 6))

/-- What follows the parenthesis behind a callee, unless it is closed at once, is an argument. -/
theorem finish_arguments {input : Input} {j : Nat} (hj : j ≤ input.tokens.length)
    (h : (input.entry j).lexeme ≠ some (.symbol .rightParen)) (callee : Expr)
    (ops : List PendingOp)
    (outer : List Enclosing) :
    finish input.endSpan ⟨.arguments callee, ops, outer⟩ (input.tokens.drop j) =
      finish input.endSpan (atOperand [] (⟨.arguments callee [], ops⟩ :: outer))
        (input.tokens.drop j) := by
  rcases Input.drop_cases hj with ⟨_, hnil⟩ | ⟨token, _, _, hcons⟩
  · rw [hnil]
    rfl
  · rw [Input.entry_of_drop_cons hcons] at h
    -- only a closing parenthesis is treated differently in front of the first argument
    have hstep : ExprReader.step ⟨.arguments callee, ops, outer⟩ token =
        ExprReader.step (atOperand [] (⟨.arguments callee [], ops⟩ :: outer)) token := by
      simp only [ExprReader.step]
      split
      · rename_i heq
        exact absurd (congrArg some heq) h
      · rfl
    rw [hcons, finish, finish, hstep]

section Procedures

variable {input : Input} {i : Nat} (ih : ∀ j, i < j → j ≤ input.tokens.length → Ready input j)

include ih

/-- Operators of a level are read with their right operands as long as there are any. -/
theorem follows_operators {k : Nat} (hk : k < 6) (left : Parsed Expr) (hi : i < left.next)
    (hnext : left.next ≤ input.tokens.length) (hplaces : input.Places left.node.span left.region)
    (hstops : Stops (k + 1) (input.tokens.drop left.next)) :
    Follows input k left.next left.next (behind left.node)
      fun depth => operators input depth k left := by
  refine Follows.deeper ?_
  simp only [operators, peek_eq hnext, pure_bind]
  cases hop : (input.entry left.next).operator? k with
  | none => exact follows_pure (Nat.le_refl _) hnext hplaces (hstops.of_operator? hk hop)
  | some op =>
      obtain ⟨s, hs, hstands⟩ := Entry.stands_of_operator? hop
      obtain ⟨token, _, hlt, hcons, hlexeme, hregion⟩ := Input.exists_token hnext hs
      have hlevel : op.level = k := (Grammar.stands_iff.mp hstands).2
      have hbelow : ∀ ops, Below k ops →
          Below (k + 1) (.binary left.node ⟨token.span, op⟩ :: ops) := by
        intro ops _ _ q hq
        obtain rfl : PendingOp.binary left.node ⟨token.span, op⟩ = q := by simpa using hq
        exact Nat.lt_succ_of_le (Nat.le_of_eq hlevel)
      -- nothing that is pending binds as tightly, so that the operator gets `left` as it is
      have hshift : ∀ ops outer, Below k ops →
          finish input.endSpan (behind left.node ops outer) (input.tokens.drop left.next) =
            finish input.endSpan (atOperand (.binary left.node ⟨token.span, op⟩ :: ops) outer)
              (input.tokens.drop (left.next + 1)) := by
        intro ops outer hops
        have hreduce := PendingOp.reduce_append (hops hk) [] left.node (by simp)
        rw [List.nil_append] at hreduce
        rw [hcons, finish_of_more (Grammar.step_infixOp hlexeme hstands _ _ _), hreduce]
        rfl
      simp only [take_eq hnext hs, pure_bind, hregion]
      refine Follows.of_eq (Follows.bind (.binary left.node ⟨token.span, op⟩ :: ·)
        (fun _ outer => outer) (ih (left.next + 1) (by omega) hlt (k + 1) hk) hbelow
        fun right hlow hle hright hstops' => ?_) (Nat.le_refl _) hshift
      obtain ⟨hjoin, hjoined⟩ := hplaces.join hright
      simp only [hjoin, pure_bind]
      refine (follows_operators hk
        ⟨Grammar.operation (left.node.span.join right.node.span) left.node ⟨token.span, op⟩
          right.node, _, right.next⟩ (by dsimp only; omega) hle ?_ hstops').of_eq
        (by dsimp only; omega) fun ops outer _ => ?_
      · rw [Grammar.span_operation]
        exact hjoined
      · -- the operands so far become the left operand of the next operator
        dsimp only [behind]
        rw [← Grammar.fill_binary]
        exact finish_fill hstops' hk (by simp only [PendingOp.level]; omega)
termination_by input.tokens.length - left.next

variable (hbounded : input.Bounded)

include hbounded

mutual

/-- Argument lists are read behind a callee as long as there are any. -/
theorem follows_calls (callee : Parsed Expr) (hi : i < callee.next)
    (hnext : callee.next ≤ input.tokens.length)
    (hplaces : input.Places callee.node.span callee.region) :
    Follows input 6 callee.next callee.next (behind callee.node)
      fun depth => calls input depth callee := by
  refine Follows.deeper ?_
  simp only [calls]
  by_cases hopen : (input.entry callee.next).lexeme = some (.symbol .leftParen)
  · obtain ⟨opener, _, hlt, hcons, hlexeme, _⟩ := Input.exists_token hnext hopen
    have hstart (ops : List PendingOp) (outer : List Enclosing) :
        finish input.endSpan (behind callee.node ops outer) (input.tokens.drop callee.next) =
          finish input.endSpan ⟨.arguments callee.node, ops, outer⟩
            (input.tokens.drop (callee.next + 1)) := by
      rw [hcons]
      refine finish_of_more ?_
      simp only [ExprReader.step, ExprReader.stepAfter, hlexeme]
    simp only [take?_eq hnext hopen, peek_eq hlt, pure_bind]
    by_cases hclose : (input.entry (callee.next + 1)).lexeme = some (.symbol .rightParen)
    · -- an empty list
      obtain ⟨closer, hmem, hlt', hcons', hlexeme', hregion⟩ := Input.exists_token hlt hclose
      obtain ⟨hjoin, hjoined⟩ := hplaces.join (hbounded.token hmem)
      simp only [if_pos hclose, expect_eq hlt hclose, hregion, hjoin, pure_bind]
      refine (follows_calls ⟨.call (callee.node.span.join closer.span) callee.node [], _,
        callee.next + 1 + 1⟩ (by dsimp only; omega) hlt' hjoined).of_eq (by dsimp only; omega)
        fun ops outer _ => ?_
      rw [hstart, hcons']
      refine finish_of_more ?_
      simp only [ExprReader.step, hlexeme']
    · simp only [if_neg hclose]
      refine Follows.of_eq (Follows.bind (fun _ => [])
        (fun ops outer => ⟨.arguments callee.node [], ops⟩ :: outer)
        (ih (callee.next + 1) (by omega) hlt 0 (by omega)) (fun _ _ => below_nil 0)
        fun p hlow hle hargument hstops => ?_) (Nat.le_refl _)
        fun ops outer _ => (hstart ops outer).trans (finish_arguments hlt hclose _ _ _)
      exact (follows_arguments callee [] p.node p.next (by omega) hle hplaces hstops).of_eq
        (by omega) fun _ _ _ => rfl
  · simp only [take?_ne hnext hopen, pure_bind]
    refine follows_pure (Nat.le_refl _) hnext hplaces fun token htoken => ⟨fun _ hlexeme => ?_, ?_⟩
    · obtain ⟨rest, hcons⟩ := List.head?_eq_some_iff.mp htoken
      rw [Input.entry_of_drop_cons hcons] at hopen
      exact hopen (congrArg some hlexeme)
    · -- no operator between operands binds as tightly as a call
      intro s op _ _
      have := level_le_five op
      omega
termination_by input.tokens.length - callee.next

/-- Further arguments are read as long as there are commas. -/
theorem follows_arguments (callee : Parsed Expr) (args : List Expr) (last : Expr) (j : Nat)
    (hij : i < j) (hj : j ≤ input.tokens.length)
    (hplaces : input.Places callee.node.span callee.region)
    (hstops : Stops 0 (input.tokens.drop j)) :
    Follows input 6 j j
      (fun ops outer => behind last [] (⟨.arguments callee.node args, ops⟩ :: outer))
      fun depth => arguments input depth callee (args ++ [last]) j := by
  refine Follows.deeper ?_
  simp only [arguments]
  by_cases hcomma : (input.entry j).lexeme = some (.symbol .comma)
  · obtain ⟨comma, _, hlt, hcons, hlexeme, _⟩ := Input.exists_token hj hcomma
    -- the argument before the comma joins the others, and the next one is read afresh
    simp only [take?_eq hj hcomma, pure_bind]
    refine Follows.of_eq (Follows.bind (fun _ => [])
      (fun ops outer => ⟨.arguments callee.node (args ++ [last]), ops⟩ :: outer)
      (ih (j + 1) (by omega) hlt 0 (by omega)) (fun _ _ => below_nil 0)
      fun p hlow hle _ hstops => ?_) (Nat.le_refl _) fun ops outer _ => ?_
    · exact (follows_arguments callee (args ++ [last]) p.node p.next (by omega) hle hplaces
        hstops).of_eq (by omega) fun _ _ _ => rfl
    · rw [hcons]
      refine finish_of_more ?_
      simp only [ExprReader.step, ExprReader.stepAfter, hlexeme, InfixOp.ofSymbol?,
        ExprReader.stepClose]
      rfl
  · simp only [take?_ne hj hcomma, pure_bind]
    refine follows_group_end hbounded (.arguments callee.node args) hj hstops
      (fun _ _ _ => hcomma) fun closer hmem hlt => ?_
    obtain ⟨hjoin, hjoined⟩ := hplaces.join (hbounded.token hmem)
    simp only [hjoin, pure_bind]
    exact (follows_calls
      ⟨.call (callee.node.span.join closer.span) callee.node (args ++ [last]), _, j + 1⟩
      (by dsimp only; omega) hlt hjoined).of_eq (by dsimp only; omega) fun _ _ _ => rfl
termination_by input.tokens.length - j

end

/-- An expression in parentheses is read as an operand. -/
theorem follows_paren {opener : Token} (hmem : opener ∈ input.tokens)
    (hlt : i < input.tokens.length)
    (hcons : input.tokens.drop i = opener :: input.tokens.drop (i + 1))
    (hlexeme : opener.lexeme = .symbol .leftParen) :
    Follows input 7 (i + 1) i atOperand
      (fun depth => do
        let inner ← level input depth 0 (i + 1)
        let (closer, j) ← expect input (.symbol .rightParen) .unclosedParen inner.next
        let region ← join ⟨input.file, opener.span⟩ closer
        pure ⟨.paren region.span inner.node, region, j⟩) := by
  refine Follows.of_eq (Follows.bind (fun _ => [])
    (fun ops outer => ⟨.paren opener.span, ops⟩ :: outer)
    (ih (i + 1) (by omega) hlt 0 (by omega)) (fun _ _ => below_nil 0)
    fun inner hlow hle _ hstops => ?_) (Nat.le_refl _) fun ops outer _ => ?_
  · refine follows_group_end hbounded (.paren opener.span) hle hstops (fun _ _ h => by cases h)
      fun closer hmem' hlt' => ?_
    obtain ⟨hjoin, hjoined⟩ := (hbounded.token hmem).join (hbounded.token hmem')
    simp only [hjoin, pure_bind]
    exact follows_pure (p := ⟨.paren (opener.span.join closer.span) inner.node, _, inner.next + 1⟩)
      (by dsimp only; omega) hlt' hjoined (stops_seven _)
  · rw [hcons]
    refine finish_of_more ?_
    simp only [ExprReader.step, ExprReader.stepOperand, hlexeme]

/-- A variable, a literal or a group is read as an operand. -/
theorem follows_primary (hi : i ≤ input.tokens.length) (hsign : (input.entry i).sign? = none) :
    Follows input 7 (i + 1) i atOperand fun depth => primary input depth i := by
  refine Follows.deeper ?_
  simp only [primary]
  rcases Input.drop_cases hi with ⟨_, hnil⟩ | ⟨token, hmem, hlt, hcons⟩
  · have hend : (input.entry i).lexeme = none := by rw [Input.entry_of_drop_nil hnil]
    simp only [take_end hi hend, pure_bind, hend]
    refine follows_complain hbounded hi (fun token htoken => ?_) fun _ _ _ => rfl
    rw [hend] at htoken
    cases htoken
  · have hentry := Input.entry_of_drop_cons hcons
    rw [hentry] at hsign
    simp only [take_eq hi (congrArg Entry.lexeme hentry), pure_bind, hentry]
    have hoperand {e : Expr} (hspan : e.span = token.span)
        (hstep : ∀ r : ExprReader, r.stepOperand token = .more { r with focus := .after e }) :
        Follows input 7 (i + 1) i atOperand
          fun _ => pure ⟨e, ⟨input.file, token.span⟩, i + 1⟩ := by
      have hplaces : input.Places e.span ⟨input.file, token.span⟩ := hspan ▸ hbounded.token hmem
      refine (follows_pure (p := ⟨e, ⟨input.file, token.span⟩, i + 1⟩) (Nat.le_refl _) hlt hplaces
        (stops_seven _)).of_eq (Nat.le_refl _) fun ops outer _ => ?_
      rw [hcons]
      exact finish_of_more (hstep _)
    have hwrong (hstep : ∀ r : ExprReader, r.stepOperand token = .fail .expectedExpression) :
        Follows input 7 (i + 1) i atOperand
          fun _ => complain .expectedExpression ⟨input.file, token.span⟩ := by
      refine meets_complain ⟨hbounded token hmem, fun ops outer _ => ?_⟩
      rw [hcons, finish]
      simp only [ExprReader.step, hstep]
    cases hlexeme : token.lexeme with
    | identifier name => exact hoperand rfl fun _ => by simp only [ExprReader.stepOperand, hlexeme]
    | int n => exact hoperand rfl fun _ => by simp only [ExprReader.stepOperand, hlexeme]
    | float x => exact hoperand rfl fun _ => by simp only [ExprReader.stepOperand, hlexeme]
    | string s => exact hoperand rfl fun _ => by simp only [ExprReader.stepOperand, hlexeme]
    | bool b => exact hoperand rfl fun _ => by simp only [ExprReader.stepOperand, hlexeme]
    | keyword w => exact hwrong fun _ => by simp only [ExprReader.stepOperand, hlexeme]
    | symbol s =>
        by_cases hparen : s = .leftParen
        · subst hparen
          exact follows_paren ih hbounded hmem hlt hcons hlexeme
        · simp only [Entry.sign?, hlexeme] at hsign
          have hstep (r : ExprReader) : r.stepOperand token = .fail .expectedExpression := by
            simp only [ExprReader.stepOperand, hlexeme, hsign]
          cases s with
          | leftParen => exact absurd rfl hparen
          | _ => exact hwrong hstep

/-- An operand is read with the operators in front of it. -/
theorem follows_unary (hi : i ≤ input.tokens.length) :
    Follows input 6 (i + 1) i atOperand fun depth => unary input depth i := by
  refine Follows.deeper ?_
  simp only [unary, peek_eq hi, pure_bind]
  cases hsign : (input.entry i).sign? with
  | none =>
      -- without a sign in front, an operand is a primary and the argument lists behind it
      refine Follows.bind id (fun _ outer => outer) (follows_primary ih hbounded hi hsign)
        (fun _ _ h => absurd h (by omega)) fun p hlow hle hplaces _ => ?_
      exact (follows_calls ih hbounded p (by omega) hle hplaces).of_eq hlow fun _ _ _ => rfl
  | some op =>
      obtain ⟨s, hs, hop⟩ := Entry.symbol_of_sign? hsign
      obtain ⟨token, hmem, hlt, hcons, hlexeme, hregion⟩ := Input.exists_token hi hs
      simp only [take_eq hi hs, pure_bind, hregion]
      refine Follows.of_eq (Follows.bind (.unary ⟨token.span, op⟩ :: ·) (fun _ outer => outer)
        (ih (i + 1) (by omega) hlt).unary (fun _ _ h => absurd h (by omega))
        fun p hlow hle hplaces hstops => ?_) (Nat.le_refl _) fun ops outer _ => ?_
      · obtain ⟨hjoin, hjoined⟩ := (hbounded.token hmem).join hplaces
        simp only [hjoin, pure_bind]
        refine (follows_pure
          (p := ⟨.unary (token.span.join p.node.span) ⟨token.span, op⟩ p.node, _, p.next⟩)
          (Nat.le_of_succ_le hlow) hle hjoined hstops).of_eq (Nat.le_refl _) fun ops outer _ => ?_
        -- a sign takes its operand before any operator behind it does
        exact finish_fill hstops (by omega) (by simp only [PendingOp.level]; omega)
      · rw [hcons, finish_of_more (Grammar.step_sign hlexeme (Grammar.mem_signs_iff.mpr hop) _ _)]

/-- An expression is read level by level. -/
theorem follows_level {k : Nat} (hk : k ≤ 6) (hi : i ≤ input.tokens.length) :
    Follows input k (i + 1) i atOperand fun depth => level input depth k i := by
  refine Follows.deeper ?_
  simp only [level]
  rcases Nat.lt_or_eq_of_le hk with hlt | rfl
  · -- first the tighter level, then the operators of this one
    simp only [if_pos hlt]
    refine Follows.bind id (fun _ outer => outer) (follows_level hlt hi) (fun _ hops => hops.succ)
      fun p hlow hle hplaces hstops => ?_
    exact (follows_operators ih hlt p (by omega) hle hplaces hstops).of_eq hlow
      fun _ _ _ => rfl
  · simp only [if_neg (Nat.lt_irrefl 6)]
    exact follows_unary ih hbounded hi
termination_by 6 - k

end Procedures

/-! ## Expressions are read from every index on -/

/-- By induction on the tokens that are left: what is read later is read at later indices. -/
theorem ready {input : Input} (hbounded : input.Bounded) {i : Nat} (hi : i ≤ input.tokens.length) :
    Ready input i :=
  fun _ hk => follows_level (fun _ _ hj => ready hbounded hj) hbounded hk hi
termination_by input.tokens.length - i

/-- What comes back from reading an expression from an index on. -/
structure Reads (input : Input) (i : Nat) (p : Parsed Expr) : Prop where
  lt_next : i < p.next
  next_le : p.next ≤ input.tokens.length
  places : input.Places p.node.span p.region
  stops : Stops 0 (input.tokens.drop p.next)
  finish_eq : finish input.endSpan {} (input.tokens.drop i) =
    .ok (p.node, input.tokens.drop p.next)

/-- An attempt to read an expression comes back. If it returns, it has taken a token and
is within the list; otherwise it complains of a place in the text. In both cases the
reader does the same. -/
theorem expression_meets {input : Input} (hbounded : input.Bounded) {i : Nat}
    (hi : i ≤ input.tokens.length) :
    Meets (fun depth => expression input depth i) (Reads input i) fun e =>
      e.span.stop ≤ input.endSpan.stop ∧
        finish input.endSpan {} (input.tokens.drop i) = .error e := by
  refine (ready hbounded hi 0 (by omega)).mono (fun p hp => ?_) fun e he => ?_
  · refine ⟨hp.low_le, hp.next_le, hp.places, hp.stops, ?_⟩
    rw [← finish_complete hp.stops]
    exact hp.finish_eq [] [] (below_nil 0)
  · exact ⟨he.stop_le, he.finish_eq [] [] (below_nil 0)⟩

/-- A text that is a single expression ends behind it. -/
theorem foldlM_feed_eq_finish (endSpan : Span) (tokens : List Token) : ∀ r : ExprReader,
    (tokens.foldlM feed r >>= fun r => r.close.mapError (⟨·, endSpan⟩)) =
      match r.finish endSpan tokens with
      | .ok (e, []) => .ok e
      | .ok (_, token :: _) => .error ⟨.extraneousInput, token.span⟩
      | .error e => .error e := by
  induction tokens with
  | nil =>
      intro r
      simp only [List.foldlM_nil, pure_bind, finish]
      cases r.close <;> rfl
  | cons token tokens ih =>
      intro r
      simp only [List.foldlM_cons, bind_assoc, finish, feed]
      cases r.step token with
      | more r => exact ih r
      -- the expression has ended before the text, and the token is too much
      | done e => rfl
      | fail cause => rfl

/-- An attempt to read the expression that the whole text is comes back as the reader does. -/
theorem wholeExpression_meets {input : Input} (hbounded : input.Bounded) :
    Meets (wholeExpression input) (fun e => read input.tokens input.endSpan = .ok e) fun e =>
      e.span.stop ≤ input.endSpan.stop ∧ read input.tokens input.endSpan = .error e := by
  have hread := foldlM_feed_eq_finish input.endSpan input.tokens {}
  refine (expression_meets hbounded (Nat.zero_le _)).bind (fun e ⟨hle, he⟩ => ⟨hle, ?_⟩)
    fun e he => ?_
  · rw [List.drop_zero] at he
    rw [he] at hread
    exact hread
  · have hfinish := he.finish_eq
    rw [List.drop_zero] at hfinish
    rw [hfinish] at hread
    simp only [peek_eq he.next_le, pure_bind]
    rcases Input.drop_cases he.next_le with ⟨_, hnil⟩ | ⟨token, hmem, _, hcons⟩
    · rw [hnil] at hread
      simp only [Input.entry_of_drop_nil hnil, if_true]
      exact meets_pure hread
    · rw [hcons] at hread
      simp only [Input.entry_of_drop_cons hcons, reduceCtorEq, if_false]
      exact meets_complain ⟨hbounded token hmem, hread⟩

end Descent

end Stepwise
