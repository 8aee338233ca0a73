import Stepwise.Proofs.Points

/-!
# Well-typed expressions

The variables of a stack of scopes have the types of their values, and `Expr.HasType` gives
expressions types by the evident rules. An expression of type `t` evaluates to a value of type
`t`, or it divides by zero at one of its own operators; it does not go wrong in any other way.

Nor does the machine underneath. Operators call the arithmetic of a host, which may raise an
exception on operands that it has no answer for: on a divisor that is zero, and on an infinite
dividend of a float remainder. `Expr.evalOn` is evaluation on such a host, with `none` for an
exception. All that is assumed of a host is that it has an answer elsewhere. The arithmetic that
expressions are evaluated with is that of one host (`Expr.evalOn_standard`), so what holds on
every host holds of evaluation.

`Host.exists_apply` and `UnaryOp.exists_apply` cover the operators, and `Expr.returns_evalOn` is
the induction on the rules.
-/

namespace Stepwise

open Evaluation

/-! ## Types of expressions -/

/-- The type of a variable, if the nearest one with the name has a value. -/
def Scopes.typeOf? (scopes : Scopes) (name : String) : Option Ty :=
  ((scopes.lookup name).bind (·.value)).map (·.type)

/-- Whether an arithmetic operator takes operands of a type. -/
def Arithmetic.Takes : Arithmetic → Ty → Prop
  | _, .int | _, .float | .add, .string => True
  | _, _ => False

/-- Whether a unary operator takes an operand of a type. -/
def UnaryOp.Takes : UnaryOp → Ty → Prop
  | .negate, .int | .negate, .float | .not, .bool => True
  | _, _ => False

/-- The type of an expression whose variables have these types. -/
inductive Expr.HasType (env : String → Option Ty) : Expr → Ty → Prop where
  | var {span : Span} {name : String} {t : Ty} :
      env name = some t → HasType env (.var span name) t
  | literal {span : Span} {v : Value} : HasType env (.literal span v) v.type
  | paren {span : Span} {inner : Expr} {t : Ty} :
      HasType env inner t → HasType env (.paren span inner) t
  | shortCircuit {span : Span} {left right : Expr} {op : Located ShortCircuitOp} :
      HasType env left .bool → HasType env right .bool →
      HasType env (.shortCircuit span left op right) .bool
  | compare {span : Span} {left right : Expr} {op : Located BinaryOp} {c : Comparison} {t : Ty} :
      op.value = .compare c → HasType env left t → HasType env right t →
      HasType env (.binary span left op right) .bool
  | arith {span : Span} {left right : Expr} {op : Located BinaryOp} {a : Arithmetic} {t : Ty} :
      op.value = .arith a → a.Takes t → HasType env left t → HasType env right t →
      HasType env (.binary span left op right) t
  | unary {span : Span} {op : Located UnaryOp} {operand : Expr} {t : Ty} :
      op.value.Takes t → HasType env operand t → HasType env (.unary span op operand) t

/-- Whether a stop is a division by zero at one of the operators of an expression. -/
def Expr.DividesByZero (e : Expr) (stop : Stop) : Prop :=
  ∃ span left op right a, .expr (.binary span left op right) ∈ e.nodes ∧ op.value = .arith a ∧
    a.divides ∧ stop = .error ⟨.divisionByZero op.value, op.span⟩

/-- Whether a result is all right for an expression of a type. -/
def Expr.Safe (e : Expr) (t : Ty) : Except Stop Value → Prop
  | .ok v => v.type = t
  | .error stop => e.DividesByZero stop

/-! ## Evaluation on a host -/

/-- Whether a float is an infinity. -/
def Binary64.IsInfinite : Binary64 → Prop
  | .infinite _ => True
  | _ => False

instance : DecidablePred Binary64.IsInfinite
  | .infinite _ => .isTrue trivial
  | .nan | .finite _ _ _ => .isFalse id

/-- The arithmetic of a host: it has an answer to everything but a divisor that is zero and the
remainder of an infinite float. -/
structure Host where
  onInt : Arithmetic → Int → Int → Option Int
  onFloat : Arithmetic → Float → Float → Option Float
  onInt_isSome : ∀ a m n, (a.divides && n == 0) = false → (onInt a m n).isSome
  onFloat_isSome : ∀ a x y, (a.divides && y == 0) = false →
    ¬(a = .modulo ∧ (Binary64.ofFloat x).IsInfinite) → (onFloat a x y).isSome

namespace Host

/-- Arithmetic on floats. An infinite float has no remainder, and the host is not asked for it. -/
def floats (host : Host) (a : Arithmetic) (x y : Float) : Option Float :=
  if a = .modulo ∧ (Binary64.ofFloat x).IsInfinite then some Binary64.nan.toFloat
  else host.onFloat a x y

/-- The value of a binary operator, or a fault, unless the host raises an exception. -/
def apply (host : Host) (op : BinaryOp) (left right : Value) : Option (Except Fault Value) :=
  match op, left, right with
  | .arith a, .int m, .int n =>
    if a.divides && n == 0 then some (.error (.divisionByZero op))
    else (host.onInt a m n).map fun k => .ok (.int k)
  | .arith a, .float x, .float y =>
    if a.divides && y == 0 then some (.error (.divisionByZero op))
    else (host.floats a x y).map fun z => .ok (.float z)
  | op, left, right => some (op.apply left right)

/-- A result that the host is not asked for. -/
def settled {α : Type} (result : Except Stop α) : ExceptT Stop Option α := .mk (some result)

/-- The host of the arithmetic that expressions are evaluated with; it raises exceptions
wherever a host may. -/
def standard : Host where
  onInt a m n := if a.divides && n == 0 then none else some (a.onInt m n)
  onFloat a x y :=
    if a.divides && y == 0 then none
    else if a = .modulo ∧ (Binary64.ofFloat x).IsInfinite then none
    else some (a.onFloat x y)
  onInt_isSome a m n h := by
    rw [h]
    rfl
  onFloat_isSome a x y h hinf := by
    rw [h, if_neg hinf]
    rfl

end Host

open Host

/-- The result of an expression on a host; `none` is an exception of the host. -/
def Expr.evalOn (host : Host) (scopes : Scopes) : Expr → ExceptT Stop Option Value
  | .var span name => settled (scopes.read span name).result
  | .literal _ v => pure v
  | .paren _ inner => inner.evalOn host scopes
  | .call span _ _ => throw (.failure (.unsupported span "function calls"))
  | .shortCircuit _ left op right => do
    let a ← settled (op.value.operand left.span (← left.evalOn host scopes)).result
    if a = op.value.decider then pure (.bool a)
    else
      let b ← settled (op.value.operand right.span (← right.evalOn host scopes)).result
      pure (.bool b)
  | .binary _ left op right => do
    let a ← left.evalOn host scopes
    let b ← right.evalOn host scopes
    .mk ((host.apply op.value a b).map fun r => (blame op.span r).result)
  | .unary _ op operand => do
    let a ← operand.evalOn host scopes
    settled (blame op.span (op.value.apply a)).result
  | .hole _ => throw (.failure .missingExpression)

/-! ## The host of evaluation -/

namespace Host

/-- A float remainder is the only thing that the host is not asked for. -/
theorem floats_standard {a : Arithmetic} {x y : Float} (h : (a.divides && y == 0) = false) :
    standard.floats a x y = some (a.onFloat x y) := by
  unfold floats
  by_cases hinf : a = .modulo ∧ (Binary64.ofFloat x).IsInfinite
  · -- both say that there is no number, the host without being asked
    rw [if_pos hinf]
    obtain ⟨rfl, hx⟩ := hinf
    show some _ = some ((Binary64.ofFloat x).remainder (Binary64.ofFloat y)).toFloat
    cases hb : Binary64.ofFloat x with
    | infinite negative => cases Binary64.ofFloat y <;> rfl
    | nan => rw [hb] at hx; exact hx.elim
    | finite negative m e => rw [hb] at hx; exact hx.elim
  · rw [if_neg hinf]
    simp only [standard, h, if_neg hinf]
    rfl

theorem apply_standard (op : BinaryOp) (left right : Value) :
    standard.apply op left right = some (op.apply left right) := by
  unfold apply
  split
  · rename_i a m n
    cases h : a.divides && n == 0 with
    | true => simp only [BinaryOp.apply, h, if_true]
    | false => simp only [BinaryOp.apply, standard, h]; rfl
  · rename_i a x y
    cases h : a.divides && y == 0 with
    | true => simp only [BinaryOp.apply, h, if_true]
    | false => simp only [BinaryOp.apply, floats_standard h, h]; rfl
  · rfl

theorem settled_bind {α β : Type} (x : Evaluation α) (f : α → Evaluation β) :
    settled (x >>= f).result = settled x.result >>= fun a => settled (f a).result := by
  rw [bind_def]
  cases h : x.result with
  | ok a => rw [andThen_of_ok h]; rfl
  | error stop => rw [andThen_of_error h]; rfl

end Host

/-- **Evaluation is evaluation on a host.** -/
theorem Expr.evalOn_standard (scopes : Scopes) (e : Expr) :
    e.evalOn standard scopes = settled (e.eval scopes).result := by
  induction e using Expr.eval.induct with
  | case1 span name => rfl
  | case2 span v => rfl
  | case3 span inner ih => exact ih
  | case4 span callee arguments => rfl
  | case5 span left op right ihl ihr =>
      simp only [evalOn, eval, settled_bind, ihl, ihr]
      -- the same left operand, and then the same decision
      refine congrArg (settled (left.eval scopes).result >>= ·) (funext fun v => ?_)
      refine congrArg (settled (op.value.operand left.span v).result >>= ·) (funext fun a => ?_)
      by_cases h : a = op.value.decider
      · simp only [h, if_true]
        rfl
      · simp only [h, if_false, settled_bind]
        rfl
  | case6 span left op right ihl ihr =>
      simp only [evalOn, eval, settled_bind, ihl, ihr, apply_standard]
      rfl
  | case7 span op operand ih =>
      simp only [evalOn, eval, settled_bind, ih]
      rfl
  | case8 span => rfl

/-! ## Operators -/

/-- Values of one type can be compared. -/
theorem Comparison.exists_apply (c : Comparison) {v w : Value} (h : v.type = w.type) :
    ∃ b, BinaryOp.apply (.compare c) v w = .ok (.bool b) := by
  cases v with
  | int m =>
      cases w with
      | int n => exact ⟨_, rfl⟩
      | _ => cases h
  | float x =>
      cases w with
      | float y => exact ⟨_, rfl⟩
      | _ => cases h
  | string t =>
      cases w with
      | string u => exact ⟨_, rfl⟩
      | _ => cases h
  | bool a =>
      cases w with
      | bool b => exact ⟨_, rfl⟩
      | _ => cases h

/-- A unary operator has a value on what it takes, and keeps the type. -/
theorem UnaryOp.exists_apply {op : UnaryOp} {v : Value} (h : op.Takes v.type) :
    ∃ w, op.apply v = .ok w ∧ w.type = v.type := by
  cases op with
  | negate =>
      cases v with
      | int n => exact ⟨.int (-n), rfl, rfl⟩
      | float x => exact ⟨.float (-x), rfl, rfl⟩
      | _ => exact h.elim
  | not =>
      cases v with
      | bool b => exact ⟨.bool !b, rfl, rfl⟩
      | _ => exact h.elim

namespace Host

variable (host : Host) {a : Arithmetic}

theorem floats_isSome {x y : Float} (h : (a.divides && y == 0) = false) :
    (host.floats a x y).isSome := by
  unfold floats
  -- the one remainder that a host need not have is not asked for
  by_cases hinf : a = .modulo ∧ (Binary64.ofFloat x).IsInfinite
  · rw [if_pos hinf]
    rfl
  · rw [if_neg hinf]
    exact host.onFloat_isSome a x y h hinf

/-- **Arithmetic on what it takes has a value of the same type, or the divisor is zero**: the host
is asked for nothing that it has no answer to. -/
theorem exists_apply {v w : Value} (htakes : a.Takes v.type) (htype : w.type = v.type) :
    (∃ u, host.apply (.arith a) v w = some (.ok u) ∧ u.type = v.type) ∨
      a.divides ∧ host.apply (.arith a) v w = some (.error (.divisionByZero (.arith a))) := by
  cases v with
  | int m =>
      cases w with
      | int n =>
          simp only [apply]
          -- the divisor is looked at before the host is asked
          cases h : a.divides && n == 0 with
          | true => exact .inr ⟨(Bool.and_eq_true_iff.mp h).1, rfl⟩
          | false =>
              obtain ⟨k, hk⟩ := Option.isSome_iff_exists.mp (host.onInt_isSome a m n h)
              exact .inl ⟨.int k, by rw [hk]; rfl, rfl⟩
      | _ => cases htype
  | float x =>
      cases w with
      | float y =>
          simp only [apply]
          cases h : a.divides && y == 0 with
          | true => exact .inr ⟨(Bool.and_eq_true_iff.mp h).1, rfl⟩
          | false =>
              obtain ⟨z, hz⟩ := Option.isSome_iff_exists.mp (host.floats_isSome (x := x) h)
              exact .inl ⟨.float z, by rw [hz]; rfl, rfl⟩
      | _ => cases htype
  | string t =>
      cases w with
      | string u =>
          cases a with
          | add => exact .inl ⟨.string (t ++ u), rfl, rfl⟩
          | _ => exact htakes.elim
      | _ => cases htype
  | bool b => cases a <;> exact htakes.elim

/-! ## Expressions -/

variable {α β : Type} {stops : Stop → Prop} {values : α → Prop}

/-- Whether a computation comes back from the host, with a value or a stop of these kinds. -/
def Returns (stops : Stop → Prop) (values : α → Prop) (x : ExceptT Stop Option α) : Prop :=
  (∃ v, x = settled (.ok v) ∧ values v) ∨ ∃ stop, x = settled (.error stop) ∧ stops stop

theorem returns_pure {v : α} (h : values v) : Returns stops values (pure v) := .inl ⟨v, rfl, h⟩

theorem Returns.mono {stops' : Stop → Prop} {x : ExceptT Stop Option α}
    (hx : Returns stops values x)
    (h : ∀ stop, stops stop → stops' stop) : Returns stops' values x := by
  rcases hx with hv | ⟨stop, hx, hstop⟩
  · exact .inl hv
  · exact .inr ⟨stop, hx, h stop hstop⟩

theorem returns_bind {values' : β → Prop} {x : ExceptT Stop Option α}
    {f : α → ExceptT Stop Option β} (hx : Returns stops values x)
    (hf : ∀ v, values v → Returns stops values' (f v)) : Returns stops values' (x >>= f) := by
  rcases hx with ⟨v, rfl, hv⟩ | ⟨stop, rfl, hstop⟩
  · exact hf v hv
  · exact .inr ⟨stop, rfl, hstop⟩

/-- A truth value is what a short-circuit operator needs. -/
theorem returns_operand (op : ShortCircuitOp) (span : Span) {v : Value} (h : v.type = .bool) :
    Returns stops (fun _ => True) (settled (op.operand span v).result) := by
  cases v with
  | bool b => exact .inl ⟨b, rfl, trivial⟩
  | _ => cases h

end Host

namespace Expr

/-- An expression divides where its parts do. -/
theorem DividesByZero.mono {e e' : Expr} {stop : Stop} (h : e.DividesByZero stop)
    (hsub : e.nodes ⊆ e'.nodes) : e'.DividesByZero stop := by
  obtain ⟨span, left, op, right, a, hmem, hrest⟩ := h
  exact ⟨span, left, op, right, a, hsub hmem, hrest⟩

/-- A binary operation returns if it does on values of the types of its operands. -/
theorem returns_binary {host : Host} {scopes : Scopes} {span : Span} {left right : Expr}
    {op : Located BinaryOp} {t u : Ty}
    (hleft : Returns left.DividesByZero (·.type = t) (left.evalOn host scopes))
    (hright : Returns right.DividesByZero (·.type = t) (right.evalOn host scopes))
    (happly : ∀ v w, v.type = t → w.type = t →
      Returns (binary span left op right).DividesByZero (·.type = u)
        (.mk ((host.apply op.value v w).map fun r => (blame op.span r).result))) :
    Returns (binary span left op right).DividesByZero (·.type = u)
      ((binary span left op right).evalOn host scopes) := by
  have hl : left.nodes ⊆ (binary span left op right).nodes := List.subset_append_left _ _
  have hr : right.nodes ⊆ (binary span left op right).nodes :=
    List.Subset.trans (List.subset_cons_self _ _) (List.subset_append_right _ _)
  -- a division by zero in an operand is one of the whole expression
  refine returns_bind (hleft.mono fun stop hstop => hstop.mono hl) fun v hv => ?_
  refine returns_bind (hright.mono fun stop hstop => hstop.mono hr) fun w hw => ?_
  exact happly v w hv hw

/-- **An expression of a type returns on every host**, with a value of that type or a division by
zero of its own. -/
theorem returns_evalOn (host : Host) {scopes : Scopes} {e : Expr} {t : Ty}
    (h : e.HasType scopes.typeOf? t) :
    Returns e.DividesByZero (·.type = t) (e.evalOn host scopes) := by
  induction h with
  | @var span name t hname =>
      obtain ⟨v, hv, rfl⟩ := Option.map_eq_some_iff.mp hname
      -- a variable with a type has a value
      obtain ⟨⟨declared, value⟩, hlookup, rfl⟩ := Option.bind_eq_some_iff.mp hv
      refine .inl ⟨v, ?_, rfl⟩
      rw [evalOn, Scopes.read, hlookup]
      rfl
  | literal => exact returns_pure rfl
  | paren _ ih => exact ih
  | @shortCircuit span left right op _ _ ihl ihr =>
      have hl : left.nodes ⊆ (shortCircuit span left op right).nodes := List.subset_append_left _ _
      have hr : right.nodes ⊆ (shortCircuit span left op right).nodes :=
        List.subset_append_right _ _
      refine returns_bind (ihl.mono fun stop hstop => hstop.mono hl) fun v hv => ?_
      refine returns_bind (returns_operand _ _ hv) fun a _ => ?_
      split
      · exact returns_pure rfl
      · refine returns_bind (ihr.mono fun stop hstop => hstop.mono hr) fun w hw => ?_
        exact returns_bind (returns_operand _ _ hw) fun b _ => returns_pure rfl
  | @compare span left right op c t hop _ _ ihl ihr =>
      refine returns_binary ihl ihr fun v w hv hw => ?_
      obtain ⟨b, hb⟩ := c.exists_apply (hv.trans hw.symm)
      have happly : host.apply op.value v w = some (.ok (.bool b)) := by
        rw [hop, ← hb]
        rfl
      rw [happly]
      exact returns_pure rfl
  | @arith span left right op a t hop htakes _ _ ihl ihr =>
      refine returns_binary ihl ihr fun v w hv hw => ?_
      subst hv
      -- a value of this type, or this very operator divides by zero
      rcases host.exists_apply htakes hw with ⟨u, hu, htype⟩ | ⟨hdivides, hzero⟩
      · rw [hop, hu]
        exact returns_pure htype
      · rw [hop, hzero]
        refine .inr ⟨.error ⟨.divisionByZero (.arith a), op.span⟩, rfl, ?_⟩
        have hself : .expr (.binary span left op right) ∈ (binary span left op right).nodes :=
          List.mem_append_right _ List.mem_cons_self
        exact ⟨span, left, op, right, a, hself, hop, hdivides, by rw [hop]⟩
  | @unary span op operand t htakes _ ih =>
      have hsub : operand.nodes ⊆ (unary span op operand).nodes := List.subset_cons_self _ _
      refine returns_bind (ih.mono fun stop hstop => hstop.mono hsub) fun v hv => ?_
      subst hv
      obtain ⟨w, hw, htype⟩ := UnaryOp.exists_apply htakes
      rw [hw]
      exact returns_pure htype

/-- What returns is safe. -/
theorem exists_safe {e : Expr} {t : Ty} {x : ExceptT Stop Option Value}
    (h : Returns e.DividesByZero (·.type = t) x) : ∃ r, x = settled r ∧ e.Safe t r := by
  rcases h with ⟨v, hx, hv⟩ | ⟨stop, hx, hstop⟩
  · exact ⟨.ok v, hx, hv⟩
  · exact ⟨.error stop, hx, hstop⟩

/-- **Well-typed expressions do not go wrong.** An expression of a type evaluates to a value of
that type, or it divides by zero at one of its operators. The same holds on every host, and the
host raises no exception. -/
theorem eval_of_hasType {scopes : Scopes} {e : Expr} {t : Ty} (h : e.HasType scopes.typeOf? t) :
    e.Safe t (e.eval scopes).result ∧
      ∀ host : Host, ∃ r, (e.evalOn host scopes).run = some r ∧ e.Safe t r := by
  refine ⟨?_, fun host => exists_safe (returns_evalOn host h)⟩
  obtain ⟨r, hr, hsafe⟩ := exists_safe (returns_evalOn standard h)
  rw [evalOn_standard] at hr
  cases hr
  exact hsafe

/-- The variables `x`, which is zero, and `y`, which is infinite. -/
def nulled : Scopes :=
  [[("x", ⟨.ofLength 0 10, some (.int 0)⟩),
    ("y", ⟨.ofLength 11 14, some (.float (Binary64.infinite false).toFloat)⟩)]]

/-- The expression `7 % x`. -/
def byZero : Expr :=
  .binary (.ofLength 14 5) (.literal (.ofLength 14 1) (.int 7)) ⟨.ofLength 16 1, .arith .modulo⟩
    (.var (.ofLength 18 1) "x")

/-- The expression `y % y == y || 7 % x < 1`. -/
def remainders : Expr :=
  .shortCircuit (.ofLength 0 23)
    (.binary (.ofLength 0 10)
      (.binary (.ofLength 0 5) (.var (.ofLength 0 1) "y") ⟨.ofLength 2 1, .arith .modulo⟩
        (.var (.ofLength 4 1) "y"))
      ⟨.ofLength 6 2, .compare .equal⟩ (.var (.ofLength 9 1) "y"))
    ⟨.ofLength 11 2, .or⟩
    (.binary (.ofLength 14 9) byZero ⟨.ofLength 20 1, .compare .less⟩
      (.literal (.ofLength 22 1) (.int 1)))

theorem eval_of_hasType_remainders :
    (byZero.HasType nulled.typeOf? .int ∧ byZero.Safe .int (byZero.eval nulled).result ∧
      (byZero.eval nulled).result =
        .error (.error ⟨.divisionByZero (.arith .modulo), .ofLength 16 1⟩)) ∧
    remainders.HasType nulled.typeOf? .bool ∧
      remainders.Safe .bool (remainders.eval nulled).result ∧
      ∀ host : Host, ∃ r, (remainders.evalOn host nulled).run = some r ∧
        remainders.Safe .bool r := by
  have hint : byZero.HasType nulled.typeOf? .int :=
    .arith (t := .int) rfl trivial .literal (.var rfl)
  have hbool : remainders.HasType nulled.typeOf? .bool :=
    .shortCircuit
      (.compare rfl (.arith (t := .float) rfl trivial (.var rfl) (.var rfl)) (.var rfl))
      (.compare rfl hint .literal)
  exact ⟨⟨hint, (eval_of_hasType hint).1, rfl⟩, hbool, eval_of_hasType hbool⟩

end Expr

end Stepwise
