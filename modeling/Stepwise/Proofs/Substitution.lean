import Stepwise.Proofs.Erasure
import Stepwise.Proofs.Reparsing

/-!
# Substitutions are true

A record shows a text in the place of each operand of its action. That text is what the operand
comes to: the text of the operand is an expression, and evaluating it in the scopes that the
record shows gives the value that the text is of.

The operands of an action are expressions of the node that announces it, with values that were
computed in the scopes of the record, since no action of an expression changes them
(`Stmt.shown_plan`). The node is one of the program (`Expr.of_pointsOf`), so that its
expressions are read again from the text that they cover, only with other places; and a value
does not depend on places (`Expr.bare_eval`).
-/

namespace Stepwise

open Evaluation

/-! ## Operands and their values -/

/-- The expressions that a node works on. -/
def Node.exprs : Node → List Expr
  | .expr e => e.children
  | .stmt s => s.exprs

/-- Whether the operands of an action are expressions of these nodes, with the values that
the scopes give them. -/
def Action.Shown (scopes : Scopes) (nodes : List Node) (a : Action) : Prop :=
  ∀ operand ∈ a.operands, ∃ node ∈ nodes, ∃ e ∈ node.exprs,
    e.span = operand.span ∧ (e.eval scopes).result = .ok operand.value

theorem Action.Shown.mono {scopes : Scopes} {nodes nodes' : List Node} {a : Action}
    (h : a.Shown scopes nodes) (hsub : nodes ⊆ nodes') : a.Shown scopes nodes' := by
  intro operand hoperand
  obtain ⟨node, hnode, hshown⟩ := h operand hoperand
  exact ⟨node, hsub hnode, hshown⟩

/-- What comes behind an evaluation may rely on its result. -/
theorem Evaluation.all_bind_of_ok {α β : Type} {P : Action → Prop} {x : Evaluation α}
    {f : α → Evaluation β} (hx : x.All P) (hf : ∀ a, x.result = .ok a → (f a).All P) :
    (x >>= f).All P := by
  rw [bind_def]
  cases h : x.result with
  | error stop =>
      rw [andThen_of_error h]
      exact hx
  | ok a =>
      rw [andThen_of_ok h]
      intro b hb
      rcases List.mem_append.mp hb with hb | hb
      · exact hx b hb
      · exact hf a h b hb

section Plans

variable {scopes : Scopes}

theorem Expr.shown_eval (scopes : Scopes) (e : Expr) :
    (e.eval scopes).All (·.Shown scopes e.nodes) := by
  induction e using Expr.eval.induct with
  | case1 span name => exact Scopes.all_read fun _ h => absurd h List.not_mem_nil
  | case2 span v => exact all_ofResult (.ok v)
  | case3 span inner ih => exact ih
  | case4 span callee arguments => exact all_ofResult _
  | case5 span left op right ihl ihr =>
      -- what is shown is shown by a node of one of the operands
      replace ihl := ihl.mono fun a h => h.mono (List.subset_append_left left.nodes right.nodes)
      replace ihr := ihr.mono fun a h => h.mono (List.subset_append_right left.nodes right.nodes)
      refine all_bind ihl fun a => all_bind (op.value.all_operand _ a) fun b => ?_
      split
      · exact all_ofResult (.ok (Value.bool b))
      · refine all_bind ihr fun c => all_bind (op.value.all_operand _ c) fun d => ?_
        exact all_ofResult (.ok (Value.bool d))
  | case6 span left op right ihl ihr =>
      -- the operation itself shows both operands, with the values that they had
      have hself :
          Node.expr (.binary span left op right) ∈ (Expr.binary span left op right).nodes :=
        List.mem_append_right _ List.mem_cons_self
      replace ihl := ihl.mono fun a h => h.mono (List.subset_append_left left.nodes
        (.expr (.binary span left op right) :: right.nodes))
      replace ihr := ihr.mono fun a h => h.mono (List.Subset.trans
        (List.subset_cons_self (Node.expr (.binary span left op right)) right.nodes)
        (List.subset_append_right left.nodes _))
      refine all_bind_of_ok ihl fun a ha => all_bind_of_ok ihr fun b hb => ?_
      refine all_bind (all_announce fun operand hoperand => ?_) fun _ => all_blame _ _
      rcases List.mem_pair.mp hoperand with rfl | rfl
      · exact ⟨_, hself, left, List.mem_cons_self, rfl, ha⟩
      · exact ⟨_, hself, right, List.mem_cons_of_mem _ List.mem_cons_self, rfl, hb⟩
  | case7 span op operand ih =>
      have hself : Node.expr (.unary span op operand) ∈ (Expr.unary span op operand).nodes :=
        List.mem_cons_self
      replace ih := ih.mono fun a h => h.mono (List.subset_cons_self
        (Node.expr (.unary span op operand)) operand.nodes)
      refine all_bind_of_ok ih fun a ha => ?_
      refine all_bind (all_announce fun x hx => ?_) fun _ => all_blame _ _
      obtain rfl := List.mem_singleton.mp hx
      exact ⟨_, hself, operand, List.mem_cons_self, rfl, ha⟩
  | case8 span => exact all_ofResult _

/-- A statement that evaluates an expression shows its value, and nothing else of its own. -/
theorem Stmt.shown_after {s : Stmt} {e : Expr} {f : Value → Evaluation (List Task)}
    (hexprs : s.exprs = [e]) (hnodes : s.nodes = .stmt s :: e.nodes)
    (hf : ∀ v, ∃ a rest, f v = announce a >>= rest ∧ a.operands = [⟨e.span, v⟩] ∧
      (rest ()).actions = []) :
    (e.eval scopes >>= f).All (·.Shown scopes s.nodes) := by
  rw [hnodes]
  refine all_bind_of_ok ((e.shown_eval scopes).mono fun a h => h.mono (List.subset_cons_self _ _))
    fun v hv => ?_
  obtain ⟨a, rest, heq, hoperands, hquiet⟩ := hf v
  rw [heq]
  -- the one action of its own, and nothing behind it
  refine all_bind (all_announce fun operand hoperand => ?_) fun _ b hb => ?_
  · rw [hoperands] at hoperand
    obtain rfl := List.mem_singleton.mp hoperand
    exact ⟨_, List.mem_cons_self, e, by rw [Node.exprs, hexprs]; exact List.mem_singleton.mpr rfl,
      rfl, hv⟩
  · rw [hquiet] at hb
    cases hb

/-- **The values that a statement shows are those of its expressions.** -/
theorem Stmt.shown_plan (s : Stmt) : (s.plan scopes).All (·.Shown scopes s.nodes) := by
  cases s with
  | block span body => exact all_ofResult _
  | expr span e => exact all_bind (e.shown_eval scopes) fun _ => all_ofResult _
  | print span e => exact shown_after rfl rfl fun v => ⟨_, _, rfl, rfl, rfl⟩
  | declare span name initial =>
      cases initial with
      | none =>
          refine all_bind (all_announce fun _ h => ?_) fun _ => all_ofResult _
          exact absurd h List.not_mem_nil
      | some e => exact shown_after rfl rfl fun v => ⟨_, _, rfl, rfl, rfl⟩
  | assign span name e =>
      refine shown_after rfl rfl fun v => ⟨_, _, rfl, rfl, ?_⟩
      split <;> rfl
  | branch span keyword condition yes no =>
      refine shown_after rfl rfl fun v => ⟨_, _, rfl, rfl, ?_⟩
      split <;> rfl
  | loop span keyword condition body =>
      refine shown_after rfl rfl fun v => ⟨_, _, rfl, rfl, ?_⟩
      split <;> rfl
  | hole span => exact all_ofResult _

end Plans

/-! ## The nodes that announce actions are nodes of the program -/

mutual

theorem Node.within_of_mem {node : Node} {e : Expr} : (outer : Expr) → node ∈ outer.nodes →
    e ∈ node.exprs → e.Within outer
  | .var _ _, hnode, he => by
      obtain rfl := List.mem_singleton.mp hnode
      cases he
  | .literal _ _, hnode, _ | .hole _, hnode, _ => absurd hnode List.not_mem_nil
  | .paren _ inner, hnode, he =>
      .child (List.mem_singleton.mpr rfl) (Node.within_of_mem inner hnode he)
  | .call _ callee arguments, hnode, he => by
      rcases List.mem_append.mp hnode with hnode | hnode
      · exact .child List.mem_cons_self (Node.within_of_mem callee hnode he)
      · obtain ⟨argument, hmem, hwithin⟩ := Node.exists_within_of_mem arguments hnode he
        exact .child (List.mem_cons_of_mem _ hmem) hwithin
  | .shortCircuit _ left _ right, hnode, he => by
      rcases List.mem_append.mp hnode with hnode | hnode
      · exact .child List.mem_cons_self (Node.within_of_mem left hnode he)
      · exact .child (List.mem_cons_of_mem _ List.mem_cons_self)
          (Node.within_of_mem right hnode he)
  | .binary _ left _ right, hnode, he => by
      rcases List.mem_append.mp hnode with hnode | hnode
      · exact .child List.mem_cons_self (Node.within_of_mem left hnode he)
      · -- behind the left operand there is the node itself, and then the right one
        rcases List.mem_cons.mp hnode with rfl | hnode
        · exact .child he .self
        · exact .child (List.mem_cons_of_mem _ List.mem_cons_self)
            (Node.within_of_mem right hnode he)
  | .unary _ _ operand, hnode, he => by
      rcases List.mem_cons.mp hnode with rfl | hnode
      · exact .child he .self
      · exact .child List.mem_cons_self (Node.within_of_mem operand hnode he)

theorem Node.exists_within_of_mem {node : Node} {e : Expr} : (outers : List Expr) →
    node ∈ Expr.nodesAll outers → e ∈ node.exprs → ∃ outer ∈ outers, e.Within outer
  | [], hnode, _ => absurd hnode List.not_mem_nil
  | outer :: rest, hnode, he => by
      rcases List.mem_append.mp hnode with hnode | hnode
      · exact ⟨outer, List.mem_cons_self, Node.within_of_mem outer hnode he⟩
      · obtain ⟨argument, hmem, hwithin⟩ := Node.exists_within_of_mem rest hnode he
        exact ⟨argument, List.mem_cons_of_mem _ hmem, hwithin⟩

end

/-- Whether an expression is a node of a statement, at any depth. -/
def Expr.In (s : Stmt) (e : Expr) : Prop :=
  ∃ inner : Stmt, inner.Within s ∧ ∃ outer ∈ inner.exprs, e.Within outer

theorem Expr.In.child {s inner : Stmt} {e : Expr} (h : e.In inner) (hmem : inner ∈ s.children) :
    e.In s := by
  obtain ⟨deep, hwithin, hexpr⟩ := h
  exact ⟨deep, .child hmem hwithin, hexpr⟩

/-- The expressions of the nodes of a statement itself. -/
theorem Expr.in_of_nodes {s : Stmt} {e : Expr} {node : Node} (hnode : node ∈ s.nodes)
    (he : e ∈ node.exprs) : e.In s := by
  -- the node is the statement, or is deeper in its expression
  have self (hmem : e ∈ s.exprs) : e.In s := ⟨s, .self, e, hmem, .self⟩
  have inner {outer : Expr} (hmem : outer ∈ s.exprs) (hnode : node ∈ outer.nodes) : e.In s :=
    ⟨s, .self, outer, hmem, Node.within_of_mem outer hnode he⟩
  cases s with
  | block span body => cases hnode
  | hole span => cases hnode
  | expr span outer => exact inner List.mem_cons_self hnode
  | declare span name initial =>
      cases initial with
      | none =>
          obtain rfl := List.mem_singleton.mp hnode
          exact self he
      | some outer =>
          rcases List.mem_cons.mp hnode with rfl | hnode
          · exact self he
          · exact inner List.mem_cons_self hnode
  | print | assign | branch | loop =>
      rcases List.mem_cons.mp hnode with rfl | hnode
      · exact self he
      · exact inner List.mem_cons_self hnode

mutual

theorem Expr.in_of_points {e : Expr} {point : Point} (he : e ∈ point.node.exprs) :
    (s : Stmt) → (here : List Stmt) → (around : List (List Stmt)) →
      point ∈ s.points here around → e.In s
  | .block span body, here, around, h => by
      obtain ⟨s, hmem, hin⟩ := Expr.in_of_pointsAll he body [] (here :: around) h
      exact hin.child hmem
  | .branch span keyword condition yes none, here, around, h => by
      rcases List.mem_append.mp h with h | h
      · -- a node of the statement itself; the other points are those of its parts
        obtain ⟨node, hnode, rfl⟩ := List.mem_map.mp h
        exact Expr.in_of_nodes hnode he
      · exact (Expr.in_of_points he yes here around h).child List.mem_cons_self
  | .branch span keyword condition yes (some no), here, around, h => by
      rcases List.mem_append.mp h with h | h
      · rcases List.mem_append.mp h with h | h
        · obtain ⟨node, hnode, rfl⟩ := List.mem_map.mp h
          exact Expr.in_of_nodes hnode he
        · exact (Expr.in_of_points he yes here around h).child List.mem_cons_self
      · exact (Expr.in_of_points he no here around h).child
          (List.mem_cons_of_mem _ List.mem_cons_self)
  | .loop span keyword condition body, here, around, h => by
      rcases List.mem_append.mp h with h | h
      · obtain ⟨node, hnode, rfl⟩ := List.mem_map.mp h
        exact Expr.in_of_nodes hnode he
      · exact (Expr.in_of_points he body here around h).child List.mem_cons_self
  | .expr _ _, here, around, h | .print _ _, here, around, h | .declare _ _ _, here, around, h
  | .assign _ _ _, here, around, h | .hole _, here, around, h => by
      obtain ⟨node, hnode, rfl⟩ := List.mem_map.mp h
      exact Expr.in_of_nodes hnode he

theorem Expr.in_of_pointsAll {e : Expr} {point : Point} (he : e ∈ point.node.exprs) :
    (body : List Stmt) → (here : List Stmt) → (around : List (List Stmt)) →
      point ∈ Stmt.pointsAll here around body → ∃ s ∈ body, e.In s
  | [], here, around, h => absurd h List.not_mem_nil
  | s :: rest, here, around, h => by
      rcases List.mem_append.mp h with h | h
      · exact ⟨s, List.mem_cons_self, Expr.in_of_points he s here around h⟩
      · obtain ⟨s', hmem, hin⟩ := Expr.in_of_pointsAll he rest (here ++ [s]) around h
        exact ⟨s', List.mem_cons_of_mem _ hmem, hin⟩

end

/-- The expressions of the points of a program are nodes of it. -/
theorem Expr.of_pointsOf {program : List Stmt} {point : Point} {e : Expr}
    (h : point ∈ pointsOf program) (he : e ∈ point.node.exprs) : e.Of program := by
  obtain ⟨s, hmem, inner, hwithin, hexpr⟩ := Expr.in_of_pointsAll he program [] [] h
  exact ⟨inner, ⟨s, hmem, hwithin⟩, hexpr⟩

/-! ## Values do not depend on places -/

mutual

theorem Expr.bare_shift (f : String → String) (n : Nat) :
    (e : Expr) → (e.shift n).bare f = e.bare f
  | .var _ _ | .literal _ _ | .hole _ => rfl
  | .paren _ inner => by
      rw [Expr.shift, Expr.bare, Expr.bare]
      exact inner.bare_shift f n
  | .call _ callee arguments => by
      rw [Expr.shift, Expr.bare, Expr.bare, callee.bare_shift f n,
        Expr.bareAll_shiftAll f n arguments]
  | .shortCircuit _ left op right => by
      rw [Expr.shift, Expr.bare, Expr.bare, left.bare_shift f n, right.bare_shift f n]
      rfl
  | .binary _ left op right => by
      rw [Expr.shift, Expr.bare, Expr.bare, left.bare_shift f n, right.bare_shift f n]
      rfl
  | .unary _ op operand => by
      rw [Expr.shift, Expr.bare, Expr.bare, operand.bare_shift f n]
      rfl

theorem Expr.bareAll_shiftAll (f : String → String) (n : Nat) :
    (es : List Expr) → Expr.bareAll f (Expr.shiftAll n es) = Expr.bareAll f es
  | [] => rfl
  | e :: rest => by
      rw [Expr.shiftAll, Expr.bareAll, Expr.bareAll, e.bare_shift f n,
        Expr.bareAll_shiftAll f n rest]

end

/-- Expressions that are the same without places have the same value. -/
theorem Expr.result_eval_of_bare_eq {e e' : Expr} {scopes : Scopes} {v : Value}
    (h : e'.bare id = e.bare id) (hv : (e.eval scopes).result = .ok v) :
    (e'.eval scopes).result = .ok v := by
  -- both evaluations are the same up to places, so one has a value if the other has
  have hbare : bareResult id id (e'.eval scopes).result =
      bareResult id id (e.eval scopes).result := by
    have heval : (e'.eval scopes).bare id id = (e.eval scopes).bare id id := by
      rw [e'.bare_eval Function.injective_id, e.bare_eval Function.injective_id, h]
    exact congrArg Evaluation.result heval
  rw [hv] at hbare
  cases hresult : (e'.eval scopes).result with
  | error stop =>
      rw [hresult] at hbare
      cases hbare
  | ok w =>
      rw [hresult] at hbare
      injection hbare with hbare
      exact congrArg Except.ok hbare

/-! ## Records -/

/-- The operands of a pause are nodes of the program with their values. -/
theorem Pause.Fits.shown {program : List Stmt} {p : Pause} (h : p.Fits program)
    {operand : Located Value} (hoperand : operand ∈ p.current.operands) :
    ∃ e : Expr, e.Of program ∧ e.span = operand.span ∧
      (e.eval p.state.scopes).result = .ok operand.value := by
  obtain ⟨s, here, around, front, hstands, -, hplan, -⟩ := h
  have hall : (s.plan p.state.scopes).All (·.Shown p.state.scopes s.nodes) := s.shown_plan
  rw [hplan] at hall
  -- the pause is in the plan of its statement, whose operands are known
  obtain ⟨node, hnode, e, he, hspan, hvalue⟩ :=
    hall p.current (List.mem_append_right _ List.mem_cons_self) operand hoperand
  have hpoint := hstands.points (Stmt.mem_points_of_mem_nodes hnode here around)
  exact ⟨e, Expr.of_pointsOf hpoint he, hspan, hvalue⟩

namespace Source

open Grammar

variable {s : Source} {d : Dialect} {program : List Stmt}

/-- The text of a node of a program is read as that node, up to places. -/
theorem exists_parseExpr_slice (hparse : s.parse d = .ok program) {e : Expr} (he : e.Of program)
    (name : String) :
    ∃ e', Source.parseExpr ⟨name, s.slice e.span⟩ = .ok e' ∧ e'.bare id = e.bare id := by
  obtain ⟨tokens, clauses, htokens, ⟨his, rfl⟩, rfl⟩ := Source.exists_derives hparse
  obtain ⟨st, ⟨root, hroot, hst⟩, outer, houter, hwithin⟩ := he
  -- down to the node, from the statement that it is in
  obtain ⟨c, hc, rfl, hpart⟩ := (readsStmt_of_mem his hroot).within hst
  have hreads := ((hc.readsExpr houter).mono hpart).within hwithin
  -- what is read again differs from the node by a shift only
  have hshift := parseExpr_slice htokens hreads name
  cases hread : Source.parseExpr ⟨name, s.slice e.span⟩ with
  | error err =>
      rw [hread] at hshift
      cases hshift
  | ok e' =>
      rw [hread] at hshift
      injection hshift with hshift
      refine ⟨e', rfl, ?_⟩
      rw [← hshift, Expr.bare_shift]

/-- **Substitutions are true.** A place for which a record shows a text is marked as an
operand, and the expression in that place has a value in the scopes of the record's snapshot,
of which it is the text. -/
theorem substitutions_true (hparse : s.parse d = .ok program) {n : Nat} {r : Record}
    (hr : Machine.recordAt program n = some r) {span : Span} {text : String}
    (h : (span, text) ∈ r.action.substitutions) (name : String) :
    (span, Color.operand) ∈ r.action.marks ∧
      ∃ e v, Source.parseExpr ⟨name, s.slice span⟩ = .ok e ∧
        (e.eval r.state.snapshot.scopes.reverse).result = .ok v ∧ v.diagnostic = text := by
  obtain ⟨operand, hoperand, hpair⟩ := List.mem_map.mp h
  injection hpair with hspan htext
  refine ⟨List.mem_append_left _ (List.mem_map.mpr ⟨operand, hoperand, by rw [hspan]⟩), ?_⟩
  obtain ⟨p, hp, rfl⟩ := Machine.exists_pause_of_recordAt hr
  have hfits := Machine.fits_trail (Source.tidyAll_parse hparse) n hp
  -- the value belongs to a node, and the text of the node is read as one with the same value
  obtain ⟨e, he, heq, hvalue⟩ := hfits.shown hoperand
  obtain ⟨e', hread, hbare⟩ := exists_parseExpr_slice hparse he name
  rw [heq, hspan] at hread
  refine ⟨e', operand.value, hread, ?_, htext⟩
  rw [State.snapshot, List.reverse_reverse]
  exact Expr.result_eval_of_bare_eq hbare hvalue

/-- A product with a sum in parentheses. -/
def product : Source := ⟨"main", "var x = 1; x = (x + 2) * 3;"⟩

/-- The program of `product`. -/
def productProgram : List Stmt :=
  [.declare (.ofLength 0 10) "x" (some (.literal (.ofLength 8 1) (.int 1))),
   .assign (.ofLength 11 16) "x"
    (.binary (.ofLength 15 11)
      (.paren (.ofLength 15 7)
        (.binary (.ofLength 16 5) (.var (.ofLength 16 1) "x") ⟨.ofLength 18 1, .arith .add⟩
          (.literal (.ofLength 20 1) (.int 2))))
      ⟨.ofLength 23 1, .arith .multiply⟩ (.literal (.ofLength 25 1) (.int 3)))]

/-- The product shows `3` in the place of `(x + 2)`, which is its value while `x` is `1`. -/
theorem substitutions_true_product :
    product.parse {} = .ok productProgram ∧
      ∃ r, Machine.recordAt productProgram 3 = some r ∧
        (.ofLength 15 7, "3") ∈ r.action.substitutions ∧
        ∃ e v, Source.parseExpr ⟨"operand", "(x + 2)"⟩ = .ok e ∧
          (e.eval r.state.snapshot.scopes.reverse).result = .ok v ∧ v.diagnostic = "3" := by
  have hparse : product.parse {} = .ok productProgram := by cbv
  have hslice : product.slice (.ofLength 15 7) = "(x + 2)" := by decide +kernel
  have hrecord : Machine.recordAt productProgram 3 = some
      ⟨.binary ⟨.ofLength 23 1, .arith .multiply⟩ ⟨.ofLength 15 7, .int 3⟩
          ⟨.ofLength 25 1, .int 3⟩,
        ⟨[[("x", ⟨.ofLength 0 10, some (.int 1)⟩)]], ""⟩⟩ := by decide +kernel
  have hmem : (Span.ofLength 15 7, "3") ∈ (Action.binary ⟨.ofLength 23 1, .arith .multiply⟩
      ⟨.ofLength 15 7, .int 3⟩ ⟨.ofLength 25 1, .int 3⟩).substitutions := by decide +kernel
  refine ⟨hparse, _, hrecord, hmem, ?_⟩
  rw [← hslice]
  exact (substitutions_true hparse hrecord hmem "operand").2

end Source

end Stepwise
