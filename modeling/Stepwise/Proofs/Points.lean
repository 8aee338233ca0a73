import Stepwise.Proofs.Effect

/-!
# The points of a program that announce actions

Every action belongs to a node of the program: the variable that is read, the operation that is
applied, the statement that prints, declares, assigns or tests. A point is such a node together
with its position, which is given by statement lists alone: for each list of statements around the
node, the statements that precede the one that holds it.

`Stmt.all_plan` says that a statement announces actions of its own nodes only, and that each of
them refers to the declaration that the scopes have; `Stmt.blames_plan` that an action without a
declaration is the last one of its statement and stops the program.
-/

namespace Stepwise

open Evaluation

/-- A node of a program: an expression or a statement. -/
inductive Node where
  | expr (e : Expr)
  | stmt (s : Stmt)

/-- The variable that a node reads or assigns, and the place of that. -/
def Node.use? : Node → Option (Span × String)
  | .expr (.var span name) => some (span, name)
  | .stmt (.assign span name _) => some (span, name)
  | _ => none

/-- Whether an action is the one of a node, up to values and to the declaration it refers to. -/
def Node.Announces : Node → Action → Prop
  | .expr (.var span name), .read span' name' _ => span' = span ∧ name' = name
  | .expr (.binary _ left op right), .binary op' a b =>
    op' = op ∧ a.span = left.span ∧ b.span = right.span
  | .expr (.unary _ op operand), .unary op' a => op' = op ∧ a.span = operand.span
  | .stmt (.print span e), .print span' a => span' = span ∧ a.span = e.span
  | .stmt (.declare span name initial), .declare span' name' a =>
    span' = span ∧ name' = name ∧ a.map (·.span) = initial.map (·.span)
  | .stmt (.assign span name e), .assign span' name' a _ =>
    span' = span ∧ name' = name ∧ a.span = e.span
  | .stmt (.branch _ keyword condition _ _), .check keyword' a =>
    keyword' = keyword ∧ a.span = condition.span
  | .stmt (.loop _ keyword condition _), .check keyword' a =>
    keyword' = keyword ∧ a.span = condition.span
  | _, _ => False

mutual

/-- The nodes of an expression, from left to right. Those inside a call are never run. -/
def Expr.nodes : Expr → List Node
  | .var span name => [.expr (.var span name)]
  | .literal _ _ | .hole _ => []
  | .paren _ inner => inner.nodes
  | .call _ callee arguments => callee.nodes ++ Expr.nodesAll arguments
  | .shortCircuit _ left _ right => left.nodes ++ right.nodes
  | .binary span left op right => left.nodes ++ .expr (.binary span left op right) :: right.nodes
  | .unary span op operand => .expr (.unary span op operand) :: operand.nodes

/-- The nodes of a list of expressions. -/
def Expr.nodesAll : List Expr → List Node
  | [] => []
  | e :: rest => e.nodes ++ Expr.nodesAll rest

end

/-- The nodes of a statement, without those of the statements in it. -/
def Stmt.nodes (s : Stmt) : List Node :=
  match s with
  | .block _ _ | .hole _ => []
  | .expr _ e => e.nodes
  | .declare _ _ none => [.stmt s]
  | .print _ e | .declare _ _ (some e) | .assign _ _ e | .branch _ _ e _ _ | .loop _ _ e _ =>
    .stmt s :: e.nodes

/-- A node and its position. -/
structure Point where
  node : Node
  /-- The statements before the one that holds the node, in the innermost list around it. -/
  here : List Stmt
  /-- For each block around the node, innermost first, the statements before the one that holds the
  block, in the list that the block stands in. -/
  around : List (List Stmt)

mutual

/-- The points of a statement at a position. -/
def Stmt.points (here : List Stmt) (around : List (List Stmt)) : Stmt → List Point
  | .block _ body => Stmt.pointsAll [] (here :: around) body
  | .branch span keyword condition yes none =>
    (Stmt.branch span keyword condition yes none).nodes.map (⟨·, here, around⟩) ++
      yes.points here around
  | .branch span keyword condition yes (some no) =>
    (Stmt.branch span keyword condition yes (some no)).nodes.map (⟨·, here, around⟩) ++
      yes.points here around ++ no.points here around
  | .loop span keyword condition body =>
    (Stmt.loop span keyword condition body).nodes.map (⟨·, here, around⟩) ++
      body.points here around
  | s => s.nodes.map (⟨·, here, around⟩)

/-- The points of the statements of a list behind those that are `here`. -/
def Stmt.pointsAll (here : List Stmt) (around : List (List Stmt)) : List Stmt → List Point
  | [] => []
  | s :: rest => s.points here around ++ Stmt.pointsAll (here ++ [s]) around rest

end

/-- The points of a program, in the order of its text. -/
def pointsOf (program : List Stmt) : List Point := Stmt.pointsAll [] [] program

theorem Stmt.mem_points_of_mem_nodes {s : Stmt} {node : Node} (h : node ∈ s.nodes)
    (here : List Stmt) (around : List (List Stmt)) :
    ⟨node, here, around⟩ ∈ s.points here around := by
  have hmap : (⟨node, here, around⟩ : Point) ∈ s.nodes.map (⟨·, here, around⟩) :=
    List.mem_map_of_mem h
  cases s with
  | block span body => cases h
  | branch span keyword condition yes no =>
      cases no with
      | none => exact List.mem_append_left _ hmap
      | some no => exact List.mem_append_left _ (List.mem_append_left _ hmap)
  | loop span keyword condition body => exact List.mem_append_left _ hmap
  | _ => exact hmap

/-! ## Which actions are announced -/

/-- Whether an action refers to the declaration that the scopes have for its variable. -/
def Action.Resolved (scopes : Scopes) : Action → Prop
  | .read _ name declared | .assign _ name _ declared =>
    declared = (scopes.lookup name).map (·.declared)
  | _ => True

/-- Whether an action is one of these nodes, with the declaration that the scopes have. -/
def Action.Of (scopes : Scopes) (nodes : List Node) (a : Action) : Prop :=
  (∃ node ∈ nodes, node.Announces a) ∧ a.Resolved scopes

theorem Action.Of.mono {scopes : Scopes} {nodes nodes' : List Node} {a : Action}
    (h : a.Of scopes nodes) (hsub : nodes ⊆ nodes') : a.Of scopes nodes' := by
  obtain ⟨⟨node, hmem, hann⟩, hresolved⟩ := h
  exact ⟨⟨node, hsub hmem, hann⟩, hresolved⟩

theorem Expr.all_eval (scopes : Scopes) (e : Expr) :
    (e.eval scopes).All (·.Of scopes e.nodes) := by
  induction e using Expr.eval.induct with
  | case1 span name =>
      exact Scopes.all_read ⟨⟨_, List.mem_singleton.mpr rfl, rfl, rfl⟩, rfl⟩
  | case2 span v => exact all_ofResult (.ok v)
  | case3 span inner ih => exact ih
  | case4 span callee arguments => exact all_ofResult _
  | case5 span left op right ihl ihr =>
      replace ihl := ihl.mono fun a h => h.mono (List.subset_append_left left.nodes right.nodes)
      replace ihr := ihr.mono fun a h => h.mono (List.subset_append_right left.nodes right.nodes)
      -- a short-circuit operation speaks only through its operands
      refine all_bind ihl fun a => all_bind (op.value.all_operand _ a) fun b => ?_
      split
      · exact all_ofResult (.ok (Value.bool b))
      · refine all_bind ihr fun c => all_bind (op.value.all_operand _ c) fun d => ?_
        exact all_ofResult (.ok (Value.bool d))
  | case6 span left op right ihl ihr =>
      -- behind its operands, the operation announces itself
      have hself :
          Node.expr (.binary span left op right) ∈ (Expr.binary span left op right).nodes :=
        List.mem_append_right _ List.mem_cons_self
      replace ihl := ihl.mono fun a h => h.mono (List.subset_append_left left.nodes
        (.expr (.binary span left op right) :: right.nodes))
      replace ihr := ihr.mono fun a h => h.mono (List.Subset.trans
        (List.subset_cons_self (Node.expr (.binary span left op right)) right.nodes)
        (List.subset_append_right left.nodes _))
      refine all_bind ihl fun a => all_bind ihr fun b => ?_
      exact all_bind (all_announce ⟨⟨_, hself, rfl, rfl, rfl⟩, trivial⟩) fun _ => all_blame _ _
  | case7 span op operand ih =>
      have hself : Node.expr (.unary span op operand) ∈ (Expr.unary span op operand).nodes :=
        List.mem_cons_self
      replace ih := ih.mono fun a h => h.mono (List.subset_cons_self
        (Node.expr (.unary span op operand)) operand.nodes)
      refine all_bind ih fun a => ?_
      exact all_bind (all_announce ⟨⟨_, hself, rfl, rfl⟩, trivial⟩) fun _ => all_blame _ _
  | case8 span => exact all_ofResult _

/-- **A statement announces actions of its own nodes only.** -/
theorem Stmt.all_plan (scopes : Scopes) (s : Stmt) :
    (s.plan scopes).All (·.Of scopes s.nodes) := by
  -- The expression comes first, and then the action of the statement itself.
  have hhead : ∀ {e : Expr}, s.nodes = .stmt s :: e.nodes →
      (e.eval scopes).All (·.Of scopes s.nodes) := by
    intro e heq
    rw [heq]
    exact (e.all_eval scopes).mono fun a h => h.mono (List.subset_cons_self _ _)
  cases s with
  | block span body => exact all_ofResult _
  | expr span e => exact all_bind (e.all_eval scopes) fun _ => all_ofResult _
  | print span e =>
      refine all_bind (hhead rfl) fun v => all_bind (all_announce ?_) fun _ => all_ofResult _
      exact ⟨⟨_, List.mem_cons_self, rfl, rfl⟩, trivial⟩
  | declare span name initial =>
      cases initial with
      | none =>
          refine all_bind (all_announce ?_) fun _ => all_ofResult _
          exact ⟨⟨_, List.mem_cons_self, rfl, rfl, rfl⟩, trivial⟩
      | some e =>
          refine all_bind (hhead rfl) fun v => all_bind (all_announce ?_) fun _ => all_ofResult _
          exact ⟨⟨_, List.mem_cons_self, rfl, rfl, rfl⟩, trivial⟩
  | assign span name e =>
      refine all_bind (hhead rfl) fun v => all_bind (all_announce ?_) fun _ => ?_
      · exact ⟨⟨_, List.mem_cons_self, rfl, rfl, rfl⟩, rfl⟩
      · split <;> exact all_ofResult _
  | branch span keyword condition yes no =>
      refine all_bind (hhead rfl) fun v => all_bind (all_announce ?_) fun _ => ?_
      · exact ⟨⟨_, List.mem_cons_self, rfl, rfl⟩, trivial⟩
      · split <;> exact all_ofResult _
  | loop span keyword condition body =>
      refine all_bind (hhead rfl) fun v => all_bind (all_announce ?_) fun _ => ?_
      · exact ⟨⟨_, List.mem_cons_self, rfl, rfl⟩, trivial⟩
      · split <;> exact all_ofResult _
  | hole span => exact all_ofResult _

/-! ## Variables without a declaration -/

/-- The variable that an action has found no declaration for. -/
def Action.unresolved? : Action → Option (Span × String)
  | .read span name none | .assign span name _ none => some (span, name)
  | _ => none

/-- The variable that is blamed for not being declared. -/
def Stop.blamed? : Stop → Option (Span × String)
  | .error ⟨.undeclared name, span⟩ => some (span, name)
  | _ => none

theorem Stop.blamed?_eq_some_iff {stop : Stop} {span : Span} {name : String} :
    stop.blamed? = some (span, name) ↔ stop = .error ⟨.undeclared name, span⟩ := by
  constructor
  · intro h
    unfold Stop.blamed? at h
    split at h
    · cases h
      rfl
    · cases h
  · rintro rfl
    rfl

/-- The variable that a result blames for not being declared. -/
def blamed? {α : Type} : Except Stop α → Option (Span × String)
  | .error stop => stop.blamed?
  | .ok _ => none

namespace Evaluation

/-- Whether an evaluation blames exactly the actions that have found no declaration: such an action
is the last one, and the result is its error. -/
def Blames {α : Type} (x : Evaluation α) : Prop :=
  (∀ a ∈ x.actions.dropLast, a.unresolved? = none) ∧
    x.actions.getLast?.bind Action.unresolved? = blamed? x.result

variable {α β : Type}

theorem blames_ofResult {result : Except Stop α} (h : blamed? result = none) :
    (ofResult result).Blames :=
  ⟨fun _ ha => absurd ha List.not_mem_nil, h.symm⟩

theorem blames_single {a : Action} {result : Except Stop α} (h : a.unresolved? = blamed? result) :
    Blames ⟨[a], result⟩ :=
  ⟨fun _ ha => absurd ha List.not_mem_nil, h⟩

theorem blames_announce {a : Action} (h : a.unresolved? = none) : (announce a).Blames :=
  blames_single h

theorem blames_blame {span : Span} {r : Except Fault α}
    (h : ∀ name, r ≠ .error (.undeclared name)) : (blame span r).Blames := by
  cases r with
  | ok a => exact blames_ofResult rfl
  | error fault =>
      refine blames_ofResult ?_
      cases fault with
      | undeclared name => exact absurd rfl (h name)
      | _ => rfl

/-- What goes on has found all its declarations. -/
theorem Blames.unresolved_eq_none {x : Evaluation α} (hx : x.Blames) {v : α}
    (h : x.result = .ok v) : ∀ a ∈ x.actions, a.unresolved? = none := by
  intro a ha
  obtain ⟨hfront, hlast⟩ := hx
  rw [h] at hlast
  -- the last action is not blamed, since there is a result, and the others never are
  rcases List.eq_nil_or_concat x.actions with hnil | ⟨front, last, heq⟩
  · rw [hnil] at ha
    cases ha
  · rw [heq, List.concat_eq_append] at ha hfront hlast
    rw [List.dropLast_concat] at hfront
    rw [List.getLast?_concat] at hlast
    rcases List.mem_append.mp ha with ha | ha
    · exact hfront a ha
    · rw [List.mem_singleton.mp ha]
      exact hlast

theorem blames_bind {x : Evaluation α} {f : α → Evaluation β} (hx : x.Blames)
    (hf : ∀ a, (f a).Blames) : (x >>= f).Blames := by
  rw [bind_def]
  cases h : x.result with
  | error stop =>
      -- what was stopped is not gone on with
      rw [andThen_of_error h]
      obtain ⟨hfront, hlast⟩ := hx
      rw [h] at hlast
      exact ⟨hfront, hlast⟩
  | ok v =>
      rw [andThen_of_ok h]
      obtain ⟨hfront, hlast⟩ := hf v
      have hnone := hx.unresolved_eq_none h
      rcases List.eq_nil_or_concat (f v).actions with hnil | ⟨front, last, heq⟩
      · -- nothing is announced behind the first part, so its last action is the last one
        have hxlast := hx.2
        rw [h] at hxlast
        rw [hnil] at hlast ⊢
        rw [List.append_nil]
        exact ⟨hx.1, hxlast.trans hlast⟩
      · rw [heq, List.concat_eq_append] at hfront hlast ⊢
        rw [List.dropLast_concat] at hfront
        rw [List.getLast?_concat] at hlast
        rw [← List.append_assoc]
        -- all actions of the first part now stand before the last one
        refine ⟨fun a ha => ?_, ?_⟩
        · rw [List.dropLast_concat] at ha
          rcases List.mem_append.mp ha with ha | ha
          · exact hnone a ha
          · exact hfront a ha
        · rw [List.getLast?_concat]
          exact hlast

end Evaluation

theorem ShortCircuitOp.blames_operand (op : ShortCircuitOp) (span : Span) (v : Value) :
    (op.operand span v).Blames := by
  cases v <;> exact blames_ofResult rfl

theorem Scopes.blames_read (scopes : Scopes) (span : Span) (name : String) :
    (scopes.read span name).Blames := by
  unfold Scopes.read
  cases h : scopes.lookup name with
  | none => exact blames_single rfl
  | some b =>
      obtain ⟨declared, value⟩ := b
      cases value with
      | none => exact blames_single rfl
      | some v => exact blames_single rfl

theorem BinaryOp.apply_ne_undeclared (op : BinaryOp) (a b : Value) (name : String) :
    op.apply a b ≠ .error (.undeclared name) := by
  unfold BinaryOp.apply
  repeat' split
  all_goals exact nofun

theorem UnaryOp.apply_ne_undeclared (op : UnaryOp) (a : Value) (name : String) :
    op.apply a ≠ .error (.undeclared name) := by
  unfold UnaryOp.apply
  split <;> exact nofun

theorem Expr.blames_eval (scopes : Scopes) (e : Expr) : (e.eval scopes).Blames := by
  induction e using Expr.eval.induct with
  | case1 span name => exact scopes.blames_read span name
  | case2 span v => exact blames_ofResult rfl
  | case3 span inner ih => exact ih
  | case4 span callee arguments => exact blames_ofResult rfl
  | case5 span left op right ihl ihr =>
      refine blames_bind ihl fun a => blames_bind (op.value.blames_operand _ a) fun b => ?_
      split
      · exact blames_ofResult rfl
      · refine blames_bind ihr fun c => blames_bind (op.value.blames_operand _ c) fun d => ?_
        exact blames_ofResult rfl
  | case6 span left op right ihl ihr =>
      refine blames_bind ihl fun a => blames_bind ihr fun b => ?_
      refine blames_bind (blames_announce rfl) fun _ => ?_
      -- an operation finds fault with values, never with a name
      exact blames_blame (op.value.apply_ne_undeclared a b)
  | case7 span op operand ih =>
      refine blames_bind ih fun a => ?_
      exact blames_bind (blames_announce rfl)
        fun _ => blames_blame (op.value.apply_ne_undeclared a)
  | case8 span => exact blames_ofResult rfl

theorem Expr.blames_test (condition : Expr) (keyword : Span) (scopes : Scopes)
    (yes no : List Task) : (condition.test keyword scopes yes no).Blames := by
  refine blames_bind (condition.blames_eval scopes) fun v => ?_
  refine blames_bind (blames_announce rfl) fun _ => ?_
  split <;> exact blames_ofResult rfl

/-- **A variable without a declaration stops the program where it is used**, and nothing else is
blamed for that. -/
theorem Stmt.blames_plan (scopes : Scopes) (s : Stmt) : (s.plan scopes).Blames := by
  cases s with
  | block span body => exact blames_ofResult rfl
  | expr span e => exact blames_bind (e.blames_eval scopes) fun _ => blames_ofResult rfl
  | print span e =>
      refine blames_bind (e.blames_eval scopes) fun v => ?_
      exact blames_bind (blames_announce rfl) fun _ => blames_ofResult rfl
  | declare span name initial =>
      cases initial with
      | none => exact blames_bind (blames_announce rfl) fun _ => blames_ofResult rfl
      | some e =>
          refine blames_bind (e.blames_eval scopes) fun v => ?_
          exact blames_bind (blames_announce rfl) fun _ => blames_ofResult rfl
  | assign span name e =>
      refine blames_bind (e.blames_eval scopes) fun v => ?_
      cases h : scopes.lookup name with
      -- the assignment is announced all the same, and is then blamed
      | none => exact blames_single rfl
      | some b => exact blames_single rfl
  | branch span keyword condition yes no => exact condition.blames_test keyword scopes _ _
  | loop span keyword condition body => exact condition.blames_test keyword scopes _ _
  | hole span => exact blames_ofResult rfl

end Stepwise
