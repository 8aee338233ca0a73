import Stepwise.Proofs.Limits
import Stepwise.Proofs.Points
import Stepwise.Proofs.PostOrder
import Stepwise.Proofs.Sequencing

/-!
# Programs without loops

A program without loops comes to its end, and the number of its steps is bounded by its text: every
record is announced by a node of its own.

`Node.Account` says which nodes of a tree announce a list of actions. Accounts are put together
as the tree is: an expression announces the nodes on the walk to its value
(`Expr.account_eval`), a statement does so before it hands on to the statements in it
(`Stmt.account_plan`), and a branch or a short-circuit operation may leave out some nodes
(`Node.Account.extend`). Structural recursion over the statements then gives both at once, the
end and the account of the records on the way there (`Stmt.accountable_of_loopFree`).
`Stepper.run_of_loopFree` says it of a run of the whole program.
-/

namespace Stepwise

open Evaluation

/-! ## The nodes of a program -/

mutual

/-- All nodes of an expression from left to right, each of them behind its operands. -/
def Expr.tree (e : Expr) : List Expr :=
  match e with
  | .var _ _ | .literal _ _ | .hole _ => [e]
  | .paren _ inner => inner.tree ++ [e]
  | .call _ callee arguments => callee.tree ++ (Expr.treeAll arguments ++ [e])
  | .shortCircuit _ left _ right => left.tree ++ (right.tree ++ [e])
  | .binary _ left _ right => left.tree ++ (right.tree ++ [e])
  | .unary _ _ operand => operand.tree ++ [e]

/-- All nodes of a list of expressions. -/
def Expr.treeAll : List Expr → List Expr
  | [] => []
  | e :: rest => e.tree ++ Expr.treeAll rest

end

/-- The nodes of the expression that a statement starts with, and the statement. -/
def Stmt.own (s : Stmt) : List Node := (s.head?.elim [] Expr.tree).map .expr ++ [.stmt s]

mutual

/-- All nodes of a statement. -/
def Stmt.tree (s : Stmt) : List Node :=
  match s with
  | .block _ body => s.own ++ Stmt.treeAll body
  | .branch _ _ _ yes none => s.own ++ yes.tree
  | .branch _ _ _ yes (some no) => s.own ++ (yes.tree ++ no.tree)
  | .loop _ _ _ body => s.own ++ body.tree
  | .expr _ _ | .print _ _ | .declare _ _ _ | .assign _ _ _ | .hole _ => s.own

/-- All nodes of a list of statements. -/
def Stmt.treeAll : List Stmt → List Node
  | [] => []
  | s :: rest => s.tree ++ Stmt.treeAll rest

end

/-- Whether a node announces something: a variable, a binary or unary operation, or a statement
that prints, declares, assigns or tests a condition. -/
def Node.announced : Node → Bool
  | .expr e => e.announced
  | .stmt (.print _ _) | .stmt (.declare _ _ _) | .stmt (.assign _ _ _) | .stmt (.branch _ _ _ _ _)
  | .stmt (.loop _ _ _ _) => true
  | .stmt (.block _ _) | .stmt (.expr _ _) | .stmt (.hole _) => false

/-- Whether a node is a loop. -/
def Node.IsLoop : Node → Prop
  | .stmt (.loop _ _ _ _) => True
  | _ => False

/-- Whether a node may leave out others that stand in it: a branch or a short-circuit operation. -/
def Node.IsChoice : Node → Prop
  | .expr (.shortCircuit _ _ _ _) | .stmt (.branch _ _ _ _ _) => True
  | _ => False

/-! ## Which nodes announce the actions -/

/-- Whether actions are announced by nodes of a list, each of them by another one and in
this order. If they are `complete` and no node may leave out others, then all nodes take
part that announce something. -/
def Node.Account (nodes : List Node) (actions : List Action) (complete : Prop) : Prop :=
  ∃ speakers, List.Sublist speakers (nodes.filter (·.announced)) ∧
    List.Forall₂ Node.Announces speakers actions ∧
    (complete → (∀ node ∈ nodes, ¬node.IsChoice) → speakers = nodes.filter (·.announced))

namespace Node.Account

variable {nodes nodes' : List Node} {actions actions' : List Action} {complete complete' : Prop}

theorem nil (complete : Prop) : Account [] [] complete := ⟨[], .refl _, .nil, fun _ _ => rfl⟩

theorem silent {node : Node} (h : node.announced = false) (complete : Prop) :
    Account [node] [] complete := by
  have hfilter : [node].filter (·.announced) = [] := by simp [h]
  exact ⟨[], by rw [hfilter], .nil, fun _ _ => hfilter.symm⟩

theorem single {node : Node} {a : Action} (h : node.announced = true) (ha : node.Announces a)
    (complete : Prop) : Account [node] [a] complete := by
  have hfilter : [node].filter (·.announced) = [node] := by simp [h]
  exact ⟨[node], by rw [hfilter], .cons ha .nil, fun _ _ => hfilter.symm⟩

/-- One account behind another. The first one has to be complete if the second one is. -/
theorem append (h : Account nodes actions complete) (h' : Account nodes' actions' complete')
    (hcomplete : complete' → complete) :
    Account (nodes ++ nodes') (actions ++ actions') complete' := by
  obtain ⟨speakers, hsub, hannounce, hall⟩ := h
  obtain ⟨speakers', hsub', hannounce', hall'⟩ := h'
  refine ⟨speakers ++ speakers', ?_, List.rel_append hannounce hannounce', fun hc hchoice => ?_⟩
  · rw [List.filter_append]
    exact hsub.append hsub'
  · obtain ⟨hfirst, hsecond⟩ := List.forall_mem_append.mp hchoice
    -- nothing is left out on either side
    rw [List.filter_append, hall (hcomplete hc) hfirst, hall' hc hsecond]

/-- Further nodes may stand among the others, unless nothing was left out. -/
theorem extend (h : Account nodes actions complete) (hsub : List.Sublist nodes nodes')
    (hopen : complete' → ∃ node ∈ nodes', node.IsChoice) : Account nodes' actions complete' := by
  obtain ⟨speakers, hspeakers, hannounce, _⟩ := h
  refine ⟨speakers, hspeakers.trans (hsub.filter _), hannounce, fun hc hchoice => ?_⟩
  obtain ⟨node, hnode, hmay⟩ := hopen hc
  exact absurd hmay (hchoice node hnode)

/-- There are at most as many actions as nodes that announce something. -/
theorem length_le (h : Account nodes actions complete) :
    actions.length ≤ nodes.countP (·.announced) := by
  obtain ⟨speakers, hsub, hannounce, _⟩ := h
  rw [← hannounce.length_eq, List.countP_eq_length_filter]
  exact hsub.length_le

theorem length_eq (h : Account nodes actions complete) (hcomplete : complete)
    (hchoice : ∀ node ∈ nodes, ¬node.IsChoice) :
    actions.length = nodes.countP (·.announced) := by
  obtain ⟨speakers, _, hannounce, hall⟩ := h
  rw [← hannounce.length_eq, List.countP_eq_length_filter, hall hcomplete hchoice]

end Node.Account

namespace Expr

variable {scopes : Scopes}

/-- A walk leaves out nodes, and changes nothing else. -/
theorem traversal_sublist (scopes : Scopes) (e : Expr) :
    List.Sublist (e.traversal scopes) e.tree := by
  induction e using Expr.eval.induct with
  | case1 | case2 | case8 => rw [traversal, tree]
  | case3 span inner ih =>
      rw [traversal, tree]
      exact ih.append_right _
  | case4 span callee arguments =>
      rw [traversal, tree]
      exact (List.sublist_append_right _ _).trans (List.sublist_append_right _ _)
  | case5 span left op right ihl ihr =>
      rw [traversal, tree]
      refine ihl.append (List.Sublist.append_right ?_ _)
      split
      · -- a decided operand is walked past
        exact List.nil_sublist _
      · exact ihr
  | case6 span left op right ihl ihr =>
      rw [traversal, tree]
      exact ihl.append (ihr.append_right _)
  | case7 span op operand ih =>
      rw [traversal, tree]
      exact ih.append_right _

/-- Without short-circuit operations the walk to a value leaves out nothing; there is
no call in it. -/
theorem traversal_eq_tree {e : Expr} (h : e.HasValue scopes)
    (hstrict : ∀ node ∈ e.tree, ¬(Node.expr node).IsChoice) : e.traversal scopes = e.tree := by
  induction e using Expr.eval.induct with
  | case1 | case2 | case8 => rw [traversal, tree]
  | case3 span inner ih =>
      obtain ⟨v, hv⟩ := h
      rw [tree] at hstrict
      cases hv with
      | paren hinner =>
          rw [traversal, tree, ih ⟨v, hinner⟩ (List.forall_mem_append.mp hstrict).1]
  -- a call has no value
  | case4 span callee arguments =>
      obtain ⟨v, hv⟩ := h
      cases hv
  | case5 span left op right ihl ihr =>
      rw [tree] at hstrict
      simp only [List.forall_mem_append, List.forall_mem_singleton] at hstrict
      exact (hstrict.2.2 trivial).elim
  | case6 span left op right ihl ihr =>
      obtain ⟨v, hv⟩ := h
      rw [tree] at hstrict
      simp only [List.forall_mem_append] at hstrict
      cases hv with
      | binary hleft hright _ =>
          rw [traversal, tree, ihl ⟨_, hleft⟩ hstrict.1, ihr ⟨_, hright⟩ hstrict.2.1]
  | case7 span op operand ih =>
      obtain ⟨v, hv⟩ := h
      rw [tree] at hstrict
      cases hv with
      | unary hoperand _ =>
          rw [traversal, tree, ih ⟨_, hoperand⟩ (List.forall_mem_append.mp hstrict).1]

theorem announces_of_action? {e : Expr} {a : Action} (h : e.action? scopes = some a) :
    (Node.expr e).Announces a := by
  unfold action? at h
  split at h
  · cases h
    exact ⟨rfl, rfl⟩
  · split at h
    · cases h
      exact ⟨rfl, rfl, rfl⟩
    · cases h
  · split at h
    · cases h
      exact ⟨rfl, rfl⟩
    · cases h
  · cases h

/-- **The actions of an expression are announced by its nodes.** -/
theorem account_eval (scopes : Scopes) (e : Expr) :
    Node.Account (e.tree.map .expr) (e.eval scopes).actions (e.HasValue scopes) := by
  obtain ⟨visited, rest, hwalk, hactions, hreaches⟩ :=
    visits_traversal scopes e (List.Subset.refl _)
  have hfilter (nodes : List Expr) : (nodes.map Node.expr).filter (·.announced) =
      (nodes.filter (·.announced)).map .expr := List.filter_map
  have hsub : List.Sublist visited e.tree := by
    refine List.Sublist.trans ?_ (e.traversal_sublist scopes)
    rw [hwalk]
    exact List.sublist_append_left _ _
  refine ⟨(visited.filter (·.announced)).map .expr, ?_, ?_, fun hvalue hchoice => ?_⟩
  · rw [hfilter]
    exact (hsub.filter _).map _
  · rw [List.forall₂_map_left_iff]
    have hsame : List.Forall₂ (· = ·) ((visited.filter (·.announced)).map (·.action? scopes))
        ((e.eval scopes).actions.map some) := by
      rw [hactions, List.forall₂_eq_eq_eq]
    rw [List.forall₂_map_left_iff, List.forall₂_map_right_iff] at hsame
    exact hsame.imp fun node a h => announces_of_action? h
  · obtain ⟨v, hv⟩ := hvalue
    -- the walk to a value is walked to its end
    rw [yields_iff.mp hv] at hreaches
    obtain ⟨rfl, _⟩ := hreaches
    rw [List.append_nil] at hwalk
    rw [hfilter, ← hwalk, traversal_eq_tree ⟨v, hv⟩ fun node hnode =>
      hchoice (.expr node) (List.mem_map_of_mem hnode)]

end Expr

/-- **The actions of a plan are announced by the nodes of the statement.** -/
theorem Stmt.account_plan (scopes : Scopes) (s : Stmt) :
    Node.Account s.own (s.plan scopes).actions (∃ tasks, (s.plan scopes).result = .ok tasks) := by
  cases hhead : s.head? with
  | none =>
      rw [own, hhead]
      cases s with
      | block span body => exact .silent rfl _
      | declare span name initial =>
          cases initial with
          | none =>
              refine .single rfl ?_ _
              exact ⟨rfl, rfl, rfl⟩
          | some e => cases hhead
      | hole span => exact .silent rfl _
      | _ => cases hhead
  | some e =>
      rw [own, hhead]
      cases hresult : (e.eval scopes).result with
      | error stop =>
          rw [plan_of_error hhead hresult]
          refine (e.account_eval scopes).extend (List.sublist_append_left _ _) ?_
          -- the statement itself has no turn, but then its plan does not come to tasks
          rintro ⟨tasks, htasks⟩
          cases htasks
      | ok v =>
          have hvalue : e.HasValue scopes := ⟨v, Expr.yields_iff.mpr hresult⟩
          -- behind the nodes of its expression, the statement speaks for itself
          have hspeaks {a : Action} (hannounced : (Node.stmt s).announced = true)
              (ha : (Node.stmt s).Announces a) (complete : Prop) :=
            (e.account_eval scopes).append (.single hannounced ha complete) fun _ => hvalue
          cases s with
          | block span body => cases hhead
          | hole span => cases hhead
          | expr span e' =>
              cases hhead
              rw [plan_expr hresult, ← List.append_nil (e.eval scopes).actions]
              exact (e.account_eval scopes).append (.silent rfl _) fun _ => hvalue
          | print span e' =>
              cases hhead
              rw [plan_print hresult]
              refine hspeaks rfl ?_ _
              exact ⟨rfl, rfl⟩
          | declare span name initial =>
              cases initial with
              | none => cases hhead
              | some e' =>
                  cases hhead
                  rw [plan_declare hresult]
                  refine hspeaks rfl ?_ _
                  exact ⟨rfl, rfl, rfl⟩
          | assign span name e' =>
              cases hhead
              rw [plan_assign hresult]
              refine hspeaks rfl ?_ _
              exact ⟨rfl, rfl, rfl⟩
          | branch span keyword condition yes no =>
              cases hhead
              rw [plan, Expr.test_of_ok hresult]
              refine hspeaks rfl ?_ _
              exact ⟨rfl, rfl⟩
          | loop span keyword condition body =>
              cases hhead
              rw [plan, Expr.test_of_ok hresult]
              refine hspeaks rfl ?_ _
              exact ⟨rfl, rfl⟩

/-! ## Runs that end -/

/-- Whether a progress comes to an end past these records. -/
inductive Progress.Plays : Progress → List Record → State → Option Stop → Prop where
  | ended (t : State) (stop : Option Stop) : Plays (.ended t stop) [] t stop
  | paused {p : Pause} {rs : List Record} {t : State} {stop : Option Stop} :
      Plays p.resume rs t stop → Plays (.paused p) (p.record :: rs) t stop

namespace Progress.Plays

variable {progress : Progress} {rs rs' : List Record} {t u : State} {stop : Option Stop}

theorem after_eq (h : progress.Plays rs t stop) : progress.after rs.length = .ended t stop := by
  induction h with
  | ended t stop => rfl
  | paused _ ih => exact ih

theorem record?_after (h : progress.Plays rs t stop) (i : Nat) :
    (progress.after i).record? = rs[i]? := by
  induction h generalizing i with
  | ended t stop => rw [after_ended]; rfl
  | paused _ ih =>
      cases i with
      | zero => rfl
      | succ i => exact ih i

/-- Work that has come to its end goes on with the work behind it. -/
theorem followedBy {more : List Task} (h : progress.Plays rs t none)
    (hmore : (Task.settle t more).Plays rs' u stop) :
    (progress.followedBy more).Plays (rs ++ rs') u stop := by
  -- the ending is an index of the relation, so it must be a variable for the induction
  generalize hnone : (none : Option Stop) = ending at h
  induction h with
  | ended t ending =>
      subst hnone
      exact hmore
  | @paused p rs t ending _ ih =>
      refine .paused ?_
      rw [Pause.resume_behind]
      exact ih hmore hnone

/-- Work that was stopped leaves out the work behind it. -/
theorem followedBy_of_stop {stop : Stop} (more : List Task) (h : progress.Plays rs t (some stop)) :
    (progress.followedBy more).Plays rs (Task.unwind t more) (some stop) := by
  generalize hsome : some stop = ending at h ⊢
  induction h with
  | ended t ending =>
      subst hsome
      exact .ended _ _
  | @paused p rs t ending _ ih =>
      refine .paused ?_
      rw [Pause.resume_behind]
      exact ih hsome

end Progress.Plays

/-- The records of actions that are committed one after the other. -/
def State.recordsOf (s : State) : List Action → List Record
  | [] => []
  | a :: actions => ⟨a, s⟩ :: (a.commit s).recordsOf actions

theorem State.map_action_recordsOf (s : State) (actions : List Action) :
    (s.recordsOf actions).map (·.action) = actions := by
  induction actions generalizing s with
  | nil => rfl
  | cons a actions ih => rw [recordsOf, List.map_cons, ih]

namespace Task

variable {s t : State} {actions : List Action} {rs : List Record}

theorem plays_proceed_error (s : State) (actions : List Action) (stop : Stop) :
    (proceed s ⟨actions, .error stop⟩ []).Plays (s.recordsOf actions) (s.commitAll actions)
      (some stop) := by
  induction actions generalizing s with
  | nil => exact .ended s (some stop)
  | cons a actions ih => exact .paused (ih (a.commit s))

theorem plays_proceed_ok {tasks : List Task} {stop : Option Stop}
    (h : (settle (s.commitAll actions) tasks).Plays rs t stop) :
    (proceed s ⟨actions, .ok tasks⟩ []).Plays (s.recordsOf actions ++ rs) t stop := by
  induction actions generalizing s with
  | nil =>
      rw [proceed_nil_ok, List.append_nil]
      exact h
  | cons a actions ih => exact .paused (ih h)

/-- Statements in a scope of their own end as they do without it, and the scope is closed. -/
theorem plays_scoped {body : List Stmt} {stop : Option Stop}
    (h : (settle s.enter (body.map .run)).Plays rs t stop) :
    (settle s (Task.scoped body)).Plays rs t.leave stop := by
  rw [Task.scoped, settle_enter, settle_append]
  cases stop with
  | none =>
      rw [← List.append_nil rs]
      refine h.followedBy ?_
      rw [settle_leave, settle_nil]
      exact .ended _ _
  | some stop => exact h.followedBy_of_stop [.leave]

end Task

/-! ## Statements without loops -/

/-- Whether nodes are those of a tree without loops. -/
def Node.LoopFree (nodes : List Node) : Prop := ∀ node ∈ nodes, ¬node.IsLoop

/-- Whether work ends, and its actions are announced by these nodes; all of them have their turn
if the work was not stopped. -/
def Progress.Accountable (progress : Progress) (nodes : List Node) : Prop :=
  ∃ rs t stop, progress.Plays rs t stop ∧ Node.Account nodes (rs.map (·.action)) (stop = none)

theorem Task.accountable_nil (s : State) : (settle s []).Accountable [] := by
  rw [settle_nil]
  exact ⟨[], s, none, .ended _ _, .nil _⟩

/-- A statement whose plan is followed by accountable work, of all nodes that stand in it, or of
some of them if it has a choice. -/
theorem Stmt.accountable_of_plan {statement : Stmt} {inner : List Node} (s : State)
    (htree : statement.tree = statement.own ++ inner)
    (hnext : ∀ actions tasks, statement.plan s.scopes = ⟨actions, .ok tasks⟩ →
      ∃ chosen, (chosen = inner ∨ List.Sublist chosen inner ∧ (Node.stmt statement).IsChoice) ∧
        (Task.settle (s.commitAll actions) tasks).Accountable chosen) :
    (Task.settle s [.run statement]).Accountable statement.tree := by
  have hown := statement.account_plan s.scopes
  rw [htree, Task.settle_run]
  cases hplan : statement.plan s.scopes with
  | mk actions result =>
      rw [hplan] at hown
      cases result with
      | error stop =>
          -- what stands inside is never run, which a stopped statement need not account for
          refine ⟨_, _, _, Task.plays_proceed_error s actions stop, ?_⟩
          rw [State.map_action_recordsOf]
          exact hown.extend (List.sublist_append_left _ _) nofun
      | ok tasks =>
          obtain ⟨chosen, hchosen, rs, t, stop, hplays, haccount⟩ := hnext actions tasks hplan
          refine ⟨_, t, stop, Task.plays_proceed_ok hplays, ?_⟩
          rw [List.map_append, State.map_action_recordsOf]
          have hboth := hown.append haccount fun _ => ⟨tasks, rfl⟩
          -- nodes are left out only if the statement is a choice, and then it is one of the nodes
          rcases hchosen with rfl | ⟨hsub, hchoice⟩
          · exact hboth
          · refine hboth.extend (hsub.append_left _) fun _ => ⟨_, ?_, hchoice⟩
            exact List.mem_append_left _ (List.mem_append_right _ (List.mem_singleton.mpr rfl))

/-- A statement that leaves nothing to do. -/
theorem Stmt.accountable_of_leaves {statement : Stmt} (s : State)
    (htree : statement.tree = statement.own)
    (hleaves : ∀ t tasks, statement.Leaves s t tasks → tasks = []) :
    (Task.settle s [.run statement]).Accountable statement.tree := by
  have hnothing : statement.tree = statement.own ++ [] := by rw [List.append_nil, htree]
  refine accountable_of_plan s hnothing fun actions tasks hplan => ?_
  rw [hleaves _ _ (leaves_of_plan hplan)]
  exact ⟨[], .inl rfl, Task.accountable_nil _⟩

/-- What a branch leaves to do. -/
theorem Stmt.Leaves.branch_tasks {span keyword : Span} {condition : Expr} {yes : Stmt}
    {no : Option Stmt} {s t : State} {tasks : List Task}
    (h : (Stmt.branch span keyword condition yes no).Leaves s t tasks) :
    ∃ b : Bool, tasks = if b then [.run yes] else no.toList.map .run := by
  cases h with
  | branch _ => exact ⟨_, rfl⟩

mutual

/-- **A statement without a loop comes to its end**, past at most one action of each node. -/
theorem Stmt.accountable_of_loopFree : (statement : Stmt) → Node.LoopFree statement.tree →
    (s : State) → (Task.settle s [.run statement]).Accountable statement.tree
  | .expr _ _, _, s => accountable_of_leaves s rfl (by rintro _ _ ⟨⟩; rfl)
  | .print _ _, _, s => accountable_of_leaves s rfl (by rintro _ _ ⟨⟩; rfl)
  | .declare _ _ _, _, s => accountable_of_leaves s rfl (by rintro _ _ ⟨⟩ <;> rfl)
  | .assign _ _ _, _, s => accountable_of_leaves s rfl (by rintro _ _ ⟨⟩; rfl)
  | .hole _, _, s => accountable_of_leaves s rfl nofun
  | .loop span keyword condition body, hfree, s => by
      refine absurd trivial (hfree (.stmt (.loop span keyword condition body)) ?_)
      rw [tree]
      exact List.mem_append_left _ (List.mem_append_right _ (List.mem_singleton.mpr rfl))
  | .block span body, hfree, s => by
      refine accountable_of_plan s (by rw [tree]) fun actions tasks hplan => ?_
      cases hplan
      have hbody := accountable_of_loopFreeAll body (List.forall_mem_append.mp hfree).2 s.enter
      obtain ⟨rs, t, stop, hplays, haccount⟩ := hbody
      exact ⟨_, .inl rfl, rs, t.leave, stop, Task.plays_scoped hplays, haccount⟩
  | .branch span keyword condition yes none, hfree, s => by
      refine accountable_of_plan s (by rw [tree]) fun actions tasks hplan => ?_
      have hyes := accountable_of_loopFree yes (List.forall_mem_append.mp hfree).2
      obtain ⟨b, rfl⟩ := (leaves_of_plan hplan).branch_tasks
      cases b with
      | true => exact ⟨_, .inl rfl, hyes _⟩
      | false => exact ⟨[], .inr ⟨List.nil_sublist _, trivial⟩, Task.accountable_nil _⟩
  | .branch span keyword condition yes (some no), hfree, s => by
      refine accountable_of_plan s (by rw [tree]) fun actions tasks hplan => ?_
      obtain ⟨hfreeYes, hfreeNo⟩ := List.forall_mem_append.mp (List.forall_mem_append.mp hfree).2
      have hyes := accountable_of_loopFree yes hfreeYes
      have hno := accountable_of_loopFree no hfreeNo
      obtain ⟨b, rfl⟩ := (leaves_of_plan hplan).branch_tasks
      cases b with
      | true => exact ⟨_, .inr ⟨List.sublist_append_left _ _, trivial⟩, hyes _⟩
      | false => exact ⟨_, .inr ⟨List.sublist_append_right _ _, trivial⟩, hno _⟩

theorem Stmt.accountable_of_loopFreeAll : (body : List Stmt) → Node.LoopFree (Stmt.treeAll body) →
    (s : State) → (Task.settle s (body.map .run)).Accountable (Stmt.treeAll body)
  | [], _, s => Task.accountable_nil s
  | first :: rest, hfree, s => by
      obtain ⟨hfirst, hrest⟩ := List.forall_mem_append.mp hfree
      obtain ⟨rs, t, stop, hplays, haccount⟩ := accountable_of_loopFree first hfirst s
      rw [List.map_cons, ← List.singleton_append, Task.settle_append]
      cases stop with
      | some stop =>
          -- the statements behind the one that stops are never run
          refine ⟨rs, _, _, hplays.followedBy_of_stop _, ?_⟩
          exact haccount.extend (List.sublist_append_left _ _) nofun
      | none =>
          obtain ⟨rs', u, stop, hplays', haccount'⟩ := accountable_of_loopFreeAll rest hrest t
          refine ⟨rs ++ rs', u, stop, hplays.followedBy hplays', ?_⟩
          rw [List.map_append]
          exact haccount.append haccount' fun _ => rfl

end

/-! ## Programs without loops -/

open Machine

/-- **A program without loops has finitely many records**, at most one of each node. -/
theorem Machine.exists_records_of_loopFree {program : List Stmt}
    (hfree : Node.LoopFree (Stmt.treeAll program)) :
    ∃ (rs : List Record) (t : State) (stop : Option Stop), (∀ i, recordAt program i = rs[i]?) ∧
      trail program (rs.length + 1) = .reached (.ended t stop) ∧
      Node.Account (Stmt.treeAll program) (rs.map (·.action)) (stop = none) := by
  obtain ⟨rs, t, stop, hbody, haccount⟩ :=
    Stmt.accountable_of_loopFreeAll program hfree (State.enter {})
  have hplays : (Machine.ready program).resume.Plays rs t.leave stop := Task.plays_scoped hbody
  refine ⟨rs, t.leave, stop, fun i => ?_, ?_, haccount⟩
  · rw [recordAt, trail_succ_eq_after]
    exact hplays.record?_after i
  · rw [trail_succ_eq_after, hplays.after_eq]

namespace Stepper

/-- A run without a limit that comes back has found the end of the program. -/
theorem run_none_of_drain {st : Stepper} {l : Listing} (hl : st.drain none = some l) :
    (∃ result, l.stepper.result? = some result ∧
      st.run none = some (.ok (some result), l.stepper)) ∨
    (∃ e, l.stepper.Failed ∧ st.run none = some (.error e, l.stepper)) := by
  cases herror : l.error with
  | some e =>
      refine .inr ⟨e, failed_of_drain hl herror, ?_⟩
      simp only [run, hl, Option.bind_eq_bind, Option.bind_some, herror]
  | none =>
      rcases rested_of_drain hl herror with hresult | ⟨hreached, _⟩
      · obtain ⟨result, hresult⟩ := Option.isSome_iff_exists.mp hresult
        refine .inl ⟨result, hresult, ?_⟩
        rw [run_of_drain hl herror, hresult]
      · cases hreached

/-- A listing that is followed to its end without a limit has all records of the program. -/
theorem getElem?_records_of_drain {program : List Stmt} {l : Listing}
    (hl : (start program).drain none = some l) (i : Nat) : l.records[i]? = recordAt program i := by
  have hcontinues := drain_continues hl (tracks_start program)
  have hsteps : l.stepper.steps = l.records.length := by simpa [start] using hcontinues.steps
  -- the program has ended behind the last record, so there is none beyond it
  have hended : l.stepper.result?.isSome ∨ l.stepper.Failed := by
    rcases run_none_of_drain hl with ⟨result, hresult, _⟩ | ⟨e, hfailed, _⟩
    · exact .inl (by rw [hresult]; rfl)
    · exact .inr hfailed
  obtain ⟨hmachine, t, stop, hend⟩ := hcontinues.tracks.exists_ended hended
  have hlast : recordAt program l.records.length = none := by
    rw [← hsteps]
    exact recordAt_of_ended (hmachine ▸ hend)
  have hrecords := congrArg (·[i]?) (map_some_of_continues hcontinues.records)
  -- below the length the listing is the trail, and above it there is nothing on either side
  by_cases hi : i < l.records.length
  · simpa [List.getElem?_eq_getElem hi, start, hi] using hrecords
  · rw [List.getElem?_eq_none (Nat.not_lt.mp hi),
      recordAt_eq_none_of_le hlast (Nat.not_lt.mp hi)]

/-- **A program without loops ends within a static bound.** A run without a limit comes back,
with a result or with an error. Its records are announced by nodes of the program, each of them
by another one, so that it takes at most as many steps as there are nodes that announce
something. If the program succeeds and has neither branches nor short-circuit operations, then it
takes exactly as many. -/
theorem run_of_loopFree {program : List Stmt} (hfree : Node.LoopFree (Stmt.treeAll program)) :
    ∃ l outcome, (start program).drain none = some l ∧
      (start program).run none = some (outcome, l.stepper) ∧
      ((∃ result, outcome = .ok (some result)) ∨ ∃ e, outcome = .error e) ∧
      l.stepper.steps = l.records.length ∧
      (∃ speakers, List.Sublist speakers ((Stmt.treeAll program).filter (·.announced)) ∧
        List.Forall₂ (fun node r => node.Announces r.action) speakers l.records) ∧
      l.stepper.steps ≤ (Stmt.treeAll program).countP (·.announced) ∧
      ∀ output, outcome = .ok (some ⟨none, output⟩) →
        (∀ node ∈ Stmt.treeAll program, ¬node.IsChoice) →
        l.stepper.steps = (Stmt.treeAll program).countP (·.announced) := by
  obtain ⟨rs, t, stop, hrecord, hend, haccount⟩ := exists_records_of_loopFree hfree
  obtain ⟨l, hl⟩ := Option.isSome_iff_exists.mp
    (drain_isSome_of_recordAt none (recordAt_of_ended hend) (tracks_start program))
  obtain rfl : l.records = rs :=
    List.ext_getElem? fun i => (getElem?_records_of_drain hl i).trans (hrecord i)
  have hcontinues := drain_continues hl (tracks_start program)
  have hsteps : l.stepper.steps = l.records.length := by simpa [start] using hcontinues.steps
  have hlength : l.stepper.steps = (l.records.map (·.action)).length := by
    rw [hsteps, List.length_map]
  have hbound : l.stepper.steps ≤ (Stmt.treeAll program).countP (·.announced) :=
    hlength ▸ haccount.length_le
  have hspeakers : ∃ speakers,
      List.Sublist speakers ((Stmt.treeAll program).filter (·.announced)) ∧
      List.Forall₂ (fun node r => node.Announces r.action) speakers l.records := by
    obtain ⟨speakers, hsub, hannounce, _⟩ := haccount
    exact ⟨speakers, hsub, List.forall₂_map_right_iff.mp hannounce⟩
  rcases run_none_of_drain hl with ⟨result, hresult, hrun⟩ | ⟨e, _, hrun⟩
  · refine ⟨l, _, hl, hrun, .inl ⟨result, rfl⟩, hsteps, hspeakers, hbound, ?_⟩
    intro output houtcome hchoice
    cases houtcome
    -- the program has succeeded, so it was not stopped
    obtain ⟨⟨s, hfinished, _⟩, _⟩ := hcontinues.tracks.ended_of_result? hresult
    obtain ⟨_, hstop⟩ := trail_ended_unique hend hfinished
    rw [hlength]
    exact haccount.length_eq hstop hchoice
  · refine ⟨l, _, hl, hrun, .inr ⟨e, rfl⟩, hsteps, hspeakers, hbound, ?_⟩
    intro output houtcome
    cases houtcome

/-- The tree of `if  false || true  f(x);`, with a branch that is no block. -/
def callsBehindChoice : List Stmt :=
  [.branch (.ofLength 0 24) (.ofLength 0 2)
    (.shortCircuit (.ofLength 4 13) (.literal (.ofLength 4 5) (.bool false)) ⟨.ofLength 10 2, .or⟩
      (.literal (.ofLength 13 4) (.bool true)))
    (.expr (.ofLength 19 5)
      (.call (.ofLength 19 4) (.var (.ofLength 19 1) "f") [.var (.ofLength 21 1) "x"])) none]

/-- A program with three nodes that announce something, of which none is left out, takes three
steps. One with a branch, a short-circuit operation and a call has three such nodes as well, but
the call is refused and its parts are never run. -/
theorem run_of_loopFree_opening :
    (Node.LoopFree (Stmt.treeAll opening) ∧ (∀ node ∈ Stmt.treeAll opening, ¬node.IsChoice) ∧
      ∃ last, (start opening).run none = some (.ok (some ⟨none, "1\n"⟩), last) ∧ last.steps = 3) ∧
    Node.LoopFree (Stmt.treeAll callsBehindChoice) ∧
      ∃ e last, (start callsBehindChoice).run none = some (.error e, last) ∧ last.steps ≤ 3 := by
  have hfree : Node.LoopFree (Stmt.treeAll opening) := by
    simp [Node.LoopFree, opening, Stmt.treeAll, Stmt.tree, Stmt.own, Stmt.head?, Expr.tree,
      Node.IsLoop]
  have hchoice : ∀ node ∈ Stmt.treeAll opening, ¬node.IsChoice := by
    simp [opening, Stmt.treeAll, Stmt.tree, Stmt.own, Stmt.head?, Expr.tree, Node.IsChoice]
  have hfree' : Node.LoopFree (Stmt.treeAll callsBehindChoice) := by
    simp [Node.LoopFree, callsBehindChoice, Stmt.treeAll, Stmt.tree, Stmt.own, Stmt.head?,
      Expr.tree, Expr.treeAll, Node.IsLoop]
  obtain ⟨last, hrun⟩ : ∃ last,
      (start opening).run none = some (.ok (some ⟨none, "1\n"⟩), last) := by
    obtain ⟨r, first, hfirst, r', second, hsecond, r'', third, hthird, last, hlast, hresult⟩ :
        ∃ r first, (start opening).pull none = (.ok (some r), first) ∧
        ∃ r' second, first.pull none = (.ok (some r'), second) ∧
        ∃ r'' third, second.pull none = (.ok (some r''), third) ∧
        ∃ last, third.pull none = (.ok none, last) ∧ last.result? = some ⟨none, "1\n"⟩ :=
      ⟨_, _, by cbv, _, _, by cbv, _, _, by cbv, _, by cbv, by cbv⟩
    exact ⟨last, by simp [run, drain, hfirst, hsecond, hthird, hlast, hresult]⟩
  obtain ⟨e, last', hrun'⟩ :
      ∃ e last, (start callsBehindChoice).run none = some (.error e, last) := by
    obtain ⟨r, first, hfirst, e, last, hlast⟩ :
        ∃ r first, (start callsBehindChoice).pull none = (.ok (some r), first) ∧
        ∃ e last, first.pull none = (.error e, last) := ⟨_, _, by cbv, _, _, by cbv⟩
    exact ⟨e, last, by simp [run, drain, hfirst, hlast]⟩
  obtain ⟨l, outcome, _, hl, _, _, _, _, hexact⟩ := run_of_loopFree hfree
  obtain ⟨l', outcome', _, hl', _, _, _, hbound, _⟩ := run_of_loopFree hfree'
  rw [hrun] at hl
  rw [hrun'] at hl'
  cases hl
  cases hl'
  exact ⟨⟨hfree, hchoice, _, hrun, hexact _ rfl hchoice⟩, hfree', e, _, hrun', hbound⟩

end Stepper

end Stepwise
