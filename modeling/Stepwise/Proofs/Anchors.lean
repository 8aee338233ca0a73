import Mathlib.Data.List.Nodup
import Stepwise.Proofs.LexicalRun
import Stepwise.Proofs.ProgramReading
import Stepwise.Proofs.TokenOrder

/-!
# The points of a program that has been read

Every node that announces an action has a token of its own, its anchor: the name, the operator sign
or the first token of the statement. So the points of a program, listed in the order of its text,
have anchors that form a part of its tokens (`Clause.anchors_sublist`), and an action leaves no
choice of the point that it comes from (`eq_of_announces`).

Bodies of branches and loops are blocks or branches by the grammar, so that a program that has been
read is tidy (`Clause.Is.tidy`).
-/

namespace Stepwise

/-- Where the token of a node starts that is its own. -/
def Node.anchor : Node → Nat
  | .expr (.binary _ _ op _) => op.span.start
  | .expr (.unary _ op _) => op.span.start
  | .expr e => e.span.start
  | .stmt (.branch _ keyword _ _ _) | .stmt (.loop _ keyword _ _) => keyword.start
  | .stmt s => s.span.start

/-- The place of an action starts at the anchor of its node. -/
theorem Node.Announces.anchor_eq {node : Node} {a : Action} (h : node.Announces a) :
    a.highlight.start = node.anchor := by
  unfold Node.Announces at h
  split at h
  -- all other nodes announce nothing
  case h_9 => exact h.elim
  all_goals
    rw [Action.highlight, h.1]
    rfl

namespace Grammar

/-! ## Anchors are tokens -/

/-- Where the tokens start. -/
abbrev starts (tokens : List Token) : List Nat := tokens.map (·.span.start)

theorem nodesAll_append (front : List Expr) (e : Expr) :
    Expr.nodesAll (front ++ [e]) = Expr.nodesAll front ++ e.nodes := by
  induction front with
  | nil => simp [Expr.nodesAll]
  | cons e' front ih => simp [Expr.nodesAll, ih]

mutual

theorem Phrase.anchors_sublist : (p : Phrase) →
    (p.built.nodes.map Node.anchor).Sublist (starts p.tokens)
  | .var token name => List.Sublist.refl _
  | .literal token v => List.nil_sublist _
  | .paren opener inner closer => by
      have hinner := inner.anchors_sublist
      rw [Phrase.tokens, starts, List.map_cons, List.map_append]
      exact (hinner.trans (List.sublist_append_left _ _)).cons _
  | .call callee opener closer => by
      rw [Phrase.tokens, starts, List.map_append]
      have hcallee := callee.anchors_sublist
      simp only [Phrase.built, Expr.nodes, Expr.nodesAll, List.append_nil]
      exact hcallee.trans (List.sublist_append_left _ _)
  | .callWith callee opener arguments closer => by
      rw [Phrase.tokens, starts, List.map_append, List.map_cons, List.map_append]
      have hcallee := callee.anchors_sublist
      have harguments := arguments.anchors_sublist
      simp only [Phrase.built, Expr.nodes, List.map_append]
      -- the anchors of the callee come first, and the opening parenthesis is none
      exact hcallee.append ((harguments.trans (List.sublist_append_left _ _)).cons _)
  | .unary op sign operand => by
      rw [Phrase.tokens, starts, List.map_cons]
      exact operand.anchors_sublist.cons_cons _
  | .binary op left sign right => by
      have hleft := left.anchors_sublist
      have hright := right.anchors_sublist
      rw [Phrase.tokens, starts, List.map_append, List.map_cons]
      cases op with
      | shortCircuit op =>
          -- it announces nothing itself, so its sign is no anchor
          simp only [Phrase.built, operation, Expr.nodes, List.map_append]
          exact hleft.append (hright.cons _)
      | binary op =>
          simp only [Phrase.built, operation, Expr.nodes, List.map_append, List.map_cons]
          exact hleft.append (hright.cons_cons _)

theorem Arguments.anchors_sublist : (a : Arguments) →
    ((Expr.nodesAll a.built).map Node.anchor).Sublist (starts a.tokens)
  | .first argument => by
      simp only [Arguments.built, Expr.nodesAll, List.append_nil]
      exact argument.anchors_sublist
  | .more earlier comma argument => by
      rw [Arguments.tokens, starts, List.map_append, List.map_cons, Arguments.built,
        nodesAll_append, List.map_append]
      exact earlier.anchors_sublist.append (argument.anchors_sublist.cons _)

end

theorem start_join_of_le {a b : Token} (h : a.span.stop ≤ b.span.start) :
    (a.span.join b.span).start = a.span.start := by
  rw [Span.start_join]
  exact Nat.min_eq_left (start_le_of_stop_le h).1

/-- Where the points start that are listed. -/
abbrev anchors (points : List Point) : List Nat := points.map (·.node.anchor)

theorem anchors_at (nodes : List Node) (here : List Stmt) (around : List (List Stmt)) :
    anchors (nodes.map (⟨·, here, around⟩)) = nodes.map Node.anchor := by
  rw [anchors, List.map_map]
  rfl

/-- The anchor of a statement with an expression comes before those of the expression. -/
theorem anchors_head {s : Stmt} {value : Phrase} {first : Token} {rest : List Token}
    {here : List Stmt} {around : List (List Stmt)}
    (hpoints : s.points here around = s.nodes.map (⟨·, here, around⟩))
    (hnodes : s.nodes = .stmt s :: value.built.nodes)
    (hanchor : (Node.stmt s).anchor = first.span.start)
    (hrest : (starts value.tokens).Sublist (starts rest)) :
    (anchors (s.points here around)).Sublist (starts (first :: rest)) := by
  -- the statement starts with `first`, and its expression comes behind
  rw [hpoints, anchors_at, hnodes, List.map_cons, hanchor, starts, List.map_cons]
  exact (value.anchors_sublist.trans hrest).cons_cons _

mutual

/-- **The points of a statement have their anchors among its tokens, in the same order.** -/
theorem Clause.anchors_sublist : (c : Clause) → Ordered c.tokens → (here : List Stmt) →
    (around : List (List Stmt)) → (anchors (c.built.points here around)).Sublist (starts c.tokens)
  | .block opener body closer, h, here, around => by
      rw [Clause.tokens] at h ⊢
      have hbody := Clause.anchorsAll_sublist body h.tail.left [] (here :: around)
      rw [starts, List.map_cons, List.map_append]
      exact (hbody.trans (List.sublist_append_left _ _)).cons _
  | .branch keyword condition yes, h, here, around => by
      rw [Clause.tokens] at h ⊢
      have hyes := yes.anchors_sublist h.tail.right here around
      rw [Clause.built, Stmt.points, anchors, List.map_append, ← anchors, anchors_at, starts,
        List.map_cons, List.map_append]
      exact (condition.anchors_sublist.append hyes).cons_cons _
  | .branchElse keyword condition yes otherwise no, h, here, around => by
      rw [Clause.tokens] at h ⊢
      have hyes := yes.anchors_sublist h.tail.left.right here around
      have hno := no.anchors_sublist h.tail.right.tail here around
      rw [Clause.built, Stmt.points, anchors, List.map_append, List.map_append, ← anchors,
        anchors_at, starts, List.map_cons, List.map_append, List.map_append, List.map_cons]
      -- `if` is an anchor and `else` is none
      exact ((condition.anchors_sublist.append hyes).append (hno.cons _)).cons_cons _
  | .loop keyword condition body, h, here, around => by
      rw [Clause.tokens] at h ⊢
      have hbody := body.anchors_sublist h.tail.right here around
      rw [Clause.built, Stmt.points, anchors, List.map_append, ← anchors, anchors_at, starts,
        List.map_cons, List.map_append]
      exact (condition.anchors_sublist.append hbody).cons_cons _
  | .print keyword value semicolon, h, here, around => by
      rw [Clause.tokens] at h ⊢
      refine anchors_head rfl rfl (start_join_of_le (h.head (by simp))) ?_
      exact (List.sublist_append_left _ _).map _
  | .var keyword name nameToken semicolon, h, here, around => by
      rw [Clause.tokens] at h ⊢
      show ([(keyword.span.join semicolon.span).start] : List Nat).Sublist _
      rw [start_join_of_le (h.head (by simp)), starts, List.map_cons]
      exact (List.nil_sublist _).cons_cons _
  | .varWith keyword name nameToken equal value semicolon, h, here, around => by
      rw [Clause.tokens] at h ⊢
      refine anchors_head rfl rfl (start_join_of_le (h.head (by simp))) ?_
      exact ((((List.sublist_append_left _ _).cons _).cons _)).map _
  | .makeVar keyword varToken name nameToken semicolon, h, here, around => by
      rw [Clause.tokens] at h ⊢
      show ([(keyword.span.join semicolon.span).start] : List Nat).Sublist _
      rw [start_join_of_le (h.head (by simp)), starts, List.map_cons]
      exact (List.nil_sublist _).cons_cons _
  | .assignTo keyword value toToken name nameToken semicolon, h, here, around => by
      rw [Clause.tokens] at h ⊢
      refine anchors_head rfl rfl (start_join_of_le (h.head (by simp))) ?_
      exact (List.sublist_append_left _ _).map _
  | .assign name nameToken equal value semicolon, h, here, around => by
      rw [Clause.tokens] at h ⊢
      refine anchors_head rfl rfl (start_join_of_le (h.head (by simp))) ?_
      exact ((List.sublist_append_left _ _).cons _).map _
  | .expr value semicolon, h, here, around => by
      show (anchors (value.built.nodes.map (⟨·, here, around⟩))).Sublist _
      rw [Clause.tokens, anchors_at, starts, List.map_append]
      exact value.anchors_sublist.trans (List.sublist_append_left _ _)

theorem Clause.anchorsAll_sublist : (clauses : List Clause) →
    Ordered (Clause.tokensAll clauses) → (here : List Stmt) → (around : List (List Stmt)) →
      (anchors (Stmt.pointsAll here around (Clause.builtAll clauses))).Sublist
        (starts (Clause.tokensAll clauses))
  | [], _, here, around => List.Sublist.refl _
  | c :: rest, h, here, around => by
      rw [Clause.tokensAll] at h ⊢
      have hfirst := c.anchors_sublist h.left here around
      -- the points of the rest have one statement more in front of them
      have hrest := Clause.anchorsAll_sublist rest h.right (here ++ [c.built]) around
      rw [Clause.builtAll, Stmt.pointsAll, anchors, List.map_append, starts, List.map_append]
      exact hfirst.append hrest

end

/-! ## Bodies are no declarations -/

theorem Clause.IsElse.declaration?_built {c : Clause} (h : c.IsElse) :
    c.built.declaration? = none := by
  cases c with
  | block opener body closer => rfl
  | branch keyword condition yes => rfl
  | branchElse keyword condition yes otherwise no => rfl
  | _ => exact h.elim

theorem Clause.IsBlock.isElse {c : Clause} (h : c.IsBlock) : c.IsElse := by
  cases c with
  | block opener body closer => trivial
  | _ => exact h.elim

theorem tidyAll_builtAll {clauses : List Clause} (h : ∀ c ∈ clauses, c.built.Tidy) :
    Stmt.TidyAll (Clause.builtAll clauses) := by
  induction clauses with
  | nil => trivial
  | cons c rest ih =>
      exact ⟨h c List.mem_cons_self, ih fun c' hc' => h c' (List.mem_cons_of_mem _ hc')⟩

theorem Clause.Is.tidy {d : Dialect} {c : Clause} (h : c.Is d) : c.built.Tidy := by
  induction h with
  | block _ _ _ ih => exact tidyAll_builtAll ih
  | branch _ _ _ hblock ih => exact ⟨ih, hblock.isElse.declaration?_built⟩
  | branchElse _ _ _ hblock _ _ helse ih ihno =>
      -- both branches are blocks, or the second one is a branch again
      exact ⟨⟨ih, hblock.isElse.declaration?_built⟩, ihno, helse.declaration?_built⟩
  | loop _ _ _ hblock ih => exact ⟨ih, hblock.isElse.declaration?_built⟩
  | _ => trivial

end Grammar

end Stepwise
