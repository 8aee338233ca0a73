import Stepwise.Proofs.LexicalScoping
import Stepwise.Proofs.Meaning
import Stepwise.Proofs.Productivity

/-!
# The values of a run

A value arises in a run if a variable has it at some time, if an expression that is evaluated
has it, or if a record shows it as an operand. All values come from the literals of the program
and from operators, so a property that the literals have and the operators keep is one of all
values that arise (`Arises.satisfies`).

Each transition carries the property on (`Config.Carries.tick`, the step): from the literals of the
code that is still ahead to results and waiting operands, and from there to the actions and the
variables. So the whole run does (`Config.Leads.carries`).
-/

namespace Stepwise

/-- A property of values that the operators keep. -/
structure Value.Kept (P : Value → Prop) : Prop where
  bool : ∀ b, P (.bool b)
  binary : ∀ (op : BinaryOp) {a b v : Value}, P a → P b → op.apply a b = .ok v → P v
  unary : ∀ (op : UnaryOp) {a v : Value}, P a → op.apply a = .ok v → P v

/-- Whether a variable has a value. -/
def State.Holds (s : State) (v : Value) : Prop :=
  ∃ scope ∈ s.scopes, ∃ entry ∈ scope, entry.2.value = some v

/-- The values that a run of the program has to do with. -/
inductive Arises (program : List Stmt) : Value → Prop where
  | held {rs : List Record} {c : Config} {v : Value} :
      (Config.start program).Leads rs c → c.state.Holds v → Arises program v
  /-- The expression is the whole one of a statement or any part of it that is evaluated. -/
  | computed {rs : List Record} {c : Config} {e : Expr} {waiting : List Waiting} {use : Use}
      {v : Value} :
      (Config.start program).Leads rs c → c.control = .eval e waiting use →
      e.Yields c.state.scopes (.ok v) → Arises program v
  | shown {n : Nat} {r : Record} {x : Located Value} :
      Machine.recordAt program n = some r → x ∈ r.action.operands → Arises program x.value

/-! ## Carrying a property -/

/-- Whether the literals that can be evaluated have the property; calls are not looked into. -/
def Expr.Carries (P : Value → Prop) : Expr → Prop
  | .literal _ v => P v
  | .paren _ inner => inner.Carries P
  | .shortCircuit _ left _ right | .binary _ left _ right => left.Carries P ∧ right.Carries P
  | .unary _ _ operand => operand.Carries P
  | .var _ _ | .call _ _ _ | .hole _ => True

mutual

/-- Whether the literals of the statement have the property. -/
def Stmt.Carries (P : Value → Prop) : Stmt → Prop
  | .block _ body => Stmt.CarriesAll P body
  | .expr _ e | .print _ e | .declare _ _ (some e) | .assign _ _ e => e.Carries P
  | .declare _ _ none | .hole _ => True
  | .branch _ _ condition yes none => condition.Carries P ∧ yes.Carries P
  | .branch _ _ condition yes (some no) => condition.Carries P ∧ yes.Carries P ∧ no.Carries P
  | .loop _ _ condition body => condition.Carries P ∧ body.Carries P

/-- Whether the literals of the statements have the property. -/
def Stmt.CarriesAll (P : Value → Prop) : List Stmt → Prop
  | [] => True
  | s :: rest => s.Carries P ∧ Stmt.CarriesAll P rest

end

/-- Whether the literals of a task have the property. -/
def Task.Carries (P : Value → Prop) : Task → Prop
  | .run s => s.Carries P
  | .enter | .leave => True

/-- Whether the operands of an action have the property. -/
def Action.Carries (P : Value → Prop) (a : Action) : Prop := ∀ x ∈ a.operands, P x.value

/-- Whether the variables have values with the property. -/
def Scopes.Carry (P : Value → Prop) (scopes : Scopes) : Prop :=
  ∀ scope ∈ scopes, ∀ entry ∈ scope, ∀ v, entry.2.value = some v → P v

/-- Whether what an operation still needs has the property. -/
def Waiting.Carries (P : Value → Prop) : Waiting → Prop
  | .shortLeft _ _ right | .binaryLeft _ _ right => right.Carries P
  | .binaryRight left _ _ => P left.value
  | .shortRight _ _ | .unary _ _ => True

/-- Whether the tasks that a statement leaves have the property. -/
def Use.Carries (P : Value → Prop) : Use → Prop
  | .check _ _ yes no => (∀ t ∈ yes, t.Carries P) ∧ ∀ t ∈ no, t.Carries P
  | .discard | .print _ _ | .declare _ _ _ | .assign _ _ _ => True

/-- What is left of a statement behind its expression. -/
structure Behind (P : Value → Prop) (waiting : List Waiting) (use : Use) : Prop where
  waiting : ∀ w ∈ waiting, w.Carries P
  use : use.Carries P

/-- Whether all values and literals inside a statement have the property. -/
def Control.Carries (P : Value → Prop) : Control → Prop
  | .next => True
  | .eval e waiting use => e.Carries P ∧ Behind P waiting use
  | .give result waiting use => (∀ v, result = .ok v → P v) ∧ Behind P waiting use
  | .tell a _ result waiting use =>
    a.Carries P ∧ (∀ v, result = .ok v → P v) ∧ Behind P waiting use
  | .act a leaves => a.Carries P ∧ ∀ tasks, leaves = .ok tasks → ∀ t ∈ tasks, t.Carries P
  | .finish leaves => ∀ tasks, leaves = .ok tasks → ∀ t ∈ tasks, t.Carries P

/-- Whether all values of a configuration and the literals of the code ahead have the property. -/
structure Config.Carries (P : Value → Prop) (c : Config) : Prop where
  scopes : c.state.scopes.Carry P
  control : c.control.Carries P
  todo : ∀ t ∈ c.todo, t.Carries P

/-- Whether a transition shows values with the property only, and leaves such values. -/
def Tick.Carries (P : Value → Prop) : Tick → Prop
  | .silent after => after.Carries P
  | .announces a after => a.Carries P ∧ after.Carries P
  | .ended _ _ => True

/-! ## Variables -/

section Variables

variable {P : Value → Prop} {scopes : Scopes}

theorem Scope.mem_set {scope : Scope} {name : String} {b : Binding} {entry : String × Binding}
    (h : entry ∈ scope.set name b) : entry = (name, b) ∨ entry ∈ scope := by
  induction scope with
  | nil => exact .inl (List.mem_singleton.mp h)
  | cons first rest ih =>
      obtain ⟨key, old⟩ := first
      unfold Scope.set at h
      -- the entry with the name is replaced, and all others stay
      split at h
      · rcases List.mem_cons.mp h with h | h
        · exact .inl h
        · exact .inr (List.mem_cons_of_mem _ h)
      · rcases List.mem_cons.mp h with rfl | h
        · exact .inr List.mem_cons_self
        · exact (ih h).imp_right (List.mem_cons_of_mem _)

theorem Scope.mem_of_get? {scope : Scope} {name : String} {b : Binding}
    (h : scope.get? name = some b) : (name, b) ∈ scope := by
  induction scope with
  | nil => cases h
  | cons first rest ih =>
      obtain ⟨key, old⟩ := first
      rw [Scope.get?_cons] at h
      by_cases hname : name = key
      · rw [if_pos hname] at h
        cases h
        rw [hname]
        exact List.mem_cons_self
      · rw [if_neg hname] at h
        exact List.mem_cons_of_mem _ (ih h)

namespace Scopes

theorem Carry.lookup (h : scopes.Carry P) {name : String} {b : Binding} {v : Value}
    (hname : scopes.lookup name = some b) (hv : b.value = some v) : P v := by
  obtain ⟨scope, hscope, hget⟩ := List.exists_of_findSome?_eq_some hname
  exact h scope hscope _ (Scope.mem_of_get? hget) v hv

theorem Carry.enter (h : scopes.Carry P) : scopes.enter.Carry P :=
  List.forall_mem_cons.mpr ⟨nofun, h⟩

theorem Carry.leave (h : scopes.Carry P) : scopes.leave.Carry P :=
  fun scope hscope => h scope (List.mem_of_mem_tail hscope)

theorem Carry.set {scope : Scope} {outer : Scopes} (h : Carry P (scope :: outer)) {name : String}
    {b : Binding} (hb : ∀ v, b.value = some v → P v) : Carry P (scope.set name b :: outer) := by
  rw [Carry, List.forall_mem_cons] at h ⊢
  refine ⟨fun entry hentry => ?_, h.2⟩
  rcases Scope.mem_set hentry with rfl | hold
  · exact hb
  · exact h.1 entry hold

theorem Carry.define (h : scopes.Carry P) {name : String} {b : Binding}
    (hb : ∀ v, b.value = some v → P v) : (scopes.define name b).Carry P := by
  cases scopes with
  | nil => exact h
  | cons scope outer => exact h.set hb

theorem Carry.assign? (h : scopes.Carry P) {name : String} {v : Value} (hv : P v) {after : Scopes}
    (hafter : scopes.assign? name v = some after) : after.Carry P := by
  induction scopes generalizing after with
  | nil => cases hafter
  | cons scope outer ih =>
      unfold Scopes.assign? at hafter
      -- the variable is in this scope, or further out
      split at hafter
      · cases hafter
        refine h.set fun w hw => ?_
        cases hw
        exact hv
      · obtain ⟨rest, hrest, rfl⟩ := Option.map_eq_some_iff.mp hafter
        rw [Carry, List.forall_mem_cons] at h
        exact List.forall_mem_cons.mpr ⟨h.1, ih h.2 hrest⟩

end Scopes

/-- Only the values of an action come into the variables. -/
theorem Action.Carries.commit {a : Action} (ha : a.Carries P) {s : State} (h : s.scopes.Carry P) :
    (a.commit s).scopes.Carry P := by
  cases a with
  | read | binary | unary | check | print => exact h
  | declare span name initializer =>
      -- a declaration brings in its operand, if it has one
      refine h.define fun v hv => ?_
      cases initializer with
      | none => cases hv
      | some x =>
          cases hv
          exact ha x (List.mem_singleton.mpr rfl)
  | assign span name x declared =>
      show ((s.scopes.assign? name x.value).getD s.scopes).Carry P
      cases hassign : s.scopes.assign? name x.value with
      | none => exact h
      | some after => exact h.assign? (ha x (List.mem_singleton.mpr rfl)) hassign

end Variables

/-! ## Expressions -/

section Expressions

variable {P : Value → Prop} {scopes : Scopes}

/-- The value of an expression has the property if the literals and the variables do. -/
theorem Expr.Carries.of_yields (hP : Value.Kept P) (hscopes : scopes.Carry P) {e : Expr}
    {r : Except Stop Value} (h : e.Yields scopes r) (he : e.Carries P) {v : Value}
    (hr : r = .ok v) :
    P v := by
  induction h generalizing v with
  | var hname =>
      cases hr
      exact hscopes.lookup hname rfl
  | literal =>
      cases hr
      exact he
  | paren _ ih => exact ih he hr
  | decided | undecided =>
      cases hr
      exact hP.bool _
  | binary _ _ happly ihl ihr =>
      cases hr
      -- both operands have the property, and the operator keeps it
      exact hP.binary _ (ihl he.1 rfl) (ihr he.2 rfl) happly
  | unary _ happly ih =>
      cases hr
      exact hP.unary _ (ih he rfl) happly
  | _ => cases hr

theorem Evaluation.eq_ok_of_blame {α : Type} {span : Span} {r : Except Fault α} {v : α}
    (h : (Evaluation.blame span r).result = .ok v) : r = .ok v := by
  cases r with
  | ok w =>
      cases h
      rfl
  | error fault => cases h

theorem Behind.push {waiting : List Waiting} {use : Use} (h : Behind P waiting use) {w : Waiting}
    (hw : w.Carries P) : Behind P (w :: waiting) use :=
  ⟨List.forall_mem_cons.mpr ⟨hw, h.waiting⟩, h.use⟩

/-- The first transition of an expression. -/
theorem Control.carries_ofExpr (hP : Value.Kept P) (hscopes : scopes.Carry P) {e : Expr}
    (he : e.Carries P) {waiting : List Waiting} {use : Use} (h : Behind P waiting use) :
    (Control.ofExpr scopes waiting use e).Carries P := by
  cases e with
  | var span name =>
      refine ⟨nofun, fun v hv => ?_, h⟩
      -- what is read is what the rules say, so the variable has carried it
      have hyields : (Expr.var span name).Yields scopes (.ok v) := Expr.yields_iff.mpr hv
      exact Expr.Carries.of_yields hP hscopes hyields he rfl
  | literal span v =>
      refine ⟨fun w hw => ?_, h⟩
      cases hw
      exact he
  | paren span inner => exact ⟨he, h⟩
  | call | hole => exact ⟨nofun, h⟩
  | shortCircuit span left op right => exact ⟨he.1, h.push he.2⟩
  | binary span left op right => exact ⟨he.1, h.push he.2⟩
  | unary span op operand => exact ⟨he, h.push trivial⟩

/-- How an operation goes on with an operand. -/
theorem Waiting.carries_take (hP : Value.Kept P) {w : Waiting} (hw : w.Carries P) {v : Value}
    (hv : P v) {waiting : List Waiting} {use : Use} (h : Behind P waiting use) :
    (w.take v waiting use).Carries P := by
  cases w with
  | shortLeft left op right =>
      simp only [take]
      split
      · -- the operand is no truth value, so there is no result
        refine ⟨fun u hu => ?_, h⟩
        cases hu
      · split
        · refine ⟨fun u hu => ?_, h⟩
          cases hu
          exact hP.bool _
        · -- undecided: the right operand is next, and has waited with the property
          exact ⟨hw, h.push trivial⟩
  | shortRight right op =>
      refine ⟨fun u hu => ?_, h⟩
      cases hresult : (op.operand right v).result with
      | error stop =>
          rw [hresult] at hu
          cases hu
      | ok b =>
          rw [hresult] at hu
          cases hu
          exact hP.bool b
  | binaryLeft left op right => exact ⟨hw, h.push hv⟩
  | binaryRight left op right =>
      refine ⟨?_, fun u hu => hP.binary _ hw hv (Evaluation.eq_ok_of_blame hu), h⟩
      exact List.forall_mem_cons.mpr ⟨hw, List.forall_mem_singleton.mpr hv⟩
  | unary op operand =>
      refine ⟨?_, fun u hu => hP.unary _ hv (Evaluation.eq_ok_of_blame hu), h⟩
      exact List.forall_mem_singleton.mpr hv

end Expressions

/-! ## Statements -/

section Statements

variable {P : Value → Prop} {scopes : Scopes}

theorem Stmt.CarriesAll.of_mem {body : List Stmt} (h : Stmt.CarriesAll P body) :
    ∀ s ∈ body, s.Carries P := by
  induction body with
  | nil => exact nofun
  | cons s rest ih => exact List.forall_mem_cons.mpr ⟨h.1, ih h.2⟩

theorem Task.carries_scoped {body : List Stmt} (h : Stmt.CarriesAll P body) :
    ∀ t ∈ Task.scoped body, t.Carries P := by
  refine List.forall_mem_cons.mpr ⟨trivial, List.forall_mem_append.mpr ⟨?_, ?_⟩⟩
  · intro t ht
    obtain ⟨s, hs, rfl⟩ := List.mem_map.mp ht
    exact h.of_mem s hs
  · exact List.forall_mem_singleton.mpr trivial

/-- How a statement goes on with the value of its expression. -/
theorem Use.carries_take {use : Use} (h : use.Carries P) {v : Value} (hv : P v) :
    (use.take scopes v).Carries P := by
  have hnil : ∀ tasks : List Task, (.ok [] : Except Stop (List Task)) = .ok tasks →
      ∀ t ∈ tasks, t.Carries P := by
    intro tasks htasks
    cases htasks
    exact nofun
  have hoperand {span : Span} : ∀ x ∈ [(⟨span, v⟩ : Located Value)], P x.value :=
    List.forall_mem_singleton.mpr hv
  cases use with
  | discard => exact hnil
  | print span operand => exact ⟨hoperand, hnil⟩
  | declare span name initializer => exact ⟨hoperand, hnil⟩
  | assign span name value =>
      refine ⟨hoperand, ?_⟩
      split
      · exact hnil
      · exact nofun
  | check keyword condition yes no =>
      refine ⟨hoperand, fun tasks htasks => ?_⟩
      -- what a condition leaves to do was there before, on both sides
      obtain ⟨b, rfl, rfl⟩ := Expr.verdict_ok htasks
      cases b with
      | true => exact h.1
      | false => exact h.2

/-- The first transition of a statement. -/
theorem Control.carries_ofStmt {s : Stmt} (h : s.Carries P) : (Control.ofStmt s).Carries P := by
  have hplain {use : Use} (huse : use.Carries P) : Behind P [] use := ⟨nofun, huse⟩
  cases s with
  | block span body =>
      intro tasks htasks
      cases htasks
      exact Task.carries_scoped h
  | expr | print | assign => exact ⟨h, hplain trivial⟩
  | declare span name initializer =>
      cases initializer with
      | none =>
          refine ⟨nofun, fun tasks htasks => ?_⟩
          cases htasks
          exact nofun
      | some e => exact ⟨h, hplain trivial⟩
  | branch span keyword condition yes no =>
      cases no with
      | none => exact ⟨h.1, hplain ⟨List.forall_mem_singleton.mpr h.2, nofun⟩⟩
      | some no =>
          exact ⟨h.1, hplain ⟨List.forall_mem_singleton.mpr h.2.1,
            List.forall_mem_singleton.mpr h.2.2⟩⟩
  | loop span keyword condition body =>
      -- the loop is one of the tasks that its own condition leaves
      refine ⟨h.1, hplain ⟨List.forall_mem_cons.mpr ⟨h.2, ?_⟩, nofun⟩⟩
      exact List.forall_mem_singleton.mpr h
  | hole => exact nofun

end Statements

/-! ## Runs -/

section Runs

variable {P : Value → Prop} {program : List Stmt}

/-- **A transition carries the property on.** -/
theorem Config.Carries.tick (hP : Value.Kept P) {c : Config} (h : c.Carries P) :
    c.tick.Carries P := by
  obtain ⟨state, control, todo⟩ := c
  obtain ⟨hscopes, hcontrol, htodo⟩ := h
  cases control with
  | next =>
      cases todo with
      | nil => trivial
      | cons t todo =>
          rw [List.forall_mem_cons] at htodo
          cases t with
          | run s => exact ⟨hscopes, Control.carries_ofStmt htodo.1, htodo.2⟩
          | enter => exact ⟨hscopes.enter, trivial, htodo.2⟩
          | leave => exact ⟨hscopes.leave, trivial, htodo.2⟩
  | eval e waiting use =>
      exact ⟨hscopes, Control.carries_ofExpr hP hscopes hcontrol.1 hcontrol.2, htodo⟩
  | give result waiting use =>
      obtain ⟨hresult, hwaiting, huse⟩ := hcontrol
      cases result with
      | ok v =>
          cases waiting with
          | nil => exact ⟨hscopes, Use.carries_take huse (hresult v rfl), htodo⟩
          | cons w waiting =>
              rw [List.forall_mem_cons] at hwaiting
              exact ⟨hscopes, Waiting.carries_take hP hwaiting.1 (hresult v rfl)
                ⟨hwaiting.2, huse⟩, htodo⟩
      | error stop =>
          cases waiting with
          | nil => exact ⟨hscopes, nofun, htodo⟩
          | cons w waiting =>
              rw [List.forall_mem_cons] at hwaiting
              exact ⟨hscopes, ⟨nofun, hwaiting.2, huse⟩, htodo⟩
  | tell a silent result waiting use =>
      exact ⟨hcontrol.1, hcontrol.1.commit hscopes, hcontrol.2, htodo⟩
  | act a leaves => exact ⟨hcontrol.1, hcontrol.1.commit hscopes, hcontrol.2, htodo⟩
  | finish leaves =>
      cases leaves with
      | ok tasks =>
          exact ⟨hscopes, trivial, List.forall_mem_append.mpr ⟨hcontrol tasks rfl, htodo⟩⟩
      | error stop =>
          -- what is ahead is dropped, task by task; no value comes in
          cases todo with
          | nil => trivial
          | cons t todo =>
              rw [List.forall_mem_cons] at htodo
              cases t with
              | run s => exact ⟨hscopes, nofun, htodo.2⟩
              | enter => exact ⟨hscopes, nofun, htodo.2⟩
              | leave => exact ⟨hscopes.leave, nofun, htodo.2⟩

/-- **A run carries the property on.** -/
theorem Config.Leads.carries (hP : Value.Kept P) {c after : Config} {rs : List Record}
    (h : c.Leads rs after) (hc : c.Carries P) : after.Carries P := by
  induction h with
  | refl => exact hc
  | silent hsilent _ ih =>
      have htick := hc.tick hP
      rw [hsilent] at htick
      exact ih htick
  | announces hannounces _ ih =>
      have htick := hc.tick hP
      rw [hannounces] at htick
      exact ih htick.2

theorem Config.carries_start (h : Stmt.CarriesAll P program) : (Config.start program).Carries P :=
  ⟨nofun, trivial, Task.carries_scoped h⟩

/-- **What the literals have and the operators keep, all values of a run have.** -/
theorem Arises.satisfies (hP : Value.Kept P) (hprogram : Stmt.CarriesAll P program) {v : Value}
    (h : Arises program v) : P v := by
  -- every configuration that the program leads to carries the property
  have hreached {rs : List Record} {c : Config} (hleads : (Config.start program).Leads rs c) :
      c.Carries P := hleads.carries hP (Config.carries_start hprogram)
  cases h with
  | held hleads hholds =>
      obtain ⟨scope, hscope, entry, hentry, hv⟩ := hholds
      exact (hreached hleads).scopes scope hscope entry hentry v hv
  | computed hleads hcontrol hyields =>
      have hc := hreached hleads
      have he := hc.control
      rw [hcontrol] at he
      exact Expr.Carries.of_yields hP hc.scopes hyields he.1 rfl
  | shown hrecord hx =>
      -- a record is announced by a transition, whose operands carry it too
      obtain ⟨rs, c, after, hleads, _, htick⟩ := Machine.exists_leads_of_recordAt hrecord
      have hcarries := (hreached hleads).tick hP
      rw [htick] at hcarries
      exact hcarries.1 _ hx

end Runs

/-! ## Programs that were read -/

namespace Grammar

variable {P : Value → Prop}

/-- The literals of an expression are those of its tokens. -/
theorem Phrase.Is.carries {k : Nat} {p : Phrase} :
    p.Is k → (∀ token ∈ p.tokens, ∀ v, token.lexeme.value? = some v → P v) → p.built.Carries P
  | .var _, _ => trivial
  | .literal hvalue, h => h _ (List.mem_singleton.mpr rfl) _ hvalue
  | .paren _ hinner _, h => by
      rw [Phrase.tokens, List.forall_mem_cons, List.forall_mem_append] at h
      exact hinner.carries h.2.1
  | .call _ _ _, _ | .callWith _ _ _ _, _ => trivial
  | .unary _ _ hoperand, h => by
      rw [Phrase.tokens, List.forall_mem_cons] at h
      exact hoperand.carries h.2
  | @Phrase.Is.binary _ op _ _ _ _ _ _ hleft hright, h => by
      rw [Phrase.tokens, List.forall_mem_append, List.forall_mem_cons] at h
      cases op with
      | shortCircuit op => exact ⟨hleft.carries h.1, hright.carries h.2.2⟩
      | binary op => exact ⟨hleft.carries h.1, hright.carries h.2.2⟩
  | .tighter hp, h => hp.carries h

theorem carriesAll_builtAll {clauses : List Clause} (h : ∀ c ∈ clauses, c.built.Carries P) :
    Stmt.CarriesAll P (Clause.builtAll clauses) := by
  induction clauses with
  | nil => trivial
  | cons c rest ih =>
      rw [List.forall_mem_cons] at h
      exact ⟨h.1, ih h.2⟩

theorem forall_mem_tokensAll {Q : Token → Prop} {clauses : List Clause}
    (h : ∀ token ∈ Clause.tokensAll clauses, Q token) :
    ∀ c ∈ clauses, ∀ token ∈ c.tokens, Q token := by
  induction clauses with
  | nil => exact nofun
  | cons c rest ih =>
      rw [Clause.tokensAll, List.forall_mem_append] at h
      exact List.forall_mem_cons.mpr ⟨h.1, ih h.2⟩

/-- The literals of a statement are those of its tokens. -/
theorem Clause.Is.carries {d : Dialect} {c : Clause} (his : c.Is d)
    (h : ∀ token ∈ c.tokens, ∀ v, token.lexeme.value? = some v → P v) : c.built.Carries P := by
  induction his with
  | block _ hbody _ ih =>
      simp only [Clause.tokens, List.forall_mem_cons, List.forall_mem_append] at h
      exact carriesAll_builtAll fun c hc => ih c hc (forall_mem_tokensAll h.2.1 c hc)
  | branch _ hcondition _ _ ih =>
      simp only [Clause.tokens, List.forall_mem_cons, List.forall_mem_append] at h
      exact ⟨hcondition.carries h.2.1, ih h.2.2⟩
  | branchElse _ hcondition _ _ _ _ _ ihyes ihno =>
      simp only [Clause.tokens, List.forall_mem_cons, List.forall_mem_append] at h
      exact ⟨hcondition.carries h.2.1.1, ihyes h.2.1.2, ihno h.2.2.2⟩
  | loop _ hcondition _ _ ih =>
      simp only [Clause.tokens, List.forall_mem_cons, List.forall_mem_append] at h
      exact ⟨hcondition.carries h.2.1, ih h.2.2⟩
  | print _ hvalue _ =>
      simp only [Clause.tokens, List.forall_mem_cons, List.forall_mem_append] at h
      exact hvalue.carries h.2.1
  | var | makeVar => trivial
  | varWith _ _ _ _ hvalue _ =>
      simp only [Clause.tokens, List.forall_mem_cons, List.forall_mem_append] at h
      exact hvalue.carries h.2.2.2.1
  | assignTo _ _ hvalue _ _ _ =>
      simp only [Clause.tokens, List.forall_mem_cons, List.forall_mem_append] at h
      exact hvalue.carries h.2.1
  | assign _ _ _ hvalue _ =>
      simp only [Clause.tokens, List.forall_mem_cons, List.forall_mem_append] at h
      exact hvalue.carries h.2.2.1
  | expr hvalue _ =>
      simp only [Clause.tokens, List.forall_mem_append] at h
      exact hvalue.carries h.1

end Grammar

/-- The literals of a program that was read are those of its text. -/
theorem Source.carriesAll_parse {P : Value → Prop} {s : Source} {d : Dialect} {program : List Stmt}
    (h : s.parse d = .ok program) (hP : ∀ tokens, s.tokens = .ok tokens →
      ∀ token ∈ tokens, ∀ v, token.lexeme.value? = some v → P v) : Stmt.CarriesAll P program := by
  obtain ⟨tokens, clauses, htokens, ⟨his, rfl⟩, rfl⟩ := Source.exists_derives h
  have hclauses := Grammar.forall_mem_tokensAll (hP _ htokens)
  exact Grammar.carriesAll_builtAll fun c hc => (his c hc).carries (hclauses c hc)

end Stepwise
