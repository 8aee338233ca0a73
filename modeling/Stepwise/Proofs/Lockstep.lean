import Mathlib
import Stepwise.Proofs.Erasure

/-!
# Runs in lockstep

Two programs that are the same without places and parentheses, once the variables of the first are
renamed, announce the same actions in the same order and end alike. The renaming need only keep
apart the names that the first program uses.

`Machine.bare_trail` says this of a renaming that keeps all names apart. Every renaming agrees
with such a one on the names of a program (`exists_injective_eqOn`), and a run shows no other
names: a name that the program does not use could be swapped for a fresh one, which changes the
program nowhere and hence nothing in its run (`Machine.mem_varsAll_of_mem_names`).
-/

namespace Stepwise

/-! ## The names that a program uses -/

mutual

/-- The variable names in an expression. -/
def Expr.vars : Expr → List String
  | .var _ name => [name]
  | .literal _ _ | .hole _ => []
  | .paren _ inner => inner.vars
  | .call _ callee arguments => callee.vars ++ Expr.varsAll arguments
  | .shortCircuit _ left _ right => left.vars ++ right.vars
  | .binary _ left _ right => left.vars ++ right.vars
  | .unary _ _ operand => operand.vars

/-- The variable names in a list of expressions. -/
def Expr.varsAll : List Expr → List String
  | [] => []
  | e :: rest => e.vars ++ Expr.varsAll rest

end

mutual

/-- The variable names in a statement. -/
def Stmt.vars : Stmt → List String
  | .block _ body => Stmt.varsAll body
  | .expr _ e | .print _ e => e.vars
  | .declare _ name none => [name]
  | .declare _ name (some e) => name :: e.vars
  | .assign _ name e => name :: e.vars
  | .branch _ _ condition yes none => condition.vars ++ yes.vars
  | .branch _ _ condition yes (some no) => condition.vars ++ (yes.vars ++ no.vars)
  | .loop _ _ condition body => condition.vars ++ body.vars
  | .hole _ => []

/-- The variable names in a list of statements. -/
def Stmt.varsAll : List Stmt → List String
  | [] => []
  | s :: rest => s.vars ++ Stmt.varsAll rest

end

section Congruence

variable {f g : String → String}

mutual

/-- What becomes of an expression depends on its own names only. -/
theorem Expr.bare_congr : (e : Expr) → (∀ x ∈ e.vars, f x = g x) → e.bare f = e.bare g
  | .var _ name, h => by rw [Expr.bare, Expr.bare, h name (by simp [Expr.vars])]
  | .literal _ _, _ => rfl
  | .hole _, _ => rfl
  | .paren _ inner, h => by
      rw [Expr.bare, Expr.bare]
      exact inner.bare_congr h
  | .call _ callee arguments, h => by
      simp only [Expr.vars, List.forall_mem_append] at h
      rw [Expr.bare, Expr.bare, callee.bare_congr h.1, Expr.bareAll_congr arguments h.2]
  | .shortCircuit _ left _ right, h => by
      simp only [Expr.vars, List.forall_mem_append] at h
      rw [Expr.bare, Expr.bare, left.bare_congr h.1, right.bare_congr h.2]
  | .binary _ left _ right, h => by
      simp only [Expr.vars, List.forall_mem_append] at h
      rw [Expr.bare, Expr.bare, left.bare_congr h.1, right.bare_congr h.2]
  | .unary _ _ operand, h => by rw [Expr.bare, Expr.bare, operand.bare_congr h]

theorem Expr.bareAll_congr :
    (es : List Expr) → (∀ x ∈ Expr.varsAll es, f x = g x) → Expr.bareAll f es = Expr.bareAll g es
  | [], _ => rfl
  | e :: rest, h => by
      simp only [Expr.varsAll, List.forall_mem_append] at h
      rw [Expr.bareAll, Expr.bareAll, e.bare_congr h.1, Expr.bareAll_congr rest h.2]

end

mutual

/-- What becomes of a statement depends on its own names only. -/
theorem Stmt.bare_congr : (s : Stmt) → (∀ x ∈ s.vars, f x = g x) → s.bare f = s.bare g
  | .block _ body, h => by rw [Stmt.bare, Stmt.bare, Stmt.bareAll_congr body h]
  | .expr _ e, h => by rw [Stmt.bare, Stmt.bare, e.bare_congr h]
  | .print _ e, h => by rw [Stmt.bare, Stmt.bare, e.bare_congr h]
  | .declare _ name none, h => by
      rw [Stmt.bare, Stmt.bare, h name (by simp [Stmt.vars])]
      rfl
  | .declare _ name (some e), h => by
      simp only [Stmt.vars, List.forall_mem_cons] at h
      rw [Stmt.bare, Stmt.bare, h.1, Option.map_some, Option.map_some, e.bare_congr h.2]
  | .assign _ name e, h => by
      simp only [Stmt.vars, List.forall_mem_cons] at h
      rw [Stmt.bare, Stmt.bare, h.1, e.bare_congr h.2]
  | .branch _ _ condition yes none, h => by
      simp only [Stmt.vars, List.forall_mem_append] at h
      rw [Stmt.bare, Stmt.bare, condition.bare_congr h.1, yes.bare_congr h.2]
  | .branch _ _ condition yes (some no), h => by
      simp only [Stmt.vars, List.forall_mem_append] at h
      rw [Stmt.bare, Stmt.bare, condition.bare_congr h.1, yes.bare_congr h.2.1,
        no.bare_congr h.2.2]
  | .loop _ _ condition body, h => by
      simp only [Stmt.vars, List.forall_mem_append] at h
      rw [Stmt.bare, Stmt.bare, condition.bare_congr h.1, body.bare_congr h.2]
  | .hole _, _ => rfl

theorem Stmt.bareAll_congr :
    (body : List Stmt) → (∀ x ∈ Stmt.varsAll body, f x = g x) →
      Stmt.bareAll f body = Stmt.bareAll g body
  | [], _ => rfl
  | s :: rest, h => by
      simp only [Stmt.varsAll, List.forall_mem_append] at h
      rw [Stmt.bareAll, Stmt.bareAll, s.bare_congr h.1, Stmt.bareAll_congr rest h.2]

end

end Congruence

/-! ## Renaming finitely many names -/

/-- A renaming that keeps some names apart agrees on them with one that keeps all names apart. -/
theorem exists_injective_eqOn {f : String → String} {names : List String}
    (hf : Set.InjOn f {x | x ∈ names}) :
    ∃ g : String → String, Function.Injective g ∧ ∀ x ∈ names, g x = f x := by
  have hfinite : {x | x ∈ names}.Finite := List.finite_toSet names
  -- finitely many names leave infinitely many to send the others to
  have hsmall : Cardinal.mk {x | x ∈ names} < Cardinal.mk String :=
    (Cardinal.lt_aleph0_iff_set_finite.mpr hfinite).trans_le (Cardinal.aleph0_le_mk String)
  obtain ⟨g, hg⟩ := Cardinal.extend_function_of_lt
    ⟨fun x : {x | x ∈ names} => f x, hf.injective⟩ hsmall ⟨Equiv.refl String⟩
  exact ⟨g, g.injective, fun x hx => hg ⟨x, hx⟩⟩

/-- A name that can only be renamed together with one of `names` is one of them. -/
theorem mem_of_forall_fixed {names : List String} {x : String}
    (h : ∀ f : String → String, Function.Injective f → (∀ y ∈ names, f y = y) → f x = x) :
    x ∈ names := by
  by_contra hx
  -- swapping `x` for a name that is used nowhere touches none of `names`
  obtain ⟨fresh, hfresh⟩ := Infinite.exists_notMem_finset (x :: names).toFinset
  rw [List.mem_toFinset, List.mem_cons, not_or] at hfresh
  have hswap := h (Equiv.swap x fresh) (Equiv.injective _) fun y hy =>
    Equiv.swap_apply_of_ne_of_ne (fun heq => hx (heq ▸ hy)) (fun heq => hfresh.2 (heq ▸ hy))
  rw [Equiv.swap_apply_left] at hswap
  exact hfresh.1 hswap

/-! ## What a run shows -/

/-- The name that an action announces. -/
def Action.name? : Action → Option String
  | .read _ name _ | .declare _ name _ | .assign _ name _ _ => some name
  | .binary _ _ _ | .unary _ _ | .print _ _ | .check _ _ => none

/-- The name that a fault is about. -/
def Fault.name? : Fault → Option String
  | .uninitialized name | .undeclared name => some name
  | _ => none

/-- The name that what stops a program is about. -/
def Stop.name? : Stop → Option String
  | .error e => e.fault.name?
  | .failure _ => none

/-- How a machine ended: the output, and what stopped the program. -/
def Machine.ending? : Machine → Option (String × Option Stop)
  | .reached (.ended s stop) => some (s.output, stop)
  | _ => none

/-- The names that a machine shows: those in its record, or that of what stopped it. -/
def Machine.names : Machine → List String
  | .ready _ => []
  | .reached (.paused p) => p.current.name?.toList ++ p.state.scopes.flatten.map (·.1)
  | .reached (.ended _ stop) => (stop.bind Stop.name?).toList

/-- The names and values of the variables in each scope, the names renamed. -/
def Snapshot.contents (f : String → String) (s : Snapshot) : List (List (String × Option Value)) :=
  s.scopes.map (·.map fun (name, b) => (f name, b.value))

/-- The second record shows what the first one does, with names renamed. -/
structure Record.Alike (f : String → String) (r r' : Record) : Prop where
  message : r'.message = (r.action.bare f).message
  substitutions : r'.action.substitutions.map (·.2) = r.action.substitutions.map (·.2)
  output : r'.state.snapshot.output = r.state.snapshot.output
  scopes : r'.state.snapshot.contents id = r.state.snapshot.contents f

/-- Failures of one class. -/
def Failure.Alike : Failure → Failure → Prop
  | .unsupported _ feature, .unsupported _ feature' => feature' = feature
  | .missingStatement, .missingStatement | .missingExpression, .missingExpression => True
  | _, _ => False

/-- What stops the second program is what stops the first one, with names renamed. -/
def Stop.Alike (f : String → String) : Stop → Stop → Prop
  | .error e, .error e' => e'.fault = e.fault.rename f
  | .failure x, .failure y => x.Alike y
  | _, _ => False

/-- The second program ended like the first one: the same output, and stopped alike
or not at all. -/
def EndingAlike (f : String → String) (ending ending' : String × Option Stop) : Prop :=
  ending'.1 = ending.1 ∧ Option.Rel (Stop.Alike f) ending.2 ending'.2

/-- Two machines that show the same, the names of the first one renamed. -/
def Machine.Alike (f : String → String) (m m' : Machine) : Prop :=
  Option.Rel (Record.Alike f) m.record? m'.record? ∧
    Option.Rel (EndingAlike f) m.ending? m'.ending?

section Shown

variable {f g : String → String}

theorem Action.message_bare_id (a : Action) : (a.bare id).message = a.message := by
  cases a with
  | declare span name initializer => cases initializer <;> rfl
  | _ => rfl

theorem Action.name?_bare (a : Action) : (a.bare f).name? = a.name?.map f := by
  cases a <;> rfl

/-- What becomes of an action depends on its own name only. -/
theorem Action.bare_congr {a : Action} (h : ∀ x ∈ a.name?, g x = f x) : a.bare g = a.bare f := by
  cases a with
  | read span name declared => rw [Action.bare, Action.bare, h name (by rfl)]
  | declare span name initializer => rw [Action.bare, Action.bare, h name (by rfl)]
  | assign span name v declared => rw [Action.bare, Action.bare, h name (by rfl)]
  | _ => rfl

/-- The texts of the substitutions are those of the values. -/
theorem Action.substitutions_bare (a : Action) :
    (a.bare g).substitutions.map (·.2) = a.substitutions.map (·.2) := by
  cases a with
  | declare span name initializer => cases initializer <;> rfl
  | _ => rfl

theorem State.contents_bare (s : State) :
    (s.bare g).snapshot.contents id = s.snapshot.contents g := by
  simp only [State.bare, State.snapshot, Scopes.bare, Snapshot.contents, ← List.map_reverse,
    List.map_map]
  refine List.map_congr_left fun scope _ => ?_
  simp only [Function.comp_apply, Scope.bare, List.map_map]
  rfl

theorem State.contents_congr {s : State}
    (h : ∀ x ∈ s.scopes.flatten.map (·.1), g x = f x) :
    s.snapshot.contents g = s.snapshot.contents f := by
  refine List.map_congr_left fun scope hscope => List.map_congr_left fun entry hentry => ?_
  have hmem : entry ∈ s.scopes.flatten :=
    List.mem_flatten.mpr ⟨scope, List.mem_reverse.mp hscope, hentry⟩
  exact congrArg (·, entry.2.value) (h entry.1 (List.mem_map_of_mem hmem))

theorem Fault.rename_id (fault : Fault) : fault.rename id = fault := by
  cases fault <;> rfl

theorem Fault.name?_rename (fault : Fault) : (fault.rename f).name? = fault.name?.map f := by
  cases fault <;> rfl

theorem Stop.name?_bare (stop : Stop) : (stop.bare f).name? = stop.name?.map f := by
  cases stop with
  | error e => exact e.fault.name?_rename
  | failure x => cases x <;> rfl

theorem Fault.rename_congr {fault : Fault} (h : ∀ x ∈ fault.name?, g x = f x) :
    fault.rename g = fault.rename f := by
  cases fault with
  | uninitialized name => rw [Fault.rename, Fault.rename, h name rfl]
  | undeclared name => rw [Fault.rename, Fault.rename, h name rfl]
  | _ => rfl

/-- Records that are the same without places show the same. -/
theorem Record.alike_of_bare {r r' : Record} (haction : r.action.bare g = r'.action.bare id)
    (hstate : r.state.bare g = r'.state.bare id) (hname : ∀ x ∈ r.action.name?, g x = f x)
    (hnames : ∀ x ∈ r.state.scopes.flatten.map (·.1), g x = f x) : r.Alike f r' where
  message := by
    rw [Record.message, ← Action.message_bare_id, ← haction, Action.bare_congr hname]
  substitutions := by
    rw [← Action.substitutions_bare (g := id) r'.action, ← haction, Action.substitutions_bare]
  output := (congrArg State.output hstate).symm
  scopes := by
    rw [← State.contents_bare r'.state, ← hstate, State.contents_bare, State.contents_congr hnames]

/-- What stops programs is alike if it is the same without places. -/
theorem Stop.alike_of_bare {stop stop' : Stop} (h : stop.bare g = stop'.bare id)
    (hname : ∀ x ∈ stop.name?, g x = f x) : stop.Alike f stop' := by
  cases stop with
  | error e =>
      cases stop' with
      | error e' =>
          injection h with h
          injection h with hfault
          rw [Fault.rename_id, Fault.rename_congr hname] at hfault
          exact hfault.symm
      | failure y => cases y <;> cases h
  | failure x =>
      cases stop' with
      | error e' => cases x <;> cases h
      | failure y =>
          -- without places, failures of different classes still differ
          cases x <;> cases y <;> cases h
          · exact rfl
          · trivial
          · trivial

/-- **Machines that are the same without places show the same.** -/
theorem Machine.alike_of_bare {m m' : Machine} (h : m.bare g = m'.bare id)
    (hnames : ∀ x ∈ m.names, g x = f x) : m.Alike f m' := by
  cases m with
  | ready program =>
      cases m' with
      | ready program' => exact ⟨.none, .none⟩
      | reached progress' => cases h
  | reached progress =>
      cases m' with
      | ready program' => cases h
      | reached progress' =>
          injection h with h
          cases progress with
          | paused p =>
              cases progress' with
              | ended s' stop' => cases h
              | paused p' =>
                  injection h with h
                  rw [Machine.names, List.forall_mem_append] at hnames
                  -- the names of the record are those of its action and those in its scopes
                  have hname : ∀ x ∈ p.current.name?, g x = f x := by simpa using hnames.1
                  have hrecord : p.record.Alike f p'.record :=
                    Record.alike_of_bare (congrArg Pause.current h) (congrArg Pause.state h) hname
                      hnames.2
                  exact ⟨.some hrecord, .none⟩
          | ended s stop =>
              cases progress' with
              | paused p' => cases h
              | ended s' stop' =>
                  injection h with hstate hstop
                  have houtput : s'.output = s.output := (congrArg State.output hstate).symm
                  cases stop with
                  | none =>
                      cases stop' with
                      | none => exact ⟨.none, .some ⟨houtput, .none⟩⟩
                      | some stop' => cases hstop
                  | some stop =>
                      cases stop' with
                      | none => cases hstop
                      | some stop' =>
                          injection hstop with hstop
                          have halike := Stop.alike_of_bare hstop
                            (by simpa [Machine.names] using hnames)
                          exact ⟨.none, .some ⟨houtput, .some halike⟩⟩

/-- A renaming that leaves a machine as it is leaves the names that it shows as they are. -/
theorem Machine.fixed_of_bare {m : Machine} (h : m.bare f = m.bare id) {x : String}
    (hx : x ∈ m.names) : f x = x := by
  -- both sides are `x`, renamed by `f` and by the identity
  have fixed {name? : Option String} (hsame : name?.map f = name?.map id) (hx : x ∈ name?) :
      f x = x := by
    rw [Option.mem_def.mp hx] at hsame
    exact Option.some.inj hsame
  cases m with
  | ready program => cases hx
  | reached progress =>
      injection h with h
      cases progress with
      | paused p =>
          injection h with h
          rw [Machine.names, List.mem_append, Option.mem_toList] at hx
          rcases hx with hx | hx
          · have hsame := congrArg (·.current.name?) h
            refine fixed ?_ hx
            rw [← Action.name?_bare, ← Action.name?_bare]
            exact hsame
          · -- the name of a variable in one of the scopes
            obtain ⟨entry, hentry, rfl⟩ := List.mem_map.mp hx
            obtain ⟨scope, hscope, hentry⟩ := List.mem_flatten.mp hentry
            have hscopes : p.state.scopes.bare f = p.state.scopes.bare id :=
              congrArg (·.state.scopes) h
            have hsame := List.map_inj_left.mp
              (List.map_inj_left.mp hscopes scope hscope) entry hentry
            exact congrArg Prod.fst hsame
      | ended s stop =>
          injection h with _ hstop
          rw [Machine.names, Option.mem_toList] at hx
          cases stop with
          | none => cases hx
          | some stop =>
              refine fixed ?_ hx
              show stop.name?.map f = stop.name?.map id
              rw [← Stop.name?_bare, ← Stop.name?_bare, Option.some.inj hstop]

end Shown

/-! ## Lockstep -/

namespace Machine

/-- **A run shows no names but those of its program.** -/
theorem mem_varsAll_of_mem_names {program : List Stmt} {n : Nat} {x : String}
    (hx : x ∈ (trail program n).names) : x ∈ Stmt.varsAll program := by
  refine mem_of_forall_fixed fun f hf hfixed => fixed_of_bare ?_ hx
  rw [bare_trail hf, bare_trail Function.injective_id,
    Stmt.bareAll_congr (g := id) program hfixed]

/-- **Programs that differ in places, grouping parentheses and the names of their variables run in
lockstep.** -/
theorem runs_in_lockstep {program program' : List Stmt} {f : String → String}
    (hf : Set.InjOn f {x | x ∈ Stmt.varsAll program})
    (h : Stmt.bareAll f program = Stmt.bareAll id program') (n : Nat) :
    Option.Rel (Record.Alike f) (recordAt program n) (recordAt program' n) ∧
      Option.Rel (EndingAlike f) (trail program n).ending? (trail program' n).ending? := by
  -- `g` keeps all names apart, and the run shows no name on which it differs from `f`
  obtain ⟨g, hg, hgf⟩ := exists_injective_eqOn hf
  have halike (k : Nat) : (trail program k).Alike f (trail program' k) := by
    refine alike_of_bare (g := g) ?_ fun x hx => hgf x (mem_varsAll_of_mem_names hx)
    rw [bare_trail hg, bare_trail Function.injective_id, Stmt.bareAll_congr program hgf, h]
  exact ⟨(halike (n + 1)).1, (halike n).2⟩

/-- `var a = 1; print (a);` and `var b = 1; print b;` print in lockstep. -/
theorem runs_in_lockstep_print :
    let f : String → String := fun _ => "b"
    let program : List Stmt :=
      [.declare (.ofLength 0 10) "a" (some (.literal (.ofLength 8 1) (.int 1))),
        .print (.ofLength 11 10) (.paren (.ofLength 17 3) (.var (.ofLength 18 1) "a"))]
    let program' : List Stmt :=
      [.declare (.ofLength 0 10) "b" (some (.literal (.ofLength 8 1) (.int 1))),
        .print (.ofLength 11 8) (.var (.ofLength 17 1) "b")]
    (recordAt program 2).isSome ∧
      Option.Rel (Record.Alike f) (recordAt program 2) (recordAt program' 2) ∧
      Option.Rel (EndingAlike f) (trail program 2).ending? (trail program' 2).ending? := by
  intro f program program'
  have hf : Set.InjOn f {x | x ∈ Stmt.varsAll program} := by
    simp [Set.InjOn, program, Stmt.varsAll, Stmt.vars, Expr.vars]
  have hbare : Stmt.bareAll f program = Stmt.bareAll id program' := rfl
  exact ⟨by cbv, runs_in_lockstep hf hbare 2⟩

end Machine

end Stepwise
