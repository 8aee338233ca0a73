import Stepwise.Source.Span
import Stepwise.Value

/-!
# Scopes

A scope lists its variables in the order in which they were first defined there. Scopes are
nested: a stack of them is a list with the innermost scope first. A name is looked up from the
inside out, so that an inner variable hides an outer one of the same name until its scope ends.
-/

namespace Stepwise

/-- A variable: where it was declared, and its value unless it has none yet. -/
structure Binding where
  declared : Span
  value : Option Value
deriving DecidableEq

/-- The variables of a scope in order of first definition. -/
abbrev Scope := List (String × Binding)

/-- Nested scopes, innermost first. -/
abbrev Scopes := List Scope

namespace Scope

/-- The variable with this name. -/
def get? (scope : Scope) (name : String) : Option Binding := scope.lookup name

/-- Gives a name a new binding; a name that is already there keeps its position. -/
def set (name : String) (binding : Binding) : Scope → Scope
  | [] => [(name, binding)]
  | (other, old) :: rest =>
    if other = name then (name, binding) :: rest else (other, old) :: set name binding rest

theorem get?_cons (key name : String) (b : Binding) (rest : Scope) :
    get? ((key, b) :: rest) name = if name = key then some b else get? rest name := by
  by_cases h : name = key
  · simp [get?, h]
  · have hbeq : (name == key) = false := by simp [h]
    simp [get?, List.lookup_cons, hbeq, h]

/-- A binding that was set is found, and the others are as before. -/
theorem get?_set (scope : Scope) (name other : String) (b : Binding) :
    (scope.set name b).get? other = if other = name then some b else scope.get? other := by
  induction scope with
  | nil => simp [set, get?_cons]
  | cons entry rest ih =>
    obtain ⟨key, old⟩ := entry
    by_cases hk : key = name
    · subst hk
      by_cases h : other = key <;> simp [set, get?_cons, h]
    · by_cases h : other = key
      · subst h
        simp [set, get?_cons, hk]
      · simp [set, get?_cons, hk, h, ih]

/-- A new name is put at the end, and a known one stays where it is. -/
theorem names_set (scope : Scope) (name : String) (b : Binding) :
    (scope.set name b).map (·.1) =
      if name ∈ scope.map (·.1) then scope.map (·.1) else scope.map (·.1) ++ [name] := by
  induction scope with
  | nil => simp [set]
  | cons entry rest ih =>
    obtain ⟨key, old⟩ := entry
    by_cases hk : key = name
    · simp [set, hk]
    · have hk' : ¬name = key := fun h => hk h.symm
      simp only [set, hk, if_false, List.map_cons, ih, List.mem_cons, hk', false_or]
      split <;> simp

end Scope

/-- Why a stack of scopes refuses an operation. -/
inductive ScopeError where
  | nothingToEnd
  | nowhereToDefine
deriving DecidableEq

/-- The wording of a refusal. -/
def ScopeError.message : ScopeError → String
  | .nothingToEnd => "end_scope() called with no open scope"
  | .nowhereToDefine => "define var when there are no scopes to define in"

namespace Scopes

/-- Opens an empty scope inside the others. -/
def enter (scopes : Scopes) : Scopes := [] :: scopes

/-- Closes the innermost scope, if there is one. -/
def leave (scopes : Scopes) : Scopes := scopes.tail

/-- Defines a variable in the innermost scope, if there is one. -/
def define (name : String) (binding : Binding) : Scopes → Scopes
  | [] => []
  | scope :: outer => scope.set name binding :: outer

/-- The nearest variable with this name. -/
def lookup (scopes : Scopes) (name : String) : Option Binding := scopes.findSome? (·.get? name)

theorem lookup_cons (scope : Scope) (outer : Scopes) (name : String) :
    lookup (scope :: outer) name = (scope.get? name).or (lookup outer name) := by
  simp only [lookup, List.findSome?_cons]
  cases scope.get? name <;> rfl

/-- The number of the scope that holds the nearest variable with this name; the outermost scope has
number zero. -/
def holder? (name : String) : Scopes → Option Nat
  | [] => none
  | scope :: outer => if (scope.get? name).isSome then some outer.length else holder? name outer

/-- Gives the nearest variable with this name a value; it keeps its declaration. -/
def assign? (name : String) (value : Value) : Scopes → Option Scopes
  | [] => none
  | scope :: outer =>
    match scope.get? name with
    | some b => some (scope.set name { b with value := some value } :: outer)
    | none => (assign? name value outer).map (scope :: ·)

/-- A variable can be assigned to exactly if it can be found. -/
theorem isSome_assign? (scopes : Scopes) (name : String) (value : Value) :
    (assign? name value scopes).isSome = (lookup scopes name).isSome := by
  induction scopes with
  | nil => rfl
  | cons scope outer ih =>
    rw [assign?, lookup_cons]
    cases h : scope.get? name with
    | some b => rfl
    | none => simpa using ih

/-- Closes the innermost scope. -/
def leave? (scopes : Scopes) : Except ScopeError Scopes :=
  if scopes.isEmpty then .error .nothingToEnd else .ok scopes.leave

/-- Defines a variable in the innermost scope. -/
def define? (name : String) (binding : Binding) (scopes : Scopes) : Except ScopeError Scopes :=
  if scopes.isEmpty then .error .nowhereToDefine else .ok (scopes.define name binding)

end Scopes

end Stepwise
