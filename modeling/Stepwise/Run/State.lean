import Stepwise.Scope

/-!
# The state of a running program

A state is the stack of scopes and the output so far. A snapshot is the picture of it that is shown
to a reader: the same scopes from the outside in.
-/

namespace Stepwise

/-- What a running program has at hand. -/
structure State where
  scopes : Scopes := []
  output : String := ""
deriving DecidableEq

/-- Opens a scope. -/
def State.enter (s : State) : State := { s with scopes := s.scopes.enter }

/-- Closes the innermost scope. -/
def State.leave (s : State) : State := { s with scopes := s.scopes.leave }

/-- The picture of a state. -/
structure Snapshot where
  /-- The scopes, outermost first. -/
  scopes : List Scope
  output : String
deriving DecidableEq

/-- The picture of a state. -/
def State.snapshot (s : State) : Snapshot := ⟨s.scopes.reverse, s.output⟩

namespace Snapshot

/-- All variables, those of outer scopes first. -/
def bindings (s : Snapshot) : List (String × Binding) := s.scopes.flatten

/-- The variable that a name stands for: the one in the last scope that has it. -/
def lookup (s : Snapshot) (name : String) : Option Binding :=
  s.scopes.reverse.findSome? fun scope => (scope.find? (·.1 = name)).map (·.2)

/-- The value of a variable, if it exists and has one. -/
def valueOf (s : Snapshot) (name : String) : Option Value := (s.lookup name).bind (·.value)

end Snapshot

end Stepwise
