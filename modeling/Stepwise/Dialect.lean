/-!
# Dialects

Variables can be assigned and declared in two forms each. A dialect says which of them
a program may use.
-/

namespace Stepwise

/-- The statement forms that a dialect may leave out. -/
inductive Form where
  /-- The assignment `x = value;`. -/
  | operatorAssign
  /-- The assignment `assign value to x;`. -/
  | keywordAssign
  /-- The declaration `var x = value;`. -/
  | varDecl
  /-- The declaration `make var x;`. -/
  | makeDecl
deriving DecidableEq

/-- Which assignments are allowed. -/
inductive AssignStyle where
  | operator
  | keyword
  | any
deriving DecidableEq

/-- Which declarations are allowed. -/
inductive DeclStyle where
  | var
  | make
  | any
deriving DecidableEq

/-- The forms that a program may use. -/
structure Dialect where
  assign : AssignStyle := .any
  decl : DeclStyle := .any
deriving DecidableEq

/-- Whether programs of the dialect may use a form. -/
def Dialect.allows (d : Dialect) : Form → Bool
  | .operatorAssign => d.assign = .operator || d.assign = .any
  | .keywordAssign => d.assign = .keyword || d.assign = .any
  | .varDecl => d.decl = .var || d.decl = .any
  | .makeDecl => d.decl = .make || d.decl = .any

/-- The styles of assignment, by name. -/
def AssignStyle.names : List (String × AssignStyle) :=
  [("operator", .operator), ("keyword", .keyword), ("any", .any)]

/-- The styles of declaration, by name. -/
def DeclStyle.names : List (String × DeclStyle) :=
  [("var", .var), ("make", .make), ("any", .any)]

end Stepwise
