import Mathlib.Data.List.Forall2
import Stepwise.Proofs.Points

/-!
# Scopes without their values

What a scope holds up to values can be read off the program: the declarations that precede a point
in a list of statements. A name that is declared twice keeps its first position and has its last
declaration (`Declarations.outline`). A stack of scopes follows the declarations of nested lists if
it is so for each of them (`Scopes.Follow`); every operation on scopes keeps that, for the
declarations that go with it.
-/

namespace Stepwise

/-! ## Declarations in the text -/

/-- Declared names with the places of their declarations, in the order of the text. -/
abbrev Declarations := List (String × Span)

/-- What a statement declares in the scope of the list that it stands in. -/
def Stmt.declaration? : Stmt → Option (String × Span)
  | .declare span name _ => some (name, span)
  | _ => none

/-- The declarations among the statements of a list, not counting those inside of statements. -/
def Stmt.declarations (stmts : List Stmt) : Declarations := stmts.filterMap Stmt.declaration?

namespace Declarations

/-- The names, in the order of their first declarations. -/
def names (ds : Declarations) : List String := (ds.map (·.1)).eraseDups

/-- The last declaration of a name. -/
def last? (ds : Declarations) (name : String) : Option Span := ds.reverse.lookup name

/-- The names in the order of their first declarations, each with its last one. -/
def outline (ds : Declarations) : List (String × Span) :=
  ds.names.filterMap fun name => (ds.last? name).map (name, ·)

/-- The last declaration of a name in the innermost list that has one. -/
def resolve? (nested : List Declarations) (name : String) : Option Span :=
  nested.findSome? (·.last? name)

end Declarations

/-- The declarations that precede a point, for each list of statements around it. -/
def Point.declarations (p : Point) : List Declarations :=
  (p.here :: p.around).map Stmt.declarations

/-- The declaration of a name as seen from a point. -/
def Point.resolve? (p : Point) (name : String) : Option Span :=
  Declarations.resolve? p.declarations name

theorem Stmt.declarations_concat (stmts : List Stmt) (s : Stmt) :
    Stmt.declarations (stmts ++ [s]) = Stmt.declarations stmts ++ s.declaration?.toList := by
  unfold declarations
  rw [List.filterMap_append, List.filterMap_cons, List.filterMap_nil]
  cases s.declaration? <;> rfl

theorem Stmt.declarations_concat_of_none {s : Stmt} (h : s.declaration? = none)
    (stmts : List Stmt) : Stmt.declarations (stmts ++ [s]) = Stmt.declarations stmts := by
  rw [declarations_concat, h]
  exact List.append_nil _

namespace Declarations

theorem mem_names {ds : Declarations} {name : String} : name ∈ ds.names ↔ name ∈ ds.map (·.1) :=
  List.mem_eraseDups

theorem names_concat (ds : Declarations) (name : String) (span : Span) :
    names (ds ++ [(name, span)]) = if name ∈ ds.names then ds.names else ds.names ++ [name] := by
  -- a name that was declared before keeps its place
  rw [names, List.map_append, List.eraseDups_append]
  by_cases h : name ∈ ds.names
  · rw [if_pos h]
    rw [mem_names] at h
    simp only [List.map_cons, List.map_nil, List.removeAll, List.filter_cons, List.elem_eq_mem, h,
      decide_true, Bool.not_true, Bool.false_eq_true, if_false, List.filter_nil,
      List.eraseDups_nil, List.append_nil]
    rfl
  · rw [if_neg h]
    rw [mem_names] at h
    simp only [List.map_cons, List.map_nil, List.removeAll, List.filter_cons, List.elem_eq_mem, h,
      decide_false, Bool.not_false, if_true, List.filter_nil]
    rfl

theorem last?_concat (ds : Declarations) (name other : String) (span : Span) :
    last? (ds ++ [(name, span)]) other = if other = name then some span else ds.last? other := by
  rw [last?, List.reverse_concat, List.lookup_cons]
  by_cases h : other = name
  · simp [h]
  · have hbeq : (other == name) = false := by simp [h]
    rw [hbeq, if_neg h]
    rfl

end Declarations

/-! ## Scopes that hold them -/

namespace Scope

/-- A scope without the values. -/
def outline (scope : Scope) : List (String × Span) := scope.map fun (name, b) => (name, b.declared)

/-- Whether a scope holds these declarations. -/
structure Holds (scope : Scope) (ds : Declarations) : Prop where
  nodup : (scope.map (·.1)).Nodup
  names : scope.map (·.1) = ds.names
  spans : ∀ name, (scope.get? name).map (·.declared) = ds.last? name

theorem holds_nil : Holds [] [] := ⟨List.nodup_nil, rfl, fun _ => rfl⟩

theorem nodup_set {scope : Scope} (h : (scope.map (·.1)).Nodup) (name : String) (b : Binding) :
    ((scope.set name b).map (·.1)).Nodup := by
  rw [names_set]
  split
  · exact h
  · -- a new name is put behind the others
    rename_i hname
    refine List.nodup_append.mpr ⟨h, List.pairwise_singleton _ name, ?_⟩
    intro key hkey other hother
    rintro rfl
    rw [List.mem_singleton.mp hother] at hkey
    exact hname hkey

/-- A declaration is added to both. -/
theorem Holds.declare {scope : Scope} {ds : Declarations} (h : scope.Holds ds) (name : String)
    (span : Span) (value : Option Value) :
    (scope.set name ⟨span, value⟩).Holds (ds ++ [(name, span)]) := by
  refine ⟨nodup_set h.nodup name _, ?_, fun other => ?_⟩
  · rw [names_set, Declarations.names_concat, h.names]
  · rw [get?_set, Declarations.last?_concat, ← h.spans]
    -- the new declaration is the last one of its name
    split <;> rfl

/-- An assignment keeps the declaration. -/
theorem Holds.assign {scope : Scope} {ds : Declarations} (h : scope.Holds ds) {name : String}
    {b : Binding} (hb : scope.get? name = some b) (value : Option Value) :
    (scope.set name { b with value }).Holds ds := by
  have hspan := h.spans name
  rw [hb] at hspan
  refine ⟨nodup_set h.nodup name _, ?_, fun other => ?_⟩
  · -- the name has a binding, so it keeps its position
    have hmem : name ∈ scope.map (·.1) := by
      rw [h.names, Declarations.mem_names]
      have hsome : (ds.reverse.lookup name).isSome := by
        rw [← Declarations.last?, ← hspan]
        rfl
      obtain ⟨entry, hentry, hname⟩ := List.lookup_isSome_iff.mp hsome
      have hname' : name = entry.1 := by simpa using hname
      rw [hname']
      exact List.mem_map_of_mem (List.mem_reverse.mp hentry)
    rw [names_set, if_pos hmem, h.names]
  · rw [get?_set]
    by_cases hother : other = name
    · subst hother
      rw [if_pos rfl, ← hspan]
      rfl
    · rw [if_neg hother, h.spans]

theorem outline_eq_filterMap {scope : Scope} (h : (scope.map (·.1)).Nodup) :
    scope.outline = (scope.map (·.1)).filterMap fun name =>
      ((scope.get? name).map (·.declared)).map (name, ·) := by
  induction scope with
  | nil => rfl
  | cons entry rest ih =>
      obtain ⟨key, b⟩ := entry
      obtain ⟨hkey, hrest⟩ := List.nodup_cons.mp h
      -- the first entry has a name of its own, so it hides none of the others
      have hother : ∀ name ∈ rest.map (·.1),
          ((Scope.get? ((key, b) :: rest) name).map (·.declared)).map (name, ·) =
            ((Scope.get? rest name).map (·.declared)).map (name, ·) := by
        intro name hname
        have hne : name ≠ key := by
          rintro rfl
          exact hkey hname
        rw [get?_cons, if_neg hne]
      have hself : ((Scope.get? ((key, b) :: rest) key).map (·.declared)).map (key, ·) =
          some (key, b.declared) := by
        rw [get?_cons, if_pos rfl]
        rfl
      rw [List.map_cons, List.filterMap_cons, hself, List.filterMap_congr hother, ← ih hrest]
      rfl

/-- What a scope holds is in the text. -/
theorem Holds.outline_eq {scope : Scope} {ds : Declarations} (h : scope.Holds ds) :
    scope.outline = ds.outline := by
  rw [outline_eq_filterMap h.nodup, h.names, Declarations.outline]
  simp only [h.spans]

end Scope

namespace Scopes

/-- Whether nested scopes follow nested declarations. -/
def Follow (scopes : Scopes) (nested : List Declarations) : Prop :=
  List.Forall₂ Scope.Holds scopes nested

variable {scopes : Scopes} {ds : Declarations} {nested : List Declarations}

theorem Follow.enter (h : scopes.Follow nested) : scopes.enter.Follow ([] :: nested) :=
  .cons Scope.holds_nil h

theorem Follow.leave (h : scopes.Follow nested) : scopes.leave.Follow nested.tail := by
  cases h with
  | nil => exact .nil
  | cons _ h => exact h

theorem Follow.define (h : scopes.Follow (ds :: nested)) (name : String) (span : Span)
    (value : Option Value) :
    (scopes.define name ⟨span, value⟩).Follow ((ds ++ [(name, span)]) :: nested) := by
  cases h with
  | cons hscope h => exact .cons (hscope.declare name span value) h

theorem Follow.assign {name : String} {value : Value} {scopes' : Scopes} (h : scopes.Follow nested)
    (hassign : scopes.assign? name value = some scopes') : scopes'.Follow nested := by
  induction h generalizing scopes' with
  | nil => cases hassign
  | @cons scope ds outer nested hscope houter ih =>
      rw [assign?] at hassign
      cases hget : scope.get? name with
      | some b =>
          rw [hget] at hassign
          cases hassign
          -- the nearest scope with the name is changed, and only there
          exact .cons (hscope.assign hget (some value)) houter
      | none =>
          rw [hget] at hassign
          obtain ⟨outer', houter', rfl⟩ := Option.map_eq_some_iff.mp hassign
          exact .cons hscope (ih houter')

/-- **Looking a name up gives the declaration that the text has for it.** -/
theorem Follow.lookup (h : scopes.Follow nested) (name : String) :
    (scopes.lookup name).map (·.declared) = Declarations.resolve? nested name := by
  induction h with
  | nil => rfl
  | @cons scope ds outer nested hscope _ ih =>
      have hspan := hscope.spans name
      rw [lookup_cons, Declarations.resolve?, List.findSome?_cons, ← hspan]
      cases hget : scope.get? name with
      | some b => rfl
      | none => exact ih

theorem Follow.outlines (h : scopes.Follow nested) :
    scopes.map Scope.outline = nested.map Declarations.outline := by
  induction h with
  | nil => rfl
  | cons hscope _ ih => rw [List.map_cons, List.map_cons, hscope.outline_eq, ih]

end Scopes

end Stepwise
