import Stepwise.Proofs.LastRecord
import Stepwise.Proofs.NameStacks

/-!
# Four ways to find a variable

A name is looked for in four ways: the scopes are asked for its binding (`Scopes.lookup`) and for
the scope that holds it (`Scopes.holder?`), the picture of a state is searched entry by entry
(`Snapshot.lookup`), and a reader of all bindings of a picture takes the last one with the name
(`lastNamed`). They find the same variable in every stack of scopes that operations can make.

The searches go in different directions inside a scope, so they agree only because no scope lists
a name twice, which every operation keeps (`Scopes.follow_after`). Nothing is missed for want of a
value: a variable without one is found like any other.

* `Scopes.exists_of_holder?` says which scope is found, by induction on the scopes;
* `Scope.lastNamed_eq_get?` compares the directions in one scope, and `Scopes.lastNamed_flatten`
  in all.
-/

namespace Stepwise

/-- The binding of the last entry with this name. -/
def lastNamed (name : String) (entries : List (String × Binding)) : Option Binding :=
  (entries.filter (·.1 = name)).getLast?.map (·.2)

theorem lastNamed_append (name : String) (front back : List (String × Binding)) :
    lastNamed name (front ++ back) = (lastNamed name back).or (lastNamed name front) := by
  unfold lastNamed
  rw [List.filter_append, List.getLast?_append]
  cases (back.filter (·.1 = name)).getLast? with
  | none => rfl
  | some entry => rfl

namespace Scope

theorem get?_eq_none_iff {scope : Scope} {name : String} :
    scope.get? name = none ↔ name ∉ scope.map (·.1) := by
  induction scope with
  | nil => simp [get?]
  | cons entry rest ih =>
      obtain ⟨key, b⟩ := entry
      rw [get?_cons, List.map_cons, List.mem_cons, not_or, ← ih]
      by_cases h : name = key
      · simp [h]
      · simp [h]

/-- In a scope without repetitions the last entry with a name is the only one. -/
theorem lastNamed_eq_get? {scope : Scope} (h : (scope.map (·.1)).Nodup) (name : String) :
    lastNamed name scope = scope.get? name := by
  induction scope with
  | nil => rfl
  | cons entry rest ih =>
      obtain ⟨key, b⟩ := entry
      obtain ⟨hkey, hrest⟩ := List.nodup_cons.mp h
      rw [← List.singleton_append, lastNamed_append, ih hrest, List.singleton_append, get?_cons]
      by_cases hname : name = key
      · -- the first entry has the name, so the others do not
        subst hname
        have hnone : get? rest name = none := get?_eq_none_iff.mpr hkey
        rw [hnone, if_pos rfl]
        simp [lastNamed]
      · have hfirst : lastNamed name [(key, b)] = none := by
          simp [lastNamed, Ne.symm hname]
        rw [if_neg hname, hfirst, Option.or_none]

end Scope

namespace Scopes

variable {name : String} {scopes : Scopes}

/-- The scope that is found holds the name, and none inside that one does. -/
theorem exists_of_holder? {k : Nat} (h : scopes.holder? name = some k) :
    ∃ inner scope outer b, scopes = inner ++ scope :: outer ∧ outer.length = k ∧
      scope.get? name = some b ∧ ∀ other ∈ inner, Scope.get? other name = none := by
  induction scopes with
  | nil => cases h
  | cons scope outer ih =>
      rw [holder?] at h
      cases hb : scope.get? name with
      | some b =>
          rw [hb] at h
          cases h
          -- the innermost scope has the name, and is found first
          refine ⟨[], scope, outer, b, rfl, rfl, hb, ?_⟩
          intro other hother
          exact absurd hother List.not_mem_nil
      | none =>
          rw [hb] at h
          obtain ⟨inner, scope', outer', b, rfl, hlength, hb', hinner⟩ := ih h
          refine ⟨scope :: inner, scope', outer', b, rfl, hlength, hb', ?_⟩
          intro other hother
          rcases List.mem_cons.mp hother with rfl | hother
          · exact hb
          · exact hinner other hother

/-- What the nearest scope with a name holds is what the name stands for. -/
theorem lookup_of_nearest {inner outer : Scopes} {scope : Scope} {b : Binding}
    (hinner : ∀ other ∈ inner, Scope.get? other name = none) (hb : scope.get? name = some b) :
    lookup (inner ++ scope :: outer) name = some b := by
  rw [lookup_eq_head?, entriesOf_append_of_forall hinner, entriesOf_cons_some hb]
  rfl

theorem holder?_eq_none_iff : scopes.holder? name = none ↔ scopes.lookup name = none := by
  rw [holder?_eq_head?, lookup_eq_head?, Option.map_eq_none_iff, Option.map_eq_none_iff]

/-- Of all bindings, from the outside in, the last one with a name is the nearest. -/
theorem lastNamed_flatten (h : ∀ scope ∈ scopes, (scope.map (·.1)).Nodup) (name : String) :
    lastNamed name scopes.reverse.flatten = scopes.lookup name := by
  induction scopes with
  | nil => rfl
  | cons scope outer ih =>
      obtain ⟨hscope, houter⟩ := List.forall_mem_cons.mp h
      -- the innermost scope comes last in the list, and is asked first
      rw [List.reverse_cons, List.flatten_append, List.flatten_singleton, lastNamed_append,
        Scope.lastNamed_eq_get? hscope, ih houter, lookup_cons]

end Scopes

open Scopes in
/-- **All ways to find a variable find the same one.** In a state whose scopes were made by
operations, the picture of the state and the scopes have the same binding for every name, or none,
and a scope holds the name just if there is one. That scope has the binding, and no scope inside
it has the name. All bindings are listed scope by scope, without repetitions in a scope, and the
last entry with the name is that binding. -/
theorem State.lookups_agree {s : State} {ops : List Operation} (h : s.scopes = after ops)
    (name : String) :
    s.snapshot.lookup name = s.scopes.lookup name ∧
      (s.scopes.holder? name = none ↔ s.scopes.lookup name = none) ∧
      (∀ k, s.scopes.holder? name = some k →
        ∃ outer scope inner b, s.snapshot.scopes = outer ++ scope :: inner ∧ outer.length = k ∧
          scope.get? name = some b ∧ s.scopes.lookup name = some b ∧
          ∀ other ∈ inner, name ∉ other.map (·.1)) ∧
      s.snapshot.bindings = s.snapshot.scopes.flatten ∧
      (∀ scope ∈ s.snapshot.scopes, (scope.map (·.1)).Nodup) ∧
      lastNamed name s.snapshot.bindings = s.scopes.lookup name := by
  have hnodup : ∀ scope ∈ s.scopes, (scope.map (·.1)).Nodup := h ▸ (follow_after ops).nodup
  refine ⟨s.lookup_snapshot name, holder?_eq_none_iff, ?_, rfl, ?_, lastNamed_flatten hnodup name⟩
  · intro k hk
    obtain ⟨inner, scope, outer, b, hscopes, hlength, hb, hinner⟩ := exists_of_holder? hk
    -- the picture has the scopes in the opposite order
    have hsnapshot : s.snapshot.scopes = outer.reverse ++ scope :: inner.reverse := by
      rw [State.snapshot, hscopes]
      simp
    refine ⟨outer.reverse, scope, inner.reverse, b, hsnapshot, ?_, hb, ?_, ?_⟩
    · rw [List.length_reverse, hlength]
    · rw [hscopes]
      exact lookup_of_nearest hinner hb
    · intro other hother
      exact Scope.get?_eq_none_iff.mp (hinner other (List.mem_reverse.mp hother))
  · intro scope hscope
    exact hnodup scope (List.mem_reverse.mp hscope)

/-- A state where a name stands for a variable without a value, which hides one with a value. -/
def State.hiding : State := ⟨Scopes.after (Scopes.shadowing.take 7), "1\n"⟩

theorem State.lookups_agree_hiding :
    State.hiding.scopes = Scopes.after (Scopes.shadowing.take 7) ∧
      State.hiding.snapshot.lookup "x" = some ⟨.ofLength 12 3, none⟩ ∧
      (∃ outer scope inner, State.hiding.snapshot.scopes = outer ++ scope :: inner ∧
        outer.length = 1 ∧ scope.get? "x" = some ⟨.ofLength 12 3, none⟩) ∧
      State.hiding.snapshot.bindings.map (·.1) = ["x", "y", "x"] ∧
      lastNamed "x" State.hiding.snapshot.bindings = some ⟨.ofLength 12 3, none⟩ ∧
      State.hiding.scopes.holder? "z" = none := by
  have hfound : State.hiding.scopes.lookup "x" = some ⟨.ofLength 12 3, none⟩ := rfl
  have hmissing : State.hiding.scopes.lookup "z" = none := rfl
  obtain ⟨hlookup, -, hholder, -, -, hlast⟩ := State.lookups_agree (s := State.hiding) rfl "x"
  obtain ⟨-, hnone, -⟩ := State.lookups_agree (s := State.hiding) rfl "z"
  obtain ⟨outer, scope, inner, b, hscopes, hlength, hb, hnearest, -⟩ := hholder 1 rfl
  rw [hfound] at hlookup hlast hnearest
  cases hnearest
  exact ⟨rfl, hlookup, ⟨outer, scope, inner, hscopes, hlength, hb⟩, rfl, hlast, hnone.mpr hmissing⟩

end Stepwise
