import Stepwise.Proofs.Commitment
import Stepwise.Proofs.Outline

/-!
# A stack for each name

Nested scopes mix all names, but no name ever meets another one there. For a single name it
is enough to keep a stack of its variables, each with the number of the scope that holds
it, and to look at no more than the top of it: `NameStack.perform` says how each operation
acts on that stack.

* `stackOf` reads the stack of one name off the scopes.
* `perform_stackOf` and `stackOf_perform_of_not_concerns` are the two step lemmas: an
  operation that concerns a name is answered from its stack, and one that concerns another
  name leaves it alone.
* `filter_replies` is the run lemma: of all replies to a sequence of operations, those that
  concern a name are the replies of its stack.
* `follow_after` is about the order inside a scope, which the stacks do not show: a scope holds the
  definitions that were made in it, in the order of the first one of each name.
-/

namespace Stepwise.Scopes

/-! ## Operations and their answers -/

/-- What can be asked of nested scopes. -/
inductive Operation where
  | enter
  | leave
  | define (name : String) (binding : Binding)
  | lookup (name : String)
  | holder (name : String)
  | assign (name : String) (value : Value)
deriving DecidableEq

/-- Whether an operation opens or closes a scope or is about the variables of this name. -/
def Operation.concerns (name : String) : Operation → Bool
  | .enter | .leave => true
  | .define other _ | .lookup other | .holder other | .assign other _ => decide (other = name)

/-- What comes back from an operation. -/
inductive Answer where
  | done
  | refused (error : ScopeError)
  | found (binding : Option Binding)
  | held (scope : Option Nat)
  | assigned (succeeded : Bool)
deriving DecidableEq

/-- A change of the scopes that can be refused; a refusal leaves them as they are. -/
def change (scopes : Scopes) : Except ScopeError Scopes → Answer × Scopes
  | .ok after => (.done, after)
  | .error e => (.refused e, scopes)

/-- Carries an operation out on nested scopes. -/
def perform (scopes : Scopes) : Operation → Answer × Scopes
  | .enter => (.done, scopes.enter)
  | .leave => scopes.change scopes.leave?
  | .define name b => scopes.change (scopes.define? name b)
  | .lookup name => (.found (scopes.lookup name), scopes)
  | .holder name => (.held (scopes.holder? name), scopes)
  | .assign name v =>
    match scopes.assign? name v with
    | some after => (.assigned true, after)
    | none => (.assigned false, scopes)

/-- The scopes behind a sequence of operations that starts with no scope. -/
def after (ops : List Operation) : Scopes := ops.foldl (fun scopes op => (scopes.perform op).2) []

/-- The operations of a sequence, each with the answer to it. -/
def replies {σ : Type} (perform : σ → Operation → Answer × σ) :
    σ → List Operation → List (Operation × Answer)
  | _, [] => []
  | s, op :: ops => (op, (perform s op).1) :: replies perform (perform s op).2 ops

/-! ## The stack of a name -/

/-- What there is to know of one name: the number of open scopes, and the variables of this name
with the numbers of their scopes, innermost first. The outermost scope has number zero. -/
structure NameStack where
  depth : Nat := 0
  entries : List (Nat × Binding) := []
deriving DecidableEq

namespace NameStack

/-- Takes the top entry away if it belongs to this scope. -/
def dropAt (depth : Nat) : List (Nat × Binding) → List (Nat × Binding)
  | [] => []
  | top :: rest => if top.1 = depth then rest else top :: rest

/-- Carries an operation out on the stack of the name that it is about. -/
def perform (stack : NameStack) : Operation → Answer × NameStack
  | .enter => (.done, { stack with depth := stack.depth + 1 })
  | .leave =>
    match stack.depth with
    | 0 => (.refused .nothingToEnd, stack)
    | depth + 1 => (.done, ⟨depth, dropAt depth stack.entries⟩)
  | .define _ b =>
    match stack.depth with
    | 0 => (.refused .nowhereToDefine, stack)
    | depth + 1 => (.done, ⟨depth + 1, (depth, b) :: dropAt depth stack.entries⟩)
  | .lookup _ => (.found (stack.entries.head?.map (·.2)), stack)
  | .holder _ => (.held (stack.entries.head?.map (·.1)), stack)
  | .assign _ v =>
    match stack.entries with
    | [] => (.assigned false, stack)
    | (depth, b) :: rest =>
      (.assigned true, { stack with entries := (depth, { b with value := some v }) :: rest })

end NameStack

/-- The variables of a name with the numbers of their scopes, innermost first. -/
def entriesOf (name : String) : Scopes → List (Nat × Binding)
  | [] => []
  | scope :: outer =>
    match scope.get? name with
    | some b => (outer.length, b) :: entriesOf name outer
    | none => entriesOf name outer

/-- The stack of a name, read off the scopes. -/
def stackOf (name : String) (scopes : Scopes) : NameStack := ⟨scopes.length, entriesOf name scopes⟩

section Entries

variable {name other : String} {scope : Scope} {inner outer scopes : Scopes} {b : Binding}

theorem entriesOf_cons_some (h : scope.get? name = some b) :
    entriesOf name (scope :: outer) = (outer.length, b) :: entriesOf name outer := by
  simp only [entriesOf, h]

theorem entriesOf_cons_none (h : scope.get? name = none) :
    entriesOf name (scope :: outer) = entriesOf name outer := by
  simp only [entriesOf, h]

theorem lt_of_mem_entriesOf {e : Nat × Binding} (h : e ∈ entriesOf name scopes) :
    e.1 < scopes.length := by
  induction scopes with
  | nil => cases h
  | cons scope outer ih =>
      cases hget : scope.get? name with
      | none =>
          rw [entriesOf_cons_none hget] at h
          exact Nat.lt_succ_of_lt (ih h)
      | some b =>
          rw [entriesOf_cons_some hget] at h
          rcases List.mem_cons.mp h with rfl | h
          · exact Nat.lt_succ_self _
          · exact Nat.lt_succ_of_lt (ih h)

/-- No variable is in a scope that is not open. -/
theorem dropAt_length (name : String) (scopes : Scopes) :
    NameStack.dropAt scopes.length (entriesOf name scopes) = entriesOf name scopes := by
  cases h : entriesOf name scopes with
  | nil => rfl
  | cons top rest =>
      have hlt : top.1 < scopes.length := lt_of_mem_entriesOf (h ▸ List.mem_cons_self)
      exact if_neg hlt.ne

theorem dropAt_entriesOf_cons (name : String) (scope : Scope) (outer : Scopes) :
    NameStack.dropAt outer.length (entriesOf name (scope :: outer)) = entriesOf name outer := by
  cases h : scope.get? name with
  -- the top entry, if any, belongs to a scope further out
  | none =>
      rw [entriesOf_cons_none h]
      exact dropAt_length name outer
  | some b =>
      rw [entriesOf_cons_some h]
      exact if_pos rfl

theorem lookup_eq_head? (name : String) (scopes : Scopes) :
    scopes.lookup name = (entriesOf name scopes).head?.map (·.2) := by
  induction scopes with
  | nil => rfl
  | cons scope outer ih =>
      rw [lookup_cons]
      cases h : scope.get? name with
      -- a scope without the name is passed by in both
      | none => rw [entriesOf_cons_none h, Option.none_or, ih]
      | some b => rw [entriesOf_cons_some h, Option.some_or]; rfl

theorem holder?_eq_head? (name : String) (scopes : Scopes) :
    scopes.holder? name = (entriesOf name scopes).head?.map (·.1) := by
  induction scopes with
  | nil => rfl
  | cons scope outer ih =>
      rw [holder?]
      cases h : scope.get? name with
      | none => rw [entriesOf_cons_none h, ← ih]; rfl
      | some b => rw [entriesOf_cons_some h]; rfl

theorem entriesOf_append_of_forall (h : ∀ scope ∈ inner, Scope.get? scope name = none) :
    entriesOf name (inner ++ scopes) = entriesOf name scopes := by
  induction inner with
  | nil => rfl
  | cons scope rest ih =>
      obtain ⟨hfirst, hrest⟩ := List.forall_mem_cons.mp h
      rw [List.cons_append, entriesOf_cons_none hfirst, ih hrest]

/-- Other names do not see what becomes of a variable. -/
theorem entriesOf_set_of_ne (h : other ≠ name) (inner : Scopes) (scope : Scope) (b : Binding)
    (outer : Scopes) :
    entriesOf other (inner ++ scope.set name b :: outer) =
      entriesOf other (inner ++ scope :: outer) := by
  induction inner with
  | nil => simp only [List.nil_append, entriesOf, Scope.get?_set, if_neg h]
  | cons first rest ih =>
      simp only [List.cons_append, entriesOf, ih, List.length_append, List.length_cons]

theorem entriesOf_assign?_self {v : Value} {after : Scopes}
    (h : scopes.assign? name v = some after) :
    ∃ depth b rest, entriesOf name scopes = (depth, b) :: rest ∧
      entriesOf name after = (depth, { b with value := some v }) :: rest := by
  obtain ⟨inner, scope, outer, b, rfl, hb, hinner, rfl⟩ := exists_of_assign? h
  have hset : (scope.set name { b with value := some v }).get? name =
      some { b with value := some v } := by rw [Scope.get?_set, if_pos rfl]
  -- the scopes further inside hold no variable of this name, before and after
  refine ⟨outer.length, b, entriesOf name outer, ?_, ?_⟩
  · rw [entriesOf_append_of_forall hinner, entriesOf_cons_some hb]
  · rw [entriesOf_append_of_forall hinner, entriesOf_cons_some hset]

theorem entriesOf_assign?_of_ne {v : Value} {after : Scopes} (hne : other ≠ name)
    (h : scopes.assign? name v = some after) : entriesOf other after = entriesOf other scopes := by
  obtain ⟨inner, scope, outer, b, rfl, -, -, rfl⟩ := exists_of_assign? h
  exact entriesOf_set_of_ne hne inner scope _ outer

/-- A name that cannot be assigned to has no variable. -/
theorem entriesOf_of_assign?_eq_none {v : Value} (h : scopes.assign? name v = none) :
    entriesOf name scopes = [] := by
  have hlookup : (scopes.lookup name).isSome = false := by
    rw [← isSome_assign? scopes name v, h]
    rfl
  rw [lookup_eq_head?, Option.isSome_map, Option.isSome_eq_false_iff] at hlookup
  exact List.head?_eq_none_iff.mp (Option.isNone_iff_eq_none.mp hlookup)

end Entries

/-! ## One operation -/

/-- **An operation that concerns a name is answered from the stack of that name**, and it changes
the stack as the stack changes by itself. -/
theorem perform_stackOf {name : String} {op : Operation} (h : op.concerns name = true)
    (scopes : Scopes) :
    (stackOf name scopes).perform op =
      ((scopes.perform op).1, stackOf name (scopes.perform op).2) := by
  cases op with
  | enter => rfl
  | leave =>
      cases scopes with
      | nil => rfl
      | cons scope outer =>
          -- closing a scope takes away the variable that it held, which is the top one
          exact congrArg (fun es => (Answer.done, NameStack.mk outer.length es))
            (dropAt_entriesOf_cons name scope outer)
  | define other b =>
      obtain rfl : other = name := of_decide_eq_true h
      cases scopes with
      | nil => rfl
      | cons scope outer =>
          have hset : (scope.set other b).get? other = some b := by
            rw [Scope.get?_set, if_pos rfl]
          -- an earlier variable of this scope is on top of the stack, if there is one
          have hentries :
              (outer.length, b) ::
                  NameStack.dropAt outer.length (entriesOf other (scope :: outer)) =
                entriesOf other (scope.set other b :: outer) := by
            rw [entriesOf_cons_some hset, dropAt_entriesOf_cons]
          exact congrArg (fun es => (Answer.done, NameStack.mk (outer.length + 1) es)) hentries
  | lookup other =>
      obtain rfl : other = name := of_decide_eq_true h
      exact congrArg (fun b => (Answer.found b, stackOf other scopes))
        (lookup_eq_head? other scopes).symm
  | holder other =>
      obtain rfl : other = name := of_decide_eq_true h
      exact congrArg (fun n => (Answer.held n, stackOf other scopes))
        (holder?_eq_head? other scopes).symm
  | assign other v =>
      obtain rfl : other = name := of_decide_eq_true h
      cases hassign : scopes.assign? other v with
      | none =>
          have hentries := entriesOf_of_assign?_eq_none hassign
          simp only [perform, hassign, stackOf, NameStack.perform, hentries]
      | some after =>
          obtain ⟨depth, b, rest, hbefore, hafter⟩ := entriesOf_assign?_self hassign
          simp only [perform, hassign, stackOf, NameStack.perform, hbefore, hafter,
            length_assign? hassign]

/-- **An operation that does not concern a name leaves its stack alone.** -/
theorem stackOf_perform_of_not_concerns {name : String} {op : Operation}
    (h : op.concerns name = false) (scopes : Scopes) :
    stackOf name (scopes.perform op).2 = stackOf name scopes := by
  cases op with
  | enter => cases h
  | leave => cases h
  | define other b =>
      -- the scope has one variable more, but none of this name
      have hne : name ≠ other := fun heq => of_decide_eq_false h heq.symm
      cases scopes with
      | nil => rfl
      | cons scope outer =>
          exact congrArg (NameStack.mk (outer.length + 1))
            (entriesOf_set_of_ne hne [] scope b outer)
  | lookup other => rfl
  | holder other => rfl
  | assign other v =>
      have hne : name ≠ other := fun heq => of_decide_eq_false h heq.symm
      cases hassign : scopes.assign? other v with
      | none => simp only [perform, hassign]
      | some after =>
          simp only [perform, hassign, stackOf, length_assign? hassign,
            entriesOf_assign?_of_ne hne hassign]

/-! ## A sequence of operations -/

/-- The replies that concern a name are those of its stack to the operations that concern it. -/
theorem filter_replies (name : String) (ops : List Operation) (scopes : Scopes) :
    (replies perform scopes ops).filter (·.1.concerns name) =
      replies NameStack.perform (stackOf name scopes) (ops.filter (·.concerns name)) := by
  induction ops generalizing scopes with
  | nil => rfl
  | cons op ops ih =>
      cases h : op.concerns name with
      -- asked of the scopes or of the stack, the answer is the same
      | true => simp only [replies, List.filter_cons, h, if_true, ih, perform_stackOf h]
      | false =>
          simp only [replies, List.filter_cons, h, Bool.false_eq_true, if_false, ih,
            stackOf_perform_of_not_concerns h]

theorem map_fst_replies {σ : Type} (perform : σ → Operation → Answer × σ) (s : σ)
    (ops : List Operation) : (replies perform s ops).map (·.1) = ops := by
  induction ops generalizing s with
  | nil => rfl
  | cons op ops ih => exact congrArg (op :: ·) (ih _)

/-- Without the operations on other names the scopes reply what the stack of the name replies. -/
theorem replies_filter (name : String) (ops : List Operation) :
    replies perform [] (ops.filter (·.concerns name)) =
      replies NameStack.perform {} (ops.filter (·.concerns name)) := by
  have hall : ∀ reply ∈ replies perform [] (ops.filter (·.concerns name)),
      reply.1.concerns name = true := by
    intro reply hreply
    have hmem : reply.1 ∈ ops.filter (·.concerns name) := by
      rw [← map_fst_replies perform [] (ops.filter _)]
      exact List.mem_map_of_mem hreply
    exact (List.mem_filter.mp hmem).2
  -- all that is asked concerns the name, so no reply is filtered out
  have hrun := filter_replies name (ops.filter (·.concerns name)) []
  rw [List.filter_eq_self.mpr hall, List.filter_filter] at hrun
  simp only [Bool.and_self] at hrun
  exact hrun

/-! ## The order inside a scope -/

/-- Keeps the definitions of each open scope, innermost scope first; each list is in the order in
which they were made. -/
def note : List Declarations → Operation → List Declarations
  | nested, .enter => [] :: nested
  | nested, .leave => nested.tail
  | ds :: nested, .define name b => (ds ++ [(name, b.declared)]) :: nested
  | nested, _ => nested

/-- The definitions that a sequence of operations has made in the scopes that are still open. -/
def definitions (ops : List Operation) : List Declarations := ops.foldl note []

/-- An operation makes a definition behind those of its scope, or none at all. -/
theorem Follow.perform {scopes : Scopes} {nested : List Declarations} (h : scopes.Follow nested)
    (op : Operation) : (scopes.perform op).2.Follow (note nested op) := by
  cases op with
  | enter => exact h.enter
  | leave =>
      cases h with
      | nil => exact .nil
      | cons _ houter => exact houter
  | define name b =>
      cases h with
      | nil => exact .nil
      | cons hscope houter => exact Follow.define (.cons hscope houter) name b.declared b.value
  | lookup name => exact h
  | holder name => exact h
  | assign name v =>
      show Follow (scopes.perform (.assign name v)).2 nested
      cases hassign : scopes.assign? name v with
      | none => simpa only [Scopes.perform, hassign] using h
      | some after => simpa only [Scopes.perform, hassign] using h.assign hassign

/-- **Each scope holds the definitions that were made in it.** -/
theorem follow_after (ops : List Operation) : (after ops).Follow (definitions ops) := by
  induction ops using List.reverseRecOn with
  | nil => exact .nil
  | append_singleton ops op ih =>
      rw [after, definitions, List.foldl_concat, List.foldl_concat]
      -- the last operation acts on what the others have made
      exact ih.perform op

theorem Follow.names {scopes : Scopes} {nested : List Declarations} (h : scopes.Follow nested) :
    scopes.map (·.map (·.1)) = nested.map Declarations.names := by
  induction h with
  | nil => rfl
  | cons hscope _ ih => rw [List.map_cons, List.map_cons, hscope.names, ih]

theorem Follow.nodup {scopes : Scopes} {nested : List Declarations} (h : scopes.Follow nested) :
    ∀ scope ∈ scopes, (scope.map (·.1)).Nodup := by
  induction h with
  | nil => exact nofun
  | cons hscope _ ih => exact List.forall_mem_cons.mpr ⟨hscope.nodup, ih⟩

/-! ## Refusals -/

/-- Why an operation cannot be carried out where no scope is open. -/
def Operation.refusal? : Operation → Option ScopeError
  | .leave => some .nothingToEnd
  | .define _ _ => some .nowhereToDefine
  | _ => none

/-- An operation is refused just where it needs an open scope and there is none. -/
theorem perform_eq_refused_iff (scopes : Scopes) (op : Operation) (e : ScopeError) :
    (scopes.perform op).1 = .refused e ↔ scopes = [] ∧ op.refusal? = some e := by
  cases op with
  | leave => cases scopes <;> simp [perform, leave?, change, Operation.refusal?]
  | define name b => cases scopes <;> simp [perform, define?, change, Operation.refusal?]
  | assign name v =>
      simp only [perform]
      split <;> simp [Operation.refusal?]
  | _ => simp [perform, Operation.refusal?]

/-- Whether an answer says that nothing was done. -/
def Answer.isNegative : Answer → Bool
  | .refused _ | .assigned false => true
  | _ => false

theorem perform_of_isNegative {scopes : Scopes} {op : Operation}
    (h : (scopes.perform op).1.isNegative = true) : (scopes.perform op).2 = scopes := by
  cases op with
  | enter => cases h
  | leave =>
      cases scopes with
      | nil => rfl
      | cons scope outer => cases h
  | define name b =>
      cases scopes with
      | nil => rfl
      | cons scope outer => cases h
  | lookup name => rfl
  | holder name => rfl
  | assign name v =>
      cases hassign : scopes.assign? name v with
      | none => simp only [perform, hassign]
      | some after =>
          -- an assignment that has found its variable does not answer so
          simp only [perform, hassign] at h
          cases h

/-- **Every name has a stack of its own.** Of the replies to any sequence of operations, those
that concern a name are what its stack alone replies, and what the scopes reply when all
operations on other names are left out. The names of each open scope are its definitions without
repetitions, in order. Only where no scope is open is closing one or defining in one refused, and
an operation that is refused or finds nothing to assign to changes nothing. -/
theorem replies_by_name (ops : List Operation) :
    (∀ name,
      (replies perform [] ops).filter (·.1.concerns name) =
          replies NameStack.perform {} (ops.filter (·.concerns name)) ∧
        replies perform [] (ops.filter (·.concerns name)) =
          replies NameStack.perform {} (ops.filter (·.concerns name))) ∧
      (after ops).map (·.map (·.1)) = (definitions ops).map Declarations.names ∧
      (∀ scope ∈ after ops, (scope.map (·.1)).Nodup) ∧
      (∀ op e, ((after ops).perform op).1 = .refused e ↔ after ops = [] ∧ op.refusal? = some e) ∧
      ∀ op, ((after ops).perform op).1.isNegative = true → after (ops ++ [op]) = after ops := by
  refine ⟨fun name => ⟨filter_replies name ops [], replies_filter name ops⟩,
    (follow_after ops).names, (follow_after ops).nodup, perform_eq_refused_iff (after ops), ?_⟩
  intro op hop
  rw [after, List.foldl_concat]
  exact perform_of_isNegative hop

/-- A name that is defined twice in the outer scope and once, without a value, in the inner one. -/
def shadowing : List Operation :=
  [.enter, .define "x" ⟨.ofLength 0 3, some (.int 1)⟩, .define "y" ⟨.ofLength 4 3, none⟩,
    .define "x" ⟨.ofLength 8 3, some (.int 2)⟩, .enter, .assign "y" (.int 3),
    .define "x" ⟨.ofLength 12 3, none⟩, .lookup "x", .leave, .holder "x", .assign "x" (.int 4),
    .lookup "x"]

theorem replies_by_name_shadowing :
    (after shadowing).map (·.map (·.1)) = [["x", "y"]] ∧
      ((replies perform [] shadowing).filter (·.1.concerns "x")).map (·.2) =
        [.done, .done, .done, .done, .done, .found (some ⟨.ofLength 12 3, none⟩), .done,
          .held (some 0), .assigned true, .found (some ⟨.ofLength 8 3, some (.int 4)⟩)] ∧
      ((after shadowing).perform (.assign "z" (.int 5))).1 = .assigned false ∧
      after (shadowing ++ [Operation.assign "z" (.int 5)]) = after shadowing ∧
      ((after (shadowing ++ [Operation.leave])).perform .leave).1 = .refused .nothingToEnd ∧
      after (shadowing ++ [Operation.leave] ++ [Operation.leave]) =
        after (shadowing ++ [Operation.leave]) := by
  obtain ⟨hnames, horder, -, -, hsame⟩ := replies_by_name shadowing
  obtain ⟨-, -, -, hrefused, hclosed⟩ := replies_by_name (shadowing ++ [Operation.leave])
  have hmissing : ((after shadowing).perform (.assign "z" (.int 5))).1 = .assigned false := rfl
  have hnone : after (shadowing ++ [Operation.leave]) = [] := rfl
  have hleave : ((after (shadowing ++ [Operation.leave])).perform .leave).1 =
      .refused .nothingToEnd := (hrefused .leave .nothingToEnd).mpr ⟨hnone, rfl⟩
  refine ⟨?_, ?_, hmissing, hsame (.assign "z" (.int 5)) ?_, hleave, hclosed .leave ?_⟩
  · rw [horder]
    rfl
  · rw [(hnames "x").1]
    rfl
  · rw [hmissing]
    rfl
  · rw [hleave]
    rfl

end Stepwise.Scopes
