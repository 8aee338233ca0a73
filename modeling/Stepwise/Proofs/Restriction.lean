import Stepwise.Proofs.LexicalScoping
import Stepwise.Proofs.Reformatting
import Stepwise.Proofs.Reparsing

/-!
# Dialects only restrict

A dialect takes statement forms away and changes nothing else. What it accepts, the full language
accepts as the same program; and of a program of the full language it accepts all, or it stops at
the first token that introduces a form that it does not have (`Source.parse_restricts`).

A form is introduced by `var`, `make` or `assign` at the start of its statement, or by the `=` of
an assignment (`Clause.introductions`). Which tokens these are can be told from the two tokens
before them (`Form.introduced?`): the `var` behind `make` and the `=` behind `var` and a name do
not count. Both sides meet there.

* **The reader.** What has been read of a statement says enough about the last two tokens
  (`Mode.Behind`), so the reader of a dialect does what the reader of the full language does, up to
  the check of the form (`feed_admits`, the step) and over a whole text
  (`foldlM_feed_restricted`, the run).
* **The grammar.** The tokens of a derivation introduce the forms that are in it
  (`Clause.Is.introductions_tokens`).
-/

namespace Stepwise

open Grammar

/-! ## Forms and the tokens that introduce them -/

@[simp] theorem Dialect.allows_default (form : Form) : ({} : Dialect).allows form = true := by
  cases form <;> rfl

/-- A token that introduces a form. -/
structure Introduction where
  token : Token
  form : Form

/-- The lexemes of the last two tokens, as far as there are any. -/
structure LookBehind where
  near : Option Lexeme := none
  far : Option Lexeme := none

namespace LookBehind

/-- The last two lexemes behind a further one. -/
def push (c : LookBehind) (l : Lexeme) : LookBehind := ⟨some l, c.near⟩

/-- The last two lexemes behind further tokens. -/
def past (c : LookBehind) (tokens : List Token) : LookBehind :=
  tokens.foldl (fun c token => c.push token.lexeme) c

/-- Whether a statement may start here: the last token is not the start of a declaration. -/
structure Rests (c : LookBehind) : Prop where
  make : c.near ≠ some (.keyword .make)
  var : c.near ≠ some (.keyword .var)

theorem past_append (c : LookBehind) (front tokens : List Token) :
    c.past (front ++ tokens) = (c.past front).past tokens := List.foldl_append

end LookBehind

/-- The form that a lexeme introduces behind two others. -/
def Form.introduced? (c : LookBehind) : Lexeme → Option Form
  | .keyword .make => some .makeDecl
  | .keyword .assign => some .keywordAssign
  | .keyword .var => if c.near = some (.keyword .make) then none else some .varDecl
  | .symbol .equal => if c.far = some (.keyword .var) then none else some .operatorAssign
  | _ => none

/-- The tokens of a text that introduce forms. -/
def LookBehind.introductions (c : LookBehind) : List Token → List Introduction
  | [] => []
  | token :: tokens =>
    ((Form.introduced? c token.lexeme).map (⟨token, ·⟩)).toList ++
      (c.push token.lexeme).introductions tokens

/-- The lexemes that are never part of how a form is introduced. -/
def Lexeme.Plain : Lexeme → Prop
  | .keyword .var | .keyword .make | .keyword .assign | .symbol .equal => False
  | _ => True

theorem Lexeme.Plain.of_eq {l l' : Lexeme} (hl : l' = l) (h : l.Plain) : l'.Plain := hl ▸ h

theorem Lexeme.Plain.introduced?_eq_none {l : Lexeme} (h : l.Plain) (c : LookBehind) :
    Form.introduced? c l = none := by
  unfold Form.introduced?
  split
  · exact h.elim
  · exact h.elim
  · exact h.elim
  · exact h.elim
  · rfl

theorem LookBehind.rests_push {l : Lexeme} (c : LookBehind) (hmake : l ≠ .keyword .make)
    (hvar : l ≠ .keyword .var) : (c.push l).Rests where
  make heq := hmake (Option.some.inj heq)
  var heq := hvar (Option.some.inj heq)

theorem Lexeme.Plain.rests {l : Lexeme} (h : l.Plain) (c : LookBehind) : (c.push l).Rests := by
  refine c.rests_push ?_ ?_
  · rintro rfl
    exact h
  · rintro rfl
    exact h

namespace LookBehind

variable {c : LookBehind} {tokens : List Token}

theorem introductions_append (c : LookBehind) (front tokens : List Token) :
    c.introductions (front ++ tokens) =
      c.introductions front ++ (c.past front).introductions tokens := by
  induction front generalizing c with
  | nil => rfl
  | cons token front ih =>
      rw [List.cons_append, introductions, introductions, ih, List.append_assoc]
      rfl

theorem introductions_cons_form {token : Token} {form : Form}
    (h : Form.introduced? c token.lexeme = some form) (tokens : List Token) :
    c.introductions (token :: tokens) =
      ⟨token, form⟩ :: (c.push token.lexeme).introductions tokens := by
  rw [introductions, h]
  rfl

theorem introductions_cons_none {token : Token} (h : Form.introduced? c token.lexeme = none)
    (tokens : List Token) :
    c.introductions (token :: tokens) = (c.push token.lexeme).introductions tokens := by
  rw [introductions, h]
  rfl

theorem introductions_cons_plain {token : Token} (h : token.lexeme.Plain) (tokens : List Token) :
    c.introductions (token :: tokens) = (c.push token.lexeme).introductions tokens :=
  introductions_cons_none (h.introduced?_eq_none c) tokens

theorem introductions_of_plain (h : ∀ token ∈ tokens, token.lexeme.Plain) :
    c.introductions tokens = [] := by
  induction tokens generalizing c with
  | nil => rfl
  | cons token tokens ih =>
      rw [List.forall_mem_cons] at h
      rw [introductions_cons_plain h.1, ih h.2]

theorem Rests.past_plain (hc : c.Rests) (h : ∀ token ∈ tokens, token.lexeme.Plain) :
    (c.past tokens).Rests := by
  induction tokens generalizing c with
  | nil => exact hc
  | cons token tokens ih =>
      rw [List.forall_mem_cons] at h
      exact ih (h.1.rests c) h.2

/-- The tokens that introduce forms are in the order of the text. -/
theorem introductions_sublist (c : LookBehind) (tokens : List Token) :
    ((c.introductions tokens).map (·.token)).Sublist tokens := by
  induction tokens generalizing c with
  | nil => exact .slnil
  | cons token tokens ih =>
      rw [introductions, List.map_append]
      cases Form.introduced? c token.lexeme with
      | none => exact (ih _).cons token
      | some form => exact (ih _).cons_cons token

end LookBehind

/-! ## The reader -/

/-- What the mode of a reader says about the last two tokens. -/
def Mode.Behind (c : LookBehind) : Mode → Prop
  | .start | .afterArm _ => c.Rests
  | .expr _ _ => c.Rests ∧ c.far ≠ some (.keyword .var)
  | .varName _ => c.near = some (.keyword .var)
  | .varRest _ _ => c.near ≠ some (.keyword .var) ∧ c.far = some (.keyword .var)
  | .makeVar _ => c.near = some (.keyword .make)
  | .makeName _ | .makeEnd _ _ => True
  | .afterElse _ => c.near ≠ some (.keyword .var)

/-- Whether a statement or an expression is what comes next. -/
def Mode.Open : Mode → Prop
  | .start | .afterArm _ | .expr _ _ => True
  | _ => False

theorem Mode.Open.behind {mode : Mode} (h : mode.Open) {c : LookBehind} {l : Lexeme}
    (hl : (c.push l).Rests) (hnear : c.near ≠ some (.keyword .var)) : mode.Behind (c.push l) := by
  cases mode with
  | start => exact hl
  | afterArm chain => exact hl
  | expr site reader => exact ⟨hl, hnear⟩
  | _ => exact h.elim

namespace ProgramReader

/-- What a dialect makes of a token that the full language reads: the same, unless the token
introduces a form that the dialect does not have. -/
def restrict (d : Dialect) (c : LookBehind) (token : Token) (next : ProgramReader) :
    Except ParseError ProgramReader :=
  match Form.introduced? c token.lexeme with
  | none => .ok next
  | some form => startForm d form token next

/-- Whether a dialect makes this of a token, and what is read then fits to the last two tokens. -/
structure Admits (d : Dialect) (c : LookBehind) (token : Token) (next : ProgramReader)
    (answer : Except ParseError ProgramReader) : Prop where
  behind : next.mode.Behind (c.push token.lexeme)
  eq : answer = restrict d c token next

variable {d : Dialect} {c : LookBehind} {r next : ProgramReader} {token : Token}
  {answer : Except ParseError ProgramReader}

theorem Admits.of_form {form : Form} (hform : Form.introduced? c token.lexeme = some form)
    (h : next.mode.Behind (c.push token.lexeme)) (heq : answer = startForm d form token next) :
    Admits d c token next answer :=
  ⟨h, by rw [heq, restrict, hform]⟩

theorem Admits.of_none (hform : Form.introduced? c token.lexeme = none)
    (h : next.mode.Behind (c.push token.lexeme)) (heq : answer = .ok next) :
    Admits d c token next answer :=
  ⟨h, by rw [heq, restrict, hform]⟩

theorem Admits.of_plain (hplain : token.lexeme.Plain) (hnear : c.near ≠ some (.keyword .var))
    (hmode : next.mode.Open) (heq : answer = .ok next) : Admits d c token next answer :=
  .of_none (hplain.introduced?_eq_none c) (hmode.behind (hplain.rests c) hnear) heq

/-- A token that belongs to an expression is plain. -/
theorem plain_of_step {reader reader' : ExprReader} (h : reader.step token = .more reader') :
    token.lexeme.Plain := by
  unfold Lexeme.Plain
  split
  all_goals rename_i hl
  all_goals try trivial
  -- neither of the four lexemes that are left goes on with an expression
  all_goals
    obtain ⟨focus, ops, outer⟩ := reader
    cases focus with
    | operand => simp [ExprReader.step, ExprReader.stepOperand, hl, UnaryOp.ofSign?] at h
    | arguments callee => simp [ExprReader.step, ExprReader.stepOperand, hl, UnaryOp.ofSign?] at h
    | after e =>
        simp only [ExprReader.step, ExprReader.stepAfter, ExprReader.stepClose, hl,
          InfixOp.ofSymbol?] at h
        split at h <;> cases h

theorem mode_of_pushAssign {span : Span} {target value : Expr}
    (h : r.pushAssign span target value = .ok next) : next.mode = .start := by
  unfold pushAssign at h
  split at h
  · cases h
    rfl
  · cases h

/-- Behind an expression comes the `=` of an assignment or a plain token. -/
theorem stepSite_admits (d : Dialect) {site : Site} {e : Expr} (hrests : c.Rests)
    (hfar : c.far ≠ some (.keyword .var)) (h : r.stepSite {} site e token = .ok next) :
    Admits d c token next (r.stepSite d site e token) := by
  unfold stepSite at h
  split at h
  all_goals rename_i hl
  · -- the `=` is no part of a declaration, so it introduces the assignment
    rw [if_pos (Dialect.allows_default _)] at h
    cases h
    have hform : Form.introduced? c token.lexeme = some .operatorAssign := by
      rw [hl]
      exact if_neg hfar
    refine .of_form hform ⟨c.rests_push (by simp [hl]) (by simp [hl]), hrests.var⟩ ?_
    simp only [stepSite, hl, startForm]
  · -- all other lexemes behind an expression are plain
    cases h
    exact .of_plain (.of_eq hl trivial) hrests.var trivial (by simp only [stepSite, hl])
  · refine .of_plain (.of_eq hl trivial) hrests.var ?_ (by simp only [stepSite, hl, h])
    rw [mode_of_pushAssign h]
    trivial
  · cases h
    exact .of_plain (.of_eq hl trivial) hrests.var trivial (by simp only [stepSite, hl])
  · cases h
    exact .of_plain (.of_eq hl trivial) hrests.var trivial (by simp only [stepSite, hl])
  · cases h
    exact .of_plain (.of_eq hl trivial) hrests.var trivial (by simp only [stepSite, hl])
  · refine .of_plain (.of_eq hl trivial) hrests.var ?_ (by simp only [stepSite, hl, h])
    rw [mode_of_pushAssign h]
    trivial
  · cases h
    exact .of_plain (.of_eq hl trivial) hrests.var trivial (by simp only [stepSite, hl])
  · cases h
    exact .of_plain (.of_eq hl trivial) hrests.var trivial (by simp only [stepSite, hl])
  · cases h

/-- In an expression all tokens are plain, and none is behind its end if nothing of it is there. -/
theorem stepExpr_admits (d : Dialect) {site : Site} {reader : ExprReader} (hrests : c.Rests)
    (hfar : c.far ≠ some (.keyword .var) ∨ reader.focus = .operand)
    (h : r.stepExpr {} site reader token = .ok next) :
    Admits d c token next (r.stepExpr d site reader token) := by
  unfold stepExpr at h
  split at h
  · rename_i reader' hstep
    cases h
    exact .of_plain (plain_of_step hstep) hrests.var trivial (by simp only [stepExpr, hstep])
  · rename_i e hstep
    rcases hfar with hfar | hfocus
    · have hadmits := stepSite_admits d hrests hfar h
      simpa only [stepExpr, hstep] using hadmits
    · -- an expression cannot end before it has begun
      obtain ⟨e₀, hreader, _⟩ := eq_of_step_done hstep
      rw [hreader] at hfocus
      cases hfocus
  · cases h

theorem open_closeBlock (r : ProgramReader) (b : OpenBlock) (outer : List OpenBlock)
    (brace : Span) :
    (r.closeBlock b outer brace).mode.Open := by
  unfold closeBlock
  cases b.role <;> trivial

/-- At the start of a statement a keyword may introduce a form. -/
theorem stepStart_admits (d : Dialect) (hrests : c.Rests) (h : r.stepStart {} token = .ok next) :
    Admits d c token next (r.stepStart d token) := by
  unfold stepStart at h
  split at h
  · rename_i hl
    cases h
    exact .of_plain (.of_eq hl trivial) hrests.var trivial (by simp only [stepStart, hl])
  · rename_i b outer hl houter
    cases h
    exact .of_plain (.of_eq hl trivial) hrests.var (open_closeBlock _ _ _ _)
      (by simp only [stepStart, hl, houter])
  · rename_i hl
    cases h
    exact .of_plain (.of_eq hl trivial) hrests.var trivial (by simp only [stepStart, hl])
  · rename_i hl
    cases h
    exact .of_plain (.of_eq hl trivial) hrests.var trivial (by simp only [stepStart, hl])
  · rename_i hl
    cases h
    exact .of_plain (.of_eq hl trivial) hrests.var trivial (by simp only [stepStart, hl])
  · rename_i hl
    rw [startForm, if_pos (Dialect.allows_default _)] at h
    cases h
    have hform : Form.introduced? c token.lexeme = some .varDecl := by
      rw [hl]
      exact if_neg hrests.make
    exact .of_form hform (by rw [hl]; rfl) (by simp only [stepStart, hl])
  · rename_i hl
    rw [startForm, if_pos (Dialect.allows_default _)] at h
    cases h
    have hform : Form.introduced? c token.lexeme = some .makeDecl := by rw [hl]; rfl
    exact .of_form hform (by rw [hl]; rfl) (by simp only [stepStart, hl])
  · rename_i hl
    rw [startForm, if_pos (Dialect.allows_default _)] at h
    cases h
    have hform : Form.introduced? c token.lexeme = some .keywordAssign := by rw [hl]; rfl
    exact .of_form hform ⟨c.rests_push (by simp [hl]) (by simp [hl]), hrests.var⟩
      (by simp only [stepStart, hl])
  · cases h
  · cases h
  · cases h
  · cases h
  · cases h
  · -- what starts no other statement starts an expression, in every dialect
    have hstart : r.stepStart d token = r.stepExpr d .statement {} token := by
      unfold stepStart
      split
      all_goals first | rfl | (exfalso; solve_by_elim)
    rw [hstart]
    exact stepExpr_admits d hrests (.inr rfl) h

/-- **A step of a dialect** is a step of the full language, up to the check of the form. -/
theorem feed_admits (d : Dialect) (hmode : r.mode.Behind c) (h : r.feed {} token = .ok next) :
    Admits d c token next (r.feed d token) := by
  unfold feed at h
  split at h
  case h_1 heq =>
    rw [heq] at hmode
    simpa only [feed, heq] using stepStart_admits d hmode h
  case h_2 site reader heq =>
    rw [heq] at hmode
    simpa only [feed, heq] using stepExpr_admits d hmode.1 (.inl hmode.2) h
  case h_3 keyword name heq hl =>
    rw [heq] at hmode
    cases h
    have hplain := Lexeme.Plain.of_eq hl trivial
    exact .of_none (hplain.introduced?_eq_none c) ⟨(hplain.rests c).var, hmode⟩
      (by simp only [feed, heq, hl])
  case h_4 keyword name heq hl =>
    rw [heq] at hmode
    cases h
    -- the `=` behind `var` and a name belongs to the declaration
    refine .of_none (by rw [hl]; exact if_pos hmode.2) ⟨?_, hmode.1⟩ (by simp only [feed, heq, hl])
    exact c.rests_push (by simp [hl]) (by simp [hl])
  case h_5 keyword name heq hl =>
    rw [heq] at hmode
    cases h
    exact .of_plain (.of_eq hl trivial) hmode.1 trivial (by simp only [feed, heq, hl])
  case h_6 keyword heq hl =>
    rw [heq] at hmode
    cases h
    -- the `var` behind `make` does too
    exact .of_none (by rw [hl]; exact if_pos hmode) trivial (by simp only [feed, heq, hl])
  case h_7 keyword name heq hl =>
    cases h
    have hplain := Lexeme.Plain.of_eq hl trivial
    exact .of_none (hplain.introduced?_eq_none c) trivial (by simp only [feed, heq, hl])
  case h_8 keyword name heq hl =>
    cases h
    have hplain := Lexeme.Plain.of_eq hl trivial
    exact .of_none (hplain.introduced?_eq_none c) (hplain.rests c) (by simp only [feed, heq, hl])
  case h_9 chain heq hl =>
    cases h
    have hplain := Lexeme.Plain.of_eq hl trivial
    exact .of_none (hplain.introduced?_eq_none c) (hplain.rests c).var
      (by simp only [feed, heq, hl])
  case h_10 chain heq hl =>
    rw [heq] at hmode
    -- the chain is over, and the token starts a statement
    have hfeed : r.feed d token = (r.push (chain.close none)).stepStart d token := by
      simp only [feed, heq]
    rw [hfeed]
    exact stepStart_admits d hmode h
  case h_11 chain heq hl =>
    rw [heq] at hmode
    cases h
    exact .of_plain (.of_eq hl trivial) hmode trivial (by simp only [feed, heq, hl])
  case h_12 chain heq hl =>
    rw [heq] at hmode
    cases h
    exact .of_plain (.of_eq hl trivial) hmode trivial (by simp only [feed, heq, hl])
  case h_13 => cases h

end ProgramReader

/-- What a dialect answers for a text of the full language in which these forms are introduced. -/
def Dialect.answer {α : Type} (d : Dialect) (introduced : List Introduction) (x : α) :
    Except ParseError α :=
  match introduced.find? (fun i => !d.allows i.form) with
  | none => .ok x
  | some i => .error ⟨.disabled i.form, i.token.span⟩

theorem Dialect.answer_cons {α : Type} (d : Dialect) (i : Introduction)
    (introduced : List Introduction) (x : α) :
    d.answer (i :: introduced) x =
      if d.allows i.form then d.answer introduced x
      else .error ⟨.disabled i.form, i.token.span⟩ := by
  unfold answer
  cases hallows : d.allows i.form with
  | true => rw [List.find?_cons_of_neg (by simp [hallows]), if_pos rfl]
  | false => rw [List.find?_cons_of_pos (by simp [hallows]), if_neg Bool.false_ne_true]

/-- **A run of a dialect** is the run of the full language up to the first token that introduces a
form which the dialect does not have. -/
theorem ProgramReader.foldlM_feed_restricted (d : Dialect) {c : LookBehind}
    {r next : ProgramReader}
    {tokens : List Token} (hmode : r.mode.Behind c) (h : tokens.foldlM (feed {}) r = .ok next) :
    tokens.foldlM (feed d) r = d.answer (c.introductions tokens) next := by
  induction tokens generalizing c r with
  | nil =>
      cases h
      rfl
  | cons token tokens ih =>
      cases hfeed : r.feed {} token with
      | error err =>
          rw [List.foldlM_cons, hfeed] at h
          cases h
      | ok m =>
          rw [List.foldlM_cons, hfeed] at h
          obtain ⟨hbehind, heq⟩ := feed_admits d hmode hfeed
          have hrest := ih hbehind h
          rw [List.foldlM_cons, heq, LookBehind.introductions, restrict]
          -- only a token that introduces a form can be refused, and then nothing behind it is read
          cases hform : Form.introduced? c token.lexeme with
          | none => exact hrest
          | some form =>
              show (startForm d form token m >>= _) = d.answer (⟨token, form⟩ :: _) next
              rw [Dialect.answer_cons, startForm]
              by_cases hallows : d.allows form
              · rw [if_pos hallows, if_pos hallows]
                exact hrest
              · rw [if_neg hallows, if_neg hallows]
                rfl

/-- A dialect accepts, or refuses the first form that it does not have. -/
theorem Dialect.answer_cases {α : Type} (d : Dialect) (introduced : List Introduction) (x : α) :
    ((∀ i ∈ introduced, d.allows i.form) ∧ d.answer introduced x = .ok x) ∨
      ∃ before i behind, introduced = before ++ i :: behind ∧ (∀ j ∈ before, d.allows j.form) ∧
        d.allows i.form = false ∧
        d.answer introduced x = .error ⟨.disabled i.form, i.token.span⟩ := by
  unfold answer
  cases hfind : introduced.find? (fun i => !d.allows i.form) with
  | none =>
      refine .inl ⟨fun i hi => ?_, rfl⟩
      have hallowed := List.find?_eq_none.mp hfind i hi
      simpa using hallowed
  | some i =>
      obtain ⟨hrefused, before, behind, rfl, hbefore⟩ := List.find?_eq_some_iff_append.mp hfind
      refine .inr ⟨before, i, behind, rfl, fun j hj => ?_, by simpa using hrefused, rfl⟩
      have hallowed := hbefore j hj
      simpa using hallowed

/-- What a dialect reads of a program of the full language. -/
theorem ProgramReader.read_restricted (d : Dialect) {tokens : List Token} {endSpan : Span}
    {program : List Stmt} (h : read {} tokens endSpan = .ok program) :
    read d tokens endSpan = d.answer (({} : LookBehind).introductions tokens) program := by
  obtain ⟨r, hread, hclose⟩ := bind_mapError_eq_ok_iff.mp h
  have hstart : ({} : ProgramReader).mode.Behind {} := ⟨nofun, nofun⟩
  rw [read, foldlM_feed_restricted d hstart hread]
  unfold Dialect.answer
  cases (({} : LookBehind).introductions tokens).find? (fun i => !d.allows i.form) with
  | none =>
      show r.close.mapError _ = _
      rw [hclose]
      rfl
  | some i => rfl

/-! ## The grammar -/

namespace Grammar

mutual

/-- The tokens of a statement that introduce forms. -/
def Clause.introductions : Clause → List Introduction
  | .block _ body _ => Clause.introductionsAll body
  | .branch _ _ yes => yes.introductions
  | .branchElse _ _ yes _ no => yes.introductions ++ no.introductions
  | .loop _ _ body => body.introductions
  | .var keyword _ _ _ | .varWith keyword _ _ _ _ _ => [⟨keyword, .varDecl⟩]
  | .makeVar keyword _ _ _ _ => [⟨keyword, .makeDecl⟩]
  | .assignTo keyword _ _ _ _ _ => [⟨keyword, .keywordAssign⟩]
  | .assign _ _ equal _ _ => [⟨equal, .operatorAssign⟩]
  | .print _ _ _ | .expr _ _ => []

/-- The tokens of a list of statements that introduce forms. -/
def Clause.introductionsAll : List Clause → List Introduction
  | [] => []
  | c :: rest => c.introductions ++ Clause.introductionsAll rest

end

variable {d : Dialect} {b : LookBehind}

theorem Phrase.Is.plain {p : Phrase} (h : p.Is 0) : ∀ token ∈ p.tokens, token.lexeme.Plain := by
  obtain ⟨r, hshifts, -⟩ := h.reads
  -- the steps that read the expression say it, from whatever reader they start
  generalize ({} : ExprReader) = r₀ at hshifts
  generalize p.tokens = tokens at hshifts ⊢
  induction hshifts with
  | nil => exact nofun
  | cons hstep _ ih => exact List.forall_mem_cons.mpr ⟨ProgramReader.plain_of_step hstep, ih⟩

/-- A statement ends with a semicolon or a brace. -/
theorem Clause.Is.plain_last {c : Clause} (h : c.Is d) : c.last.lexeme.Plain := by
  induction h with
  | block _ _ hclose => rw [Clause.last, hclose]; trivial
  | branch _ _ _ _ ih => exact ih
  | branchElse _ _ _ _ _ _ _ _ ih => exact ih
  | loop _ _ _ _ ih => exact ih
  | print _ _ hsemicolon | var _ _ _ hsemicolon | varWith _ _ _ _ _ hsemicolon
  | makeVar _ _ _ _ hsemicolon | assignTo _ _ _ _ _ hsemicolon | assign _ _ _ _ hsemicolon
  | expr _ hsemicolon => rw [Clause.last, hsemicolon]; trivial

theorem Clause.Is.rests_past {c : Clause} (h : c.Is d) (b : LookBehind) :
    (b.past c.tokens).Rests := by
  obtain ⟨front, hfront⟩ := c.exists_tokens_eq_append_last
  rw [hfront, LookBehind.past_append]
  exact h.plain_last.rests _

/-- Statements that follow each other introduce what each of them does. -/
theorem introductions_tokensAll {clauses : List Clause} (his : ∀ c ∈ clauses, c.Is d)
    (h : ∀ c ∈ clauses, ∀ b : LookBehind, b.Rests → b.introductions c.tokens = c.introductions)
    (hb : b.Rests) :
    b.introductions (Clause.tokensAll clauses) = Clause.introductionsAll clauses := by
  induction clauses generalizing b with
  | nil => rfl
  | cons c rest ih =>
      rw [List.forall_mem_cons] at his h
      rw [Clause.tokensAll, LookBehind.introductions_append, h.1 b hb,
        ih his.2 h.2 (his.1.rests_past b), Clause.introductionsAll]

/-- Nothing is introduced by an expression. -/
theorem Phrase.Is.introductions_append {p : Phrase} (hp : p.Is 0) (rest : List Token) :
    b.introductions (p.tokens ++ rest) = (b.past p.tokens).introductions rest := by
  rw [LookBehind.introductions_append, LookBehind.introductions_of_plain hp.plain, List.nil_append]

/-- What follows a keyword and a condition introduces the same as without them. -/
theorem introductions_behind_condition {keyword : Token} {condition : Phrase} {rest : List Token}
    {introduced : List Introduction} (hkeyword : keyword.lexeme.Plain)
    (hcondition : condition.Is 0)
    (h : ∀ b : LookBehind, b.Rests → b.introductions rest = introduced) :
    b.introductions (keyword :: (condition.tokens ++ rest)) = introduced := by
  rw [LookBehind.introductions_cons_plain hkeyword, hcondition.introductions_append]
  exact h _ ((hkeyword.rests b).past_plain hcondition.plain)

/-- **The tokens of a statement introduce the forms that are in it.** -/
theorem Clause.Is.introductions_tokens {c : Clause} (h : c.Is d) :
    ∀ b : LookBehind, b.Rests → b.introductions c.tokens = c.introductions := by
  induction h with
  | block hopen hbody hclose ih =>
      intro b hb
      have hopen := Lexeme.Plain.of_eq hopen trivial
      rw [Clause.tokens, LookBehind.introductions_cons_plain hopen,
        LookBehind.introductions_append, introductions_tokensAll hbody ih (hopen.rests b),
        LookBehind.introductions_cons_plain (.of_eq hclose trivial)]
      exact List.append_nil _
  | branch hkeyword hcondition hyes _ ih =>
      intro b hb
      exact introductions_behind_condition (.of_eq hkeyword trivial) hcondition ih
  | branchElse hkeyword hcondition hyes _ hotherwise hno _ ihyes ihno =>
      intro b hb
      have hotherwise := Lexeme.Plain.of_eq hotherwise trivial
      -- each part stands behind a plain token, so it introduces what it does by itself
      rw [Clause.tokens, List.append_assoc]
      refine introductions_behind_condition (.of_eq hkeyword trivial) hcondition fun b hb => ?_
      rw [LookBehind.introductions_append, ihyes b hb,
        LookBehind.introductions_cons_plain hotherwise, ihno _ (hotherwise.rests _)]
      rfl
  | loop hkeyword hcondition hbody _ ih =>
      intro b hb
      exact introductions_behind_condition (.of_eq hkeyword trivial) hcondition ih
  | print hkeyword hvalue hsemicolon =>
      intro b hb
      rw [Clause.tokens, LookBehind.introductions_cons_plain (.of_eq hkeyword trivial),
        hvalue.introductions_append,
        LookBehind.introductions_cons_plain (.of_eq hsemicolon trivial)]
      rfl
  | var _ hkeyword hname hsemicolon =>
      intro b hb
      rw [Clause.tokens, LookBehind.introductions_cons_form
        (by rw [hkeyword]; exact if_neg hb.make),
        LookBehind.introductions_cons_plain (.of_eq hname trivial),
        LookBehind.introductions_cons_plain (.of_eq hsemicolon trivial)]
      rfl
  | varWith _ hkeyword hname hequal hvalue hsemicolon =>
      intro b hb
      rw [Clause.tokens, LookBehind.introductions_cons_form
        (by rw [hkeyword]; exact if_neg hb.make),
        LookBehind.introductions_cons_plain (.of_eq hname trivial),
        LookBehind.introductions_cons_none (by rw [hequal]; exact if_pos (congrArg some hkeyword)),
        hvalue.introductions_append,
        LookBehind.introductions_cons_plain (.of_eq hsemicolon trivial)]
      rfl
  | makeVar _ hkeyword hvar hname hsemicolon =>
      intro b hb
      rw [Clause.tokens, LookBehind.introductions_cons_form (by rw [hkeyword]; rfl),
        LookBehind.introductions_cons_none (by rw [hvar]; exact if_pos (congrArg some hkeyword)),
        LookBehind.introductions_cons_plain (.of_eq hname trivial),
        LookBehind.introductions_cons_plain (.of_eq hsemicolon trivial)]
      rfl
  | assignTo _ hkeyword hvalue hto hname hsemicolon =>
      intro b hb
      rw [Clause.tokens, LookBehind.introductions_cons_form (by rw [hkeyword]; rfl),
        hvalue.introductions_append, LookBehind.introductions_cons_plain (.of_eq hto trivial),
        LookBehind.introductions_cons_plain (.of_eq hname trivial),
        LookBehind.introductions_cons_plain (.of_eq hsemicolon trivial)]
      rfl
  | assign _ hname hequal hvalue hsemicolon =>
      intro b hb
      rw [Clause.tokens, LookBehind.introductions_cons_plain (.of_eq hname trivial),
        LookBehind.introductions_cons_form (by rw [hequal]; exact if_neg hb.var),
        hvalue.introductions_append,
        LookBehind.introductions_cons_plain (.of_eq hsemicolon trivial)]
      rfl
  | expr hvalue hsemicolon =>
      intro b hb
      rw [Clause.tokens, hvalue.introductions_append,
        LookBehind.introductions_cons_plain (.of_eq hsemicolon trivial)]
      rfl

/-- A dialect with more forms has all statements. -/
theorem Clause.Is.mono {d' : Dialect} (hd : ∀ form, d.allows form → d'.allows form) {c : Clause}
    (h : c.Is d) : c.Is d' := by
  induction h with
  | block hopen _ hclose ih => exact .block hopen ih hclose
  | branch hkeyword hcondition _ hblock ih => exact .branch hkeyword hcondition ih hblock
  | branchElse hkeyword hcondition _ hblock hotherwise _ helse ihyes ihno =>
      exact .branchElse hkeyword hcondition ihyes hblock hotherwise ihno helse
  | loop hkeyword hcondition _ hblock ih => exact .loop hkeyword hcondition ih hblock
  | print hkeyword hvalue hsemicolon => exact .print hkeyword hvalue hsemicolon
  | var hallows hkeyword hname hsemicolon => exact .var (hd _ hallows) hkeyword hname hsemicolon
  | varWith hallows hkeyword hname hequal hvalue hsemicolon =>
      exact .varWith (hd _ hallows) hkeyword hname hequal hvalue hsemicolon
  | makeVar hallows hkeyword hvar hname hsemicolon =>
      exact .makeVar (hd _ hallows) hkeyword hvar hname hsemicolon
  | assignTo hallows hkeyword hvalue hto hname hsemicolon =>
      exact .assignTo (hd _ hallows) hkeyword hvalue hto hname hsemicolon
  | assign hallows hname hequal hvalue hsemicolon =>
      exact .assign (hd _ hallows) hname hequal hvalue hsemicolon
  | expr hvalue hsemicolon => exact .expr hvalue hsemicolon

end Grammar

/-! ## The texts of a dialect -/

theorem Form.disabledMessage_eq (form : Form) :
    ∃ subject, form.disabledMessage = subject ++ " disabled by the syntax options" := by
  cases form with
  | operatorAssign => exact ⟨"assignment with '=' is", rfl⟩
  | keywordAssign => exact ⟨"'assign' statements are", rfl⟩
  | varDecl => exact ⟨"'var' statements are", rfl⟩
  | makeDecl => exact ⟨"'make' statements are", rfl⟩

/-- **Dialects only restrict.** What a dialect reads as a program, the full language reads as the
same program. Of a program of the full language, the dialect has every form and it reads the same,
or it complains at the first token that introduces a form which it does not have. -/
theorem Source.parse_restricts (s : Source) (d : Dialect) :
    (∀ program, s.parse d = .ok program → s.parse {} = .ok program) ∧
    ∀ program, s.parse {} = .ok program → ∃ tokens clauses,
      s.tokens = .ok tokens ∧ Derives {} clauses tokens ∧ Clause.stmts clauses = program ∧
      ((Clause.introductionsAll clauses).map (·.token)).Sublist tokens ∧
      (((∀ i ∈ Clause.introductionsAll clauses, d.allows i.form) ∧ s.parse d = .ok program) ∨
        ∃ before i behind, Clause.introductionsAll clauses = before ++ i :: behind ∧
          (∀ j ∈ before, d.allows j.form) ∧ d.allows i.form = false ∧
          s.parse d = .error ⟨.disabled i.form, i.token.span⟩ ∧
          ∃ subject, (ParseError.Cause.disabled i.form).message =
            subject ++ " disabled by the syntax options") := by
  constructor
  · intro program hprogram
    obtain ⟨tokens, clauses, htokens, ⟨his, hclauses⟩, rfl⟩ := Source.exists_derives hprogram
    have hfull : ∀ c ∈ clauses, c.Is {} := fun c hc =>
      (his c hc).mono fun form _ => Dialect.allows_default form
    exact Source.parse_of_derives htokens ⟨hfull, hclauses⟩
  · intro program hprogram
    obtain ⟨tokens, clauses, htokens, hderives, hbuilt⟩ := Source.exists_derives hprogram
    obtain ⟨his, rfl⟩ := hderives
    -- the tokens and the derivation agree about what is introduced
    have hintroduced : ({} : LookBehind).introductions (Clause.tokensAll clauses) =
        Clause.introductionsAll clauses :=
      introductions_tokensAll his (fun c hc => (his c hc).introductions_tokens) ⟨nofun, nofun⟩
    have hstmts : Clause.stmts clauses = program := by
      rw [← Clause.builtAll_eq_stmts clauses (Source.ordered_tokens htokens).1]
      exact hbuilt
    have hsublist := LookBehind.introductions_sublist {} (Clause.tokensAll clauses)
    rw [hintroduced] at hsublist
    refine ⟨_, clauses, htokens, ⟨his, rfl⟩, hstmts, hsublist, ?_⟩
    have hdefault := hprogram
    rw [Source.parse_eq_read htokens] at hdefault
    rw [Source.parse_eq_read htokens, ProgramReader.read_restricted d hdefault, hintroduced]
    rcases d.answer_cases (Clause.introductionsAll clauses) program with
      haccepted | ⟨before, i, behind, hsplit, hbefore, hi, hrefused⟩
    · exact .inl haccepted
    · exact .inr ⟨before, i, behind, hsplit, hbefore, hi, hrefused, i.form.disabledMessage_eq⟩

end Stepwise
