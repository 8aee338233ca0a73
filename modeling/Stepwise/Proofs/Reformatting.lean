import Mathlib
import Stepwise.Proofs.Erasure
import Stepwise.Proofs.Excerpt
import Stepwise.Proofs.Placement

/-!
# Reformatting a program

The words of a program may be laid out anew: other blanks and comments between them make no
other program. All that matters is that behind every word there is a blank, or the end of the
text. No lexeme but a string has a blank in it, and a string ends at its second quote, so a word
cannot grow beyond the blank behind it (`Lexeme.Spelled.longest`); nor does a word become the
start of a comment (`Lexeme.Spelled.stops`). Comments end with their line before the next word,
whatever is in them.

The new text then has the same lexemes at other places (`Reformatted.lexed`), and since reading
does not look at places, it is the same program.
-/

namespace Stepwise

open Scanned (isGap isWordStart isWordPart)

/-! ## Words in front of a blank -/

theorem isGap_eq_false_of_isWordPart {c : Char} (h : isWordPart c) : isGap c = false := by
  refine eq_false_of_ne_true fun hgap => ?_
  have hc := mem_blanks_of_isGap hgap
  simp only [List.mem_cons, List.not_mem_nil, or_false] at hc
  -- there are four blanks, and none of them is part of a word
  rcases hc with rfl | rfl | rfl | rfl <;> cases h

theorem isGap_eq_false_of_isDigit {c : Char} (h : c.isDigit) : isGap c = false :=
  isGap_eq_false_of_isWordPart (by simp [isWordPart, Char.isAlphanum, h])

theorem isGap_eq_false_of_isWordStart {c : Char} (h : isWordStart c) : isGap c = false := by
  refine isGap_eq_false_of_isWordPart ?_
  rw [isWordStart, Bool.or_eq_true] at h
  rw [isWordPart, Char.isAlphanum, Bool.or_eq_true, Bool.or_eq_true]
  exact h.imp_right Or.inl

theorem Symbol.isGap_eq_false_of_single {c : Char} {s : Symbol} (h : single? c = some s) :
    isGap c = false := by
  unfold single? at h
  split at h <;> first | rfl | cases h

theorem SymbolPair.isGap_eq_false {c : Char} {p : SymbolPair} (h : of? c = some p) :
    isGap c = false ∧ isGap p.second = false := by
  unfold of? at h
  split at h <;> first | (cases h; exact ⟨rfl, rfl⟩) | cases h

namespace Lexeme

variable {l : Lexeme} {c : Char} {w word rest : List Char}

/-- What starts with a quote is a string. -/
theorem Shape.of_quote (h : l.Shape '"' w) : ∃ body, '"' ∉ body ∧ w = body ++ ['"'] := by
  cases h with
  | string hbody => exact ⟨_, hbody, rfl⟩
  | single hs => cases hs
  | alone hp | paired hp => cases hp
  | int hc | float hc => cases hc
  | word hc => cases hc

/-- Nothing but a string has a blank in it. -/
theorem Shape.isGap_eq_false (h : l.Shape c w) (hc : c ≠ '"') : ∀ x ∈ c :: w, isGap x = false := by
  cases h with
  | string _ => exact absurd rfl hc
  | single hs =>
      have := Symbol.isGap_eq_false_of_single hs
      simpa using this
  | alone hp =>
      have := (SymbolPair.isGap_eq_false hp).1
      simpa using this
  | paired hp =>
      have := SymbolPair.isGap_eq_false hp
      simpa using this
  | int hdigit hdigits =>
      refine List.forall_mem_cons.mpr ⟨isGap_eq_false_of_isDigit hdigit, fun x hx => ?_⟩
      exact isGap_eq_false_of_isDigit (hdigits x hx)
  | float hdigit hwhole hfraction =>
      refine List.forall_mem_cons.mpr ⟨isGap_eq_false_of_isDigit hdigit, ?_⟩
      refine List.forall_mem_append.mpr
        ⟨fun x hx => ?_, List.forall_mem_cons.mpr ⟨rfl, fun x hx => ?_⟩⟩
      · exact isGap_eq_false_of_isDigit (hwhole x hx)
      · exact isGap_eq_false_of_isDigit (hfraction x hx)
  | word hstart hmore =>
      refine List.forall_mem_cons.mpr ⟨isGap_eq_false_of_isWordStart hstart, fun x hx => ?_⟩
      exact isGap_eq_false_of_isWordPart (hmore x hx)

/-- A blank in a word is inside of quotes. -/
theorem Spelled.quoted {x : Char} (h : l.Spelled word) (hx : x ∈ word) (hgap : isGap x) :
    ∃ body, '"' ∉ body ∧ word = '"' :: (body ++ ['"']) := by
  obtain ⟨c, w, rfl, hshape⟩ := spelled_iff_shape.mp h
  -- what does not start with a quote has no blank at all
  by_cases hc : c = '"'
  · subst hc
    obtain ⟨body, hbody, rfl⟩ := hshape.of_quote
    exact ⟨body, hbody, rfl⟩
  · rw [hshape.isGap_eq_false hc x hx] at hgap
    cases hgap

/-- What stands behind a word and has a blank in it does not make the word longer. -/
theorem Spelled.not_spelled_append {l' : Lexeme} {x : Char} {more : List Char} (h : l.Spelled word)
    (hx : x ∈ more) (hgap : isGap x) : ¬l'.Spelled (word ++ more) := by
  intro hl'
  -- the longer lexeme has the blank in it, so both of them start with a quote
  obtain ⟨body', hbody', heq⟩ := hl'.quoted (List.mem_append_right _ hx) hgap
  obtain ⟨c, w, rfl, hshape⟩ := spelled_iff_shape.mp h
  obtain rfl : c = '"' := (List.cons_eq_cons.mp heq).1
  obtain ⟨body, hbody, rfl⟩ := hshape.of_quote
  have htail : body ++ ['"'] ++ more = body' ++ ['"'] := (List.cons_eq_cons.mp heq).2
  -- and the shorter one has its second quote inside of the longer one
  have hinside : (body ++ ['"'] ++ more).dropLast = body' := by rw [htail, List.dropLast_concat]
  rw [List.dropLast_append_of_ne_nil (List.ne_nil_of_mem hx)] at hinside
  exact hbody' (by rw [← hinside]; simp)

/-- **A word is the longest lexeme in front of a blank or the end.** -/
theorem Spelled.longest (h : l.Spelled word) (hrest : ∀ c ∈ rest.head?, isGap c) :
    l.Longest word.length (word ++ rest) := by
  refine ⟨by simp, by rwa [List.take_left' rfl], fun m hlt hle l' => ?_⟩
  cases rest with
  | nil =>
      rw [List.append_nil] at hle
      omega
  | cons x rest =>
      obtain ⟨k, rfl⟩ : ∃ k, m = word.length + (k + 1) := ⟨m - word.length - 1, by omega⟩
      -- a longer lexeme would have the blank in it that follows the word
      rw [List.take_length_add_append, List.take_succ_cons]
      exact h.not_spelled_append List.mem_cons_self (hrest x rfl)

/-- Neither a blank nor a comment starts with a word in front of a blank or the end. -/
theorem Spelled.stops (h : l.Spelled word) (hrest : ∀ c ∈ rest.head?, isGap c) :
    Stops (word ++ rest) := by
  obtain ⟨c, w, rfl, hshape⟩ := spelled_iff_shape.mp h
  refine ⟨fun x hx => ?_, fun hslashes => ?_⟩
  · cases hx
    by_cases hc : c = '"'
    · rw [hc]
      rfl
    · exact hshape.isGap_eq_false hc c List.mem_cons_self
  · obtain ⟨rfl, hhead⟩ := slashes_prefix_iff.mp hslashes
    cases hshape with
    | single hs => cases hs
    -- a slash is a lexeme of its own only if no second one follows, and here a blank or the end
    -- does
    | alone hp => cases hrest _ hhead
    | paired hp =>
        cases hp
        cases hhead
    | int hc | float hc => cases hc
    | word hc => cases hc

end Lexeme

/-! ## Texts between words -/

/-- Blanks, and comments that end with their line. -/
inductive Filler : List Char → Prop where
  | nil : Filler []
  | blank {c : Char} {rest : List Char} : isGap c → Filler rest → Filler (c :: rest)
  | comment {body rest : List Char} :
      '\n' ∉ body → Filler rest → Filler ('/' :: '/' :: (body ++ '\n' :: rest))

/-- A filler that begins with a blank. -/
structure Separator (gap : List Char) : Prop where
  filler : Filler gap
  blank : ∃ c, gap.head? = some c ∧ isGap c

/-- What may stand behind the last word: nothing, or a separator, and then perhaps a comment that
ends with the text. -/
inductive Trailer : List Char → Prop where
  | nil : Trailer []
  | separator {gap : List Char} : Separator gap → Trailer gap
  | comment {gap body : List Char} :
      Separator gap → '\n' ∉ body → Trailer (gap ++ '/' :: '/' :: body)

/-- Further words, each of them behind a separator, and a trailer behind the last one. -/
inductive Continued : List (List Char) → List Char → Prop where
  | nil {trailer : List Char} : Trailer trailer → Continued [] trailer
  | cons {gap word rest : List Char} {words : List (List Char)} :
      Separator gap → Continued words rest → Continued (word :: words) (gap ++ (word ++ rest))

/-- The texts that consist of these words, in any format. -/
inductive Reformatted : List (List Char) → List Char → Prop where
  | nil {lead trailer : List Char} :
      Filler lead → Trailer trailer → Reformatted [] (lead ++ trailer)
  | cons {lead word rest : List Char} {words : List (List Char)} :
      Filler lead → Continued words rest → Reformatted (word :: words) (lead ++ (word ++ rest))

theorem Filler.blanks_append {filler skipped rest : List Char} (h : Filler filler)
    (hskipped : Blanks skipped rest) : Blanks (filler ++ skipped) rest := by
  induction h with
  | nil => exact hskipped
  | blank hc _ ih => exact .blank hc ih
  | @comment body filler hbody _ ih =>
      -- the line feed ends the comment and is the next blank
      have hline : Blanks ('\n' :: (filler ++ skipped)) rest := .blank rfl ih
      have hcomment := Blanks.comment hbody (fun c hc => by cases hc; rfl) hline
      simpa using hcomment

theorem Filler.blanks {filler : List Char} (h : Filler filler) (rest : List Char) :
    Blanks filler rest := by
  have hnil : Blanks [] rest := .nil
  simpa using h.blanks_append hnil

theorem Trailer.blanks {trailer : List Char} (h : Trailer trailer) : Blanks trailer [] := by
  cases h with
  | nil => exact .nil
  | separator hgap => exact hgap.filler.blanks []
  | @comment gap body hgap hbody =>
      have hcomment : Blanks ('/' :: '/' :: (body ++ [])) [] := .comment hbody (by simp) .nil
      rw [List.append_nil] at hcomment
      exact hgap.filler.blanks_append hcomment

theorem Separator.head?_append {gap : List Char} (h : Separator gap) (rest : List Char) :
    ∀ c ∈ (gap ++ rest).head?, isGap c := by
  obtain ⟨c, hhead, hc⟩ := h.blank
  intro x hx
  rw [List.head?_append, hhead] at hx
  cases hx
  exact hc

/-- Behind a word there is a blank or the end. -/
theorem Continued.head? {words : List (List Char)} {text : List Char} (h : Continued words text) :
    ∀ c ∈ text.head?, isGap c := by
  cases h with
  | nil htrailer =>
      cases htrailer with
      | nil => simp
      | separator hgap =>
          have hhead := hgap.head?_append []
          rwa [List.append_nil] at hhead
      | comment hgap _ => exact hgap.head?_append _
  | cons hgap _ => exact hgap.head?_append _

/-! ## The tokens of the new text -/

section Tokens

variable {word : Token → List Char} {tokens : List Token} {text : List Char}

/-- A word behind a filler, and in front of a blank or the end, is a token. -/
theorem lexed_word {token : Token} {filler rest : List Char} {offset : Nat}
    (hfiller : Filler filler)
    (hword : token.lexeme.Spelled (word token)) (hrest : ∀ c ∈ rest.head?, isGap c)
    (hbehind : ∀ offset, ∃ tokens', tokens'.map (·.lexeme) = tokens.map (·.lexeme) ∧
      Lexed offset rest tokens') :
    ∃ tokens', tokens'.map (·.lexeme) = (token :: tokens).map (·.lexeme) ∧
      Lexed offset (filler ++ (word token ++ rest)) tokens' := by
  let span : Span := .ofLength (offset + filler.length) (word token).length
  obtain ⟨tokens', hlexemes, hlexed⟩ := hbehind span.stop
  refine ⟨⟨token.lexeme, span⟩ :: tokens', by rw [List.map_cons, hlexemes, List.map_cons], ?_⟩
  refine .cons (hfiller.blanks _) (hword.stops hrest) (hword.longest hrest) rfl ?_
  rw [List.drop_left' rfl]
  exact hlexed

theorem Continued.lexed (hwords : ∀ token ∈ tokens, token.lexeme.Spelled (word token))
    (h : Continued (tokens.map word) text) (offset : Nat) :
    ∃ tokens', tokens'.map (·.lexeme) = tokens.map (·.lexeme) ∧ Lexed offset text tokens' := by
  induction tokens generalizing text offset with
  | nil =>
      cases h with
      | nil htrailer => exact ⟨[], rfl, .nil htrailer.blanks⟩
  | cons token tokens ih =>
      rw [List.forall_mem_cons] at hwords
      cases h with
      | cons hgap hrest => exact lexed_word hgap.filler hwords.1 hrest.head? (ih hwords.2 hrest)

/-- **A text in another format has the same lexemes.** -/
theorem Reformatted.lexed (hwords : ∀ token ∈ tokens, token.lexeme.Spelled (word token))
    (h : Reformatted (tokens.map word) text) :
    ∃ tokens', tokens'.map (·.lexeme) = tokens.map (·.lexeme) ∧ Lexed 0 text tokens' := by
  cases tokens with
  | nil =>
      cases h with
      | nil hlead htrailer => exact ⟨[], rfl, .nil (hlead.blanks_append htrailer.blanks)⟩
  | cons token tokens =>
      rw [List.forall_mem_cons] at hwords
      cases h with
      | cons hlead hrest => exact lexed_word hlead hwords.1 hrest.head? (hrest.lexed hwords.2)

end Tokens

/-- The text of a token spells its lexeme. -/
theorem Source.spelled_slice {s : Source} {tokens : List Token} (h : s.tokens = .ok tokens) :
    ∀ token ∈ tokens, token.lexeme.Spelled (s.slice token.span).toList := by
  intro token htoken
  have haccount : Account ([] ++ s.text.toList) 0 s.scan := (Cursor.start s.text).account_scan rfl
  rw [Source.mapM_id_eq_ok_iff.mp h, List.nil_append] at haccount
  obtain ⟨hreads, _⟩ := haccount.reads (.ok token) (List.mem_map_of_mem htoken)
  cases hreads with
  | token hlongest =>
      rw [Source.slice, String.toList_ofList, List.drop_take]
      exact hlongest.spelled

/-! ## The program of the new text -/

/-- The statements without their places. -/
def placeless : List Stmt → List Stmt := Stmt.mapSpansAll fun _ => .nowhere

/-- What is read is, but for places, up to the lexemes. -/
theorem ProgramReader.read_placeless (d : Dialect) (tokens : List Token) (endSpan : Span) :
    mapRead (fun _ => .nowhere) placeless (read d tokens endSpan) =
      read d ((tokens.map (·.lexeme)).map (⟨·, .nowhere⟩)) .nowhere := by
  rw [List.map_map]
  exact (read_mapSpans (fun _ _ => rfl) tokens endSpan).symm

theorem Source.parse_eq_read {s : Source} {tokens : List Token} (h : s.tokens = .ok tokens)
    (d : Dialect) : s.parse d = ProgramReader.read d tokens s.endSpan := by
  rw [Source.parse, h]
  rfl

/-- **Reformatting a program does not change it.** -/
theorem Source.parse_reformatted {s s' : Source} {tokens : List Token} (h : s.tokens = .ok tokens)
    (htext : Reformatted (tokens.map fun token => (s.slice token.span).toList) s'.text.toList) :
    (∃ tokens', s'.tokens = .ok tokens' ∧ tokens'.map (·.lexeme) = tokens.map (·.lexeme)) ∧
      ∀ d : Dialect,
        (∀ program, s.parse d = .ok program →
          ∃ program', s'.parse d = .ok program' ∧ placeless program' = placeless program) ∧
        (∀ e, s.parse d = .error e →
          ∃ e', s'.parse d = .error e' ∧ e'.cause.message = e.cause.message) := by
  obtain ⟨tokens', hlexemes, hlexed⟩ := htext.lexed (Source.spelled_slice h)
  have htokens' : s'.tokens = .ok tokens' := Source.tokens_eq_ok_iff.mpr hlexed
  refine ⟨⟨tokens', htokens', hlexemes⟩, fun d => ?_⟩
  -- without places, a program is read off its lexemes alone
  have hsame : mapRead (fun _ => .nowhere) placeless (s'.parse d) =
      mapRead (fun _ => .nowhere) placeless (s.parse d) := by
    rw [Source.parse_eq_read htokens', Source.parse_eq_read h, ProgramReader.read_placeless,
      ProgramReader.read_placeless, hlexemes]
  constructor
  · intro program hprogram
    rw [hprogram] at hsame
    cases hparse : s'.parse d with
    | error e' =>
        rw [hparse] at hsame
        cases hsame
    | ok program' =>
        rw [hparse] at hsame
        exact ⟨program', rfl, Except.ok.inj hsame⟩
  · intro e he
    rw [he] at hsame
    cases hparse : s'.parse d with
    | ok program' =>
        rw [hparse] at hsame
        cases hsame
    | error e' =>
        rw [hparse] at hsame
        have hforgotten : e'.mapSpan (fun _ => .nowhere) = e.mapSpan (fun _ => .nowhere) :=
          Except.error.inj hsame
        have hcause : e'.cause = e.cause := (ParseError.mk.inj hforgotten).1
        exact ⟨e', rfl, by rw [hcause]⟩

/-- A quotient that is written without any blank. -/
def dense : Source := ⟨"dense", "x=1/y;"⟩

/-- The same with blanks and comments. -/
def loose : Source := ⟨"loose", "// \"\nx = 1 /\n// ;\ny ; // end"⟩

/-- Neither the quote nor the semicolon in a comment belongs to the program, and the quotient does
not become a comment. -/
theorem Source.parse_reformatted_quotient :
    (∃ program, dense.parse {} = .ok program) ∧
      ∀ program, dense.parse {} = .ok program →
        ∃ program', loose.parse {} = .ok program' ∧ placeless program' = placeless program := by
  have htokens : dense.tokens = .ok
      [⟨.identifier "x", .ofLength 0 1⟩, ⟨.symbol .equal, .ofLength 1 1⟩, ⟨.int 1, .ofLength 2 1⟩,
       ⟨.symbol .slash, .ofLength 3 1⟩, ⟨.identifier "y", .ofLength 4 1⟩,
       ⟨.symbol .semicolon, .ofLength 5 1⟩] := by cbv
  have hblank : Separator [' '] := ⟨.blank rfl .nil, ' ', rfl, rfl⟩
  have hlead : Filler "// \"\n".toList := @Filler.comment [' ', '"'] [] (by decide) .nil
  have hcomment : Separator "\n// ;\n".toList :=
    ⟨.blank rfl (@Filler.comment [' ', ';'] [] (by decide) .nil), '\n', rfl, rfl⟩
  have hend : Trailer " // end".toList :=
    @Trailer.comment [' '] [' ', 'e', 'n', 'd'] hblank (by decide)
  have hloose : Reformatted [['x'], ['='], ['1'], ['/'], ['y'], [';']] loose.text.toList :=
    @Reformatted.cons _ ['x'] _ _ hlead (@Continued.cons _ ['='] _ _ hblank
      (@Continued.cons _ ['1'] _ _ hblank (@Continued.cons _ ['/'] _ _ hblank
        (@Continued.cons _ ['y'] _ _ hcomment (@Continued.cons _ [';'] _ _ hblank (.nil hend))))))
  refine ⟨⟨_, by rw [Source.parse_eq_read htokens]; rfl⟩, ?_⟩
  exact ((Source.parse_reformatted htokens hloose).2 {}).1

end Stepwise
