import Stepwise.Proofs.Arising
import Stepwise.Proofs.DecimalText
import Stepwise.Proofs.Reformatting
import Stepwise.Proofs.Reparsing

/-!
# Values are read back

The text of a value in diagnostics is an expression, and its value is the one that was written: an
integer gives its digits, with a minus sign in front of a negative one, and a string gives itself
between quotes. That needs two things.

A string with a quote in it could not be written so, but none arises (`Arises.quoteFree`): a
literal ends at its second quote, and the operators only put strings together.

The digits that are written are those that are read (`Text.Decimal.spelled_digits`), however long
the number is. A negative number is read as two tokens, because a digit behind the minus sign does
not extend it (`Lexed.minus`).
-/

namespace Stepwise

open Grammar

/-! ## Quotes -/

/-- Whether a value can stand between quotes. -/
def Value.QuoteFree : Value → Prop
  | .string s => '"' ∉ s.toList
  | .int _ | .float _ | .bool _ => True

/-- Only `+` makes new strings, and it makes no quotes. -/
theorem Value.kept_quoteFree : Value.Kept QuoteFree where
  bool _ := trivial
  binary op a b v ha hb happly := by
    unfold BinaryOp.apply at happly
    split at happly
    · -- a comparison gives a truth value
      split at happly
      · cases happly
        trivial
      · cases happly
    · split at happly
      · split at happly <;> cases happly
        trivial
      · split at happly <;> cases happly
        trivial
      · -- the strings of a sum stand in it one behind the other
        split at happly <;> cases happly
        rw [QuoteFree, String.toList_append, List.mem_append, not_or]
        exact ⟨ha, hb⟩
      · cases happly
  unary op a v ha happly := by
    unfold UnaryOp.apply at happly
    split at happly <;> cases happly <;> trivial

theorem Lexeme.Spelled.quoteFree {l : Lexeme} {word : List Char} (h : l.Spelled word) {v : Value}
    (hv : l.value? = some v) : v.QuoteFree := by
  cases h with
  | symbol | keyword | identifier => cases hv
  | yes | no | int | float =>
      cases hv
      trivial
  | string hbody =>
      cases hv
      rw [Value.QuoteFree, String.toList_ofList]
      exact hbody

/-- **No string of a run has a quote in it.** -/
theorem Arises.quoteFree {s : Source} {d : Dialect} {program : List Stmt}
    (h : s.parse d = .ok program) {v : Value} (hv : Arises program v) : v.QuoteFree := by
  refine hv.satisfies Value.kept_quoteFree (Source.carriesAll_parse h ?_)
  intro tokens htokens token htoken v hvalue
  exact (Source.spelled_slice htokens token htoken).quoteFree hvalue

/-! ## Tokens -/

namespace Text.Decimal

theorem isDigit_of_mem_digits {n : Nat} {c : Char} (h : c ∈ digits n) : c.isDigit := by
  rw [digits_eq] at h
  exact Nat.isDigit_of_mem_toDigits (by omega) (by omega) h

/-- The digits of a number spell it. -/
theorem spelled_digits (n : Nat) : (Lexeme.int n).Spelled (digits n) := by
  have hne : digits n ≠ [] := by
    rw [digits_eq]
    exact Nat.toDigits_ne_nil
  have hvalue : Nat.ofDigitChars 10 (digits n) 0 = n := by
    rw [digits_eq, Nat.ofDigitChars_ten_toDigits]
  have h : (Lexeme.int (Nat.ofDigitChars 10 (digits n) 0)).Spelled (digits n) :=
    .int hne fun c hc => isDigit_of_mem_digits hc
  rwa [hvalue] at h

/-- A negative number has a sign in front. -/
theorem toList_ofInt (n : Int) :
    (ofInt n).toList = if n < 0 then '-' :: digits n.natAbs else digits n.natAbs := by
  unfold ofInt ofNat
  split <;> simp

end Text.Decimal

/-- A text that spells a lexeme has no other token. -/
theorem Lexeme.Spelled.lexed {l : Lexeme} {word : List Char} (h : l.Spelled word) (offset : Nat) :
    Lexed offset word [⟨l, .ofLength offset word.length⟩] := by
  have hend : ∀ c ∈ ([] : List Char).head?, Scanned.isGap c := nofun
  have hstops := h.stops hend
  have hlongest := h.longest hend
  rw [List.append_nil] at hstops hlongest
  refine @Lexed.cons offset word.length [] word _ [] .nil hstops hlongest rfl ?_
  rw [List.drop_length]
  exact .nil .nil

/-- A minus sign in front of a digit is a token of its own. -/
theorem Lexed.minus {offset : Nat} {text : List Char} {tokens : List Token}
    (hdigit : ∀ c ∈ text.head?, c.isDigit) (h : Lexed (offset + 1) text tokens) :
    Lexed offset ('-' :: text) (⟨.symbol .minus, .ofLength offset 1⟩ :: tokens) := by
  have hstops : Stops ('-' :: text) := by
    refine ⟨fun c hc => ?_, fun hslashes => ?_⟩
    · cases hc
      rfl
    · cases (slashes_prefix_iff.mp hslashes).1
  have halone : Scanned.ofChars '-' text = ⟨.ok (.symbol .minus), 0⟩ := by
    -- only `=` would make it longer
    rw [Scanned.ofChars_pair text rfl, if_neg fun hequal => ?_]
    cases hdigit _ hequal
  exact @Lexed.cons offset 1 [] _ _ _ .nil hstops (Scanned.ofChars_eq_ok_iff.mp halone) rfl h

/-! ## Expressions -/

namespace Source

variable {name text : String} {v : Value}

/-- A literal is read as its value. -/
theorem parseExpr_literal {l : Lexeme} (h : l.Spelled text.toList) (hv : l.value? = some v) :
    ∃ e, Source.parseExpr ⟨name, text⟩ = .ok e ∧ e.Yields [] (.ok v) := by
  have hphrase : Phrase.Is 7 (.literal ⟨l, .ofLength 0 text.toList.length⟩ v) := .literal hv
  exact ⟨_, parseExpr_of_derives (tokens_eq_ok_iff.mpr (h.lexed 0))
    ⟨hphrase.mono (Nat.zero_le 7), rfl⟩, .literal⟩

/-- A minus sign and digits are read as a negation. -/
theorem parseExpr_negative {n : Nat} (htext : text.toList = '-' :: Text.Decimal.digits n) :
    ∃ e, Source.parseExpr ⟨name, text⟩ = .ok e ∧ e.Yields [] (.ok (.int (-n))) := by
  have hdigits := Text.Decimal.spelled_digits n
  have hhead : ∀ c ∈ (Text.Decimal.digits n).head?, c.isDigit := fun c hc =>
    Text.Decimal.isDigit_of_mem_digits (List.mem_of_mem_head? hc)
  have hlexed := (hdigits.lexed 1).minus hhead
  rw [← htext] at hlexed
  have hliteral : Phrase.Is 6
      (.literal ⟨.int n, .ofLength 1 (Text.Decimal.digits n).length⟩ (.int n)) :=
    .tighter (.literal rfl)
  have hphrase : Phrase.Is 6 (.unary .negate ⟨.symbol .minus, .ofLength 0 1⟩ _) :=
    .unary rfl (by decide) hliteral
  exact ⟨_, parseExpr_of_derives (tokens_eq_ok_iff.mpr hlexed) ⟨hphrase.mono (Nat.zero_le 6), rfl⟩,
    .unary .literal rfl⟩

/-- **The text of a value is an expression with this value**, unless the value is a float or has a
quote in it. -/
theorem parseExpr_diagnostic (hquotes : v.QuoteFree) (hfloat : v.type ≠ .float) :
    ∃ e, Source.parseExpr ⟨name, v.diagnostic⟩ = .ok e ∧ e.Yields [] (.ok v) := by
  cases v with
  | int n =>
      have htext : (Value.int n).diagnostic.toList = _ := Text.Decimal.toList_ofInt n
      by_cases hn : n < 0
      · -- there is no negative literal, so this is an operation
        rw [if_pos hn] at htext
        obtain ⟨e, hparse, hyields⟩ := parseExpr_negative htext
        have hneg : -(n.natAbs : Int) = n := by omega
        rw [hneg] at hyields
        exact ⟨e, hparse, hyields⟩
      · rw [if_neg hn] at htext
        have hvalue : (Lexeme.int n.natAbs).value? = some (.int n) := by
          rw [Lexeme.value?, Int.natAbs_of_nonneg (Int.not_lt.mp hn)]
        exact parseExpr_literal (htext ▸ Text.Decimal.spelled_digits _) hvalue
  | float x => exact absurd rfl hfloat
  | string s =>
      have hspelled : (Lexeme.string s).Spelled ('"' :: (s.toList ++ ['"'])) := by
        have h := Lexeme.Spelled.string hquotes
        rwa [String.ofList_toList] at h
      have htext : (Value.string s).diagnostic.toList = '"' :: (s.toList ++ ['"']) := by
        rw [Value.diagnostic, String.toList_append, String.toList_append]
        rfl
      exact parseExpr_literal (htext ▸ hspelled) rfl
  | bool b =>
      cases b with
      | true => exact parseExpr_literal .yes rfl
      | false => exact parseExpr_literal .no rfl

/-- **Values are read back.** No string that arises in a run has a quote in it. The diagnostic
text of every value that arises, a float apart, is an expression, and evaluating it without any
variables gives the value. -/
theorem values_readBack {s : Source} {d : Dialect} {program : List Stmt}
    (h : s.parse d = .ok program) (hv : Arises program v) :
    (∀ text, v = .string text → '"' ∉ text.toList) ∧
      (v.type ≠ .float → ∀ name, ∃ e, Source.parseExpr ⟨name, v.diagnostic⟩ = .ok e ∧
        (e.eval []).result = .ok v) := by
  have hquotes := hv.quoteFree h
  refine ⟨fun text htext => ?_, fun hfloat name => ?_⟩
  · subst htext
    exact hquotes
  · obtain ⟨e, hparse, hyields⟩ := parseExpr_diagnostic hquotes hfloat
    exact ⟨e, hparse, Expr.yields_iff.mp hyields⟩

/-- A difference below zero, and a string with the start of a comment behind a line break. -/
def shown : Source := ⟨"main", "print 3 - 10; print \"a\" + \"\n//\";"⟩

/-- The program of `shown`. -/
def shownProgram : List Stmt :=
  [.print (.ofLength 0 13)
    (.binary (.ofLength 6 6) (.literal (.ofLength 6 1) (.int 3)) ⟨.ofLength 8 1, .arith .subtract⟩
      (.literal (.ofLength 10 2) (.int 10))),
   .print (.ofLength 14 18)
    (.binary (.ofLength 20 11) (.literal (.ofLength 20 3) (.string "a"))
      ⟨.ofLength 24 1, .arith .add⟩ (.literal (.ofLength 26 5) (.string "\n//")))]

/-- Both results that are printed are read back, the first one as a negation and the second one as
a string in which no comment starts. -/
theorem values_readBack_shown :
    shown.parse {} = .ok shownProgram ∧ Arises shownProgram (.int (-7)) ∧
      Arises shownProgram (.string "a\n//") ∧
      (∃ e, Source.parseExpr ⟨"int", "-7"⟩ = .ok e ∧ (e.eval []).result = .ok (.int (-7))) ∧
      '"' ∉ "a\n//".toList ∧
      ∃ e, Source.parseExpr ⟨"string", "\"a\n//\""⟩ = .ok e ∧
        (e.eval []).result = .ok (.string "a\n//") := by
  have hparse : shown.parse {} = .ok shownProgram := by cbv
  have hprinted (n : Nat) (span : Span) (x : Located Value)
      (h : (Machine.recordAt shownProgram n).map (·.action) = some (.print span x)) :
      Arises shownProgram x.value := by
    obtain ⟨r, hr, haction⟩ := Option.map_eq_some_iff.mp h
    exact .shown hr (by rw [haction]; exact List.mem_cons_self)
  have hint : Arises shownProgram (.int (-7)) :=
    hprinted 1 (.ofLength 0 13) ⟨.ofLength 6 6, _⟩ (by decide +kernel)
  have hstring : Arises shownProgram (.string "a\n//") :=
    hprinted 3 (.ofLength 14 18) ⟨.ofLength 20 11, _⟩ (by decide +kernel)
  have hdigits : (Value.int (-7)).diagnostic = "-7" := by cbv
  refine ⟨hparse, hint, hstring, ?_, (values_readBack hparse hstring).1 _ rfl, ?_⟩
  · rw [← hdigits]
    exact (values_readBack hparse hint).2 (by decide) "int"
  · exact (values_readBack hparse hstring).2 (by decide) "string"

end Source

end Stepwise
