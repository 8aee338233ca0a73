import Stepwise.Proofs.Grammar

/-!
# The order of tokens

Reading goes from left to right and never back, so the tokens of a text stand in the order of their
places and do not overlap, and no token is empty. The cursor carries this: a token starts at or
behind the cursor before it and ends at the cursor behind it.
-/

namespace Stepwise

open Grammar

namespace Cursor

theorem offset_le_skipGap (inComment : Bool) (offset : Nat) (cs : List Char) :
    offset ≤ (skipGap inComment offset cs).offset := by
  induction cs generalizing inComment offset with
  | nil => exact Nat.le_refl offset
  | cons c cs ih =>
      -- a character of a comment or a blank is passed, or the gap ends here
      unfold skipGap
      split
      · exact Nat.le_of_succ_le (ih _ _)
      · split
        · exact Nat.le_of_succ_le (ih _ _)
        · split
          · exact Nat.le_of_succ_le (ih _ _)
          · exact Nat.le_refl offset

/-- A token lies between the cursors before and behind it, and is not empty. -/
theorem next?_token {cur after : Cursor} {token : Token}
    (h : cur.next? = some (.ok token, after)) :
    cur.offset ≤ token.span.start ∧ token.span.start < token.span.stop ∧
      token.span.stop = after.offset := by
  have hle := offset_le_skipGap false cur.offset cur.rest
  unfold next? at h
  split at h
  · cases h
  · -- the token starts where the gap has ended
    rename_i offset c cs hskip
    rw [hskip] at hle
    simp only [Option.some.injEq, Prod.mk.injEq] at h
    obtain ⟨hfound, rfl⟩ := h
    split at hfound
    · cases hfound
      refine ⟨hle, ?_, rfl⟩
      simp only [Span.ofLength]
      omega
    · cases hfound

/-- The tokens from a cursor on, if there is no error among them. -/
theorem ordered_of_scan (cur : Cursor) : ∀ {tokens : List Token}, cur.scan.mapM id = .ok tokens →
    Ordered tokens ∧
      ∀ token ∈ tokens, cur.offset ≤ token.span.start ∧ token.span.start < token.span.stop := by
  fun_induction scan cur with
  | case1 cur hnext =>
      intro tokens h
      cases h
      exact ⟨List.Pairwise.nil, nofun⟩
  | case2 cur found after hnext hlt ih =>
      intro tokens h
      rw [List.mapM_cons] at h
      cases found with
      | error err => cases h
      | ok token =>
          cases hrest : after.scan.mapM id with
          | error err =>
              rw [hrest] at h
              cases h
          | ok rest =>
              rw [hrest] at h
              cases h
              -- all other tokens start behind the cursor that this one leaves
              obtain ⟨hordered, hplaces⟩ := ih hrest
              obtain ⟨hstart, hnonempty, hstop⟩ := next?_token hnext
              refine ⟨List.pairwise_cons.mpr ⟨fun b hb => ?_, hordered⟩, fun b hb => ?_⟩
              · rw [hstop]
                exact (hplaces b hb).1
              · rcases List.mem_cons.mp hb with rfl | hb
                · exact ⟨hstart, hnonempty⟩
                · have := hplaces b hb
                  omega

end Cursor

/-- **The tokens of a text are ordered, and none of them is empty.** -/
theorem Source.ordered_tokens {s : Source} {tokens : List Token} (h : s.tokens = .ok tokens) :
    Ordered tokens ∧ ∀ token ∈ tokens, token.span.start < token.span.stop := by
  obtain ⟨hordered, hplaces⟩ := (Cursor.start s.text).ordered_of_scan h
  exact ⟨hordered, fun token htoken => (hplaces token htoken).2⟩

/-- No two tokens of a text start at the same place. -/
theorem Source.pairwise_start_tokens {s : Source} {tokens : List Token}
    (h : s.tokens = .ok tokens) : (tokens.map (·.span.start)).Pairwise (· < ·) := by
  obtain ⟨hordered, hnonempty⟩ := Source.ordered_tokens h
  rw [List.pairwise_map]
  refine List.Pairwise.imp_of_mem (fun {a b} ha _ hab => ?_) hordered
  have := hnonempty a ha
  omega

end Stepwise
