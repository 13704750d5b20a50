import LangId.Proofs.Token.Prefixes

/-!
# Literals

What stands between the quotes of a literal is passed over as a whole: a quoted text ends at the first
quote of its kind that no backslash hides (`afterQuote?_append`), so a literal is one token, whatever
its contents, and reading goes on behind it as at the beginning of a content
(`tokensFrom_literal`). In front of it, no other token reaches up to the quote, for quotes separate.

**Results.**
* `tokenize_literal`: the contents of a literal make no difference to the tokens, and the literal is
  one of them, between those in front and those behind.
-/
namespace LangId.Token

open Text

variable {quote : Char} {a b s s' : List Char}

/-- The contents of a literal: a backslash with the character that it hides, or a character that is
neither the quote nor a backslash, all in one line. -/
inductive Contents (quote : Char) : List Char → Prop where
  | nil : Contents quote []
  | hidden {c : Char} {s : List Char} (line : c ≠ '\n') (rest : Contents quote s) :
      Contents quote ('\\' :: c :: s)
  | plain {c : Char} {s : List Char} (ends : c ≠ quote) (hides : c ≠ '\\') (line : c ≠ '\n')
      (rest : Contents quote s) : Contents quote (c :: s)

theorem separates_quote (h : quote = '"' ∨ quote = '\'') : Separates quote := by
  rcases h with rfl | rfl
  · exact ⟨by decide +kernel, by decide +kernel, by decide +kernel, by decide +kernel⟩
  · exact ⟨by decide +kernel, by decide +kernel, by decide +kernel, by decide +kernel⟩

/-- A literal ends behind its contents. -/
theorem afterQuote?_append (hquote : quote ≠ '\\') (hs : Contents quote s) (rest : List Char) :
    afterQuote? quote (s ++ quote :: rest) = some rest := by
  induction hs with
  | nil => rw [List.nil_append, afterQuote?_cons hquote, if_pos (beq_self_eq_true quote)]
  | hidden line _ ih =>
    rw [List.cons_append, List.cons_append, afterQuote?_hidden, if_neg (by simpa using line), ih]
  | plain ends hides line _ ih =>
    rw [List.cons_append, afterQuote?_cons hides, if_neg (by simpa using ends),
      if_neg (by simpa using line), ih]

/-- **One literal.** It is one token, and nothing of it shows in those behind. -/
theorem tokensFrom_literal (hquote : quote = '"' ∨ quote = '\'') (hs : Contents quote s)
    (joined : Bool) : tokensFrom joined (quote :: (s ++ quote :: b)) =
      string :: tokensFrom false b := by
  have hslash : quote ≠ '\\' := by rcases hquote with rfl | rfl <;> decide
  have hopens : (quote == '"' || quote == '\'') = true := by simpa using hquote
  have hscan : scan joined quote (s ++ quote :: b) = ⟨some string, false, b⟩ := by
    simp only [scan, hopens, if_true, afterQuote?_append hslash hs]
  rw [tokensFrom_cons, hscan]
  rfl

/-- The tokens of a content with a literal behind a part that has no quotes. -/
theorem ofContent_literal (hquote : quote = '"' ∨ quote = '\'') (ha : '"' ∉ a ∧ '\'' ∉ a)
    (hbody : ¬"#!".toList <+: a) (hs : Contents quote s) :
    ofContent (a ++ quote :: (s ++ quote :: b)) = ofContent a ++ string :: ofBody b := by
  have hmark : quote ∉ "#!".toList := by rcases hquote with rfl | rfl <;> decide
  have hnone : ∀ q ∈ a, q = '"' ∨ q = '\'' → StopsBefore quote (afterQuote? q) := by
    rintro q hq (rfl | rfl)
    · exact absurd hq ha.1
    · exact absurd hq ha.2
  rw [ofContent_append hmark hbody, ofContent_eq hbody,
    tokensFrom_append (separates_quote hquote) hnone (tokensFrom_literal hquote hs), ofBody_eq]

/-- **Literals.** Behind a part of a content that has no quotes, the contents of a literal make no
difference to the tokens, with whatever bound; and the literal is one token, between those of the part in
front and those behind it, as far as the bound lets them be read. -/
theorem tokenize_literal (hquote : quote = '"' ∨ quote = '\'') (ha : '"' ∉ a ∧ '\'' ∉ a)
    (hbody : ¬"#!".toList <+: a) (hs : Contents quote s) (hs' : Contents quote s') (b : List Char)
    (bound : Nat) :
    tokenize (a ++ quote :: (s ++ quote :: b)) bound =
        tokenize (a ++ quote :: (s' ++ quote :: b)) bound ∧
      tokenize (a ++ quote :: (s ++ quote :: b)) bound =
        (ofContent a ++ string :: ofBody b).take bound := by
  refine ⟨?_, ?_⟩
  · rw [tokenize, tokenize, ofContent_literal hquote ha hbody hs,
      ofContent_literal hquote ha hbody hs']
  · rw [tokenize, ofContent_literal hquote ha hbody hs]

theorem tokenize_literal_hidden_quote :
    (Contents '"' "a \\\" b".toList ∧ Contents '"' "#!".toList) ∧
      tokenize ("x=\"a \\\" b\"2".toList) 9 = tokenize ("x=\"#!\"2".toList) 9 ∧
      tokenize ("x=\"a \\\" b\"2".toList) 9 = ["x", "=", string, number] := by
  have hescaped : Contents '"' "a \\\" b".toList :=
    .plain (by decide) (by decide) (by decide) (.plain (by decide) (by decide) (by decide)
      (.hidden (by decide) (.plain (by decide) (by decide) (by decide)
        (.plain (by decide) (by decide) (by decide) .nil))))
  have hmark : Contents '"' "#!".toList :=
    .plain (by decide) (by decide) (by decide) (.plain (by decide) (by decide) (by decide) .nil)
  have hliteral := tokenize_literal (a := "x=".toList) (.inl rfl) (by decide) (by decide) hescaped
    hmark "2".toList 9
  refine ⟨⟨hescaped, hmark⟩, hliteral.1, hliteral.2.trans ?_⟩
  decide +kernel

end LangId.Token
