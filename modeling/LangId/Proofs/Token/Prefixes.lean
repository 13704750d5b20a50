import LangId.Proofs.Text.Pieces
import LangId.Proofs.Token.Lines

/-!
# The first tokens

A bound on tokens is heeded while reading: there is no need to look at what stands behind the first
token that is one too many (`readFirst`). What is found then are the first of all tokens
(`readFirst_eq`), the token of an interpreter, which is there before reading begins, among them
(`tokenize_eq_firstTokens`).

**Results.**
* `tokenize_eq_firstTokens`: reading that stops early finds what is left of all tokens by the bound.
* `tokenize_lines`: the tokens of two parts of a content, line by line, up to the bound.
-/
namespace LangId.Token

open Text

variable {a b : List Char}

/-! ## Stopping early -/

/-- The tokens already found and those of the content behind them. Reading stops at the first token that is
one too many. -/
def readFirst (bound : Nat) (joined : Bool) (found : List String) (s : List Char) : List String :=
  match s with
  | [] => found
  | c :: rest =>
    match (scan joined c rest).token with
    | none => readFirst bound (scan joined c rest).joined found (scan joined c rest).rest
    | some token =>
      if bound ≤ found.length then found
      else readFirst bound (scan joined c rest).joined (found ++ [token]) (scan joined c rest).rest
termination_by s.length
decreasing_by
  all_goals
    have := (scan_suffix joined c rest).length_le
    rw [List.length_cons]
    omega

/-- The first tokens of a content, read by stopping early. The token of an interpreter is found first. -/
def firstTokens (content : List Char) (bound : Nat) : List String :=
  if "#!".toList.isPrefixOf content then
    let found := (Shebang.interpreter? content).toList.map (shebangMark ++ ·)
    (readFirst bound false found (behind '\n' content)).take bound
  else (readFirst bound false [] content).take bound

theorem readFirst_eq (bound : Nat) (joined : Bool) (found : List String) (s : List Char) :
    readFirst bound joined found s =
      found ++ (tokensFrom joined s).take (bound - found.length) := by
  induction joined, s using scan_induction generalizing found with
  | nil joined =>
    have hnone : tokensFrom joined [] = [] := rfl
    rw [readFirst, hnone, List.take_nil, List.append_nil]
  | cons joined c rest ih =>
    rw [readFirst, tokensFrom_cons]
    cases (scan joined c rest).token with
    | none => exact ih found
    | some token =>
      dsimp only
      split
      · rename_i hfull
        rw [Nat.sub_eq_zero_of_le hfull, List.take_zero, List.append_nil]
      · rename_i hroom
        obtain ⟨room, hroom⟩ : ∃ room, bound - found.length = room + 1 :=
          ⟨bound - found.length - 1, by omega⟩
        have hleft : bound - (found ++ [token]).length = room := by
          rw [List.length_append, List.length_singleton]
          omega
        rw [ih, hleft, hroom, Option.toList_some, List.singleton_append, List.take_succ_cons,
          List.append_assoc, List.singleton_append]

/-- Once more tokens than the bound are there, it is no use to read on. -/
theorem take_readFirst (bound : Nat) (joined : Bool) (found : List String) (s : List Char) :
    (readFirst bound joined found s).take bound = (found ++ tokensFrom joined s).take bound := by
  rw [readFirst_eq, List.take_append, List.take_append, List.take_take, Nat.min_self]

/-- **Stopping early.** Reading that stops at the bound finds the first of all tokens. -/
theorem tokenize_eq_firstTokens (content : List Char) (bound : Nat) :
    tokenize content bound = firstTokens content bound := by
  rw [tokenize, ofContent, firstTokens]
  split
  · rw [take_readFirst, ofBody_eq]
    cases Shebang.interpreter? content <;> rfl
  · rw [take_readFirst, ofBody_eq, List.nil_append]

/-! ## Contents that are no scripts -/

theorem ofContent_eq (h : ¬"#!".toList <+: a) : ofContent a = tokensFrom false a :=
  ofContent_of_body (Bool.eq_false_iff.2 fun hmark => h (List.isPrefixOf_iff_prefix.1 hmark))

/-- What stands behind a character that is none of its mark does not make a script. -/
theorem ofContent_append {c : Char} (hc : c ∉ "#!".toList) (h : ¬"#!".toList <+: a) :
    ofContent (a ++ c :: b) = tokensFrom false (a ++ c :: b) :=
  ofContent_eq fun hmark => h ((prefix_append_iff_of_not_mem hc).1 hmark)

/-- **Line by line, up to a bound.** The tokens of two parts of a content are those of the first and then
those of the second, as if each was read on its own, whatever quoted texts are left open in the first;
with a bound, the first of these are found, and reading may stop with the last of them. -/
theorem tokenize_lines (ha : ¬"#!".toList <+: a) (hb : ¬"#!".toList <+: b) (bound : Nat) :
    tokenize (a ++ '\n' :: b) bound = (ofContent a ++ ofContent b).take bound ∧
      firstTokens (a ++ '\n' :: b) bound = (ofContent a ++ ofContent b).take bound := by
  have hall : ofContent (a ++ '\n' :: b) = ofContent a ++ ofContent b := by
    rw [ofContent_append (by decide) ha, ofContent_eq ha, ofContent_eq hb,
      tokensFrom_append_newline]
  refine ⟨?_, ?_⟩
  · rw [tokenize, hall]
  · rw [← tokenize_eq_firstTokens, tokenize, hall]

theorem tokenize_lines_open_quote :
    (¬"#!".toList <+: "say \"open".toList ∧ ¬"#!".toList <+: "x = 1".toList) ∧
      tokenize ("say \"open".toList ++ '\n' :: "x = 1".toList) 4 = ["say", "open", "x", "="] := by
  have hlines : ¬"#!".toList <+: "say \"open".toList ∧ ¬"#!".toList <+: "x = 1".toList := by
    decide +kernel
  refine ⟨hlines, (tokenize_lines hlines.1 hlines.2 4).1.trans ?_⟩
  decide +kernel

end LangId.Token
