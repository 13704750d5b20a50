import LangId.Proofs.Shebang.HandOver
import LangId.Token

/-!
# Tokens line by line

A step through a content begins at one character, and what it leaves is a suffix of what stands
behind this character. No number, word or run of punctuation reaches beyond a character that separates
(`Separates`), such as the end of a line, and a quoted text has to end before the end of its line. So
a step in front of such a character is the same whatever stands behind it (`scan_before`), and behind
the end of a line reading goes on as at the beginning of a content.

**Runs.** `scan_induction` is the induction over the steps of a run. With it, the bound on steps can
be forgotten (`ofBody_eq`, `tokensFrom_cons`).

**Results.**
* `tokensFrom_append`: the tokens up to a character that separates, and those from it on.
* `tokensFrom_append_newline`: the tokens of two lines are those of the first and then those of the
  second.
* `length_ofContent_le_tokensFrom`: what is special about the first line of a script adds no tokens.
-/
namespace LangId.Token

open Text

variable {s r more rest : List Char} {c quote : Char} {joined : Bool}

/-! ## What a step leaves -/

theorem suffix_getD_afterDigits? {t : List Char} (h : s <:+ t) : (afterDigits? s).getD t <:+ t := by
  cases hr : afterDigits? s with
  | none => exact List.suffix_rfl
  | some r =>
    cases s with
    | nil => cases hr
    | cons d rest => exact ((Shebang.suffix_of_afterRun? hr).trans (List.suffix_cons d rest)).trans h

theorem skipFraction_suffix (s : List Char) : skipFraction s <:+ s := by
  unfold skipFraction
  split
  · exact suffix_getD_afterDigits? (List.suffix_cons _ _)
  · exact List.suffix_rfl

theorem skipExponent_suffix (s : List Char) : skipExponent s <:+ s := by
  unfold skipExponent
  split
  · rename_i e rest
    split
    · split
      · rename_i sign more
        split
        · exact suffix_getD_afterDigits? ((List.suffix_cons sign more).trans (List.suffix_cons e _))
        · exact suffix_getD_afterDigits? (List.suffix_cons e _)
      · exact List.suffix_rfl
    · exact List.suffix_rfl
  · exact List.suffix_rfl

theorem suffix_of_afterHex? (h : afterHex? (c :: rest) = some r) : r <:+ rest := by
  unfold afterHex? at h
  split at h
  · rename_i x digits heq
    obtain ⟨rfl, rfl⟩ := List.cons.inj heq
    split at h
    · cases digits with
      | nil => cases h
      | cons d more =>
        exact ((Shebang.suffix_of_afterRun? h).trans (List.suffix_cons d more)).trans (List.suffix_cons x _)
    · cases h
  · cases h

theorem suffix_of_afterNumber? (h : afterNumber? (c :: rest) = some r) : r <:+ rest := by
  rw [afterNumber?] at h
  cases hhex : afterHex? (c :: rest) with
  | some t =>
    rw [hhex] at h
    obtain rfl := Option.some.inj h
    exact suffix_of_afterHex? hhex
  | none =>
    rw [hhex] at h
    obtain ⟨t, ht, rfl⟩ := Option.map_eq_some_iff.1 h
    exact ((skipExponent_suffix _).trans (skipFraction_suffix t)).trans (Shebang.suffix_of_afterRun? ht)

theorem suffix_of_afterQuote? (h : afterQuote? quote s = some r) : r <:+ s := by
  fun_induction afterQuote? quote s with
  | case1 => cases h
  | case2 => cases h
  | case3 d rest _ ih =>
    exact (ih h).trans ((List.suffix_cons d rest).trans (List.suffix_cons _ _))
  | case4 d rest =>
    obtain rfl := Option.some.inj h
    exact List.suffix_cons d rest
  | case5 => cases h
  | case6 d rest _ _ _ ih => exact (ih h).trans (List.suffix_cons d rest)

theorem suffix_of_word? {word : List Char} (h : word? (c :: rest) = some (word, r)) :
    r <:+ rest := by
  unfold word? at h
  dsimp only at h
  split at h
  · obtain ⟨-, rfl⟩ := Prod.mk.inj (Option.some.inj h)
    exact List.dropWhile_suffix _
  · split at h
    · cases rest with
      | nil => cases h
      | cons d more =>
        dsimp only at h
        split at h
        · obtain ⟨-, rfl⟩ := Prod.mk.inj (Option.some.inj h)
          exact (List.dropWhile_suffix _).trans (List.suffix_cons d more)
        · cases h
    · cases h

/-- **One step** leaves a suffix of what stands behind the character that it begins at. -/
theorem scan_suffix (joined : Bool) (c : Char) (rest : List Char) :
    (scan joined c rest).rest <:+ rest := by
  unfold scan
  dsimp only
  split
  · rename_i r hr
    split at hr
    · exact suffix_of_afterQuote? hr
    · cases hr
  split
  · rename_i r hr
    split at hr
    · cases hr
    · exact suffix_of_afterNumber? hr
  split
  · rename_i word r hr
    exact suffix_of_word? hr
  split
  · exact List.dropWhile_suffix _
  · exact List.suffix_rfl

/-! ## Characters that separate -/

/-- A character that no number, word or run of punctuation holds, and behind which none of them goes
on. -/
structure Separates (d : Char) : Prop where
  decimal : isDecimal d = false
  hex : isHexDigit d = false
  word : isAsciiWord d = false
  punctuation : isPunctuation d = false

theorem separates_newline : Separates '\n' :=
  ⟨by decide +kernel, by decide +kernel, by decide +kernel, by decide +kernel⟩

namespace Separates

variable {d : Char} (hd : Separates d)

include hd

theorem ne_of_word (hc : isAsciiWord c = true) : d ≠ c := by
  rintro rfl
  rw [hd.word] at hc
  cases hc

theorem ne_of_punctuation (hc : isPunctuation c = true) : d ≠ c := by
  rintro rfl
  rw [hd.punctuation] at hc
  cases hc

theorem not_startsWord : startsWord d = false := by
  have hword := hd.word
  simp only [isAsciiWord, Bool.or_eq_false_iff] at hword
  have hline : d ≠ '_' := hd.ne_of_word (by decide)
  simp [startsWord, hword.1.1, hline]

end Separates

/-- A reader that finds the same in front of a character, whatever stands behind it. -/
def StopsBefore (d : Char) (reader : List Char → Option (List Char)) : Prop :=
  ∀ s more, reader (s ++ d :: more) = (reader s).map (· ++ d :: more)

section

variable {d : Char}

theorem stopsBefore_afterRun? {p : Char → Bool} (hp : p d = false) :
    StopsBefore d (Shebang.afterRun? p) := by
  intro s more
  cases s with
  | nil => simp [Shebang.afterRun?, hp]
  | cons c rest =>
    have hdrop := dropWhile_before hp (c :: rest) more
    rw [List.cons_append] at hdrop ⊢
    rw [Shebang.afterRun?, Shebang.afterRun?, hdrop]
    split <;> rfl

theorem skipFraction_of_ne (hc : c ≠ '.') (rest : List Char) :
    skipFraction (c :: rest) = c :: rest := by
  unfold skipFraction
  split
  · rename_i heq
    exact absurd (List.cons.inj heq).1 hc
  · rfl

theorem afterHex?_of_ne (hc : c ≠ '0') (rest : List Char) : afterHex? (c :: rest) = none := by
  unfold afterHex?
  split
  · rename_i heq
    exact absurd (List.cons.inj heq).1 hc
  · rfl

variable (hd : Separates d)

include hd

theorem stopsBefore_afterDigits? : StopsBefore d afterDigits? := stopsBefore_afterRun? hd.decimal

/-- What is skipped where digits follow does not depend on what is behind the character. -/
theorem getD_afterDigits?_before (s t more : List Char) :
    (afterDigits? (s ++ d :: more)).getD (t ++ d :: more) =
      (afterDigits? s).getD t ++ d :: more := by
  rw [stopsBefore_afterDigits? hd]
  cases afterDigits? s <;> rfl

theorem skipFraction_before (s more : List Char) :
    skipFraction (s ++ d :: more) = skipFraction s ++ d :: more := by
  cases s with
  | nil => exact skipFraction_of_ne (hd.ne_of_punctuation (by decide +kernel)) more
  | cons c rest =>
    by_cases hc : c = '.'
    · subst hc
      exact getD_afterDigits?_before hd rest ('.' :: rest) more
    · rw [List.cons_append, skipFraction_of_ne hc, skipFraction_of_ne hc, List.cons_append]

theorem skipExponent_before (s more : List Char) :
    skipExponent (s ++ d :: more) = skipExponent s ++ d :: more := by
  cases s with
  | nil =>
    have hlower : d ≠ 'e' := hd.ne_of_word (by decide)
    have hupper : d ≠ 'E' := hd.ne_of_word (by decide)
    simp [skipExponent, hlower, hupper]
  | cons e rest =>
    simp only [List.cons_append, skipExponent]
    split
    · cases rest with
      | nil =>
        have hplus : d ≠ '+' := hd.ne_of_punctuation (by decide +kernel)
        have hminus : d ≠ '-' := hd.ne_of_punctuation (by decide +kernel)
        simp only [List.nil_append, beq_eq_false_iff_ne.2 hplus,
          beq_eq_false_iff_ne.2 hminus, Bool.or_self, Bool.false_eq_true, if_false]
        exact getD_afterDigits?_before hd [] [e] more
      | cons sign digits =>
        simp only [List.cons_append]
        split
        · exact getD_afterDigits?_before hd digits (e :: sign :: digits) more
        · exact getD_afterDigits?_before hd (sign :: digits) (e :: sign :: digits) more
    · rfl

theorem stopsBefore_afterHex? : StopsBefore d afterHex? := by
  intro s more
  match s with
  | [] => exact afterHex?_of_ne (hd.ne_of_word (by decide)) more
  | [c] =>
    by_cases hc : c = '0'
    · subst hc
      have hlower : d ≠ 'x' := hd.ne_of_word (by decide)
      have hupper : d ≠ 'X' := hd.ne_of_word (by decide)
      simp [afterHex?, hlower, hupper]
    · rw [List.cons_append, afterHex?_of_ne hc, afterHex?_of_ne hc, Option.map_none]
  | c :: x :: rest =>
    by_cases hc : c = '0'
    · subst hc
      simp only [List.cons_append, afterHex?]
      split
      · exact stopsBefore_afterRun? hd.hex rest more
      · rfl
    · rw [List.cons_append, afterHex?_of_ne hc, afterHex?_of_ne hc, Option.map_none]

theorem stopsBefore_afterNumber? : StopsBefore d afterNumber? := by
  intro s more
  rw [afterNumber?, afterNumber?, stopsBefore_afterHex? hd, stopsBefore_afterDigits? hd]
  cases afterHex? s with
  | some r => rfl
  | none =>
    cases afterDigits? s with
    | none => rfl
    | some r =>
      simp only [Option.map_none, Option.orElse_none, Option.map_some, skipFraction_before hd,
        skipExponent_before hd]

theorem word?_before (s more : List Char) :
    word? (s ++ d :: more) = (word? s).map fun w => (w.1, w.2 ++ d :: more) := by
  match s with
  | [] =>
    have hat : d ≠ '@' := hd.ne_of_punctuation (by decide +kernel)
    have hhash : d ≠ '#' := hd.ne_of_punctuation (by decide +kernel)
    have hdollar : d ≠ '$' := hd.ne_of_punctuation (by decide +kernel)
    simp [word?, hd.not_startsWord, hat, hhash, hdollar]
  | c :: rest =>
    simp only [List.cons_append, word?, takeWhile_before hd.word, dropWhile_before hd.word]
    split
    · rfl
    split
    · match rest with
      | [] => simp [hd.not_startsWord]
      | e :: more =>
        simp only [List.cons_append, takeWhile_before hd.word, dropWhile_before hd.word]
        split <;> rfl
    · rfl

/-- **One step** in front of a character that separates, as long as a quoted text that may begin there
does not reach beyond it. -/
theorem scan_before (hquote : c = '"' ∨ c = '\'' → StopsBefore d (afterQuote? c)) (joined : Bool)
    (rest more : List Char) : scan joined c (rest ++ d :: more) =
      ⟨(scan joined c rest).token, (scan joined c rest).joined,
        (scan joined c rest).rest ++ d :: more⟩ := by
  have hquoted : (if c == '"' || c == '\'' then afterQuote? c (rest ++ d :: more) else none) =
      (if c == '"' || c == '\'' then afterQuote? c rest else none).map (· ++ d :: more) := by
    split
    · rename_i hc
      exact hquote (by simpa using hc) rest more
    · rfl
  have hnumber : (if joined then none else afterNumber? (c :: (rest ++ d :: more))) =
      (if joined then none else afterNumber? (c :: rest)).map (· ++ d :: more) := by
    split
    · rfl
    · exact stopsBefore_afterNumber? hd (c :: rest) more
  have hword := word?_before hd (c :: rest) more
  rw [List.cons_append] at hword
  unfold scan
  simp only [hquoted, hnumber, hword, takeWhile_before hd.punctuation,
    dropWhile_before hd.punctuation]
  cases (if c == '"' || c == '\'' then afterQuote? c rest else none) with
  | some r => rfl
  | none =>
    cases (if joined then none else afterNumber? (c :: rest)) with
    | some r => rfl
    | none =>
      cases word? (c :: rest) with
      | some w => rfl
      | none =>
        simp only [Option.map_none]
        split <;> rfl

end

/-! ## Quoted texts -/

theorem afterQuote?_hidden (c : Char) (rest : List Char) : afterQuote? quote ('\\' :: c :: rest) =
    if c == '\n' then none else afterQuote? quote rest := rfl

theorem afterQuote?_lone (h : quote ≠ '\\') : afterQuote? quote ['\\'] = none := by
  have hquote : ('\\' == quote) = false := beq_false_of_ne h.symm
  rw [afterQuote?.eq_3 _ _ _ fun _ _ _ h => List.cons_ne_nil _ _ h.symm, hquote]
  rfl

theorem afterQuote?_cons (hc : c ≠ '\\') (rest : List Char) : afterQuote? quote (c :: rest) =
    if c == quote then some rest else if c == '\n' then none else afterQuote? quote rest := by
  have hslash : (c == '\\') = false := beq_false_of_ne hc
  rw [afterQuote?.eq_3 _ _ _ fun _ _ h _ => hc h, hslash, Bool.false_or]

/-- A quoted text has to end in its line. -/
theorem afterQuote?_newline (hslash : quote ≠ '\\') (hline : quote ≠ '\n') (s more : List Char) :
    afterQuote? quote (s ++ '\n' :: more) = (afterQuote? quote s).map (· ++ '\n' :: more) := by
  match s with
  | [] =>
    rw [List.nil_append, afterQuote?_cons (by decide), if_neg (by simpa using hline.symm),
      if_pos (beq_self_eq_true _)]
    rfl
  | c :: rest =>
    by_cases hc : c = '\\'
    · subst hc
      match rest with
      | [] =>
        rw [afterQuote?_lone hslash]
        rfl
      | d :: rest =>
        rw [List.cons_append, List.cons_append, afterQuote?_hidden, afterQuote?_hidden,
          afterQuote?_newline hslash hline rest more]
        split <;> rfl
    · rw [List.cons_append, afterQuote?_cons hc, afterQuote?_cons hc,
        afterQuote?_newline hslash hline rest more]
      split
      · rfl
      split <;> rfl
termination_by s.length

theorem stopsBefore_newline (h : quote = '"' ∨ quote = '\'') :
    StopsBefore '\n' (afterQuote? quote) := by
  rcases h with rfl | rfl
  · exact afterQuote?_newline (by decide) (by decide)
  · exact afterQuote?_newline (by decide) (by decide)

/-! ## Runs -/

/-- **The steps of a run**: what holds at the end of a content, and before a step if behind it. -/
theorem scan_induction {P : Bool → List Char → Prop} (nil : ∀ joined, P joined [])
    (cons : ∀ joined c rest, P (scan joined c rest).joined (scan joined c rest).rest →
      P joined (c :: rest)) (joined : Bool) (s : List Char) : P joined s := by
  match s with
  | [] => exact nil joined
  | c :: rest => exact cons joined c rest (scan_induction nil cons _ _)
termination_by s.length
decreasing_by
  have := (scan_suffix joined c rest).length_le
  rw [List.length_cons]
  omega

/-- The tokens of what is left of a content. -/
def tokensFrom (joined : Bool) (s : List Char) : List String := scanAll s.length joined [] s

/-- A bound on steps that is large enough makes no difference. -/
theorem scanAll_eq (joined : Bool) (s : List Char) : ∀ bound found, s.length ≤ bound →
    scanAll bound joined found s = found.reverse ++ tokensFrom joined s := by
  induction joined, s using scan_induction with
  | nil joined =>
    intro bound found _
    cases bound <;> exact (List.append_nil _).symm
  | cons joined c rest ih =>
    intro bound found hbound
    have hle := (scan_suffix joined c rest).length_le
    rw [List.length_cons] at hbound
    obtain ⟨bound, rfl⟩ : ∃ n, bound = n + 1 := ⟨bound - 1, by omega⟩
    have hbound' : (scan joined c rest).rest.length ≤ bound := by omega
    rw [tokensFrom, List.length_cons, scanAll, scanAll, ih _ _ hbound', ih _ _ hle]
    cases (scan joined c rest).token with
    | none => rfl
    | some t =>
      rw [List.reverse_cons, List.append_assoc]
      rfl

/-- **One step of a run.** -/
theorem tokensFrom_cons (joined : Bool) (c : Char) (rest : List Char) :
    tokensFrom joined (c :: rest) = (scan joined c rest).token.toList ++
      tokensFrom (scan joined c rest).joined (scan joined c rest).rest := by
  have hle := (scan_suffix joined c rest).length_le
  rw [tokensFrom, List.length_cons, scanAll, scanAll_eq _ _ _ _ hle]
  cases (scan joined c rest).token <;> rfl

theorem ofBody_eq (body : List Char) : ofBody body = tokensFrom false body := rfl

/-- Behind the end of a line, reading begins anew. -/
theorem tokensFrom_newline (joined : Bool) (s : List Char) :
    tokensFrom joined ('\n' :: s) = tokensFrom false s := by
  have hscan : scan joined '\n' s = ⟨none, false, s⟩ := by
    cases joined <;> rfl
  rw [tokensFrom_cons, hscan]
  rfl

/-- **Up to a character that separates.** The tokens of a content are those up to the character and then
those from it on, as long as no quoted text reaches beyond it, and it makes no difference there what
stands before. -/
theorem tokensFrom_append {d : Char} (hd : Separates d) {s more : List Char} {tokens : List String}
    (hquote : ∀ c ∈ s, c = '"' ∨ c = '\'' → StopsBefore d (afterQuote? c))
    (hanew : ∀ joined, tokensFrom joined (d :: more) = tokens) (joined : Bool) :
    tokensFrom joined (s ++ d :: more) = tokensFrom joined s ++ tokens := by
  induction joined, s using scan_induction with
  | nil joined => exact hanew joined
  | cons joined c rest ih =>
    obtain ⟨hc, hrest⟩ := List.forall_mem_cons.1 hquote
    have hleft : ∀ q ∈ (scan joined c rest).rest, q = '"' ∨ q = '\'' →
        StopsBefore d (afterQuote? q) :=
      fun q hmem => hrest q ((scan_suffix joined c rest).subset hmem)
    rw [List.cons_append, tokensFrom_cons, scan_before hd hc, ih hleft, tokensFrom_cons,
      List.append_assoc]

/-- **Line by line.** The tokens of a content are those of its first lines and then those of the
others. -/
theorem tokensFrom_append_newline (joined : Bool) (s more : List Char) :
    tokensFrom joined (s ++ '\n' :: more) = tokensFrom joined s ++ tokensFrom false more :=
  tokensFrom_append separates_newline (fun _ _ => stopsBefore_newline)
    (fun joined => tokensFrom_newline joined more) joined

theorem ofContent_of_body {content : List Char} (h : "#!".toList.isPrefixOf content = false) :
    ofContent content = tokensFrom false content := by
  rw [ofContent, h]
  rfl

/-- The mark of a script is a token, or the beginning of one. -/
theorem one_le_length_script (rest : List Char) :
    1 ≤ (tokensFrom false ('#' :: '!' :: rest)).length := by
  have hnumber : afterNumber? ('#' :: '!' :: rest) = none := by
    have hdecimal : isDecimal '#' = false := by decide +kernel
    rw [afterNumber?, afterHex?_of_ne (by decide), afterDigits?, Shebang.afterRun?, hdecimal]
    rfl
  have hword : word? ('#' :: '!' :: rest) = none := rfl
  have hpunctuation : isPunctuation '#' = true := by decide +kernel
  have htoken : ∃ token, (scan false '#' ('!' :: rest)).token = some token := by
    simp [scan, hnumber, hword, hpunctuation]
  obtain ⟨token, htoken⟩ := htoken
  rw [tokensFrom_cons, htoken]
  exact Nat.le_add_left 1 _

theorem length_script_le (rest : List Char) : 1 + (tokensFrom false (behind '\n' rest)).length ≤
    (tokensFrom false ('#' :: '!' :: rest)).length := by
  have hsplit : rest.takeWhile (· != '\n') ++ rest.dropWhile (· != '\n') = rest :=
    List.takeWhile_append_dropWhile
  rw [behind]
  cases hline : rest.dropWhile (· != '\n') with
  | nil => exact one_le_length_script rest
  | cons c more =>
    have hc : c = '\n' := by
      have := List.head?_dropWhile_not (· != '\n') rest
      simpa [hline] using this
    rw [hline, hc] at hsplit
    have happend := tokensFrom_append_newline false
      ('#' :: '!' :: rest.takeWhile (· != '\n')) more
    rw [List.cons_append, List.cons_append, hsplit] at happend
    rw [happend, List.length_append]
    exact Nat.add_le_add_right (one_le_length_script _) _

/-- What is special about the first line of a script adds no tokens. -/
theorem length_ofContent_le_tokensFrom (content : List Char) :
    (ofContent content).length ≤ (tokensFrom false content).length := by
  cases h : "#!".toList.isPrefixOf content with
  | false => exact Nat.le_of_eq (congrArg _ (ofContent_of_body h))
  | true =>
    obtain ⟨rest, rfl⟩ := List.isPrefixOf_iff_prefix.1 h
    refine Nat.le_trans ?_ (length_script_le rest)
    have hbehind : behind '\n' ("#!".toList ++ rest) = behind '\n' rest := rfl
    rw [ofContent, if_pos h, ofBody_eq, hbehind]
    dsimp only
    split
    · exact Nat.le_of_eq (Nat.add_comm _ 1)
    · exact Nat.le_add_left _ _

end LangId.Token
