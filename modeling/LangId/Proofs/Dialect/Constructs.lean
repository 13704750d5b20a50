import LangId.Knowledge.Dialect
import Mathlib.Data.List.TakeDrop
import Mathlib.Data.List.TakeWhile

/-!
# Which constructs the dialect adapts

Adapting a pattern replaces in three passes, each of which looks at no more than one character
before the construct. `scan` says what is meant: escaped pairs are read from left to right, and only
an unescaped construct is adapted. The two are compared through `rewrite`, which does all three
passes in one.

**Results.**
* `passes_eq_rewrite`: the three passes are one.
* `rewrite_eq_scan_iff`: the one pass agrees with the scan unless some construct is misread.
* `adapt_eq_scan_iff`: a pattern without leading flags is adapted as the scan says exactly if no
  construct of it stands behind a run of backslashes of the wrong kind: three or more of them, in
  odd number, before a letter, or an odd number before the parenthesis of a named group.
* `third_backslash_misread`: the smallest patterns that are adapted otherwise.
-/
namespace LangId.Dialect

open Text

/-- What stands for the end of the text. -/
def endMark : List Char := "\\Z".toList

/-- What stands for a hexadecimal digit. -/
def digitClass : List Char := "[0-9a-fA-F]".toList

/-- Reads a pattern from left to right in escaped pairs and single characters. The pairs for the
end of the text and for hexadecimal digits are adapted, and so is the opening of a named group that
is not escaped. -/
def scan : List Char → List Char
  | '\\' :: c :: rest =>
    if c == 'z' then endMark ++ scan rest
    else if c == 'h' then digitClass ++ scan rest
    else '\\' :: c :: scan rest
  | '(' :: '?' :: '<' :: rest =>
    if (groupName? rest).isSome then '(' :: '?' :: 'P' :: '<' :: scan rest
    else '(' :: '?' :: '<' :: scan rest
  | c :: rest => c :: scan rest
  | [] => []

/-- All three passes in one: a letter is adapted behind a backslash that has none before it, and a
named group wherever it opens. The first argument is the character before the text. -/
def rewrite (before : Option Char) : List Char → List Char
  | '\\' :: c :: rest =>
    if c == 'z' && before != some '\\' then endMark ++ rewrite (some c) rest
    else if c == 'h' && before != some '\\' then digitClass ++ rewrite (some c) rest
    else '\\' :: rewrite (some '\\') (c :: rest)
  | '(' :: '?' :: '<' :: rest =>
    if (groupName? rest).isSome then '(' :: '?' :: 'P' :: '<' :: rewrite (some '<') rest
    else '(' :: '?' :: '<' :: rewrite (some '<') rest
  | c :: rest => c :: rewrite (some c) rest
  | [] => []

/-! ## One pass over the text -/

section replaceEscape

variable {letter c r : Char} {replacement rs s t w : List Char} {before : Option Char}

theorem replaceEscape_copy (h : c ≠ '\\') :
    replaceEscape letter replacement before (c :: s) =
      c :: replaceEscape letter replacement (some c) s := by
  rw [replaceEscape]
  exact fun _ _ hc _ => h hc

theorem replaceEscape_pair (h : before ≠ some '\\') :
    replaceEscape letter replacement before ('\\' :: letter :: s) =
      replacement ++ replaceEscape letter replacement (some letter) s := by
  have hb : (before != some '\\') = true := bne_iff_ne.2 h
  rw [replaceEscape, hb, beq_self_eq_true]
  rfl

theorem replaceEscape_keep (h : c ≠ letter ∨ before = some '\\') :
    replaceEscape letter replacement before ('\\' :: c :: s) =
      '\\' :: replaceEscape letter replacement (some '\\') (c :: s) := by
  rw [replaceEscape, if_neg]
  rw [Bool.and_eq_true, beq_iff_eq, bne_iff_ne]
  rintro ⟨hc, hb⟩
  exact h.elim (fun hne => hne hc) hb

/-- What a replaced text begins with is what the text begins with, as long as that is no
backslash and not what the replacement begins with. -/
theorem replaceEscape_eq_cons (hc : c ≠ '\\') (hr : c ≠ r) :
    replaceEscape letter (r :: rs) before s = c :: t ↔
      ∃ s', s = c :: s' ∧ t = replaceEscape letter (r :: rs) (some c) s' := by
  constructor
  · intro h
    unfold replaceEscape at h
    split at h
    · split at h
      · exact absurd (List.cons.inj h).1.symm hr
      · exact absurd (List.cons.inj h).1.symm hc
    · obtain ⟨rfl, rfl⟩ := List.cons.inj h
      exact ⟨_, rfl, rfl⟩
    · cases h
  · rintro ⟨s', rfl, rfl⟩
    exact replaceEscape_copy hc

theorem prefix_replaceEscape (h : ∀ c ∈ w, c ≠ '\\' ∧ c ≠ r) :
    w <+: replaceEscape letter (r :: rs) before s ↔ w <+: s := by
  induction w generalizing before s with
  | nil => exact ⟨fun _ => List.nil_prefix, fun _ => List.nil_prefix⟩
  | cons c w ih =>
    obtain ⟨⟨hc, hr⟩, hw⟩ := List.forall_mem_cons.1 h
    constructor
    · rintro ⟨t, ht⟩
      obtain ⟨s', rfl, hs'⟩ := (replaceEscape_eq_cons hc hr).1 ht.symm
      exact List.cons_prefix_cons.2 ⟨rfl, (ih hw).1 ⟨t, hs'⟩⟩
    · rintro ⟨t, rfl⟩
      rw [List.cons_append, replaceEscape_copy hc]
      exact List.cons_prefix_cons.2 ⟨rfl, (ih hw).2 (List.prefix_append w t)⟩

end replaceEscape

/-! ## Openings of named groups -/

/-- The name of a group with the sign behind it. -/
structure IsLabel (w : List Char) : Prop where
  label : ∃ c m, w = c :: (m ++ ['>']) ∧ (isAsciiLetter c || c == '_') = true ∧
    ∀ d ∈ m, isWord d = true

theorem not_isWord_closing : isWord '>' = false := by decide

theorem not_isWord_backslash : isWord '\\' = false := by decide

theorem not_isWord_bracket : isWord '[' = false := by decide

theorem span_eq_of_forall {p : Char → Bool} {m rest : List Char} {d : Char}
    (hm : ∀ c ∈ m, p c = true) (hd : p d = false) :
    (m ++ d :: rest).span p = (m, d :: rest) := by
  rw [List.span_eq_takeWhile_dropWhile, List.takeWhile_append_of_pos hm,
    List.dropWhile_append_of_pos hm, List.takeWhile_cons_of_neg (by simp [hd]),
    List.dropWhile_cons_of_neg (by simp [hd]), List.append_nil]

theorem of_span {p : Char → Bool} {s m t : List Char} (h : s.span p = (m, t)) :
    s = m ++ t ∧ ∀ c ∈ m, p c = true := by
  rw [List.span_eq_takeWhile_dropWhile, Prod.mk.injEq] at h
  obtain ⟨rfl, rfl⟩ := h
  exact ⟨List.takeWhile_append_dropWhile.symm, fun _ => List.mem_takeWhile_imp⟩

theorem isSome_groupName? {s : List Char} :
    (groupName? s).isSome = true ↔ ∃ w, IsLabel w ∧ w <+: s := by
  constructor
  · intro h
    unfold groupName? at h
    split at h
    · rename_i c rest
      split at h
      · rename_i hc
        split at h
        · rename_i more tail heq
          obtain ⟨rfl, hmore⟩ := of_span heq
          exact ⟨c :: (more ++ ['>']), ⟨c, more, rfl, hc, hmore⟩, tail, by simp⟩
        · cases h
      · cases h
    · cases h
  · rintro ⟨_, ⟨c, m, rfl, hc, hm⟩, t, rfl⟩
    rw [List.cons_append, List.append_assoc, List.singleton_append, groupName?, if_pos hc,
      span_eq_of_forall hm not_isWord_closing]
    rfl

theorem ne_of_mem_label {w : List Char} (h : IsLabel w) {c d : Char} (hc : c ∈ w)
    (hd : isWord d = false) (hclosing : d ≠ '>') (hstart : (isAsciiLetter d || d == '_') = false) :
    c ≠ d := by
  obtain ⟨a, m, rfl, ha, hm⟩ := h
  rintro rfl
  rcases List.mem_cons.1 hc with rfl | hc
  · rw [ha] at hstart
    cases hstart
  · rcases List.mem_append.1 hc with hc | hc
    · rw [hm c hc] at hd
      cases hd
    · exact hclosing (List.mem_singleton.1 hc)

/-- Replacing does not touch the names of groups. -/
theorem groupName?_replaceEscape {letter r : Char} {rs s : List Char} {before : Option Char}
    (hr : r = '\\' ∨ r = '[') :
    (groupName? (replaceEscape letter (r :: rs) before s)).isSome = (groupName? s).isSome := by
  rw [Bool.eq_iff_iff, isSome_groupName?, isSome_groupName?]
  refine exists_congr fun w => and_congr_right fun hw => prefix_replaceEscape fun c hc => ?_
  have hback : c ≠ '\\' := ne_of_mem_label hw hc not_isWord_backslash (by decide) (by decide)
  refine ⟨hback, ?_⟩
  rcases hr with rfl | rfl
  · exact hback
  · exact ne_of_mem_label hw hc not_isWord_bracket (by decide) (by decide)

theorem nameGroups_copy {c : Char} {s : List Char}
    (h : ∀ t, c :: s ≠ '(' :: '?' :: '<' :: t) : nameGroups (c :: s) = c :: nameGroups s := by
  rw [nameGroups]
  rintro t rfl rfl
  exact h t rfl

/-! ## All passes in one -/

section passes

variable {first second : Option Char} {c : Char} {s t : List Char}

/-- The passes that replace escaped letters, each behind a character of its own. -/
def unescape (first second : Option Char) (s : List Char) : List Char :=
  replaceEscape 'h' digitClass second (replaceEscape 'z' endMark first s)

theorem endMark_eq : endMark = ['\\', 'Z'] := by decide

theorem digitClass_eq :
    digitClass = ['[', '0', '-', '9', 'a', '-', 'f', 'A', '-', 'F', ']'] := by decide

theorem unescape_copy (h : c ≠ '\\') :
    unescape first second (c :: s) = c :: unescape (some c) (some c) s := by
  rw [unescape, replaceEscape_copy h, replaceEscape_copy h]
  rfl

theorem unescape_end (h : first ≠ some '\\') :
    unescape first second ('\\' :: 'z' :: s) = endMark ++ unescape (some 'z') (some 'Z') s := by
  rw [unescape, replaceEscape_pair h, endMark_eq]
  rw [List.cons_append, List.cons_append, List.nil_append, replaceEscape_keep (.inl (by decide)),
    replaceEscape_copy (by decide)]
  rfl

theorem unescape_digit (h : second ≠ some '\\') :
    unescape first second ('\\' :: 'h' :: s) = digitClass ++ unescape (some 'h') (some 'h') s := by
  have hletter : 'h' ≠ '\\' := by decide
  rw [unescape, replaceEscape_keep (.inl (by decide)), replaceEscape_copy hletter,
    replaceEscape_pair h]
  rfl

/-- Behind a backslash the next character stays. -/
theorem replaceEscape_behind (letter : Char) (replacement : List Char) :
    ∃ t, replaceEscape letter replacement (some '\\') (c :: s) = c :: t := by
  by_cases hc : c = '\\'
  · subst hc
    cases s with
    | nil => exact ⟨[], rfl⟩
    | cons d s => exact ⟨_, replaceEscape_keep (.inr rfl)⟩
  · exact ⟨_, replaceEscape_copy hc⟩

theorem unescape_keep (h : c ≠ 'z' ∧ c ≠ 'h' ∨ first = some '\\' ∧ second = some '\\') :
    unescape first second ('\\' :: c :: s) =
      '\\' :: unescape (some '\\') (some '\\') (c :: s) := by
  obtain ⟨t, ht⟩ := replaceEscape_behind (c := c) (s := s) 'z' endMark
  rw [unescape, unescape, replaceEscape_keep (h.imp And.left And.left), ht,
    replaceEscape_keep (h.imp And.right And.right)]

theorem unescape_eq_cons (hback : c ≠ '\\') (hbracket : c ≠ '[')
    (h : unescape first second s = c :: t) :
    ∃ s', s = c :: s' ∧ t = unescape (some c) (some c) s' := by
  rw [unescape, digitClass_eq, replaceEscape_eq_cons hback hbracket] at h
  obtain ⟨u, hu, rfl⟩ := h
  rw [endMark_eq, replaceEscape_eq_cons hback hback] at hu
  obtain ⟨s', rfl, rfl⟩ := hu
  exact ⟨s', rfl, by rw [unescape, endMark_eq, digitClass_eq]⟩

theorem groupName?_unescape :
    (groupName? (unescape first second s)).isSome = (groupName? s).isSome := by
  rw [unescape, digitClass_eq, endMark_eq, groupName?_replaceEscape (.inr rfl),
    groupName?_replaceEscape (.inl rfl)]

theorem nameGroups_endMark : nameGroups (endMark ++ s) = endMark ++ nameGroups s := by
  rw [endMark_eq]
  rfl

theorem nameGroups_digitClass : nameGroups (digitClass ++ s) = digitClass ++ nameGroups s := by
  rw [digitClass_eq]
  rfl

/-- The three passes are one. The two that come first may stand behind different characters, as long
as both or neither are backslashes. -/
theorem passes_eq_rewrite (h : first = some '\\' ↔ second = some '\\') :
    nameGroups (unescape first second s) = rewrite first s := by
  fun_induction rewrite first s generalizing second with
  | case1 first c rest hc ih =>
    obtain ⟨rfl, hb⟩ : c = 'z' ∧ first ≠ some '\\' := by simpa using hc
    rw [unescape_end hb, nameGroups_endMark, ih (by decide)]
  | case2 first c rest _ hc ih =>
    obtain ⟨rfl, hb⟩ : c = 'h' ∧ first ≠ some '\\' := by simpa using hc
    rw [unescape_digit (mt h.2 hb), nameGroups_digitClass, ih Iff.rfl]
  | case3 first c rest hz hh ih =>
    have hkeep : c ≠ 'z' ∧ c ≠ 'h' ∨ first = some '\\' ∧ second = some '\\' := by
      by_cases hb : first = some '\\'
      · exact .inr ⟨hb, h.1 hb⟩
      · exact .inl ⟨fun hc => hz (by simp [hc, hb]), fun hc => hh (by simp [hc, hb])⟩
    have hcopy : '\\' ≠ '(' := by decide
    rw [unescape_keep hkeep, nameGroups_copy fun t ht => hcopy (List.cons.inj ht).1, ih Iff.rfl]
  | case4 first rest hname ih =>
    rw [unescape_copy (by decide), unescape_copy (by decide), unescape_copy (by decide), nameGroups,
      if_pos (groupName?_unescape.trans hname), ih Iff.rfl]
  | case5 first rest hname ih =>
    rw [unescape_copy (by decide), unescape_copy (by decide), unescape_copy (by decide), nameGroups,
      if_neg (by rwa [groupName?_unescape]), ih Iff.rfl]
  | case6 first c rest hpair hopen ih =>
    by_cases hc : c = '\\'
    · subst hc
      cases rest with
      | nil => rfl
      | cons d rest => exact absurd rfl (hpair d rest rfl)
    · rw [unescape_copy hc, nameGroups_copy, ih Iff.rfl]
      -- what is unescaped opens a group only where the text does
      intro t h₁
      obtain ⟨rfl, h₂⟩ := List.cons.inj h₁
      obtain ⟨_, rfl, h₃⟩ := unescape_eq_cons (by decide) (by decide) h₂
      obtain ⟨s', rfl, -⟩ := unescape_eq_cons (by decide) (by decide) h₃.symm
      exact hopen s' rfl rfl
  | case7 => rfl

end passes

/-! ## What is misread -/

/-- How many backslashes stand at the end of a text. -/
def slashes (u : List Char) : Nat := (u.reverse.takeWhile (· == '\\')).length

theorem slashes_concat (u : List Char) (c : Char) :
    slashes (u ++ [c]) = if c = '\\' then slashes u + 1 else 0 := by
  rw [slashes, List.reverse_concat, List.takeWhile_cons]
  by_cases h : c = '\\' <;> simp [h, slashes]

theorem slashes_pos_iff {u : List Char} : 0 < slashes u ↔ u.getLast? = some '\\' := by
  rw [slashes, ← List.head?_reverse]
  cases u.reverse with
  | nil => simp
  | cons c rest => by_cases h : c = '\\' <;> simp [h]

/-- Whether a named group opens at the beginning of a text. -/
def OpensGroup (v : List Char) : Prop :=
  ∃ rest, v = '(' :: '?' :: '<' :: rest ∧ (groupName? rest).isSome = true

/-- The construct between two parts of a pattern is taken for what it is not. Behind an odd number of
backslashes stands an escaped character: a letter that is adapted only behind a single backslash, or
a parenthesis that opens no group. -/
def Misread (u v : List Char) : Prop :=
  slashes u % 2 = 1 ∧
    (slashes u ≠ 1 ∧ (v.head? = some 'z' ∨ v.head? = some 'h') ∨ OpensGroup v)

/-- Behind a text, no construct of another one is misread. -/
def Clean (pre s : List Char) : Prop := ∀ u v, s = u ++ v → ¬Misread (pre ++ u) v

section clean

variable {pre s v : List Char} {c d : Char}

theorem forall_append_cons {P : List Char → List Char → Prop} :
    (∀ u v, c :: s = u ++ v → P (pre ++ u) v) ↔
      P pre (c :: s) ∧ ∀ u v, s = u ++ v → P (pre ++ [c] ++ u) v := by
  constructor
  · intro h
    refine ⟨by simpa using h [] (c :: s) rfl, fun u v hs => ?_⟩
    simpa using h (c :: u) v (by rw [hs]; rfl)
  · rintro ⟨hhere, hrest⟩ u v hs
    cases u with
    | nil => simpa using (List.nil_append v ▸ hs) ▸ hhere
    | cons d u =>
      obtain ⟨rfl, rfl⟩ := List.cons.inj hs
      simpa using hrest u v rfl

theorem clean_cons : Clean pre (c :: s) ↔ ¬Misread pre (c :: s) ∧ Clean (pre ++ [c]) s :=
  forall_append_cons (P := fun u v => ¬Misread u v)

theorem not_misread_of_even (h : slashes pre % 2 = 0) : ¬Misread pre v := fun hm => by
  rw [hm.1] at h
  cases h

theorem clean_nil : Clean pre [] := by
  intro u v hs
  obtain ⟨rfl, rfl⟩ := List.nil_eq_append_iff.1 hs
  rintro ⟨-, ⟨-, hz | hh⟩ | ⟨rest, hopen, -⟩⟩
  · cases hz
  · cases hh
  · cases hopen

/-- Behind an even number of backslashes an escaped pair is misread exactly where its second
character is, and what follows is read behind the pair. -/
theorem clean_pair (h : slashes pre % 2 = 0) :
    Clean pre ('\\' :: c :: s) ↔
      ¬Misread (pre ++ ['\\']) (c :: s) ∧ Clean (pre ++ ['\\', c]) s := by
  rw [clean_cons, clean_cons, List.append_assoc]
  exact and_iff_right (not_misread_of_even h)

theorem clean_copy (h : slashes pre % 2 = 0) : Clean pre (c :: s) ↔ Clean (pre ++ [c]) s := by
  rw [clean_cons]
  exact and_iff_right (not_misread_of_even h)

theorem slashes_pair (h : slashes pre % 2 = 0) : slashes (pre ++ ['\\', c]) % 2 = 0 := by
  have : pre ++ ['\\', c] = (pre ++ ['\\']) ++ [c] := by simp
  rw [this, slashes_concat, slashes_concat, if_pos rfl]
  split
  · omega
  · rfl

theorem slashes_copy (h : c ≠ '\\') : slashes (pre ++ [c]) % 2 = 0 := by
  rw [slashes_concat, if_neg h]

/-- A letter of an escaped pair is misread exactly behind another backslash. -/
theorem misread_letter (h : slashes pre % 2 = 0) (hc : c = 'z' ∨ c = 'h') :
    Misread (pre ++ ['\\']) (c :: s) ↔ pre.getLast? = some '\\' := by
  have hopen : ¬OpensGroup (c :: s) := by
    rintro ⟨rest, heq, -⟩
    rcases hc with rfl | rfl <;> cases heq
  rw [Misread, slashes_concat, if_pos rfl, or_iff_left hopen, ← slashes_pos_iff]
  simp only [List.head?_cons, Option.some.injEq, and_iff_left hc]
  omega

/-- Any other character of an escaped pair is misread exactly if it opens a named group. -/
theorem misread_other (h : slashes pre % 2 = 0) (hz : c ≠ 'z') (hh : c ≠ 'h') :
    Misread (pre ++ ['\\']) (c :: s) ↔ OpensGroup (c :: s) := by
  rw [Misread, slashes_concat, if_pos rfl]
  simp only [List.head?_cons, Option.some.injEq, hz, hh, or_self, and_false, false_or]
  refine and_iff_right ?_
  omega

end clean

/-! ## Comparing with the scan -/

section compare

variable {before : Option Char} {pre s : List Char} {c : Char}

theorem rewrite_plain (hc : c ≠ '\\') (hp : c ≠ '(') :
    rewrite before (c :: s) = c :: rewrite (some c) s := by
  rw [rewrite]
  · exact fun _ _ h _ => hc h
  · exact fun _ h _ => hp h

theorem scan_plain (hc : c ≠ '\\') (hp : c ≠ '(') : scan (c :: s) = c :: scan s := by
  rw [scan]
  · exact fun _ _ h _ => hc h
  · exact fun _ h _ => hp h

/-- What is no backslash and opens no named group is copied. -/
theorem rewrite_copy (hc : c ≠ '\\') (h : ¬OpensGroup (c :: s)) :
    rewrite before (c :: s) = c :: rewrite (some c) s := by
  by_cases hopen : ∃ t, c = '(' ∧ s = '?' :: '<' :: t
  · obtain ⟨t, rfl, rfl⟩ := hopen
    rw [rewrite, if_neg fun hname => h ⟨t, rfl, hname⟩]
    rw [rewrite_plain (c := '?') (by decide) (by decide),
      rewrite_plain (c := '<') (by decide) (by decide)]
  · rw [rewrite]
    · exact fun _ _ h _ => hc h
    · exact fun t h₁ h₂ => hopen ⟨t, h₁, h₂⟩

theorem rewrite_keep (h : c ≠ 'z' ∧ c ≠ 'h' ∨ before = some '\\') :
    rewrite before ('\\' :: c :: s) = '\\' :: rewrite (some '\\') (c :: s) := by
  rw [rewrite, if_neg, if_neg]
  · rcases h with ⟨-, hh⟩ | rfl <;> simp [*]
  · rcases h with ⟨hz, -⟩ | rfl <;> simp [*]

theorem rewrite_behind : rewrite (some '\\') ('\\' :: s) = '\\' :: rewrite (some '\\') s := by
  cases s with
  | nil => rfl
  | cons c s => exact rewrite_keep (.inr rfl)

/-- A letter in an escaped pair is adapted unless another backslash stands before the pair. -/
theorem rewrite_letter {mark : List Char}
    (hc : c = 'z' ∧ mark = endMark ∨ c = 'h' ∧ mark = digitClass) :
    rewrite before ('\\' :: c :: s) =
      if before = some '\\' then '\\' :: c :: rewrite (some c) s
      else mark ++ rewrite (some c) s := by
  by_cases hb : before = some '\\'
  · have hplain : c ≠ '\\' ∧ c ≠ '(' := by rcases hc with ⟨rfl, -⟩ | ⟨rfl, -⟩ <;> decide
    rw [if_pos hb, rewrite_keep (.inr hb), rewrite_plain hplain.1 hplain.2]
  · rw [if_neg hb, rewrite]
    rcases hc with ⟨rfl, rfl⟩ | ⟨rfl, rfl⟩ <;> simp [hb]

/-- An escaped pair that is neither a letter nor the opening of a group is copied. -/
theorem rewrite_pair (hz : c ≠ 'z') (hh : c ≠ 'h') (h : ¬OpensGroup (c :: s)) :
    rewrite before ('\\' :: c :: s) = '\\' :: c :: rewrite (some c) s := by
  rw [rewrite_keep (.inl ⟨hz, hh⟩)]
  by_cases hc : c = '\\'
  · rw [hc, rewrite_behind]
  · rw [rewrite_copy hc h]

/-- At an escaped letter the two agree exactly if none of its parts is misread and they agree on the
rest. -/
theorem rewrite_letter_iff {mark : List Char} (h : slashes pre % 2 = 0)
    (hc : c = 'z' ∧ mark = endMark ∨ c = 'h' ∧ mark = digitClass)
    (hrest : rewrite (some c) s = scan s ↔ Clean (pre ++ ['\\', c]) s) :
    rewrite pre.getLast? ('\\' :: c :: s) = mark ++ scan s ↔ Clean pre ('\\' :: c :: s) := by
  rw [clean_pair h, misread_letter h (hc.imp And.left And.left), ← hrest, rewrite_letter hc]
  by_cases hb : pre.getLast? = some '\\'
  · rcases hc with ⟨rfl, rfl⟩ | ⟨rfl, rfl⟩ <;> simp [hb, endMark_eq, digitClass_eq]
  · simp [hb]

/-- At any other escaped character as well. -/
theorem rewrite_other_iff (h : slashes pre % 2 = 0) (hz : c ≠ 'z') (hh : c ≠ 'h')
    (hrest : rewrite (some c) s = scan s ↔ Clean (pre ++ ['\\', c]) s) :
    rewrite pre.getLast? ('\\' :: c :: s) = '\\' :: c :: scan s ↔ Clean pre ('\\' :: c :: s) := by
  rw [clean_pair h, misread_other h hz hh, ← hrest]
  by_cases hopen : OpensGroup (c :: s)
  · obtain ⟨t, heq, hname⟩ := hopen
    obtain ⟨rfl, rfl⟩ := List.cons.inj heq
    rw [rewrite_keep (.inl ⟨hz, hh⟩), rewrite, if_pos hname,
      scan_plain (c := '?') (by decide) (by decide), scan_plain (c := '<') (by decide) (by decide)]
    simp [OpensGroup, hname]
  · rw [rewrite_pair hz hh hopen]
    simp [hopen]

theorem getLast?_pair (c d : Char) : (pre ++ [c, d]).getLast? = some d := by simp

/-- Behind an even number of backslashes the pass agrees with the scan exactly if no construct is
misread. -/
theorem rewrite_eq_scan_iff (h : slashes pre % 2 = 0) :
    rewrite pre.getLast? s = scan s ↔ Clean pre s := by
  fun_induction scan s generalizing pre with
  | case1 c rest hc ih =>
    obtain rfl : c = 'z' := eq_of_beq hc
    exact rewrite_letter_iff h (.inl ⟨rfl, rfl⟩)
      (by rw [← ih (slashes_pair h), getLast?_pair])
  | case2 c rest _ hc ih =>
    obtain rfl : c = 'h' := eq_of_beq hc
    exact rewrite_letter_iff h (.inr ⟨rfl, rfl⟩)
      (by rw [← ih (slashes_pair h), getLast?_pair])
  | case3 c rest hz hh ih =>
    exact rewrite_other_iff h (by simpa using hz) (by simpa using hh)
      (by rw [← ih (slashes_pair h), getLast?_pair])
  | case4 rest hname ih =>
    rw [rewrite, if_pos hname, clean_copy h, clean_copy (slashes_copy (by decide)),
      clean_copy (slashes_copy (by decide)), ← ih (slashes_copy (by decide))]
    simp
  | case5 rest hname ih =>
    rw [rewrite, if_neg hname, clean_copy h, clean_copy (slashes_copy (by decide)),
      clean_copy (slashes_copy (by decide)), ← ih (slashes_copy (by decide))]
    simp
  | case6 c rest hpair hopen ih =>
    by_cases hc : c = '\\'
    · -- a backslash with nothing behind it
      subst hc
      cases rest with
      | nil => exact iff_of_true rfl (clean_cons.2 ⟨not_misread_of_even h, clean_nil⟩)
      | cons d rest => exact absurd rfl (hpair d rest rfl)
    · have hno : ¬OpensGroup (c :: rest) := by
        rintro ⟨t, heq, -⟩
        obtain ⟨rfl, rfl⟩ := List.cons.inj heq
        exact hopen t rfl rfl
      rw [rewrite_copy hc hno, clean_copy h, ← ih (slashes_copy hc)]
      simp
  | case7 => exact iff_of_true rfl clean_nil

end compare

/-! ## Leading flags -/

/-- The flags that a pattern begins with, in their parentheses. -/
structure IsFlagGroup (w : List Char) : Prop where
  flags : ∃ f fs, w = '(' :: '?' :: f :: (fs ++ [')']) ∧ isLeadingFlag f = true ∧
    ∀ g ∈ fs, isLeadingFlag g = true

/-- Whether a pattern begins with flags. -/
def LeadingFlags (s : List Char) : Prop := ∃ w, IsFlagGroup w ∧ w <+: s

section flags

variable {s w : List Char}

theorem confineFlags_of_none (h : ¬LeadingFlags s) : confineFlags s = s := by
  unfold confineFlags
  split
  · split
    · rename_i f fs body heq
      obtain ⟨rfl, hfs⟩ := of_span heq
      obtain ⟨hf, hfs⟩ := List.forall_mem_cons.1 hfs
      exact absurd ⟨_, ⟨f, fs, rfl, hf, hfs⟩, body, by simp⟩ h
    · rfl
  · rfl

theorem ne_of_isLeadingFlag {f c : Char} (hf : isLeadingFlag f = true)
    (hc : isLeadingFlag c = false) : f ≠ c := by
  rintro rfl
  rw [hf] at hc
  cases hc

/-- Flags hold nothing that adapting touches, but for the parenthesis in front. -/
theorem ne_of_mem_flagGroup (h : IsFlagGroup w) :
    ∃ w', w = '(' :: w' ∧ ∀ c ∈ w', c ≠ '(' ∧ c ≠ '\\' ∧ c ≠ '[' := by
  obtain ⟨f, fs, rfl, hf, hfs⟩ := h
  refine ⟨_, rfl, fun c hc => ?_⟩
  have hflag {g : Char} (hg : isLeadingFlag g = true) : g ≠ '(' ∧ g ≠ '\\' ∧ g ≠ '[' :=
    ⟨ne_of_isLeadingFlag hg (by decide), ne_of_isLeadingFlag hg (by decide),
      ne_of_isLeadingFlag hg (by decide)⟩
  simp only [List.mem_cons, List.mem_append, List.not_mem_nil, or_false] at hc
  rcases hc with rfl | rfl | hc | rfl
  · decide
  · exact hflag hf
  · exact hflag (hfs c hc)
  · decide

theorem prefix_of_nameGroups (h : ∀ c ∈ w, c ≠ '(') (hp : w <+: nameGroups s) : w <+: s := by
  induction w generalizing s with
  | nil => exact List.nil_prefix
  | cons c w ih =>
    obtain ⟨hc, hw⟩ := List.forall_mem_cons.1 h
    unfold nameGroups at hp
    split at hp
    · split at hp <;> exact absurd (List.cons_prefix_cons.1 hp).1 hc
    · obtain ⟨rfl, hrest⟩ := List.cons_prefix_cons.1 hp
      exact List.cons_prefix_cons.2 ⟨rfl, ih hw hrest⟩
    · exact hp

theorem flagGroup_of_nameGroups (hw : IsFlagGroup w) (hp : w <+: nameGroups s) : w <+: s := by
  obtain ⟨w', rfl, hne⟩ := ne_of_mem_flagGroup hw
  obtain ⟨f, fs, heq, hf, -⟩ := hw
  unfold nameGroups at hp
  split at hp
  · -- neither an opening that is adapted nor one that is not goes on with a flag
    split at hp <;> simp only [heq, List.cons_prefix_cons, true_and] at hp
    · exact absurd hp.1 (ne_of_isLeadingFlag hf (by decide))
    · exact absurd hp.1 (ne_of_isLeadingFlag hf (by decide))
  · obtain ⟨rfl, hrest⟩ := List.cons_prefix_cons.1 hp
    exact List.cons_prefix_cons.2 ⟨rfl, prefix_of_nameGroups (fun c hc => (hne c hc).1) hrest⟩
  · exact hp

/-- Adapting makes no flags. -/
theorem leadingFlags_of_rewrite (h : LeadingFlags (rewrite none s)) : LeadingFlags s := by
  obtain ⟨w, hw, hp⟩ := h
  rw [← passes_eq_rewrite (Iff.refl (none = some '\\'))] at hp
  have hunescaped := flagGroup_of_nameGroups hw hp
  obtain ⟨w', rfl, hne⟩ := ne_of_mem_flagGroup hw
  have hall : ∀ c ∈ '(' :: w', c ≠ '\\' ∧ c ≠ '[' :=
    List.forall_mem_cons.2 ⟨by decide, fun c hc => (hne c hc).2⟩
  rw [unescape, digitClass_eq, prefix_replaceEscape hall, endMark_eq,
    prefix_replaceEscape fun c hc => ⟨(hall c hc).1, (hall c hc).1⟩] at hunescaped
  exact ⟨_, hw, hunescaped⟩

end flags

/-! ## Adapting and the scan -/

theorem adaptChars_eq_rewrite {s : List Char} (h : ¬LeadingFlags s) :
    adaptChars s = rewrite none s := by
  rw [adaptChars]
  change confineFlags (nameGroups (unescape none none s)) = _
  rw [passes_eq_rewrite Iff.rfl, confineFlags_of_none (mt leadingFlags_of_rewrite h)]

/-- **Constructs.** A pattern without leading flags is adapted as the scan says exactly if none of
its constructs is misread. -/
theorem adapt_eq_scan_iff (pattern : String) (h : ¬LeadingFlags pattern.toList) :
    adapt pattern = String.ofList (scan pattern.toList) ↔
      ∀ u v, pattern.toList = u ++ v → ¬Misread u v := by
  rw [adapt, adaptChars_eq_rewrite h, String.ofList_inj]
  have hnone : slashes [] % 2 = 0 := rfl
  exact rewrite_eq_scan_iff hnone

theorem not_leadingFlags {c : Char} {s : List Char} (h : c ≠ '(') : ¬LeadingFlags (c :: s) := by
  rintro ⟨w, hw, hp⟩
  obtain ⟨w', rfl, -⟩ := ne_of_mem_flagGroup hw
  exact h (List.cons_prefix_cons.1 hp).1.symm

/-- A pattern with all three constructs, and an escaped backslash in front. -/
theorem allConstructs_adapted :
    ¬LeadingFlags "\\\\h(?<a>\\h)\\z".toList ∧
    adapt "\\\\h(?<a>\\h)\\z" = "\\\\h(?P<a>[0-9a-fA-F])\\Z" ∧
    ∀ u v, "\\\\h(?<a>\\h)\\z".toList = u ++ v → ¬Misread u v := by
  have h : ¬LeadingFlags "\\\\h(?<a>\\h)\\z".toList := not_leadingFlags (by decide)
  exact ⟨h, by decide, (adapt_eq_scan_iff _ h).1 (by decide)⟩

/-- **Counterexample.** Behind an escaped backslash an escaped letter is left as it is, and an
escaped parenthesis is taken for the opening of a group. -/
theorem third_backslash_misread :
    ¬LeadingFlags "\\\\\\z".toList ∧
    adapt "\\\\\\z" = "\\\\\\z" ∧ String.ofList (scan "\\\\\\z".toList) = "\\\\\\Z" ∧
    ¬LeadingFlags "\\(?<a>".toList ∧
    adapt "\\(?<a>" = "\\(?P<a>" ∧ String.ofList (scan "\\(?<a>".toList) = "\\(?<a>" :=
  ⟨not_leadingFlags (by decide), by decide, by decide, not_leadingFlags (by decide), by decide,
    by decide⟩

end LangId.Dialect
