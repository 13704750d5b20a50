import LangId.Proofs.Dialect.Alternation
import LangId.Proofs.Dialect.Constructs
import LangId.Proofs.Regex.Scoping
import LangId.Proofs.Regex.Singles

/-!
# Flags at the beginning of a pattern

Flags at the beginning of a pattern are confined to it: they become those of a group around the rest
of the pattern, so that it can be joined with others. A pattern that holds no construct to be adapted
is read in the group as it is read on its own, unless further flags are set behind the first ones, or
a comment runs up to its end.

**Results.**
* `scan_eq_self_iff`: what it means that a pattern holds no construct.
* `compile_flagged`: what becomes of patterns with flags at the beginning.
* `comment_takes_parentheses`: the smallest pattern that ends in a comment.
-/
namespace LangId.Dialect

open Regex Reader

/-! ## Patterns without constructs -/

/-- Whether a construct that is adapted stands at the beginning of a text. -/
def IsConstruct (v : List Char) : Prop :=
  ['\\', 'z'] <+: v ∨ ['\\', 'h'] <+: v ∨ OpensGroup v

/-- Behind a text, another one holds no construct that is not escaped. -/
def HoldsNone (pre s : List Char) : Prop :=
  ∀ u v, s = u ++ v → slashes (pre ++ u) % 2 = 0 → ¬IsConstruct v

section constructs

variable {pre s : List Char} {c : Char}

theorem not_opensGroup (h : c ≠ '(') : ¬OpensGroup (c :: s) := by
  rintro ⟨rest, heq, -⟩
  exact h (List.cons.inj heq).1

theorem holdsNone_cons : HoldsNone pre (c :: s) ↔
    (slashes pre % 2 = 0 → ¬IsConstruct (c :: s)) ∧ HoldsNone (pre ++ [c]) s :=
  forall_append_cons (P := fun u v => slashes u % 2 = 0 → ¬IsConstruct v)

theorem holdsNone_nil : HoldsNone pre [] := by
  intro u v hs _
  obtain ⟨rfl, rfl⟩ := List.nil_eq_append_iff.1 hs
  rintro (hz | hh | ⟨rest, hopen, -⟩)
  · exact absurd hz (by decide)
  · exact absurd hh (by decide)
  · cases hopen

theorem holdsNone_copy (h : slashes pre % 2 = 0) (hc : c ≠ '\\') :
    HoldsNone pre (c :: s) ↔ ¬OpensGroup (c :: s) ∧ HoldsNone (pre ++ [c]) s := by
  have hhere : IsConstruct (c :: s) ↔ OpensGroup (c :: s) := by
    simp only [IsConstruct, List.cons_prefix_cons, Ne.symm hc, false_and, false_or]
  rw [holdsNone_cons, hhere]
  exact and_congr_left' (imp_iff_right h)

theorem holdsNone_pair (h : slashes pre % 2 = 0) :
    HoldsNone pre ('\\' :: c :: s) ↔ (c ≠ 'z' ∧ c ≠ 'h') ∧ HoldsNone (pre ++ ['\\', c]) s := by
  have hopen : ¬OpensGroup ('\\' :: c :: s) := not_opensGroup (by decide)
  have hhere : IsConstruct ('\\' :: c :: s) ↔ c = 'z' ∨ c = 'h' := by
    simp only [IsConstruct, or_iff_left hopen, List.cons_prefix_cons, List.nil_prefix, true_and,
      and_true, eq_comm (b := c)]
  have hodd : slashes (pre ++ ['\\']) % 2 ≠ 0 := by
    rw [slashes_concat, if_pos rfl]
    omega
  rw [holdsNone_cons, holdsNone_cons, hhere, List.append_assoc, imp_iff_right h, not_or]
  exact and_congr_right' (and_iff_right fun heven => absurd heven hodd)

/-- A text in which the scan changes nothing holds no construct. -/
theorem scan_eq_self_iff (h : slashes pre % 2 = 0) : scan s = s ↔ HoldsNone pre s := by
  fun_induction scan s generalizing pre with
  | case1 c rest hc ih =>
    obtain rfl : c = 'z' := eq_of_beq hc
    rw [holdsNone_pair h, endMark_eq]
    simp
  | case2 c rest _ hc ih =>
    obtain rfl : c = 'h' := eq_of_beq hc
    rw [holdsNone_pair h, digitClass_eq]
    simp
  | case3 c rest hz hh ih =>
    rw [holdsNone_pair h, ← ih (slashes_pair h)]
    simp_all
  | case4 rest hname ih =>
    rw [holdsNone_copy h (by decide)]
    simp [OpensGroup, hname]
  | case5 rest hname ih =>
    have hno : ¬OpensGroup ('(' :: '?' :: '<' :: rest) := by
      rintro ⟨t, heq, ht⟩
      cases heq
      exact hname ht
    rw [holdsNone_copy h (by decide), holdsNone_copy (slashes_copy (by decide)) (by decide),
      holdsNone_copy (slashes_copy (by decide)) (by decide), ← ih (slashes_copy (by decide)),
      and_iff_right hno, and_iff_right (not_opensGroup (by decide)),
      and_iff_right (not_opensGroup (by decide))]
    simp
  | case6 c rest hpair hopen ih =>
    by_cases hc : c = '\\'
    · subst hc
      cases rest with
      | nil =>
        refine iff_of_true rfl (holdsNone_cons.2 ⟨fun _ => ?_, holdsNone_nil⟩)
        rintro (hz | hh | hopens)
        · exact absurd hz (by decide)
        · exact absurd hh (by decide)
        · exact not_opensGroup (by decide) hopens
      | cons d rest => exact absurd rfl (hpair d rest rfl)
    · have hno : ¬OpensGroup (c :: rest) := by
        rintro ⟨t, heq, -⟩
        obtain ⟨rfl, rfl⟩ := List.cons.inj heq
        exact hopen t rfl rfl
      rw [holdsNone_copy h hc, and_iff_right hno, ← ih (slashes_copy hc)]
      simp
  | case7 => exact iff_of_true rfl holdsNone_nil

end constructs

/-! ## Adapting -/

theorem adaptChars_flags {f : Char} {fs body : List Char} (hf : isLeadingFlag f = true)
    (hfs : ∀ g ∈ fs, isLeadingFlag g = true)
    (hnone : HoldsNone [] ('(' :: '?' :: f :: (fs ++ ')' :: body)))
    (hclean : Clean [] ('(' :: '?' :: f :: (fs ++ ')' :: body))) :
    adaptChars ('(' :: '?' :: f :: (fs ++ ')' :: body)) =
      '(' :: '?' :: f :: (fs ++ ':' :: (body ++ [')'])) := by
  have hnil : slashes [] % 2 = 0 := rfl
  have hsame : nameGroups (unescape none none ('(' :: '?' :: f :: (fs ++ ')' :: body))) =
      '(' :: '?' :: f :: (fs ++ ')' :: body) := by
    rw [passes_eq_rewrite Iff.rfl]
    exact ((rewrite_eq_scan_iff hnil).2 hclean).trans ((scan_eq_self_iff hnil).2 hnone)
  have hspan : (f :: (fs ++ ')' :: body)).span isLeadingFlag = (f :: fs, ')' :: body) :=
    span_eq_of_forall (m := f :: fs) (List.forall_mem_cons.2 ⟨hf, hfs⟩) (by decide)
  change confineFlags (nameGroups (unescape none none _)) = _
  rw [hsame, confineFlags, hspan]
  simp

/-! ## Reading letters -/

/-- The flags that letters stand for. -/
def flagsOf (letters : List Char) : Flags where
  ignoreCase := letters.contains 'i'
  multiline := letters.contains 'm'
  dotAll := letters.contains 's'
  verbose := letters.contains 'x'

section letters

variable {r : Reader} {c d : Char} {cs : List Char} {rest : List Token} {flags : Flags}

theorem flag?_of_isLeadingFlag (h : isLeadingFlag c = true) : flag? c = some (flagsOf [c]) := by
  simp only [isLeadingFlag, Bool.or_eq_true, beq_iff_eq] at h
  rcases h with ((rfl | rfl) | rfl) | rfl <;> rfl

theorem union_flagsOf (found : Flags) :
    (found.union (flagsOf [c])).union (flagsOf cs) = found.union (flagsOf (c :: cs)) := by
  simp [Flags.union, flagsOf, Bool.or_assoc]

/-- One more letter, and then the sign behind the letters or the letters that are left. -/
theorem flagsOn_succ {n : Nat} {found : Flags} (hfound : found.ascii = false)
    (hc : isLeadingFlag c = true) (hr : r.rest = .plain d :: rest) :
    flagsOn (n + 1) found (.plain c) r =
      (if d == ')' || d == '-' || d == ':' then pure (found.union (flagsOf [c]), d)
        else flagsOn n (found.union (flagsOf [c])) (.plain d) : Reading (Flags × Char))
        { r with rest } := by
  have hascii : (found.union (flagsOf [c])).ascii = false := by simp [Flags.union, flagsOf, hfound]
  rw [flagsOn, flag?_of_isLeadingFlag hc]
  dsimp only
  rw [hascii, Bool.false_and]
  exact bind_of_ok (take_cons hr)

theorem flagsOn_letters {n : Nat} {found : Flags} (hfound : found.ascii = false)
    (hc : isLeadingFlag c = true) (hcs : ∀ g ∈ cs, isLeadingFlag g = true)
    (hd : d = ')' ∨ d = ':') (hn : cs.length < n)
    (hr : r.rest = cs.map .plain ++ .plain d :: rest) :
    flagsOn n found (.plain c) r = .ok ((found.union (flagsOf (c :: cs)), d), { r with rest }) := by
  obtain ⟨n, rfl⟩ := Nat.exists_eq_succ_of_ne_zero (Nat.ne_zero_of_lt hn)
  induction cs generalizing n found c r with
  | nil =>
    rw [flagsOn_succ hfound hc hr, if_pos (by rcases hd with rfl | rfl <;> decide)]
    rfl
  | cons e cs ih =>
    obtain ⟨he, hcs⟩ := List.forall_mem_cons.1 hcs
    have hn := Nat.lt_of_succ_lt_succ hn
    obtain ⟨n, rfl⟩ := Nat.exists_eq_succ_of_ne_zero (Nat.ne_zero_of_lt hn)
    have hsign : ¬(e == ')' || e == '-' || e == ':') = true := by
      simp only [Bool.or_eq_true, beq_iff_eq, not_or]
      exact ⟨⟨ne_of_isLeadingFlag he (by decide), ne_of_isLeadingFlag he (by decide)⟩,
        ne_of_isLeadingFlag he (by decide)⟩
    rw [flagsOn_succ hfound hc hr, if_neg hsign, ih _ he hcs rfl n hn, union_flagsOf]
    simp [Flags.union, hfound, flagsOf]

theorem isLetter_of_isLeadingFlag (h : isLeadingFlag c = true) : isLetter (.plain c) = true := by
  rw [isLetter, flag?_of_isLeadingFlag h]
  rfl

/-- Letters between the question mark and the sign behind them. -/
def flagTokens (c : Char) (cs : List Char) (d : Char) : List Token :=
  .plain '?' :: .plain c :: (cs.map .plain ++ [.plain d])

theorem flagGroup_letters {g : FlagGroup} (hc : isLeadingFlag c = true)
    (hcs : ∀ e ∈ cs, isLeadingFlag e = true)
    (hd : d = ')' ∧ g = .whole (flagsOf (c :: cs)) ∨ d = ':' ∧ g = .scoped (flagsOf (c :: cs)) {})
    (hr : r.rest = cs.map .plain ++ .plain d :: rest) :
    flagGroup (.plain c) r = .ok (g, { r with rest }) := by
  have hdash : ¬((Token.plain c == Token.plain '-') = true) := by
    rw [beq_iff_eq, Token.plain.injEq]
    exact ne_of_isLeadingFlag hc (by decide)
  have hn : cs.length < r.rest.length + 1 := by
    rw [hr, List.length_append, List.length_map]
    omega
  have hremaining : remaining r = .ok (r.rest.length, r) := rfl
  have hunion : ({} : Flags).union (flagsOf (c :: cs)) = flagsOf (c :: cs) := by
    simp [Flags.union, flagsOf]
  rw [flagGroup_eq, bind_of_ok hremaining, if_neg hdash,
    bind_of_ok (flagsOn_letters rfl hc hcs (hd.imp And.left And.left) hn hr), hunion]
  rcases hd with ⟨rfl, rfl⟩ | ⟨rfl, rfl⟩ <;> rfl

theorem sets_letters (hc : isLeadingFlag c = true) (hcs : ∀ e ∈ cs, isLeadingFlag e = true) :
    Sets flags (flagsOf (c :: cs)) (flagTokens c cs ')') := by
  intro n r rest hr
  have hr : r.rest = .plain '?' :: .plain c :: (cs.map .plain ++ .plain ')' :: rest) := by
    simpa [flagTokens] using hr
  rw [parenthesis_letter (isLetter_of_isLeadingFlag hc) hr,
    bind_of_ok (flagGroup_letters hc hcs (.inl ⟨rfl, rfl⟩) rfl)]
  rfl

theorem opens_letters (hc : isLeadingFlag c = true) (hcs : ∀ e ∈ cs, isLeadingFlag e = true) :
    Opens flags (flags.union (flagsOf (c :: cs))) (flagTokens c cs ':') := by
  intro n r rest hr
  have hr : r.rest = .plain '?' :: .plain c :: (cs.map .plain ++ .plain ':' :: rest) := by
    simpa [flagTokens] using hr
  have hadjust : flags.adjust (flagsOf (c :: cs)) {} = flags.union (flagsOf (c :: cs)) := by
    simp [Flags.adjust, Flags.union, flagsOf]
  rw [parenthesis_letter (isLetter_of_isLeadingFlag hc) hr,
    bind_of_ok (flagGroup_letters hc hcs (.inr ⟨rfl, rfl⟩) rfl), behindFlags, hadjust]

end letters

/-! ## Texts with letters -/

theorem tokens_letters {l : List Char} (h : ∀ c ∈ l, isLeadingFlag c = true) (rest : List Char) :
    tokens (l ++ rest) = l.map .plain ++ tokens rest := by
  induction l with
  | nil => rfl
  | cons c l ih =>
    obtain ⟨hc, hl⟩ := List.forall_mem_cons.1 h
    rw [List.cons_append, tokens_plain (ne_of_isLeadingFlag hc (by decide)), ih hl]
    rfl

theorem tokens_flags {f d : Char} {fs rest : List Char} (hf : isLeadingFlag f = true)
    (hfs : ∀ g ∈ fs, isLeadingFlag g = true) (hd : d ≠ '\\') :
    tokens ('(' :: '?' :: f :: (fs ++ d :: rest)) =
      .plain '(' :: (flagTokens f fs d ++ tokens rest) := by
  rw [tokens_plain (by decide), tokens_plain (by decide),
    tokens_plain (ne_of_isLeadingFlag hf (by decide)), tokens_letters hfs, tokens_plain hd]
  simp [flagTokens]

/-- The pattern with its flags confined to it, in the group in which it is joined with others. -/
theorem tokens_wrap_flags {f : Char} {fs body : List Char} (hf : isLeadingFlag f = true)
    (hfs : ∀ g ∈ fs, isLeadingFlag g = true) (hbody : Closed body) :
    tokens (wrap ('(' :: '?' :: f :: (fs ++ ':' :: (body ++ [')'])))) =
      inGroups (flagTokens f fs ':') (tokens body) := by
  have hwrap : wrap ('(' :: '?' :: f :: (fs ++ ':' :: (body ++ [')']))) =
      '(' :: '?' :: ':' :: '(' :: '?' :: f :: (fs ++ ':' :: (body ++ [')', ')'])) := by
    simp [wrap]
  rw [hwrap, tokens_plain (by decide), tokens_plain (by decide), tokens_plain (by decide),
    tokens_flags hf hfs (by decide), tokens_append_of_closed hbody]
  rfl

/-! ## Compiling -/

/-- A comment runs up to the end of the pattern: one more parenthesis behind it is a part of the
comment. -/
def EndsInComment (pattern : String) : Prop :=
  ∃ q, Pattern.compile contentFlags (pattern ++ ")") = .ok q

section compiling

variable {pattern source : String} {w body : List Char} {p : Pattern} {f : Char} {fs : List Char}

theorem pattern_eq_ok : Pattern.compile contentFlags pattern = .ok p ↔
    ∃ node s, whole contentFlags { rest := tokens pattern.toList } = .ok (node, s) ∧
      p = ⟨pattern, node⟩ := by
  rw [Pattern.compile, map_eq_ok]
  simp only [parse_eq_ok, exists_and_right, eq_comm (a := p)]

theorem pattern_of_error {x : Regex.Error}
    (h : whole contentFlags { rest := tokens pattern.toList } = .error x) :
    Pattern.compile contentFlags pattern = .error x := by
  have hrun : parse contentFlags pattern.toList =
      (whole contentFlags { rest := tokens pattern.toList }).map (·.1) := rfl
  rw [Pattern.compile, hrun, h]
  rfl

/-- A pattern that begins with flags, as it is joined with others. -/
theorem tokens_join_flags (hf : isLeadingFlag f = true) (hfs : ∀ g ∈ fs, isLeadingFlag g = true)
    (hpattern : pattern.toList = '(' :: '?' :: f :: (fs ++ ')' :: body))
    (hnone : HoldsNone [] pattern.toList) (hclean : Clean [] pattern.toList) (hbody : Closed body) :
    tokens (join [pattern]).toList = inGroups (flagTokens f fs ':') (tokens body) := by
  rw [hpattern] at hnone hclean
  rw [toList_join_singleton, adapt, String.toList_ofList, hpattern,
    adaptChars_flags hf hfs hnone hclean, tokens_wrap_flags hf hfs hbody]

/-- **Flags at the beginning.** Of the patterns that compile as they stand, begin with flags and hold no
construct, neither adapted nor misread, those compile that set no further flags and do not end in a
comment, and these find the same matches as before. Further flags come too late within the group, and a
comment takes the parentheses that close it. -/
theorem compile_flagged (hw : IsFlagGroup w) (hpattern : pattern.toList = w ++ body)
    (hnone : HoldsNone [] pattern.toList) (hclean : Clean [] pattern.toList)
    (halone : Pattern.compile contentFlags pattern = .ok p) :
    (SetsFlags (w.contains 'x') (tokens body) → compile (.one pattern) source =
      .error (.definition (.badPattern (join [pattern]) source .lateFlags))) ∧
    (¬SetsFlags (w.contains 'x') (tokens body) →
      (EndsInComment pattern → 'x' ∈ w ∧ compile (.one pattern) source =
        .error (.definition (.badPattern (join [pattern]) source .openParenthesis))) ∧
      (¬EndsInComment pattern → ∃ q, compile (.one pattern) source = .ok q ∧
        ∀ text, q.search text = p.search text)) := by
  obtain ⟨f, fs, rfl, hf, hfs⟩ := hw
  have hpattern : pattern.toList = '(' :: '?' :: f :: (fs ++ ')' :: body) := by
    rw [hpattern]
    simp
  have hverbose : ('(' :: '?' :: f :: (fs ++ [')'])).contains 'x' =
      (contentFlags.union (flagsOf (f :: fs))).verbose := by
    simp [contentFlags, Flags.union, flagsOf]
  obtain ⟨node, s, hwhole, rfl⟩ := pattern_eq_ok.1 halone
  have hclosed := not_dangling_of_whole hwhole
  rw [hpattern, tokens_flags hf hfs (by decide)] at hwhole hclosed
  have hbody : Closed body := fun hmem =>
    hclosed (List.mem_cons_of_mem _ (List.mem_append_right _ hmem))
  have htokens := tokens_join_flags hf hfs hpattern hnone hclean hbody
  have hbehind : tokens (pattern ++ ")").toList =
      .plain '(' :: (flagTokens f fs ')' ++ (tokens body ++ closers 0)) := by
    have htext : (pattern ++ ")").toList = '(' :: '?' :: f :: (fs ++ ')' :: (body ++ [')'])) := by
      simp [hpattern]
    rw [htext, tokens_flags hf hfs (by decide), tokens_append_of_closed hbody]
    rfl
  obtain ⟨hlate, hearly⟩ := scoped_whole (sets_letters hf hfs) (opens_letters hf hfs)
    (by simp [flagTokens]) rfl hwhole
  rw [← hverbose, ← htokens] at hlate hearly
  rw [← hbehind] at hearly
  have hne : (OneOrMany.one pattern).toList ≠ [] := List.cons_ne_nil _ _
  refine ⟨fun hsets => compile_of_malformed hne (pattern_of_error (hlate hsets)), fun hsets => ?_⟩
  rcases hearly hsets with ⟨hstray, hsame⟩ | ⟨hskips, hcomment, hopen⟩
  · refine ⟨fun hcomment => ?_, fun _ => ?_⟩
    · obtain ⟨q, hq⟩ := hcomment
      obtain ⟨node', s', hok, -⟩ := pattern_eq_ok.1 hq
      rw [hstray] at hok
      cases hok
    · exact ⟨⟨join [pattern], node⟩,
        compile_eq_ok.2 ⟨hne, pattern_eq_ok.2 ⟨node, s, hsame, rfl⟩⟩, fun text => rfl⟩
  · refine ⟨fun _ => ⟨?_, compile_of_malformed hne (pattern_of_error hopen)⟩, fun hno => ?_⟩
    · simpa using hskips
    · exact absurd ⟨_, pattern_eq_ok.2 ⟨node, s, hcomment, rfl⟩⟩ hno

end compiling

/-- Flags with a reference, a comment that ends with its line, and an alternative behind it. -/
def commented : String := "(?ix)(a) b\\1 # twice\n|c"

theorem commented_compiled :
    IsFlagGroup "(?ix)".toList ∧
      commented.toList = "(?ix)".toList ++ "(a) b\\1 # twice\n|c".toList ∧
      HoldsNone [] commented.toList ∧ Clean [] commented.toList ∧
      (∃ p, Pattern.compile contentFlags commented = .ok p) ∧
      ∃ q, compile (.one commented) "test" = .ok q ∧ q.occursIn "ABA".toList = true ∧
        q.occursIn "A b".toList = false := by
  have hw : IsFlagGroup "(?ix)".toList := ⟨'i', ['x'], by decide, rfl, List.forall_mem_singleton.2 rfl⟩
  have htext : commented.toList = "(?ix)".toList ++ "(a) b\\1 # twice\n|c".toList := by decide
  have hnil : slashes [] % 2 = 0 := rfl
  have hnone : HoldsNone [] commented.toList := (scan_eq_self_iff hnil).1 (by decide)
  have hclean : Clean [] commented.toList := (rewrite_eq_scan_iff hnil).1 (by decide)
  have hread : (Pattern.compile contentFlags commented).toOption.map (fun p =>
      (p.occursIn "ABA".toList, p.occursIn "A b".toList)) = some (true, false) := by decide +kernel
  obtain ⟨p, hp, hoccurs⟩ := Option.map_eq_some_iff.1 hread
  have halone := toOption_eq_some.1 hp
  obtain ⟨hABA, hAb⟩ := Prod.mk.inj hoccurs
  have hsets : ¬SetsFlags ("(?ix)".toList.contains 'x') (tokens "(a) b\\1 # twice\n|c".toList) := by
    have hbegins : (tokens "(a) b\\1 # twice\n|c".toList).take 2 = [.plain '(', .plain 'a'] := by
      decide
    intro h
    generalize tokens "(a) b\\1 # twice\n|c".toList = ts at h hbegins
    cases h with
    | here | comment | lineComment => simp at hbegins
    | blank _ hwhite =>
      obtain ⟨heq, -⟩ := List.cons.inj hbegins
      obtain rfl := Token.plain.inj heq
      exact absurd hwhite (by decide)
  have hends : ¬EndsInComment commented := by
    rintro ⟨q, hq⟩
    have hno : (Pattern.compile contentFlags (commented ++ ")")).toOption.isNone = true := by
      decide +kernel
    rw [hq] at hno
    cases hno
  obtain ⟨q, hq, hsame⟩ : ∃ q, compile (.one commented) "test" = .ok q ∧
      ∀ text, q.search text = p.search text :=
    ((compile_flagged hw htext hnone hclean halone).2 hsets).2 hends
  refine ⟨hw, htext, hnone, hclean, ⟨p, halone⟩, q, hq, ?_, ?_⟩
  · rw [Pattern.occursIn, hsame]
    exact hABA
  · rw [Pattern.occursIn, hsame]
    exact hAb

/-- **Counterexample.** The comment at the end of a pattern takes the parentheses of the groups around
it, so that the pattern, which compiles as it stands, does not compile any more. -/
theorem comment_takes_parentheses : ¬∀ (pattern source : String) (w body : List Char) (p : Pattern),
    IsFlagGroup w → pattern.toList = w ++ body → HoldsNone [] pattern.toList →
    Pattern.compile contentFlags pattern = .ok p →
    ∃ q, compile (.one pattern) source = .ok q ∧ ∀ text, q.search text = p.search text := by
  intro h
  have hw : IsFlagGroup "(?x)".toList := ⟨'x', [], by decide, rfl, List.forall_mem_nil _⟩
  have hnil : slashes [] % 2 = 0 := rfl
  have hnone : HoldsNone [] "(?x)a#".toList := (scan_eq_self_iff hnil).1 (by decide)
  have hread : (Pattern.compile contentFlags "(?x)a#").toOption.isSome = true := by decide +kernel
  obtain ⟨p, hp⟩ := Option.isSome_iff_exists.1 hread
  obtain ⟨q, hq, -⟩ := h "(?x)a#" "test" _ ['a', '#'] p hw (by decide) hnone (toOption_eq_some.1 hp)
  have hno : occursIn? (.one "(?x)a#") "test" "a" = none := by decide +kernel
  rw [occursIn?_eq_some.2 ⟨q, hq, rfl⟩] at hno
  cases hno

end LangId.Dialect
