import LangId.Proofs.Regex.Closing

/-!
# What stands at the beginning of a pattern

Flags for the whole pattern may be set at its beginning only: in front of them no more than other
flags, comments and, in a verbose pattern, white space may stand (`SetsFlags`). A pattern that sets
flags cannot be read as a part of another one (`opens_sequence`), and all others are read there as they
are on their own.
-/
namespace LangId.Regex.Reader

variable {r s : Reader} {n m k : Nat} {flags : Flags} {verbose : Bool} {c : Char}
  {rest : List Token}

/-! ## Letters -/

/-- Whether a token is a letter that stands for a flag. -/
def isLetter : Token → Bool
  | .plain c => (flag? c).isSome
  | _ => false

/-- How flags at the beginning of a group go on behind those that are switched on. -/
def behindFlagsOn (bound : Nat) (on : Flags) (sign : Char) : Reading FlagGroup := do
  if sign == ')' then return .whole on
  if on.template then fail .badFlags
  if sign == ':' then return .scoped on {}
  match ← take with
  | none => fail .badFlags
  | some t =>
    let off ← flagsOff bound {} t
    if off.template || on.overlaps off then fail .badFlags
    return .scoped on off

theorem flagGroup_eq (t : Token) : flagGroup t = (remaining >>= fun left =>
    if t == .plain '-' then behindFlagsOn (left + 1) {} '-'
    else flagsOn (left + 1) {} t >>= fun x => behindFlagsOn (left + 1) x.1 x.2) := by
  unfold flagGroup
  refine congrArg (remaining >>= ·) (funext fun left => ?_)
  split <;> rfl

theorem whole_of_behindFlagsOn {bound : Nat} {on : Flags} {sign : Char} {g : FlagGroup}
    (h : behindFlagsOn bound on sign r = .ok (g, s)) :
    (∃ more, g = .whole more) ↔ sign = ')' := by
  by_cases hsign : sign = ')'
  · subst hsign
    cases h
    exact ⟨fun _ => rfl, fun _ => ⟨on, rfl⟩⟩
  · refine iff_of_false ?_ hsign
    rintro ⟨more, rfl⟩
    have hscoped : Yields (fun g => ∃ on off, g = .scoped on off) (behindFlagsOn bound on sign) := by
      unfold behindFlagsOn
      dsimp only
      split
      · rename_i hclose
        exact absurd (eq_of_beq hclose) hsign
      split
      · exact .fail_bind
      split
      · exact .pure ⟨_, _, rfl⟩
      refine .bind fun t _ _ _ => ?_
      split
      · exact .fail
      refine .bind fun off _ _ _ => ?_
      split
      · exact .fail_bind
      · exact .pure ⟨_, _, rfl⟩
    obtain ⟨on, off, hg⟩ := hscoped r _ s h
    cases hg

/-- The letters of flags that are switched on end before a sign. -/
theorem letters_of_flagsOn {found all : Flags} {t : Token} {sign : Char}
    (h : flagsOn n found t r = .ok ((all, sign), s)) :
    isLetter t = true ∧ r.rest.dropWhile isLetter = .plain sign :: s.rest := by
  induction n generalizing r found t with
  | zero => cases h
  | succ n ih =>
    cases t with
    | escaped c | dangling => cases h
    | plain c =>
      cases hc : flag? c with
      | none =>
        rw [flagsOn, hc] at h
        cases h
      | some one =>
        have hletter : isLetter (.plain c) = true := by rw [isLetter, hc]; rfl
        refine ⟨hletter, ?_⟩
        rw [flagsOn, hc] at h
        dsimp only at h
        split at h
        · cases h
        obtain ⟨u, v, htake, h⟩ := bind_eq_ok.1 h
        cases hrest : r.rest with
        | nil =>
          rw [take_nil hrest] at htake
          cases htake
          cases h
        | cons t rest =>
          rw [take_cons hrest] at htake
          cases htake
          cases t with
          | escaped d | dangling => cases h
          | plain d =>
            dsimp only at h
            split at h
            · rename_i hsign
              cases h
              have hend : isLetter (.plain sign) = false := by
                simp only [Bool.or_eq_true, beq_iff_eq] at hsign
                rcases hsign with (rfl | rfl) | rfl <;> rfl
              rw [List.dropWhile_cons_of_neg (by simp [hend])]
            · obtain ⟨hd, hmore⟩ := ih h
              rw [List.dropWhile_cons_of_pos hd]
              exact hmore

/-- Flags hold for the whole pattern if a parenthesis follows their letters. -/
theorem whole_of_flagGroup {t : Token} {g : FlagGroup} (h : flagGroup t r = .ok (g, s)) :
    (∃ more, g = .whole more) ↔
      isLetter t = true ∧ ∃ rest, r.rest.dropWhile isLetter = .plain ')' :: rest := by
  rw [flagGroup_eq, bind_eq_ok] at h
  obtain ⟨left, u, hleft, h⟩ := h
  cases hleft
  split at h
  · rename_i hdash
    obtain rfl := eq_of_beq hdash
    rw [whole_of_behindFlagsOn h]
    exact iff_of_false (by decide) fun h => absurd h.1 (by decide)
  · obtain ⟨⟨on, sign⟩, u, hon, h⟩ := bind_eq_ok.1 h
    obtain ⟨hletter, hrest⟩ := letters_of_flagsOn hon
    rw [whole_of_behindFlagsOn h, and_iff_right hletter, hrest]
    constructor
    · rintro rfl
      exact ⟨_, rfl⟩
    · rintro ⟨rest, heq⟩
      exact Token.plain.inj (List.cons.inj heq).1

/-! ## Flags behind flags -/

/-- Flags for the whole pattern are set, behind no more than comments and, in a verbose pattern, white
space. -/
inductive SetsFlags (verbose : Bool) : List Token → Prop where
  | here {c : Char} {rest more : List Token} (letter : isLetter (.plain c) = true)
      (ends : rest.dropWhile isLetter = .plain ')' :: more) :
      SetsFlags verbose (.plain '(' :: .plain '?' :: .plain c :: rest)
  | comment {rest : List Token} (behind : SetsFlags verbose (behindSign ')' rest)) :
      SetsFlags verbose (.plain '(' :: .plain '?' :: .plain '#' :: rest)
  | blank {c : Char} {rest : List Token} (skips : verbose = true) (white : isVerboseBlank c = true)
      (behind : SetsFlags verbose rest) : SetsFlags verbose (.plain c :: rest)
  | lineComment {rest : List Token} (skips : verbose = true)
      (behind : SetsFlags verbose (behindSign '\n' rest)) : SetsFlags verbose (.plain '#' :: rest)

theorem not_setsFlags_nil : ¬SetsFlags verbose [] := nofun

theorem setsFlags_blank (hc : isVerboseBlank c = true) :
    SetsFlags true (.plain c :: rest) ↔ SetsFlags true rest := by
  refine ⟨fun h => ?_, .blank rfl hc⟩
  cases h with
  | here | comment | lineComment => exact absurd hc (by decide)
  | blank _ _ hbehind => exact hbehind

theorem setsFlags_lineComment :
    SetsFlags true (.plain '#' :: rest) ↔ SetsFlags true (behindSign '\n' rest) := by
  refine ⟨fun h => ?_, .lineComment rfl⟩
  cases h with
  | blank _ hwhite => exact absurd hwhite (by decide)
  | lineComment _ hbehind => exact hbehind

theorem setsFlags_comment : SetsFlags verbose (.plain '(' :: .plain '?' :: .plain '#' :: rest) ↔
    SetsFlags verbose (behindSign ')' rest) := by
  refine ⟨fun h => ?_, .comment⟩
  cases h with
  | here hletter => exact absurd hletter (by decide)
  | comment hbehind => exact hbehind
  | blank _ hwhite => exact absurd hwhite (by decide)

theorem setsFlags_here {t : Token} (ht : t ≠ .plain '#') :
    SetsFlags verbose (.plain '(' :: .plain '?' :: t :: rest) ↔
      isLetter t = true ∧ ∃ more, rest.dropWhile isLetter = .plain ')' :: more := by
  constructor
  · intro h
    cases h with
    | here hletter hends => exact ⟨hletter, _, hends⟩
    | comment => exact absurd rfl ht
    | blank _ hwhite => exact absurd hwhite (by decide)
  · rintro ⟨hletter, more, hends⟩
    cases t with
    | plain c => exact .here hletter hends
    | escaped c | dangling => cases hletter

theorem beginsGap_of_setsFlags {t : Token} (h : SetsFlags flags.verbose (t :: rest)) :
    BeginsGap flags t := by
  cases h with
  | here | comment => exact .inl rfl
  | blank hverbose hwhite => exact .inr ⟨hverbose, .inr ⟨_, rfl, hwhite⟩⟩
  | lineComment hverbose => exact .inr ⟨hverbose, .inl rfl⟩

/-! ## Parentheses at the beginning -/

/-- A reading of no more than parts. -/
def PartsOnly (x : Reading Opening) : Prop := Yields (fun a => ∃ p, a = .part p) x

theorem partsOnly_bind {x : Reading Part} {f : Part → Part} :
    PartsOnly (x >>= fun p => pure (.part (f p))) := .bind fun p _ _ _ => .pure ⟨f p, rfl⟩

theorem partsOnly_namedReference : PartsOnly (namedReference flags) := by
  refine .bind fun label _ _ _ => ?_
  split
  · exact .fail_bind
  refine .bind fun _ _ _ _ => ?_
  split
  · exact .fail
  · exact partsOnly_bind (f := id)

theorem partsOnly_named : PartsOnly (named n flags) := by
  refine .bind fun groups _ _ _ => ?_
  split
  · refine .bind fun label _ _ _ => ?_
    split
    · exact partsOnly_bind (f := id)
    · exact .fail
  refine .bind fun refers _ _ _ => ?_
  split
  · exact partsOnly_namedReference
  · exact .fail

theorem partsOnly_testBefore : PartsOnly (testBefore n flags) := by
  refine .bind fun t _ _ _ => ?_
  split
  · exact partsOnly_bind (f := id)
  · exact partsOnly_bind (f := id)
  · exact .fail

theorem partsOnly_condition : PartsOnly (condition n flags) := by
  have hclose {f : Unit → Opening} (hf : ∀ u, ∃ p, f u = .part p) :
      PartsOnly (closeParenthesis >>= fun u => pure (f u)) := .bind fun u _ _ _ => .pure (hf u)
  refine .bind fun found _ _ _ => .bind fun index _ _ _ => .bind fun _ _ _ _ =>
    .bind fun yes _ _ _ => .bind fun more _ _ _ => ?_
  split
  · refine .bind fun no _ _ _ => .bind fun _ _ _ _ => ?_
    split
    · exact .fail_bind
    · exact hclose fun _ => ⟨_, rfl⟩
  · exact hclose fun _ => ⟨_, rfl⟩

/-- What a parenthesis with flags behind it opens. -/
def behindFlags (n : Nat) (flags : Flags) : FlagGroup → Reading Opening
  | .whole more => return .flags more
  | .scoped on off => return .part (← enclosed n (flags.adjust on off))

theorem parenthesis_letter {t : Token} (ht : isLetter t = true)
    (h : r.rest = .plain '?' :: t :: rest) : parenthesis (n + 1) flags r =
      (flagGroup t >>= behindFlags n flags) { r with rest } := by
  obtain ⟨ts, groups, widths, names, behindGroups, expected, deferred⟩ := r
  obtain rfl := h
  cases t with
  | escaped c | dangling => cases ht
  | plain c =>
    rw [isLetter, flag?.eq_def] at ht
    split at ht
    · rfl
    · rfl
    · rfl
    · rfl
    · rfl
    · rfl
    · rfl
    · cases ht

theorem parenthesis_comment (h : r.rest = .plain '?' :: .plain '#' :: rest) :
    parenthesis (n + 1) flags r =
      (skipComment ')' false (rest.length + 1) >>= fun _ => pure .nothing) { r with rest } := by
  obtain ⟨ts, groups, widths, names, behindGroups, expected, deferred⟩ := r
  obtain rfl := h
  rfl

theorem partsOnly_behindFlags {t : Token} (ht : isLetter t = false) :
    PartsOnly (flagGroup t >>= behindFlags n flags) := by
  refine .bind fun g r s hg => ?_
  match g, hg with
  | .whole more, hg =>
    have hletter := ((whole_of_flagGroup hg).1 ⟨more, rfl⟩).1
    rw [ht] at hletter
    cases hletter
  | .scoped on off, _ => exact partsOnly_bind (f := id)

/-- A parenthesis with neither a comment nor the letters of flags behind it opens a part. -/
theorem part_of_parenthesis {opening : Opening} (h : parenthesis n flags r = .ok (opening, s))
    (hother : ∀ t rest, r.rest = .plain '?' :: t :: rest → t ≠ .plain '#' ∧ isLetter t = false) :
    ∃ p, opening = .part p := by
  cases n with
  | zero => cases h
  | succ n =>
    rw [parenthesis] at h
    obtain ⟨special, u, hspecial, h⟩ := bind_eq_ok.1 h
    cases special with
    | false => exact partsOnly_bind (f := id) u opening s h
    | true =>
      obtain ⟨t, v, htake, h⟩ := bind_eq_ok.1 h
      cases hrest : u.rest with
      | nil =>
        rw [take_nil hrest] at htake
        cases htake
        cases h
      | cons t rest =>
        rw [take_cons hrest] at htake
        cases htake
        obtain ⟨hsharp, hletter⟩ := hother t rest (hrest ▸ rest_of_accept hspecial)
        refine (show PartsOnly _ from ?_) _ _ _ h
        split
        · exact .fail
        · exact partsOnly_bind (f := id)
        · exact partsOnly_bind
        · rename_i heq
          exact absurd (Option.some.inj heq) hsharp
        · exact partsOnly_named
        · exact partsOnly_bind (f := id)
        · exact partsOnly_bind (f := id)
        · exact partsOnly_testBefore
        · exact partsOnly_condition
        · rename_i heq
          obtain rfl := Option.some.inj heq
          exact partsOnly_behindFlags hletter

/-- What is opened by a parenthesis tells whether flags are set there. -/
def Opening.Tells (verbose : Bool) (ts behind : List Token) : Opening → Prop
  | .part _ => ¬SetsFlags verbose ts
  | .nothing => SetsFlags verbose ts ↔ SetsFlags verbose behind
  | .flags _ => SetsFlags verbose ts

theorem tells_of_parenthesis (verbose : Bool) {opening : Opening}
    (h : parenthesis n flags r = .ok (opening, s)) :
    opening.Tells verbose (.plain '(' :: r.rest) s.rest := by
  by_cases hother : ∀ t rest, r.rest = .plain '?' :: t :: rest → t ≠ .plain '#' ∧ isLetter t = false
  · obtain ⟨p, rfl⟩ := part_of_parenthesis h hother
    intro hsets
    generalize hts : r.rest = ts at hsets
    cases hsets with
    | here hletter =>
      have := (hother _ _ hts).2
      rw [hletter] at this
      cases this
    | comment => exact (hother _ _ hts).1 rfl
    | blank _ hwhite => exact absurd hwhite (by decide)
  simp only [not_forall] at hother
  obtain ⟨t, rest, hrest, ht⟩ := hother
  cases n with
  | zero => cases h
  | succ n =>
    rw [hrest]
    by_cases hsharp : t = .plain '#'
    · subst hsharp
      rw [parenthesis_comment hrest] at h
      obtain ⟨_, u, hskip, h⟩ := bind_eq_ok.1 h
      cases h
      obtain ⟨-, -, rfl⟩ := (skipComment_eq_ok (Nat.lt_succ_self _)).1 hskip
      exact setsFlags_comment
    · have hletter : isLetter t = true := by
        by_contra hno
        exact ht ⟨hsharp, Bool.eq_false_iff.2 hno⟩
      rw [parenthesis_letter hletter hrest] at h
      obtain ⟨g, u, hg, h⟩ := bind_eq_ok.1 h
      have hwhole := whole_of_flagGroup hg
      match g, hwhole, h with
      | .whole more, hwhole, h =>
        cases h
        exact (setsFlags_here hsharp).2 (hwhole.1 ⟨more, rfl⟩)
      | .scoped on off, hwhole, h =>
        obtain ⟨p, v, -, h⟩ := bind_eq_ok.1 h
        cases h
        intro hsets
        obtain ⟨more, heq⟩ := hwhole.2 ((setsFlags_here hsharp).1 hsets)
        cases heq

/-! ## Turns at the beginning -/

theorem turn_blank {top : Bool} {found : List Part} (hverbose : flags.verbose = true)
    (hwhite : isVerboseBlank c = true) :
    turn n flags top found (.plain c) = pure (flags, found) := by
  unfold turn
  simp only [hverbose, hwhite, Bool.and_self, if_true]

/-- What comes of the first turn of a pattern if it is not: flags set there come too late, and
everything else comes to the same. -/
theorem opens_turn {t : Token} {x : Flags × List Part} (hr : r.Sound)
    (h : turn n flags true [] t r = .ok (x, s)) :
    SetsFlags flags.verbose (t :: r.rest) ∧ (∀ m k, n ≤ m →
        turn m flags false [] t (r.within k) = .error (.malformed .lateFlags)) ∨
      turn n flags false [] t r = .ok (x, s) ∧ x.1 = flags ∧
        (SetsFlags flags.verbose (t :: r.rest) ↔ x.2 = [] ∧ SetsFlags flags.verbose s.rest) := by
  by_cases ht : t = .plain '('
  · subst ht
    rw [turn_parenthesis] at h
    obtain ⟨opening, u, hopening, h⟩ := bind_eq_ok.1 h
    have htells := tells_of_parenthesis flags.verbose hopening
    cases opening with
    | part p =>
      cases h
      refine .inr ⟨?_, rfl, iff_of_false htells fun h => List.cons_ne_nil _ _ h.1⟩
      rw [turn_parenthesis, bind_of_ok hopening]
      rfl
    | nothing =>
      cases h
      refine .inr ⟨?_, rfl, htells.trans (and_iff_right rfl).symm⟩
      rw [turn_parenthesis, bind_of_ok hopening]
      rfl
    | flags more =>
      refine .inl ⟨htells, fun m k hnm => ?_⟩
      have hwithin := within_of_follows
        ((tracks (closing k) n).parenthesis hnm flags r True) hr hopening (.inl trivial)
      rw [turn_parenthesis, bind_of_ok hwithin]
      rfl
  · have hfalse : turn n flags false [] t r = .ok (x, s) := by
      rw [turn_top false true (.inl ht), h]
    obtain ⟨hflags, hfound⟩ := (yields_turn n flags false [] t r x s hfalse).resolve_right nofun
    refine .inr ⟨hfalse, hflags, ?_⟩
    by_cases hgap : BeginsGap flags t
    · rcases hgap with heq | ⟨hverbose, rfl | ⟨c, rfl, hwhite⟩⟩
      · exact absurd heq ht
      · obtain ⟨rfl, hskip⟩ := (turn_comment hverbose).1 h
        obtain ⟨-, -, rfl⟩ := (skipComment_eq_ok (Nat.lt_succ_self _)).1 hskip
        rw [hverbose]
        exact setsFlags_lineComment.trans (and_iff_right rfl).symm
      · rw [turn_blank hverbose hwhite] at h
        cases h
        rw [hverbose]
        exact (setsFlags_blank hwhite).trans (and_iff_right rfl).symm
    · have hne : x.2 ≠ [] := hfound.resolve_right fun hsame => hgap hsame.2
      exact iff_of_false (mt beginsGap_of_setsFlags hgap) fun h => hne h.1

/-! ## Sequences at the beginning -/

/-- Behind parts it does not matter whether a sequence is the first of the pattern. -/
theorem sequence_top {found : List Part} {a : Part × Flags} (hne : found ≠ [])
    (h : sequence n flags true found r = .ok (a, s)) :
    sequence n flags false found r = .ok (a, s) := by
  induction n generalizing r found with
  | zero => cases h
  | succ n ih =>
    by_cases hend : r.AtEnd
    · exact (sequence_of_atEnd hend).2 ((sequence_of_atEnd hend).1 h)
    obtain ⟨t, rest, hrest, hbar, hclose⟩ := exists_of_not_atEnd hend
    rw [sequence_turn hrest hbar hclose] at h ⊢
    obtain ⟨⟨more, parts⟩, u, hturn, hmore⟩ := bind_eq_ok.1 h
    obtain ⟨hflags, hfound⟩ := keeps_turn (.inr hne) hturn
    obtain rfl : more = flags := hflags
    rw [turn_top true false (.inr hne)] at hturn
    rw [bind_of_ok hturn]
    exact ih (hfound hne) hmore

theorem not_setsFlags_of_atEnd (h : r.AtEnd) : ¬SetsFlags verbose r.rest := by
  intro hsets
  generalize hts : r.rest = ts at hsets
  rw [AtEnd, hts] at h
  cases hsets with
  | here | comment | lineComment => simp at h
  | @blank c _ _ hwhite =>
    simp only [List.head?_cons, reduceCtorEq, Option.some.injEq, Token.plain.injEq, false_or] at h
    rcases h with rfl | rfl <;> exact absurd hwhite (by decide)

/-- **The beginning of a pattern**, read where it is not one. Flags set there come too late, and every
other pattern is read as it is on its own. -/
theorem opens_sequence {a : Part × Flags} (hr : r.Sound)
    (h : sequence n flags true [] r = .ok (a, s)) :
    (SetsFlags flags.verbose r.rest → ∀ m k, n ≤ m →
        sequence m flags false [] (r.within k) = .error (.malformed .lateFlags)) ∧
      (¬SetsFlags flags.verbose r.rest → sequence n flags false [] r = .ok (a, s)) := by
  induction n generalizing r with
  | zero => cases h
  | succ n ih =>
    by_cases hend : r.AtEnd
    · exact ⟨fun hsets => absurd hsets (not_setsFlags_of_atEnd hend),
        fun _ => (sequence_of_atEnd hend).2 ((sequence_of_atEnd hend).1 h)⟩
    obtain ⟨t, rest, hrest, hbar, hclose⟩ := exists_of_not_atEnd hend
    have hbehind : Reader.Sound { r with rest } := ⟨hr.groups, hr.names, hr.widths⟩
    rw [sequence_turn hrest hbar hclose] at h
    obtain ⟨⟨more, parts⟩, u, hturn, hmore⟩ := bind_eq_ok.1 h
    have hwithin (m k : Nat) : sequence (m + 1) flags false [] (r.within k) =
        (turn m flags false [] t >>= fun x => sequence m x.1 false x.2)
          (within { r with rest } k) := by
      have hrest' : (r.within k).rest = t :: (rest ++ closers k) := by
        rw [within, hrest, List.cons_append]
      exact sequence_turn hrest' hbar hclose
    rw [hrest]
    rcases opens_turn hbehind hturn with ⟨hsets, hlate⟩ | ⟨hturn', hflags, hiff⟩
    · refine ⟨fun _ m k hnm => ?_, fun hnot => absurd hsets hnot⟩
      obtain ⟨m, rfl⟩ := Nat.exists_eq_succ_of_ne_zero (Nat.ne_zero_of_lt hnm)
      rw [hwithin, bind_of_error (hlate m k (Nat.le_of_succ_le_succ hnm))]
    · obtain rfl : more = flags := hflags
      have hu : u.Sound := (later_turn hbehind hturn').sound hbehind
      rw [sequence_turn hrest hbar hclose, bind_of_ok hturn', hiff]
      by_cases hparts : parts = []
      · subst hparts
        obtain ⟨hlate, hsame⟩ := ih hu hmore
        refine ⟨fun hsets m k hnm => ?_, fun hnot => hsame fun hsets => hnot ⟨rfl, hsets⟩⟩
        obtain ⟨m, rfl⟩ := Nat.exists_eq_succ_of_ne_zero (Nat.ne_zero_of_lt hnm)
        have hnm := Nat.le_of_succ_le_succ hnm
        rcases ends_turn (.inl rfl) hbehind hturn' with hleaves | ⟨-, hnil, -⟩
        · rw [hwithin, bind_of_ok (hleaves m false k hnm)]
          exact hlate hsets.2 m k hnm
        · rw [hnil] at hsets
          exact absurd hsets.2 not_setsFlags_nil
      · exact ⟨fun hsets => absurd hsets.1 hparts, fun _ => sequence_top hparts hmore⟩

end LangId.Regex.Reader
