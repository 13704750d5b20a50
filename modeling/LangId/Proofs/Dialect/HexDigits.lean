import LangId.Proofs.Dialect.Alternation
import LangId.Proofs.Dialect.Constructs
import LangId.Proofs.Regex.Classes
import LangId.Proofs.Text.Pieces

/-!
# Hexadecimal digits in a class

The pair for hexadecimal digits is replaced by a class wherever it stands, within the brackets of a
class as well. There the replacement's own opening bracket is one more member, and its closing
bracket ends the class: what stands behind the pair is read as a part of the pattern, up to the
bracket that was to end the class, which stands for itself.

**Results.**
* `scan_append`: a pattern is adapted part by part.
* `digits_close_class`: how a pattern with the pair in a class is read, and that in patterns of
  single characters no class at all could stand in its place.
* `digit_missed`: the smallest class with the pair misses the digits.
-/
namespace LangId.Dialect

open Text Regex Reader

/-! ## Adapting part by part -/

/-- The characters at which the text of a pattern is cut here: a backslash and the brackets. -/
def IsCut (c : Char) : Prop := c = '\\' ∨ c = '[' ∨ c = ']'

variable {c : Char} {s u v t : List Char}

/-- The name of a group ends before a cut, if it ends at all. -/
theorem isSome_groupName?_append (hc : IsCut c) :
    (groupName? (s ++ c :: t)).isSome = (groupName? s).isSome := by
  rw [Bool.eq_iff_iff, isSome_groupName?, isSome_groupName?]
  refine exists_congr fun w => and_congr_right fun hw => prefix_append_iff_of_not_mem fun hmem => ?_
  rcases hc with rfl | rfl | rfl
  all_goals exact ne_of_mem_label hw hmem (by decide) (by decide) (by decide) rfl

/-- No group opens across a cut. -/
theorem opens_append (hc : IsCut c) {t' : List Char} (h : s ++ c :: t = '?' :: '<' :: t') :
    ∃ s', s = '?' :: '<' :: s' := by
  have hmark : c ≠ '?' ∧ c ≠ '<' := by rcases hc with rfl | rfl | rfl <;> decide
  match s, h with
  | [], h => exact absurd (List.cons.inj h).1 hmark.1
  | [_], h => exact absurd (List.cons.inj (List.cons.inj h).2).1 hmark.2
  | a :: b :: s', h =>
    obtain ⟨rfl, htail⟩ := List.cons.inj h
    obtain ⟨rfl, -⟩ := List.cons.inj htail
    exact ⟨s', rfl⟩

/-- **Part by part.** A pattern may be cut before a backslash or a bracket that is not escaped. -/
theorem scan_append (hu : Closed u) (hc : IsCut c) :
    scan (u ++ c :: v) = scan u ++ scan (c :: v) := by
  fun_induction scan u with
  | case1 d rest hd ih =>
    rw [List.cons_append, List.cons_append, scan, if_pos hd, ih hu.of_pair, List.append_assoc]
  | case2 d rest hz hd ih =>
    rw [List.cons_append, List.cons_append, scan, if_neg hz, if_pos hd, ih hu.of_pair,
      List.append_assoc]
  | case3 d rest hz hh ih =>
    rw [List.cons_append, List.cons_append, scan, if_neg hz, if_neg hh, ih hu.of_pair]
    rfl
  | case4 rest hname ih =>
    have hrest : Closed rest := ((hu.of_cons (by decide)).of_cons (by decide)).of_cons (by decide)
    rw [List.cons_append, List.cons_append, List.cons_append, scan,
      if_pos ((isSome_groupName?_append hc).trans hname), ih hrest]
    rfl
  | case5 rest hname ih =>
    have hrest : Closed rest := ((hu.of_cons (by decide)).of_cons (by decide)).of_cons (by decide)
    rw [List.cons_append, List.cons_append, List.cons_append, scan,
      if_neg (by rwa [isSome_groupName?_append hc]), ih hrest]
    rfl
  | case6 d rest hpair hopen ih =>
    have hd := hu.head_ne hpair
    rw [List.cons_append, scan, ih (hu.of_cons hd), List.cons_append]
    · exact fun _ _ hslash _ => hd hslash
    · rintro t rfl hrest
      obtain ⟨s', rfl⟩ := opens_append hc hrest
      exact hopen s' rfl rfl
  | case7 => rfl

/-- A pattern that is adapted to single characters compiles, and is found where these are. -/
theorem compile_singles {ss : List CharClass} (source : String)
    (h : Singles contentFlags (adaptChars s) ss) :
    ∃ q, compile (.one (String.ofList s)) source = .ok q ∧
      ∀ text, q.occursIn text = true ↔ Found ss text := by
  have htext : (adapt (String.ofList s)).toList = adaptChars s := by simp [adapt]
  refine ⟨_, compile_one_eq_ok.2 ⟨_, htext ▸ parse_wrap_singles h rfl, rfl⟩, fun text => ?_⟩
  rw [Pattern.occursIn, Pattern.search, search_singles]

/-! ## The pair in a class -/

/-- A pattern with the pair for hexadecimal digits between other members of a class. -/
def digitIn (pre inside after post : List Char) : List Char :=
  pre ++ '[' :: (inside ++ '\\' :: 'h' :: (after ++ ']' :: post))

variable {pre inside after post : List Char}

theorem scan_digitIn (hpre : Closed pre) (hinside : Closed inside) (hafter : Closed after) :
    scan (digitIn pre inside after post) =
      scan pre ++ ('[' :: (scan inside ++ digitClass) ++ (scan after ++ ']' :: scan post)) := by
  have hpair (rest : List Char) : scan ('\\' :: 'h' :: rest) = digitClass ++ scan rest := rfl
  rw [digitIn, scan_append hpre (.inr (.inl rfl)), scan_plain (by decide) (by decide),
    scan_append hinside (.inl rfl), hpair, scan_append hafter (.inr (.inr rfl)),
    scan_plain (by decide) (by decide)]
  simp

/-- The class that the replacement ends. -/
def closedByDigits (negated : Bool) (items : List ClassItem) : CharClass :=
  .ofItems .none false negated (items ++ .char '['.toNat :: digitItems).eraseDups

/-- The bracket that was to end the class. -/
def strayBracket : CharClass := .ofItems .none false false [.char ']'.toNat]

/-- **The pair in a class.** Its replacement ends the class, whatever stands around it, and whatever
flags are in force. Where the rest of the pattern are single characters, the pattern compiles to
these, with the stray bracket among them, and is not found in the texts in which it would be with any
class in place of what the brackets enclose, unless neither is found in any text. -/
theorem digits_close_class {negated : Bool} {items : List ClassItem} (source : String)
    (hpre : Closed pre) (hinside : Closed inside) (hafter : Closed after)
    (hbegins : BeginsClass (scan inside) negated items)
    (hflags : ¬LeadingFlags (digitIn pre inside after post))
    (hclean : Clean [] (digitIn pre inside after post)) :
    adaptChars (digitIn pre inside after post) =
      scan pre ++ ('[' :: (scan inside ++ digitClass) ++ (scan after ++ ']' :: scan post)) ∧
    (∀ flags : Flags, IsSingle flags ('[' :: (scan inside ++ digitClass))
      (.ofItems flags.folding flags.ascii negated
        (items ++ .char '['.toNat :: digitItems).eraseDups)) ∧
    ∀ ss₁ ss₂ ss₃, Singles contentFlags (scan pre) ss₁ → Singles contentFlags (scan after) ss₂ →
      Singles contentFlags (scan post) ss₃ →
      ∃ q, compile (.one (String.ofList (digitIn pre inside after post))) source = .ok q ∧
        (∀ text, q.occursIn text = true ↔
          Found (ss₁ ++ closedByDigits negated items :: (ss₂ ++ strayBracket :: ss₃)) text) ∧
        ∀ meant : CharClass,
          (∀ text, q.occursIn text = true ↔ Found (ss₁ ++ meant :: ss₃) text) ↔
            ∀ text, ¬q.occursIn text = true ∧ ¬Found (ss₁ ++ meant :: ss₃) text := by
  have hadapt : adaptChars (digitIn pre inside after post) =
      scan pre ++ ('[' :: (scan inside ++ digitClass) ++ (scan after ++ ']' :: scan post)) := by
    have hnone : slashes [] % 2 = 0 := rfl
    rw [adaptChars_eq_rewrite hflags, ← scan_digitIn hpre hinside hafter]
    exact (rewrite_eq_scan_iff hnone).2 hclean
  have hclass (flags : Flags) : IsSingle flags ('[' :: (scan inside ++ digitClass))
      (.ofItems flags.folding flags.ascii negated
        (items ++ .char '['.toNat :: digitItems).eraseDups) := by
    rw [digitClass_eq]
    exact hbegins.isSingle flags
  refine ⟨hadapt, hclass, fun ss₁ ss₂ ss₃ h₁ h₂ h₃ => ?_⟩
  have hbracket : IsSingle contentFlags [']'] strayBracket := isSingle_plain (by decide) rfl
  have hsingles := h₁.append ((hclass contentFlags).singles.append (h₂.append (.cons hbracket h₃)))
  obtain ⟨q, hq, hfound⟩ := compile_singles source (hadapt ▸ hsingles)
  refine ⟨q, hq, hfound, fun meant => ?_⟩
  simp only [hfound]
  refine found_iff_of_length_lt ?_
  simp only [List.length_append, List.length_cons]
  omega

/-- A pattern with other members on both sides of the pair: it occurs where there are a digit, the
member behind the pair and a bracket, and not where one member is. -/
theorem digits_close_class_between :
    Closed ['x'] ∧ Closed ['g'] ∧ Closed ['y'] ∧
      BeginsClass (scan ['g']) false [.char 'g'.toNat] ∧
      ¬LeadingFlags (digitIn ['x'] ['g'] ['y'] ['z']) ∧
      Clean [] (digitIn ['x'] ['g'] ['y'] ['z']) ∧
      ∃ q, compile (.one "x[g\\hy]z") "samples" = .ok q ∧ q.occursIn "xay]z".toList = true ∧
        q.occursIn "xaz".toList = false ∧
        ¬∀ text, q.occursIn text = true ↔ Found [.ofItems .none false false [.char 'x'.toNat],
          .ofItems .none false false (.char 'g'.toNat :: digitItems ++ [.char 'y'.toNat]),
          .ofItems .none false false [.char 'z'.toNat]] text := by
  have hpre : Closed ['x'] := by decide
  have hinside : Closed ['g'] := by decide
  have hafter : Closed ['y'] := by decide
  have hbegins : BeginsClass (scan ['g']) false [.char 'g'.toNat] :=
    ⟨by decide, { rest := [] }, rfl, rfl⟩
  have hflags : ¬LeadingFlags (digitIn ['x'] ['g'] ['y'] ['z']) := not_leadingFlags (by decide)
  have hnone : slashes [] % 2 = 0 := rfl
  have hclean : Clean [] (digitIn ['x'] ['g'] ['y'] ['z']) :=
    (rewrite_eq_scan_iff hnone).1 (by decide)
  have hsingle {c : Char} (hc : c ∉ signs) :
      Singles contentFlags [c] [.ofItems .none false false [.char c.toNat]] :=
    (isSingle_plain hc rfl).singles
  obtain ⟨-, -, hread⟩ :=
    digits_close_class "samples" hpre hinside hafter hbegins hflags hclean
  obtain ⟨q, hq, hfound, hapart⟩ :=
    hread _ _ _ (hsingle (by decide)) (hsingle (by decide)) (hsingle (by decide))
  have htext : String.ofList (digitIn ['x'] ['g'] ['y'] ['z']) = "x[g\\hy]z" := by decide
  have hoccurs : q.occursIn "xay]z".toList = true :=
    (hfound _).2 ⟨[], "xay]z".toList, [], by simp,
      .cons (by decide) (.cons (by decide) (.cons (by decide) (.cons (by decide)
        (.cons (by decide) .nil))))⟩
  have hmissed : q.occursIn "xaz".toList = false := by
    refine Bool.eq_false_iff.2 fun h => ?_
    exact absurd ((hfound _).1 h).length_le (by decide)
  exact ⟨hpre, hinside, hafter, hbegins, hflags, hclean, q, htext ▸ hq, hoccurs, hmissed,
    fun hsame => ((hapart _).1 hsame _).1 hoccurs⟩

/-- **Counterexample.** The pair alone in a class: the compiled pattern misses the digits. -/
theorem digit_missed :
    ¬∃ q, compile (.one "[\\h]") "samples" = .ok q ∧
      ∀ text, q.occursIn text = true ↔ Found [.ofItems .none false false digitItems] text := by
  rintro ⟨q, hq, hfound⟩
  have hmissed : occursIn? (.one "[\\h]") "samples" "a" = some false := by decide +kernel
  have ha : Found [.ofItems .none false false digitItems] "a".toList :=
    ⟨[], ['a'], [], by simp, .cons (by decide) .nil⟩
  rw [occursIn?_eq_some.2 ⟨q, hq, (hfound _).2 ha⟩] at hmissed
  cases hmissed

end LangId.Dialect
