import LangId.Modeline
import LangId.Proofs.Regex.Keeping
import LangId.Proofs.Regex.Spelling

/-!
# The starred form of modelines

The pattern for `-*- mode: name -*-` is told by the words that it passes over, and a line that holds the
form once is matched nowhere but between its two marks. So what is found is what the text between the
marks declares: a name behind a key for the mode, or behind nothing.

**Results.**
* `passes_starredFront`, `passes_starredBack`: what stands before and behind the name in the pattern.
* `mark_starredLine`: where a line holds the mark.
* `search_starred`: a name that alone is declared is found.
* `search_starred_eq_none`: nothing is found where nothing is declared.
-/
namespace LangId.Modeline

open Text Regex

variable {w : List Char} {x : Char}

/-! ## Classes -/

/-- What a word of a name consists of. -/
def isModeCharacter (x : Char) : Bool := x != ':' && x != ';' && !isBlank x

/-- What a setting ends with. -/
def isBreak (x : Char) : Bool := isBlank x || x == ';'

theorem contains_blank (x : Char) :
    CharClass.contains { items := [.category .blank false] } x = isBlank x := by
  simp [CharClass.contains, ClassItem.holds, Category.holds]

theorem contains_mode (x : Char) : CharClass.contains (.ofItems folding false true
    [.char 58, .char 59, .category .blank false]) x = isModeCharacter x := by
  rw [contains_ofItems_of_uncased (by decide), Bool.eq_iff_iff]
  simp [ClassItem.holds, Category.holds, isModeCharacter, ← Char.toNat_inj, and_assoc]

theorem contains_break (x : Char) : CharClass.contains (.ofItems folding false false
    [.char 59, .category .blank false]) x = isBreak x := by
  rw [contains_ofItems_of_uncased (by decide), Bool.eq_iff_iff]
  simp [ClassItem.holds, Category.holds, isBreak, ← Char.toNat_inj, or_comm]

theorem contains_break' (x : Char) : CharClass.contains (.ofItems folding false false
    [.category .blank false, .char 59]) x = isBreak x := by
  rw [contains_ofItems_of_uncased (by decide), Bool.eq_iff_iff]
  simp [ClassItem.holds, Category.holds, isBreak, ← Char.toNat_inj]

theorem contains_inLine (x : Char) : CharClass.anyInLine.contains x = true ↔ x ≠ '\n' := by
  simp [CharClass.contains, CharClass.anyInLine, ClassItem.holds, ← Char.toNat_inj]

/-! ## The pattern -/

theorem passes_blanks : blanks.Passes fun _ w => ∀ x ∈ w, isBlank x = true :=
  (passes_run _ 0).congr fun _ w => by simp [contains_blank]

/-- The mark on both sides of the form. -/
def mark : List Char := ['-', '*', '-']

theorem passes_text_mark : (Node.text folding "-*-").Passes fun _ w => w = mark :=
  passes_mark (by decide)

/-- What may stand before a key: nothing, or anything that ends with a break. -/
def LeadsIn (w : List Char) : Prop :=
  w = [] ∨ ∃ more x, w = more ++ [x] ∧ (∀ y ∈ more, y ≠ '\n') ∧ isBreak x = true

/-- The key of the mode, with its colon and what may stand before it. -/
def IsKey (w : List Char) : Prop :=
  ∃ lead key before behind, w = lead ++ (key ++ (before ++ ':' :: behind)) ∧ LeadsIn lead ∧
    Spells folding "mode".toList key ∧ (∀ x ∈ before, isBlank x = true) ∧
    ∀ x ∈ behind, isBlank x = true

/-- What stands before the name. -/
def starredFront : List Node := [
  .text folding "-*-",
  blanks,
  .optional (.seqAll [
    .optional (.seqAll [
      .few (.one .anyInLine),
      .oneOf folding [.char 59, .category .blank false]]),
    .text folding "mode", blanks, .char folding ':', blanks])]

/-- What stands behind the name. -/
def starredBack : List Node := [
  .ahead false (.alt (.oneOf folding [.category .blank false, .char 59]) (.text folding "-*-")),
  .few (.one .anyInLine),
  .text folding "-*-"]

theorem starred_eq : starred = .seqAll (starredFront ++ .group 1 (.some (.noneOf folding
    [.char 58, .char 59, .category .blank false])) :: starredBack) := rfl

theorem passes_few_inLine :
    (Node.few (.one .anyInLine)).Passes fun _ w => ∀ x ∈ w, x ≠ '\n' :=
  (passes_few _).congr fun _ w => by simp only [contains_inLine]

theorem passes_lead : (Node.optional (.seqAll [.few (.one .anyInLine),
    .oneOf folding [.char 59, .category .blank false]])).Passes fun _ w => LeadsIn w := by
  refine (passes_optional (passes_seqAll_cons passes_few_inLine
    (passes_seqAll_singleton (passes_one _))) nofun).congr
    fun _ w => ?_
  simp only [contains_break]
  constructor
  · rintro (⟨more, _, rfl, hmore, x, rfl, hx⟩ | rfl)
    · exact .inr ⟨more, x, rfl, hmore, hx⟩
    · exact .inl rfl
  · rintro (rfl | ⟨more, x, rfl, hmore, hx⟩)
    · exact .inr rfl
    · exact .inl ⟨more, _, rfl, hmore, x, rfl, hx⟩

theorem passes_key : (Node.seqAll [
    .optional (.seqAll [.few (.one .anyInLine),
      .oneOf folding [.char 59, .category .blank false]]),
    .text folding "mode", blanks, .char folding ':', blanks]).Passes fun _ w => IsKey w := by
  refine (passes_seqAll_cons passes_lead (passes_seqAll_cons (passes_spelling (by decide))
    (passes_seqAll_cons passes_blanks (passes_seqAll_cons (passes_uncased (by decide))
      (passes_seqAll_singleton passes_blanks))))).congr fun _ w => ?_
  constructor
  · rintro ⟨lead, _, rfl, hlead, key, _, rfl, hkey, before, _, rfl, hbefore, _, behind, rfl, rfl,
      hbehind⟩
    exact ⟨lead, key, before, behind, rfl, hlead, hkey, hbefore, hbehind⟩
  · rintro ⟨lead, key, before, behind, rfl, hlead, hkey, hbefore, hbehind⟩
    exact ⟨lead, _, rfl, hlead, key, _, rfl, hkey, before, _, rfl, hbefore, [':'], behind, rfl, rfl,
      hbehind⟩

theorem passes_starredFront : (Node.seqAll starredFront).Passes fun _ w =>
    ∃ gap key, w = mark ++ (gap ++ key) ∧ (∀ x ∈ gap, isBlank x = true) ∧
      (IsKey key ∨ key = []) := by
  refine (passes_seqAll_cons passes_text_mark (passes_seqAll_cons passes_blanks
    (passes_seqAll_singleton (passes_optional passes_key nofun)))).congr fun _ w => ?_
  constructor
  · rintro ⟨_, _, rfl, rfl, gap, key, rfl, hgap, hkey⟩
    exact ⟨gap, key, rfl, hgap, hkey⟩
  · rintro ⟨gap, key, rfl, hgap, hkey⟩
    exact ⟨mark, _, rfl, rfl, gap, key, rfl, hgap, hkey⟩

theorem passes_mode : (Node.some (.noneOf folding [.char 58, .char 59, .category .blank false])).Passes
    fun _ w => w ≠ [] ∧ ∀ x ∈ w, isModeCharacter x = true :=
  (passes_run _ 1).congr fun _ w => by
    simp only [contains_mode, Nat.one_le_iff_ne_zero, ne_eq, List.length_eq_zero_iff]

theorem passes_starredBack : (Node.seqAll starredBack).Passes fun c w =>
    ∃ more, w = more ++ mark ∧ (∀ x ∈ more, x ≠ '\n') ∧
      ((∃ x rest, c.after = x :: rest ∧ isBreak x = true) ∨ mark <+: c.after) := by
  refine (passes_seqAll_cons (passes_ahead (passes_alt (passes_one _) passes_text_mark))
    (passes_seqAll_cons passes_few_inLine (passes_seqAll_singleton passes_text_mark))).congr fun c w => ?_
  simp only [contains_break']
  constructor
  · rintro ⟨_, _, rfl, ⟨rfl, next, ⟨rest, hrest⟩, hnext⟩, more, _, rfl, hmore, rfl⟩
    refine ⟨more, rfl, hmore, ?_⟩
    rcases hnext with ⟨x, rfl, hx⟩ | rfl
    · exact .inl ⟨x, rest, hrest.symm, hx⟩
    · exact .inr ⟨rest, hrest⟩
  · rintro ⟨more, rfl, hmore, hnext⟩
    refine ⟨[], more ++ mark, rfl, ⟨rfl, ?_⟩, more, mark, rfl, hmore, rfl⟩
    rcases hnext with ⟨x, rest, hrest, hx⟩ | hmark
    · exact ⟨[x], ⟨rest, hrest.symm⟩, .inl ⟨x, rfl, hx⟩⟩
    · exact ⟨mark, hmark, .inr rfl⟩

/-! ## Lines -/

variable {more rest before body behind u v : List Char}

/-- A line in the starred form, with what stands before and behind it. -/
def starredLine (before body behind : List Char) : List Char :=
  before ++ (mark ++ ' ' :: (body ++ ' ' :: (mark ++ behind)))

/-- What may stand around the form: texts without the mark, apart from it by white space. -/
structure Around (before behind : List Char) : Prop where
  ends : ∀ x ∈ before.getLast?, isBlank x = true
  begins : ∀ x ∈ behind.head?, isBlank x = true
  unmarked : ¬mark <:+: before ∧ ¬mark <:+: behind

theorem eq_nil_of_mark (h : mark = more ++ (mark ++ rest)) : more = [] ∧ rest = [] := by
  have hlength := congrArg List.length h
  simp only [List.length_append] at hlength
  exact ⟨List.eq_nil_of_length_eq_zero (by omega), List.eq_nil_of_length_eq_zero (by omega)⟩

/-- A mark lies before a blank, or behind it. -/
theorem mark_cut (hx : isBlank x = true) (h : more ++ (mark ++ rest) = u ++ x :: v) :
    (∃ r, rest = r ++ x :: v ∧ u = more ++ (mark ++ r)) ∨
      ∃ m, more = u ++ x :: m ∧ v = m ++ (mark ++ rest) := by
  have hmark : x ∉ mark := fun hmem => by
    have hnone : ∀ x ∈ mark, isBlank x = false := by decide
    rw [hnone x hmem] at hx
    cases hx
  rcases List.append_eq_append_iff.1 h with ⟨a, rfl, ha⟩ | ⟨a, rfl, ha⟩
  · rcases List.append_eq_append_iff.1 ha with ⟨r, rfl, hr⟩ | ⟨r, hr, hr'⟩
    · exact .inl ⟨r, hr, rfl⟩
    · cases r with
      | nil => exact .inl ⟨[], hr'.symm, by rw [List.append_nil, hr, List.append_nil]⟩
      | cons y r =>
        obtain rfl := (List.cons.inj hr').1
        exact absurd (hr ▸ List.mem_append_right a List.mem_cons_self) hmark
  · cases a with
    | nil => exact absurd ((List.cons.inj ha).1 ▸ List.mem_cons_self) hmark
    | cons y m =>
      obtain ⟨rfl, hv⟩ := List.cons.inj ha
      exact .inr ⟨m, rfl, hv⟩

/-- A line holds the mark in two places. -/
theorem mark_starredLine (h : Around before behind) (hbody : '*' ∉ body)
    (hmark : more ++ (mark ++ rest) = starredLine before body behind) :
    more = before ∧ rest = ' ' :: (body ++ ' ' :: (mark ++ behind)) ∨
      more = before ++ (mark ++ ' ' :: (body ++ [' '])) ∧ rest = behind := by
  have hcut : more ++ (mark ++ rest) =
      (before ++ mark) ++ ' ' :: (body ++ ' ' :: (mark ++ behind)) := by
    rw [hmark, starredLine, List.append_assoc]
  rcases mark_cut (by decide) hcut with ⟨r, rfl, hr⟩ | ⟨m, rfl, hm⟩
  · left
    rcases List.eq_nil_or_concat before with rfl | ⟨p, x, rfl⟩
    · obtain ⟨rfl, rfl⟩ := eq_nil_of_mark hr
      exact ⟨rfl, rfl⟩
    · have hx : isBlank x = true := h.ends x (by simp)
      rw [List.concat_eq_append, List.append_assoc, List.singleton_append] at hr
      rcases mark_cut hx hr.symm with ⟨r', -, rfl⟩ | ⟨m, rfl, hm⟩
      · exact absurd ⟨more, r' ++ [x], by simp⟩ h.unmarked.1
      · obtain ⟨rfl, rfl⟩ := eq_nil_of_mark hm
        exact ⟨by rw [List.concat_eq_append], rfl⟩
  · right
    rcases mark_cut (x := ' ') (by decide) hm.symm with ⟨r, -, rfl⟩ | ⟨m', rfl, hend⟩
    · exact absurd (by simp [mark]) hbody
    · cases behind with
      | nil =>
        rw [List.append_nil] at hend
        obtain ⟨rfl, rfl⟩ := eq_nil_of_mark hend
        exact ⟨by simp, rfl⟩
      | cons x behind =>
        rcases mark_cut (h.begins x rfl) hend.symm with ⟨r, rfl, hr⟩ | ⟨m, rfl, rfl⟩
        · obtain ⟨rfl, rfl⟩ := eq_nil_of_mark hr
          exact ⟨by simp, rfl⟩
        · exact absurd ⟨x :: m, rest, by simp⟩ h.unmarked.2

/-- Between its marks, a body declares a name: behind blanks, and behind a key for the mode if there
is one, the name stands before a break. -/
def Declares (body v : List Char) : Prop :=
  ∃ gap key x rest, gap ++ (key ++ (v ++ x :: rest)) = ' ' :: (body ++ [' ']) ∧
    (∀ y ∈ gap, isBlank y = true) ∧ (IsKey key ∨ key = []) ∧
    (v ≠ [] ∧ ∀ y ∈ v, isModeCharacter y = true) ∧ isBreak x = true

/-- What the pattern keeps of a line, by its words. -/
abbrev Keeps (line v : List Char) : Prop :=
  Framed (fun _ w => ∃ gap key, w = mark ++ (gap ++ key) ∧ (∀ x ∈ gap, isBlank x = true) ∧
      (IsKey key ∨ key = []))
    (fun _ w => w ≠ [] ∧ ∀ x ∈ w, isModeCharacter x = true)
    (fun c w => ∃ more, w = more ++ mark ∧ (∀ x ∈ more, x ≠ '\n') ∧
      ((∃ x rest, c.after = x :: rest ∧ isBreak x = true) ∨ mark <+: c.after))
    line v

/-- What stands between the two marks of a match is what stands between those of the line. -/
theorem between_marks (h : Around before behind) (hbody : '*' ∉ body) {y : List Char}
    (hline : more ++ (mark ++ (y ++ (mark ++ rest))) = starredLine before body behind) :
    y = ' ' :: (body ++ [' ']) ∧ rest = behind := by
  have hsecond : (more ++ (mark ++ y)) ++ (mark ++ rest) = starredLine before body behind := by
    rw [← hline, List.append_assoc, List.append_assoc]
  rcases mark_starredLine h hbody hline with ⟨rfl, -⟩ | ⟨-, rfl⟩
  · rcases mark_starredLine h hbody hsecond with ⟨hbefore, -⟩ | ⟨hinner, rfl⟩
    · have hlength := congrArg List.length hbefore
      simp [mark] at hlength
    · exact ⟨List.append_cancel_left (List.append_cancel_left hinner), rfl⟩
  · exact absurd ⟨y, rest, by simp⟩ h.unmarked.2

theorem declares_of_keeps (h : Around before behind) (hbody : '*' ∉ body)
    (hv : Keeps (starredLine before body behind) v) : Declares body v := by
  obtain ⟨more, _, _, rest, hline, ⟨gap, key, rfl, hgap, hkey⟩, hmode, more', rfl, -, hnext⟩ := hv
  have hinner : gap ++ (key ++ (v ++ more')) = ' ' :: (body ++ [' ']) ∧ rest = behind :=
    between_marks h hbody (by simpa using hline)
  obtain ⟨hinner, rfl⟩ := hinner
  have hstar : '*' ∉ gap ++ (key ++ (v ++ more')) := by simpa [hinner] using hbody
  cases more' with
  | nil =>
    -- the name would end with the blank in front of the mark
    obtain ⟨w, z, rfl⟩ := (List.eq_nil_or_concat v).resolve_left hmode.1
    have hlast := congrArg List.getLast? hinner
    simp only [List.concat_eq_append, List.append_nil, ← List.append_assoc, ← List.cons_append,
      List.getLast?_concat, Option.some.injEq] at hlast
    subst hlast
    exact absurd (hmode.2 ' ' (by simp)) (by decide)
  | cons x more' =>
    refine ⟨gap, key, x, more', hinner, hgap, hkey, hmode, ?_⟩
    rcases hnext with ⟨z, rest', hz, hbreak⟩ | hmark
    · obtain ⟨rfl, -⟩ := List.cons.inj hz
      exact hbreak
    · -- the second sign of the mark is not in the body
      have hprefix := (List.cons_prefix_cons.1 hmark).2
      cases more' with
      | nil => exact absurd (List.cons_prefix_cons.1 hprefix).1 (by decide)
      | cons z more' =>
        obtain rfl := (List.cons_prefix_cons.1 hprefix).1
        exact absurd (by simp) hstar

theorem keeps_of_declares (hbody : '\n' ∉ body) (h : Declares body v) :
    Keeps (starredLine before body behind) v := by
  obtain ⟨gap, key, x, rest, hinner, hgap, hkey, hmode, hbreak⟩ := h
  refine ⟨before, mark ++ (gap ++ key), (x :: rest) ++ mark, behind, ?_, ⟨gap, key, rfl, hgap, hkey⟩,
    hmode, x :: rest, rfl, fun y hy hfeed => ?_, .inl ⟨x, rest ++ (mark ++ behind), by simp, hbreak⟩⟩
  · have hline : mark ++ (gap ++ (key ++ (v ++ x :: rest))) ++ (mark ++ behind) =
        mark ++ (' ' :: (body ++ [' '])) ++ (mark ++ behind) := by rw [hinner]
    simpa [starredLine] using hline
  · have hmem : y ∈ gap ++ (key ++ (v ++ x :: rest)) := by simp [List.mem_cons.1 hy]
    rw [hinner] at hmem
    subst hfeed
    simp [hbody] at hmem

/-! ## What is found -/

/-- A match of the starred form keeps a name. -/
theorem keeps_of_search {line : List Char} {m : Match} (h : starred.search line = some m) :
    ∃ v, Keeps line v ∧ m.group? 1 = some v := by
  rw [starred_eq] at h
  exact framed_of_search passes_starredFront passes_mode passes_starredBack h

/-- The name that a line in the starred form declares is found. -/
theorem search_starred (h : Around before behind) (hstar : '*' ∉ body) (hfeed : '\n' ∉ body)
    (hv : Declares body v) (honly : ∀ w, Declares body w → w = v) :
    (starred.search (starredLine before body behind)).bind (·.group? 1) = some v := by
  rw [starred_eq]
  exact search_eq_of_framed passes_starredFront passes_mode passes_starredBack
    (keeps_of_declares hfeed hv) fun w hw => honly w (declares_of_keeps h hstar hw)

theorem search_starred_eq_none (h : Around before behind) (hstar : '*' ∉ body)
    (hnone : ∀ w, ¬Declares body w) : starred.search (starredLine before body behind) = none := by
  rw [starred_eq]
  exact search_eq_none_of_framed passes_starredFront passes_mode passes_starredBack
    fun w hw => hnone w (declares_of_keeps h hstar hw)

end LangId.Modeline
