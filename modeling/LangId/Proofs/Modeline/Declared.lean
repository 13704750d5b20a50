import LangId.Proofs.Modeline.Colon
import LangId.Proofs.Modeline.Settings
import Mathlib.Data.List.Infix

/-!
# Declared modes

What is found for a line is what an editor would read off it. In the starred form this is the name that
stands alone, or the value of the only key for the mode; in the colon form it is the value of the only
option for the file type (`declared_found`). A line in the starred form without such a key is still
searched for the colon form, from its beginning to its end, so that settings and what stands behind
them can make up a colon form together (`colon_across_mark`).
-/
namespace LangId.Modeline

open Text Regex

variable {line before body behind editor name value v : List Char} {isSet isClosed : Bool}
  {options : List (List Char)}

/-! ## Lines without a mark -/

theorem unmarked_append {u : List Char} {x : Char} (hu : ¬mark <:+: u) (hv : ¬mark <:+: v)
    (hx : isBlank x = true) : ¬mark <:+: u ++ x :: v := by
  rintro ⟨more, rest, h⟩
  rw [List.append_assoc] at h
  rcases mark_cut hx h with ⟨r, -, rfl⟩ | ⟨m, -, rfl⟩
  · exact hu ⟨more, r, by simp⟩
  · exact hv ⟨m, rest, by simp⟩

theorem unmarked_joinWith {ws : List (List Char)} (h : ∀ w ∈ ws, ¬mark <:+: w) :
    ¬mark <:+: joinWith [' '] ws := by
  induction ws with
  | nil => decide
  | cons w ws ih =>
    obtain ⟨hw, hws⟩ := List.forall_mem_cons.1 h
    by_cases hlast : ws = []
    · rw [hlast]
      exact hw
    · rw [joinWith_cons _ _ hlast, List.append_assoc]
      exact unmarked_append hw (ih hws) (by decide)

/-- A line without the mark has no starred form. -/
theorem search_starred_of_unmarked (h : ¬mark <:+: line) : starred.search line = none := by
  rw [starred_eq]
  refine search_eq_none_of_framed passes_starredFront passes_mode passes_starredBack ?_
  rintro v ⟨more, _, w, rest, rfl, ⟨gap, key, rfl, -⟩, -⟩
  exact h ⟨more, gap ++ (key ++ (v ++ (w ++ rest))), by simp⟩

/-! ## One line -/

theorem find?_singleton (line : List Char) : find? [line] = (ofLine? line).map String.ofList := by
  rw [find?, show window [line] = [line] from rfl, List.findSome?_singleton]

theorem find?_starred (h : (starred.search line).bind (·.group? 1) = some v) :
    find? [line] = some (String.ofList v) := by
  obtain ⟨m, hm, hv⟩ := Option.bind_eq_some_iff.1 h
  rw [find?_singleton, ofLine?, hm]
  exact congrArg (Option.map String.ofList) hv

theorem find?_colon (h : starred.search line = none) :
    find? [line] = ((colon.search line).bind (·.group? 1)).map String.ofList := by
  rw [find?_singleton, ofLine?, h]
  rfl

/-- A match of the colon form has a value. -/
theorem find?_colon_eq_none (h : starred.search line = none) :
    find? [line] = none ↔ colon.search line = none := by
  rw [find?_colon h, Option.map_eq_none_iff]
  cases hm : colon.search line with
  | none => simp
  | some m =>
    obtain ⟨v, -, hgroup⟩ := finds_of_search hm
    simp [hgroup]

/-! ## The colon form -/

/-- A line in the colon form: an editor, options with spaces between them, perhaps behind the word
`set`, and perhaps a second colon. -/
def colonLine (before editor : List Char) (isSet : Bool) (options : List (List Char))
    (isClosed : Bool) : List Char :=
  before ++ (editor ++ (": ".toList ++ ((if isSet then "set ".toList else []) ++
    (joinWith [' '] options ++ if isClosed then " :".toList else []))))

/-- An option: a word without colons and without the mark. -/
structure IsOption (w : List Char) : Prop where
  solid : Solid w
  uncoloned : ':' ∉ w
  unmarked : ¬mark <:+: w

instance (w : List Char) : Decidable (IsOption w) :=
  decidable_of_iff (Solid w ∧ ':' ∉ w ∧ ¬mark <:+: w) ⟨fun h => ⟨h.1, h.2.1, h.2.2⟩,
    fun h => ⟨h.solid, h.uncoloned, h.unmarked⟩⟩

/-- The word that may stand before the options. -/
def wordsBefore (isSet : Bool) : List (List Char) := if isSet then ["set".toList] else []

/-- The colon that may stand behind the options. -/
def wordsBehind (isClosed : Bool) : List (List Char) := if isClosed then [":".toList] else []

theorem forall_wordsBefore {P : List Char → Prop} (h : P "set".toList) :
    ∀ w ∈ wordsBefore isSet, P w := by
  cases isSet with
  | false => nofun
  | true => exact fun w hw => List.mem_singleton.1 hw ▸ h

/-- What holds of the options and of the words around them holds of all words behind the editor. -/
theorem forall_words {P : List Char → Prop} (hset : P "set".toList) (hcolon : P ":".toList)
    (h : ∀ o ∈ options, P o) :
    ∀ w ∈ wordsBefore isSet ++ (options ++ wordsBehind isClosed), P w := by
  refine List.forall_mem_append.2 ⟨forall_wordsBefore hset, List.forall_mem_append.2 ⟨h, ?_⟩⟩
  cases isClosed with
  | false => nofun
  | true => exact fun w hw => List.mem_singleton.1 hw ▸ hcolon

theorem colonLine_eq (h : options ≠ []) : colonLine before editor isSet options isClosed =
    before ++ (editor ++ ':' :: ' ' ::
      joinWith [' '] (wordsBefore isSet ++ (options ++ wordsBehind isClosed))) := by
  have hbehind : joinWith [' '] (options ++ wordsBehind isClosed) =
      joinWith [' '] options ++ if isClosed then " :".toList else [] := by
    cases isClosed with
    | false => simp [wordsBehind]
    | true =>
      rw [wordsBehind, if_pos rfl, joinWith_append h (List.cons_ne_nil _ _)]
      rfl
  have hset : joinWith [' '] (wordsBefore isSet ++ (options ++ wordsBehind isClosed)) =
      (if isSet then "set ".toList else []) ++ joinWith [' '] (options ++ wordsBehind isClosed) := by
    cases isSet with
    | false => simp [wordsBefore]
    | true =>
      rw [wordsBefore, if_pos rfl, List.singleton_append, joinWith_cons _ _ (by simp [h])]
      rfl
  rw [hset, hbehind]
  rfl

/-- Only the last word of such a line can be a colon. -/
theorem eq_nil_of_last_colon {ws : List (List Char)} (hne : ws ≠ []) (h : ∀ w ∈ ws, ':' ∉ w)
    {p q : List Char} (hq : joinWith [' '] (ws ++ wordsBehind isClosed) = p ++ ':' :: q) :
    q = [] := by
  have hno : ':' ∉ joinWith [' '] ws := fun hmem => by
    rcases mem_joinWith hmem with hspace | ⟨w, hw, hin⟩
    · cases hspace
    · exact h w hw hin
  cases isClosed with
  | false =>
    rw [wordsBehind, if_neg Bool.false_ne_true, List.append_nil] at hq
    exact absurd (hq ▸ by simp) hno
  | true =>
    rw [wordsBehind, if_pos rfl, joinWith_append hne (List.cons_ne_nil _ _)] at hq
    rcases List.eq_nil_or_concat q with rfl | ⟨q, z, rfl⟩
    · rfl
    · have hends : (joinWith [' '] ws ++ [' ']) ++ [':'] = (p ++ ':' :: q) ++ [z] := by
        simpa [joinWith] using hq
      have hmem : ':' ∈ joinWith [' '] ws ++ [' '] := (List.append_inj_left' hends rfl) ▸ by simp
      simp [hno] at hmem

theorem unmarked_colonLine (hbefore : ∀ x ∈ before.getLast?, isBlank x = true)
    (hmark : ¬mark <:+: before) (heditor : editor ∈ ["vi".toList, "vim".toList, "ex".toList])
    (hne : options ≠ []) (hoptions : ∀ o ∈ options, IsOption o) :
    ¬mark <:+: colonLine before editor isSet options isClosed := by
  have hwords : ∀ w ∈ wordsBefore isSet ++ (options ++ wordsBehind isClosed), ¬mark <:+: w :=
    forall_words (by decide) (by decide) fun o ho => (hoptions o ho).unmarked
  have hall : ∀ e ∈ ["vi".toList, "vim".toList, "ex".toList], ¬mark <:+: e ++ [':'] := by decide
  have hrest : ¬mark <:+: (editor ++ [':']) ++ ' ' ::
      joinWith [' '] (wordsBefore isSet ++ (options ++ wordsBehind isClosed)) :=
    unmarked_append (hall editor heditor) (unmarked_joinWith hwords) (by decide)
  rw [List.append_assoc, List.singleton_append] at hrest
  rw [colonLine_eq hne]
  rcases List.eq_nil_or_concat before with rfl | ⟨more, x, rfl⟩
  · exact hrest
  · rw [List.concat_eq_append] at hmark ⊢
    rw [List.append_assoc, List.singleton_append]
    exact unmarked_append (fun h => hmark (h.trans (List.prefix_append _ _).isInfix)) hrest
      (hbefore x (by simp))

/-- The value of the only option for the file type is found. -/
theorem search_colonLine {earlier later : List (List Char)}
    (hbefore : ∀ x ∈ before.getLast?, isBlank x = true) (hcolon : ':' ∉ before)
    (heditor : editor ∈ ["vi".toList, "vim".toList, "ex".toList])
    (hoptions : ∀ o ∈ earlier ++ (name ++ '=' :: value) :: later, IsOption o)
    (hname : IsTypeName name) (hvalue : value ≠ [] ∧ ∀ x ∈ value, isTypeCharacter x = true)
    (hothers : ∀ o ∈ earlier ++ later, ¬IsTypeName (optionName o)) :
    (colon.search (colonLine before editor isSet (earlier ++ (name ++ '=' :: value) :: later)
      isClosed)).bind (·.group? 1) = some value := by
  have hcut : wordsBefore isSet ++ ((earlier ++ (name ++ '=' :: value) :: later) ++
      wordsBehind isClosed) = (wordsBefore isSet ++ earlier) ++ (name ++ '=' :: value) ::
        (later ++ wordsBehind isClosed) := by simp
  have hrest : wordsBefore isSet ++ ((earlier ++ later) ++ wordsBehind isClosed) =
      (wordsBefore isSet ++ earlier) ++ (later ++ wordsBehind isClosed) := by simp
  have hunbroken : ∀ w ∈ wordsBefore isSet ++ ((earlier ++ (name ++ '=' :: value) :: later) ++
      wordsBehind isClosed), ∀ x ∈ w, isBlank x = false :=
    forall_words (by decide) (by decide) fun o ho => (hoptions o ho).solid.unbroken
  have hnames : ∀ w ∈ wordsBefore isSet ++ ((earlier ++ later) ++ wordsBehind isClosed),
      ¬IsTypeName (optionName w) := forall_words (by decide +kernel) (by decide +kernel) hothers
  have huncoloned : ∀ w ∈ wordsBefore isSet ++ (earlier ++ (name ++ '=' :: value) :: later),
      ':' ∉ w := List.forall_mem_append.2
    ⟨forall_wordsBefore (by decide), fun o ho => (hoptions o ho).uncoloned⟩
  have hlast : ∀ p q, joinWith [' '] (wordsBefore isSet ++
      ((earlier ++ (name ++ '=' :: value) :: later) ++ wordsBehind isClosed)) = p ++ ':' :: q →
        q = [] := fun p q hq =>
    eq_nil_of_last_colon (by simp) huncoloned (by rw [List.append_assoc]; exact hq)
  rw [colonLine_eq (by simp), hcut]
  rw [hcut] at hunbroken hlast
  refine search_colon hbefore hcolon heditor hunbroken (fun w hw => huncoloned w ?_) hlast rfl hname
    hvalue (hrest ▸ hnames)
  rcases List.mem_append.1 hw with hw | hw
  · exact List.mem_append_left _ hw
  · exact List.mem_append_right _ (List.mem_append_left _ hw)

/-! ## Both forms -/

/-- A setting for the mode. -/
def Setting.IsMode (s : Setting) : Prop := Spells folding "mode".toList s.key

instance (s : Setting) : Decidable s.Named := inferInstanceAs (Decidable (_ ∧ _))

instance (s : Setting) : Decidable s.IsMode := inferInstanceAs (Decidable (Spells _ _ _))

/-- **Declared modes.** Of a line in the starred form, the name that stands alone is found, or the value
of the only key for the mode, in letters of any case; with settings but without such a key nothing is
found, exactly if the line holds no colon form. Of a line in the colon form, the value of the only
option for the file type is found. -/
theorem declared_found :
    (∀ before behind, Around before behind →
      (∀ name, IsName name →
        find? [starredLine before name behind] = some (String.ofList name)) ∧
      ∀ settings : List Setting, (∀ s ∈ settings, s.Named) →
        (∀ earlier s later, settings = earlier ++ s :: later → s.IsMode →
          (∀ t ∈ earlier ++ later, ¬t.IsMode) →
          find? [starredLine before (written settings) behind] = some (String.ofList s.value)) ∧
        ((∀ s ∈ settings, ¬s.IsMode) →
          (find? [starredLine before (written settings) behind] = none ↔
            colon.search (starredLine before (written settings) behind) = none))) ∧
    ∀ before editor isSet options isClosed, (∀ x ∈ before.getLast?, isBlank x = true) →
      ':' ∉ before → ¬mark <:+: before → editor ∈ ["vi".toList, "vim".toList, "ex".toList] →
      (∀ o ∈ options, IsOption o) → ∀ earlier name value later,
      options = earlier ++ (name ++ '=' :: value) :: later → IsTypeName name →
      (value ≠ [] ∧ ∀ x ∈ value, isTypeCharacter x = true) →
      (∀ o ∈ earlier ++ later, ¬IsTypeName (optionName o)) →
      find? [colonLine before editor isSet options isClosed] = some (String.ofList value) := by
  refine ⟨fun before behind haround => ⟨fun name hname => ?_, fun settings hnamed => ⟨?_, ?_⟩⟩, ?_⟩
  · exact find?_starred (search_starred haround (hname.notMem (.inr rfl))
      (hname.notMem (.inl (by decide))) ((declares_name hname).2 rfl)
      fun w hw => (declares_name hname).1 hw)
  · rintro earlier s later rfl hmode hothers
    refine find?_starred (search_starred haround (notMem_written hnamed (.inr rfl) (by decide))
      (notMem_written hnamed (.inl (by decide)) (by decide))
      ((declares_written hnamed).2 ⟨s, by simp, hmode, rfl⟩) fun w hw => ?_)
    obtain ⟨t, ht, htmode, rfl⟩ := (declares_written hnamed).1 hw
    rcases List.mem_append.1 ht with ht | ht
    · exact absurd htmode (hothers t (List.mem_append_left _ ht))
    · rcases List.mem_cons.1 ht with rfl | ht
      · rfl
      · exact absurd htmode (hothers t (List.mem_append_right _ ht))
  · refine fun hnone => find?_colon_eq_none (search_starred_eq_none haround
      (notMem_written hnamed (.inr rfl) (by decide)) fun w hw => ?_)
    obtain ⟨t, ht, htmode, -⟩ := (declares_written hnamed).1 hw
    exact hnone t ht htmode
  · rintro before editor isSet options isClosed hbefore hcolon hmark heditor hoptions earlier name
      value later rfl hname hvalue hothers
    rw [find?_colon (search_starred_of_unmarked
      (unmarked_colonLine hbefore hmark heditor (by simp) hoptions)),
      search_colonLine hbefore hcolon heditor hoptions hname hvalue hothers]
    rfl

/-- A name that stands alone, a key for the mode between two other settings, settings without such a
key, and an option for the file type among others. -/
theorem declared_ruby :
    (Around "# ".toList " x".toList ∧ IsName "ruby".toList ∧
      find? [starredLine "# ".toList "ruby".toList " x".toList] = some "ruby") ∧
    ((∀ s ∈ [⟨"coding".toList, "utf-8".toList⟩, ⟨"Mode".toList, "ruby".toList⟩,
        ⟨"tab-width".toList, "4".toList⟩], Setting.Named s) ∧
      Setting.IsMode ⟨"Mode".toList, "ruby".toList⟩ ∧
      (∀ t ∈ [⟨"coding".toList, "utf-8".toList⟩] ++ [⟨"tab-width".toList, "4".toList⟩],
        ¬Setting.IsMode t) ∧
      find? [starredLine "# ".toList (written [⟨"coding".toList, "utf-8".toList⟩,
        ⟨"Mode".toList, "ruby".toList⟩, ⟨"tab-width".toList, "4".toList⟩]) " x".toList] =
          some "ruby") ∧
    ((∀ s ∈ [⟨"coding".toList, "utf-8".toList⟩], Setting.Named s ∧ ¬s.IsMode) ∧
      find? [starredLine "# ".toList (written [⟨"coding".toList, "utf-8".toList⟩]) " x".toList] =
        none) ∧
    ((∀ x ∈ "# ".toList.getLast?, isBlank x = true) ∧ ':' ∉ "# ".toList ∧
      ¬mark <:+: "# ".toList ∧ "vim".toList ∈ ["vi".toList, "vim".toList, "ex".toList] ∧
      (∀ o ∈ ["ts=4".toList, "ft=ruby".toList, "ic".toList], IsOption o) ∧ IsTypeName "ft".toList ∧
      ("ruby".toList ≠ [] ∧ ∀ x ∈ "ruby".toList, isTypeCharacter x = true) ∧
      (∀ o ∈ ["ts=4".toList] ++ ["ic".toList], ¬IsTypeName (optionName o)) ∧
      find? [colonLine "# ".toList "vim".toList true
        ["ts=4".toList, "ft=ruby".toList, "ic".toList] true] = some "ruby") := by
  have haround : Around "# ".toList " x".toList :=
    ⟨by decide, by decide, by decide +kernel⟩
  have hname : IsName "ruby".toList := isName_of_word (by decide) (by decide)
  have hsettings : (∀ s ∈ [⟨"coding".toList, "utf-8".toList⟩, ⟨"Mode".toList, "ruby".toList⟩,
        ⟨"tab-width".toList, "4".toList⟩], Setting.Named s) ∧
      Setting.IsMode ⟨"Mode".toList, "ruby".toList⟩ ∧
      ∀ t ∈ [⟨"coding".toList, "utf-8".toList⟩] ++ [⟨"tab-width".toList, "4".toList⟩],
        ¬Setting.IsMode t := by decide +kernel
  have hothers : ∀ s ∈ [⟨"coding".toList, "utf-8".toList⟩], Setting.Named s ∧ ¬s.IsMode := by
    decide +kernel
  have hcolon : (∀ x ∈ "# ".toList.getLast?, isBlank x = true) ∧ ':' ∉ "# ".toList ∧
      ¬mark <:+: "# ".toList ∧ "vim".toList ∈ ["vi".toList, "vim".toList, "ex".toList] ∧
      (∀ o ∈ ["ts=4".toList, "ft=ruby".toList, "ic".toList], IsOption o) ∧ IsTypeName "ft".toList ∧
      ("ruby".toList ≠ [] ∧ ∀ x ∈ "ruby".toList, isTypeCharacter x = true) ∧
      ∀ o ∈ ["ts=4".toList] ++ ["ic".toList], ¬IsTypeName (optionName o) := by decide +kernel
  obtain ⟨hbefore, huncoloned, hunmarked, heditor, hoptions, htype, hvalue, hrest⟩ := hcolon
  have hstarred := declared_found.1 _ _ haround
  refine ⟨⟨haround, hname, hstarred.1 _ hname⟩, ⟨hsettings.1, hsettings.2.1, hsettings.2.2,
    (hstarred.2 _ hsettings.1).1 _ _ _ rfl hsettings.2.1 hsettings.2.2⟩, ⟨hothers, ?_⟩,
    hbefore, huncoloned, hunmarked, heditor, hoptions, htype, hvalue, hrest,
    declared_found.2 _ _ true _ true hbefore huncoloned hunmarked heditor hoptions _ _ _ _ rfl htype
      hvalue hrest⟩
  exact ((hstarred.2 _ fun s hs => (hothers s hs).1).2 fun s hs => (hothers s hs).2).2
    (by decide +kernel)

/-- **Counterexample.** Neither what stands before the settings nor what stands behind them holds the
colon form, and no key is for the mode; but the key `vim` and the text behind the settings make up a
colon form together. And an option for the file type in capital letters is taken for one. -/
theorem colon_across_mark :
    (Around [] " ft=python".toList ∧ Setting.Named ⟨"vim".toList, "x".toList⟩ ∧
      ¬Setting.IsMode ⟨"vim".toList, "x".toList⟩ ∧ colon.search [] = none ∧
      colon.search " ft=python".toList = none ∧
      starredLine [] (written [⟨"vim".toList, "x".toList⟩]) " ft=python".toList =
        "-*- vim: x -*- ft=python".toList ∧
      find? ["-*- vim: x -*- ft=python".toList] = some "python") ∧
    (∀ o ∈ ["ft=a".toList, "FT=b".toList], IsOption o) ∧
      optionName "FT=b".toList ∉ ["ft".toList, "filetype".toList, "syntax".toList] ∧
      find? [colonLine [] "vim".toList false ["ft=a".toList, "FT=b".toList] false] = some "b" :=
  ⟨⟨⟨by decide, by decide, by decide +kernel⟩, by decide +kernel⟩, by decide +kernel⟩

end LangId.Modeline
