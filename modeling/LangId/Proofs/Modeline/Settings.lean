import LangId.Proofs.Modeline.Starred

/-!
# Settings in modelines

Between the marks of the starred form stands a name, or settings with semicolons between them. In the
words of settings each key ends with its colon and each value but the last with a semicolon, and no
other word has one of these signs. So a key for the mode is recognised nowhere but where it stands, and
its value comes next.

**Results.**
* `declares_name`: a name that stands alone is declared, and nothing else.
* `declares_written`: of settings, the values of the keys for the mode are declared.
-/
namespace LangId.Modeline

open Text Regex

variable {w v rest : List Char} {x : Char}

/-! ## Names -/

/-- A name, as it stands in the starred form: without white space, and without the signs of the form but
for the dash. -/
def IsName (w : List Char) : Prop := w ≠ [] ∧ ∀ x ∈ w, isModeCharacter x = true ∧ x ≠ '*'

instance (w : List Char) : Decidable (IsName w) := inferInstanceAs (Decidable (_ ∧ _))

theorem isModeCharacter_iff : isModeCharacter x = true ↔ x ≠ ':' ∧ x ≠ ';' ∧ isBlank x = false := by
  simp [isModeCharacter, and_assoc]

theorem isBreak_iff : isBreak x = true ↔ isBlank x = true ∨ x = ';' := by simp [isBreak]

theorem not_isModeCharacter (h : isBreak x = true) : isModeCharacter x = false := by
  rw [Bool.eq_false_iff, ne_eq, isModeCharacter_iff]
  rintro ⟨-, hsemicolon, hblank⟩
  rcases isBreak_iff.1 h with h | h
  · rw [hblank] at h
    cases h
  · exact hsemicolon h

/-- Letters, digits, underscores and dashes make a name. -/
theorem isName_of_word (hne : w ≠ []) (h : ∀ x ∈ w, isWord x = true ∨ x = '-') : IsName w := by
  refine ⟨hne, fun x hx => ?_⟩
  rcases h x hx with hword | rfl
  · refine ⟨isModeCharacter_iff.2 ⟨?_, ?_, isBlank_of_isWord hword⟩, ?_⟩ <;> rintro rfl <;>
      exact absurd hword (by decide)
  · decide

theorem IsName.isModeCharacter (h : IsName w) : ∀ x ∈ w, isModeCharacter x = true :=
  fun x hx => (h.2 x hx).1

theorem IsName.notMem (h : IsName w) (hx : Modeline.isModeCharacter x = false ∨ x = '*') : x ∉ w := by
  intro hmem
  rcases hx with hx | hx
  · rw [(h.2 x hmem).1] at hx
    cases hx
  · exact (h.2 x hmem).2 hx

/-- Behind a blank, a name is read up to its end. -/
theorem eq_of_gap {gap r : List Char} {c : Char}
    (h : gap ++ (v ++ x :: rest) = ' ' :: (w ++ c :: r)) (hgap : ∀ y ∈ gap, isBlank y = true)
    (hv : v ≠ [] ∧ ∀ y ∈ v, isModeCharacter y = true) (hx : isBreak x = true) (hw : IsName w)
    (hc : isModeCharacter c = false) : v = w ∧ x = c := by
  have hblank {y : Char} (hy : isModeCharacter y = true) : isBlank y = false :=
    (isModeCharacter_iff.1 hy).2.2
  obtain ⟨y, v', rfl⟩ := List.exists_cons_of_ne_nil hv.1
  obtain ⟨z, w', rfl⟩ := List.exists_cons_of_ne_nil hw.1
  have hbehind : y = z ∧ v' ++ x :: rest = w' ++ c :: r :=
    (eq_of_runs (v := [' ']) h hgap (hblank (hv.2 y List.mem_cons_self)) (by decide)
      (hblank (hw.isModeCharacter z List.mem_cons_self))).2
  have hcut : (y :: v') ++ x :: rest = (z :: w') ++ c :: r := by
    rw [List.cons_append, List.cons_append, hbehind.1, hbehind.2]
  obtain ⟨hvw, hxc, -⟩ := eq_of_runs hcut hv.2 (not_isModeCharacter hx) hw.isModeCharacter hc
  exact ⟨hvw, hxc⟩

/-- A name that stands alone is declared. -/
theorem declares_name (h : IsName w) : Declares w v ↔ v = w := by
  constructor
  · rintro ⟨gap, key, x, rest, hinner, hgap, hkey | rfl, hmode, hbreak⟩
    · obtain ⟨lead, key, before, behind, rfl, -⟩ := hkey
      have hcolon : ':' ∈ ' ' :: (w ++ [' ']) := hinner ▸ by simp
      have hnot : ':' ∉ w := h.notMem (.inl (by decide))
      simp [hnot] at hcolon
    · exact (eq_of_gap hinner hgap hmode hbreak h (by decide)).1
  · rintro rfl
    exact ⟨[' '], [], ' ', [], rfl, by decide, .inr rfl, ⟨h.1, h.isModeCharacter⟩, by decide⟩

/-! ## Settings -/

/-- A key with its value. -/
structure Setting where
  key : List Char
  value : List Char

/-- A setting of names. -/
def Setting.Named (s : Setting) : Prop := IsName s.key ∧ IsName s.value

/-- Settings as they are written, between semicolons. -/
def written (settings : List Setting) : List Char :=
  joinWith "; ".toList (settings.map fun s => s.key ++ (": ".toList ++ s.value))

/-- The words of settings: keys with their colons, and values with their semicolons. Where there are no
settings, there is nothing between two blanks. -/
def settingWords : List Setting → List (List Char)
  | [] => [[]]
  | [s] => [s.key ++ [':'], s.value]
  | s :: t :: settings => (s.key ++ [':']) :: (s.value ++ [';']) :: settingWords (t :: settings)

theorem written_concat (settings : List Setting) :
    written settings ++ [' '] = spaced (settingWords settings) := by
  induction settings with
  | nil => rfl
  | cons s settings ih =>
    cases settings with
    | nil => simp [written, settingWords, joinWith, spaced]
    | cons t settings =>
      rw [settingWords, spaced_cons, spaced_cons, ← ih]
      simp [written, joinWith]

variable {settings : List Setting} {s : Setting} {us vs : List (List Char)}

theorem settingWords_cons (s : Setting) (settings : List Setting) : ∃ ending words,
    settingWords (s :: settings) = (s.key ++ [':']) :: (s.value ++ ending) :: words ∧
      (ending = [] ∧ settings = [] ∧ words = [] ∨
        ending = [';'] ∧ settings ≠ [] ∧ words = settingWords settings) := by
  cases settings with
  | nil => exact ⟨[], [], by rw [List.append_nil]; rfl, .inl ⟨rfl, rfl, rfl⟩⟩
  | cons t settings => exact ⟨[';'], _, rfl, .inr ⟨rfl, List.cons_ne_nil t settings, rfl⟩⟩

/-- Each setting has its key and its value one behind the other. -/
theorem settingWords_of_mem (h : s ∈ settings) : ∃ us ending vs,
    settingWords settings = us ++ (s.key ++ [':']) :: (s.value ++ ending) :: vs ∧
      (ending = [] ∨ ending = [';']) := by
  induction settings with
  | nil => cases h
  | cons t settings ih =>
    obtain ⟨ending, words, hwords, hending⟩ := settingWords_cons t settings
    rcases List.mem_cons.1 h with rfl | hmem
    · exact ⟨[], ending, words, hwords, hending.imp (·.1) (·.1)⟩
    · obtain ⟨us, ending', vs, hrest, hending'⟩ := ih hmem
      rcases hending with ⟨-, rfl, -⟩ | ⟨-, -, rfl⟩
      · cases hmem
      · exact ⟨_ :: _ :: us, ending', vs, by rw [hwords, hrest]; rfl, hending'⟩

/-- Where a word of settings has a colon, it is a key, and its value comes next. A word without a
colon and without a semicolon is the last one. -/
theorem settingWords_cut (hnamed : ∀ s ∈ settings, s.Named)
    (h : us ++ w :: vs = settingWords settings) :
    (∃ s ∈ settings, w = s.key ++ [':'] ∧ ∃ ending vs', vs = (s.value ++ ending) :: vs' ∧
      (ending = [] ∨ ending = [';'])) ∨
    ':' ∉ w ∧ (vs = [] ∨ ∃ more, w = more ++ [';']) := by
  induction settings generalizing us with
  | nil =>
    have hlone : us ++ w :: vs = [[]] := h
    rw [List.append_eq_singleton_iff] at hlone
    rcases hlone with ⟨-, hw⟩ | ⟨-, hw⟩
    · obtain ⟨rfl, rfl⟩ := List.cons.inj hw
      exact .inr ⟨List.not_mem_nil, .inl rfl⟩
    · cases hw
  | cons t settings ih =>
    obtain ⟨ht, hnamed⟩ := List.forall_mem_cons.1 hnamed
    obtain ⟨ending, words, hwords, hending⟩ := settingWords_cons t settings
    rw [hwords] at h
    rcases us with - | ⟨u, - | ⟨u', us⟩⟩
    · obtain ⟨rfl, rfl⟩ := List.cons.inj h
      exact .inl ⟨t, List.mem_cons_self, rfl, ending, words, rfl, hending.imp (·.1) (·.1)⟩
    · obtain ⟨rfl, rfl⟩ := List.cons.inj (List.cons.inj h).2
      have hcolon : ':' ∉ t.value := ht.2.notMem (.inl (by decide))
      rcases hending with ⟨rfl, -, rfl⟩ | ⟨rfl, -, -⟩
      · exact .inr ⟨by simp [hcolon], .inl rfl⟩
      · exact .inr ⟨by simp [hcolon], .inr ⟨t.value, rfl⟩⟩
    · have hrest : us ++ w :: vs = words := (List.cons.inj (List.cons.inj h).2).2
      rcases hending with ⟨-, -, rfl⟩ | ⟨-, -, rfl⟩
      · exact absurd hrest (by simp)
      · rcases ih hnamed hrest with ⟨s, hs, hkey⟩ | hother
        · exact .inl ⟨s, List.mem_cons_of_mem t hs, hkey⟩
        · exact .inr hother

/-- The only break in the words of settings is the semicolon behind a value. -/
theorem break_in_word (hnamed : ∀ s ∈ settings, s.Named) {p q : List Char} (hx : isBreak x = true)
    (h : p ++ x :: q ∈ settingWords settings) : x = ';' ∧ q = [] := by
  have hname {w : List Char} (hw : IsName w) : x ∉ w := hw.notMem (.inl (not_isModeCharacter hx))
  induction settings with
  | nil => exact absurd (List.mem_singleton.1 h) (by simp)
  | cons t settings ih =>
    obtain ⟨ht, hnamed⟩ := List.forall_mem_cons.1 hnamed
    obtain ⟨ending, words, hwords, hending⟩ := settingWords_cons t settings
    rw [hwords, List.mem_cons, List.mem_cons] at h
    rcases h with h | h | h
    · have hmem : x ∈ t.key ++ [':'] := h ▸ by simp
      rcases List.mem_append.1 hmem with hkey | hcolon
      · exact absurd hkey (hname ht.1)
      · rw [List.mem_singleton.1 hcolon] at hx
        exact absurd hx (by decide)
    · rcases hending with ⟨rfl, -⟩ | ⟨rfl, -⟩
      · exact absurd (show x ∈ t.value by rw [← List.append_nil t.value, ← h]; simp) (hname ht.2)
      · rcases List.eq_nil_or_concat q with rfl | ⟨q, z, rfl⟩
        · exact ⟨(List.cons.inj (List.append_inj_right' h rfl)).1, rfl⟩
        · rw [List.concat_eq_append, ← List.cons_append, ← List.append_assoc] at h
          exact absurd ((List.append_inj_left' h rfl) ▸ by simp) (hname ht.2)
    · rcases hending with ⟨-, -, rfl⟩ | ⟨-, -, rfl⟩
      · cases h
      · exact ih hnamed h

theorem unbroken_settingWords (hnamed : ∀ s ∈ settings, s.Named) (hw : w ∈ settingWords settings) :
    ∀ y ∈ w, isBlank y = false := by
  intro y hy
  obtain ⟨p, q, rfl⟩ := List.append_of_mem hy
  refine Bool.eq_false_iff.2 fun hblank => ?_
  rw [(break_in_word hnamed (isBreak_iff.2 (.inl hblank)) hw).1] at hblank
  exact absurd hblank (by decide)

theorem spells_mode_plain {key : List Char} (h : Spells folding "mode".toList key) :
    ∀ y ∈ key, isBlank y = false ∧ y ∉ [':', ';', '='] := h.plain (by decide)

/-- A key for the mode in a text of settings is the key of a setting, and its value comes next. -/
theorem value_of_key {name gap tail : List Char} (hnamed : ∀ s ∈ settings, s.Named)
    (hcut : us ++ w :: vs = settingWords settings) (hname : Spells folding "mode".toList name)
    (hgap : ∀ y ∈ gap, isBlank y = true)
    (h : w ++ ' ' :: spaced vs = name ++ (gap ++ ':' :: tail)) :
    ∃ s ∈ settings, name = s.key ∧ ∃ c rest, tail = ' ' :: (s.value ++ c :: rest) ∧
      isModeCharacter c = false := by
  have hplain := spells_mode_plain hname
  have hw := unbroken_settingWords hnamed (hcut ▸ List.mem_append_right us List.mem_cons_self)
  have hcolon : ':' ∉ name := fun hmem => (hplain _ hmem).2 (by simp)
  rcases sign_behind h hw (fun y hy => (hplain y hy).1) hgap (by decide) with
    ⟨q, rfl, rfl⟩ | ⟨rfl, gap', hvs⟩
  · rcases settingWords_cut hnamed hcut with ⟨s, hs, hkey, ending, vs', rfl, hending⟩ | ⟨hno, -⟩
    · obtain ⟨rfl, -, rfl⟩ := eq_of_runs (p := (· != ':')) hkey
        (fun y hy => bne_iff_ne.2 fun heq => hcolon (heq ▸ hy)) (by decide)
        (fun y hy => bne_iff_ne.2 fun heq => (hnamed s hs).1.notMem (.inl (by decide))
          (heq ▸ hy)) (by decide)
      rcases hending with rfl | rfl
      · exact ⟨s, hs, rfl, ' ', spaced vs', by simp, by decide⟩
      · exact ⟨s, hs, rfl, ';', ' ' :: spaced vs', by simp, by decide⟩
    · exact absurd (by simp) hno
  · rcases settingWords_cut hnamed hcut with ⟨s, -, hkey, -⟩ | ⟨-, rfl | ⟨more, hmore⟩⟩
    · exact absurd (hkey ▸ by simp) hcolon
    · exact absurd hvs (by simp [spaced])
    · exact absurd (List.mem_cons_of_mem _ List.mem_cons_self)
        (hplain ';' (hmore ▸ by simp)).2

/-- Blanks and what may stand before a key end with a break, if there is anything. -/
theorem isBreak_of_lead {gap lead : List Char} (hgap : ∀ y ∈ gap, isBlank y = true)
    (hlead : LeadsIn lead) : ∀ y ∈ (gap ++ lead).getLast?, isBreak y = true := by
  intro y hy
  rcases hlead with rfl | ⟨more, z, rfl, -, hz⟩
  · rw [List.append_nil] at hy
    exact isBreak_iff.2 (.inl (hgap y (List.mem_of_getLast? hy)))
  · rw [← List.append_assoc, List.getLast?_concat] at hy
    exact Option.some.inj hy ▸ hz

/-- Words with spaces behind them may stand before a key. -/
theorem leadsIn_spaced (h : ∀ w ∈ us, ∀ y ∈ w, isBlank y = false) : LeadsIn (spaced us) := by
  by_cases hus : us = []
  · exact .inl (hus ▸ rfl)
  · have hfeed : '\n' ∉ joinWith [' '] us := notMem_joinWith h (by decide) (by decide)
    exact .inr ⟨joinWith [' '] us, ' ', (joinWith_concat hus).symm,
      fun y hy heq => hfeed (heq ▸ hy), by decide⟩

/-- Settings declare nothing without a key: their text begins with one, whose colon is no break. -/
theorem not_declares_without_key {gap : List Char} (hnamed : ∀ s ∈ settings, s.Named)
    (h : gap ++ (v ++ x :: rest) = ' ' :: (written settings ++ [' ']))
    (hgap : ∀ y ∈ gap, isBlank y = true) (hmode : v ≠ [] ∧ ∀ y ∈ v, isModeCharacter y = true) :
    isBreak x = false := by
  refine Bool.eq_false_iff.2 fun hbreak => ?_
  cases settings with
  | nil =>
    obtain ⟨y, v', rfl⟩ := List.exists_cons_of_ne_nil hmode.1
    have hy : y ∈ ' ' :: (written [] ++ [' ']) := h ▸ by simp
    obtain rfl : y = ' ' := by simpa [written, joinWith] using hy
    exact absurd (hmode.2 ' ' List.mem_cons_self) (by decide)
  | cons t settings =>
    obtain ⟨ending, words, hwords, -⟩ := settingWords_cons t settings
    rw [written_concat, hwords, spaced_cons, List.append_assoc] at h
    have hcolon := (eq_of_gap h hgap hmode hbreak (hnamed t List.mem_cons_self).1 (by decide)).2
    rw [hcolon] at hbreak
    exact absurd hbreak (by decide)

/-- What settings declare is the value of a key for the mode. -/
theorem value_of_declares (hnamed : ∀ s ∈ settings, s.Named) (h : Declares (written settings) v) :
    ∃ s ∈ settings, Spells folding "mode".toList s.key ∧ s.value = v := by
  obtain ⟨gap, key, x, rest, hinner, hgap, hkey | rfl, hmode, hbreak⟩ := h
  · obtain ⟨lead, name, before, behind, rfl, hlead, hname, hbefore, hbehind⟩ := hkey
    have hplain := spells_mode_plain hname
    have hne : name ≠ [] := fun hnil => by
      rw [hnil] at hname
      cases hname
    obtain ⟨us, w, vs, hcut, hw⟩ := word_of_cut (f := gap ++ lead)
      (g := name ++ (before ++ ':' :: (behind ++ (v ++ x :: rest))))
      (fun p z q hmem hz => (break_in_word hnamed hz hmem).2)
      (by rw [← written_concat, ← hinner]; simp) (isBreak_of_lead hgap hlead)
      (fun y hy => by
        rw [List.head?_append_of_ne_nil _ hne] at hy
        exact (hplain y (List.mem_of_head? hy)).1)
      (by simp)
    obtain ⟨s, hs, rfl, c, r, htail, hc⟩ := value_of_key hnamed hcut hname hbefore hw.symm
    exact ⟨s, hs, hname, ((eq_of_gap htail hbehind hmode hbreak (hnamed s hs).2 hc).1).symm⟩
  · rw [not_declares_without_key hnamed hinner hgap hmode] at hbreak
    cases hbreak

theorem declares_of_mem (hnamed : ∀ s ∈ settings, s.Named) (hs : s ∈ settings)
    (hkey : Spells folding "mode".toList s.key) : Declares (written settings) s.value := by
  obtain ⟨us, ending, vs, hwords, hending⟩ := settingWords_of_mem hs
  obtain ⟨x, rest, hrest, hbreak⟩ : ∃ x rest, ending ++ ' ' :: spaced vs = x :: rest ∧
      isBreak x = true := by
    rcases hending with rfl | rfl
    · exact ⟨' ', spaced vs, rfl, by decide⟩
    · exact ⟨';', ' ' :: spaced vs, rfl, by decide⟩
  have hlead : LeadsIn (spaced us) := leadsIn_spaced fun u hu =>
    unbroken_settingWords hnamed (hwords ▸ List.mem_append_left _ hu)
  refine ⟨[' '], spaced us ++ (s.key ++ ([] ++ ':' :: [' '])), x, rest, ?_, by decide,
    .inl ⟨_, _, _, _, rfl, hlead, hkey, by simp, by decide⟩,
    ⟨(hnamed s hs).2.1, (hnamed s hs).2.isModeCharacter⟩, hbreak⟩
  rw [written_concat, hwords]
  simp [← hrest]

/-- **Settings.** What is declared by settings is the value of a key for the mode. -/
theorem declares_written (hnamed : ∀ s ∈ settings, s.Named) : Declares (written settings) v ↔
    ∃ s ∈ settings, Spells folding "mode".toList s.key ∧ s.value = v := by
  refine ⟨value_of_declares hnamed, ?_⟩
  rintro ⟨s, hs, hkey, rfl⟩
  exact declares_of_mem hnamed hs hkey

theorem mem_settingWords {y : Char} (hw : w ∈ settingWords settings) (hy : y ∈ w) :
    (∃ s ∈ settings, y ∈ s.key ∨ y ∈ s.value) ∨ y = ':' ∨ y = ';' := by
  induction settings with
  | nil =>
    rw [List.mem_singleton.1 hw] at hy
    cases hy
  | cons t settings ih =>
    obtain ⟨ending, words, hwords, hending⟩ := settingWords_cons t settings
    rw [hwords, List.mem_cons, List.mem_cons] at hw
    rcases hw with rfl | rfl | hmem
    · rcases List.mem_append.1 hy with hkey | hcolon
      · exact .inl ⟨t, List.mem_cons_self, .inl hkey⟩
      · exact .inr (.inl (List.mem_singleton.1 hcolon))
    · rcases List.mem_append.1 hy with hvalue | hsemicolon
      · exact .inl ⟨t, List.mem_cons_self, .inr hvalue⟩
      · rcases hending with ⟨rfl, -⟩ | ⟨rfl, -⟩
        · cases hsemicolon
        · exact .inr (.inr (List.mem_singleton.1 hsemicolon))
    · rcases hending with ⟨-, -, rfl⟩ | ⟨-, -, rfl⟩
      · cases hmem
      · exact (ih hmem).imp_left fun ⟨s, hs, h⟩ => ⟨s, List.mem_cons_of_mem t hs, h⟩

/-- Settings hold only what names hold, and the signs between them. -/
theorem notMem_written (hnamed : ∀ s ∈ settings, s.Named)
    (hx : isModeCharacter x = false ∨ x = '*') (hsign : x ∉ [':', ';', ' ']) :
    x ∉ written settings := by
  intro hmem
  have hspaced : x ∈ spaced (settingWords settings) :=
    written_concat settings ▸ List.mem_append_left _ hmem
  obtain ⟨w, hw, hxw⟩ := List.mem_flatMap.1 hspaced
  rcases List.mem_append.1 hxw with hxw | hspace
  · rcases mem_settingWords hw hxw with ⟨s, hs, hkey | hvalue⟩ | hends
    · exact (hnamed s hs).1.notMem hx hkey
    · exact (hnamed s hs).2.notMem hx hvalue
    · rcases hends with rfl | rfl <;> simp at hsign
  · rw [List.mem_singleton.1 hspace] at hsign
    simp at hsign

end LangId.Modeline
