import LangId.Proofs.Cascade.Authority
import LangId.Proofs.Cascade.Endings

/-!
# Languages that have nothing to do with a file

A knowledge base is extended by one more language (`KnowledgeBase.Extends`) that declares nothing a
file could be recognised by (`Language.Stranger`). Stage by stage the two bases are compared by
`Paired`: the candidates are all languages of each base, or the same in both.

The number of languages shows in one place. Heuristics say nothing about a single candidate, and the
set of all languages is one candidate exactly if the base holds one language. With the stranger there
are two, and heuristics can speak for the first (`KnowledgeBase.OnlyHeuristics`).

**Results.**
* `paired_narrow`: a stage keeps candidates paired, except for heuristics on a lone language.
* `verdict_of_stranger`: without this exception the verdict is the same.
* `verdict_of_onlyHeuristics`, `extended_of_onlyHeuristics`: the two verdicts of the exception.
-/
namespace LangId

open Text

/-- A language that declares nothing a file could be recognised by. -/
structure Language.Stranger (l : Language) (file : Sample) : Prop where
  filename : file.basename ∉ l.filenames
  interpreter : ∀ i, Shebang.interpreter? file.content = some i → i ∉ l.interpreters
  bare : ∀ i bare, Shebang.interpreter? file.content = some i →
    Shebang.stripVersion? i = some bare → bare ∉ l.interpreters
  extension : ∀ e ∈ file.extensions, ¬ l.DeclaresExtension e.toList
  mode : ∀ m, Modeline.find? file.lines = some m → ∀ a ∈ l.modes, lower a ≠ lower m

namespace KnowledgeBase

/-- A knowledge base with one more language that no rule names. -/
structure Extends (kb kb' : KnowledgeBase) (l : Language) : Prop where
  languages : kb'.languages.Perm (l :: kb.languages)
  rules : ∀ e, kb'.rulesFor e = kb.rulesFor e
  unnamed : ∀ e, ∀ r ∈ kb.rulesFor e, l.name ∉ r.languages

/-- Nothing but heuristics speaks for the only language of a base. -/
structure OnlyHeuristics (kb : KnowledgeBase) (file : Sample) (l : Language) : Prop where
  lone : kb.languages = [l]
  text : file.isBinary = false
  silent : ∀ s, s ≠ .heuristics → ¬ kb.SpeaksFor file s l
  speaks : kb.SpeaksFor file .heuristics l

variable {kb kb' : KnowledgeBase} {file : Sample} {stranger l : Language} {c c' : Candidates}
  {s : Stage}

theorem Extends.mem_iff (hx : kb.Extends kb' stranger) :
    l ∈ kb'.languages ↔ l = stranger ∨ l ∈ kb.languages := by
  rw [hx.languages.mem_iff, List.mem_cons]

/-! ## What speaks for a language in the two bases -/

theorem longestExtension_congr {p q : String → Prop} (h : ∀ e ∈ file.extensions, p e ↔ q e)
    {e : String} : file.LongestExtension p e ↔ file.LongestExtension q e := by
  constructor
  · rintro ⟨he, hp, hlongest⟩
    exact ⟨he, (h e he).1 hp, fun t ht hq => hlongest t ht ((h t ht).2 hq)⟩
  · rintro ⟨he, hq, hlongest⟩
    exact ⟨he, (h e he).2 hq, fun t ht hp => hlongest t ht ((h t ht).1 hp)⟩

/-- The stranger makes no difference to what speaks for other languages. -/
theorem speaksFor_iff (hx : kb.Extends kb' stranger) (hs : stranger.Stranger file) :
    kb'.SpeaksFor file s l ↔ kb.SpeaksFor file s l := by
  cases s with
  | filename => exact Iff.rfl
  | shebang =>
    refine exists_congr fun i => and_congr_right fun hi => ?_
    refine or_congr_right (and_congr_left fun _ => ?_)
    constructor
    · exact fun h m hm => h m (hx.mem_iff.2 (.inr hm))
    · intro h m hm
      rcases hx.mem_iff.1 hm with rfl | hm
      · exact hs.interpreter i hi
      · exact h m hm
  | extension =>
    refine exists_congr fun e => and_congr_left fun _ => longestExtension_congr fun t ht => ?_
    constructor
    · rintro ⟨m, hm, hd⟩
      rcases hx.mem_iff.1 hm with rfl | hm
      · exact absurd hd (hs.extension t ht)
      · exact ⟨m, hm, hd⟩
    · rintro ⟨m, hm, hd⟩
      exact ⟨m, hx.mem_iff.2 (.inr hm), hd⟩
  | modeline => exact Iff.rfl
  | heuristics => simp only [SpeaksFor, hx.rules]

/-- Nothing but heuristics could speak for a stranger. -/
theorem not_speaksFor_of_stranger (hs : l.Stranger file) (hne : s ≠ .heuristics) :
    ¬ kb.SpeaksFor file s l := by
  cases s with
  | filename => exact hs.filename
  | shebang =>
    rintro ⟨i, hi, hd | ⟨-, bare, hbare, hd⟩⟩
    · exact hs.interpreter i hi hd
    · exact hs.bare i bare hi hbare hd
  | extension =>
    rintro ⟨e, he, hd⟩
    exact hs.extension e he.mem hd
  | modeline =>
    rintro ⟨m, hm, a, ha, hd⟩
    exact hs.mode m hm a ha hd
  | heuristics => exact absurd rfl hne

/-- No rule names the stranger that a base is extended by, so no stage speaks for it. -/
theorem not_speaksFor_stranger (hx : kb.Extends kb' stranger) (hs : stranger.Stranger file) :
    ¬ kb'.SpeaksFor file s stranger := by
  by_cases hne : s = .heuristics
  · subst hne
    rintro ⟨e, -, before, r, behind, heq, -, -, hname⟩
    rw [hx.rules] at heq
    exact hx.unnamed e r (by simp [heq]) hname
  · exact not_speaksFor_of_stranger hs hne

/-! ## Stages in the two bases -/

/-- Candidates at one point of the two runs. -/
inductive Paired (kb kb' : KnowledgeBase) : Candidates → Candidates → Prop
  | all : Paired kb kb' kb.all kb'.all
  | same {c : Candidates} (h : Reached kb c) (hu : c.isUniverse = false) : Paired kb kb' c c

theorem Paired.single? (h : Paired kb kb' c c') : c.single? = c'.single? := by
  cases h with
  | all => rw [single?_all, single?_all]
  | same => rfl

/-- A stage that looks at the candidates, or at more than one of them in both bases, agrees on the
same. -/
theorem agreed_of_paired (hi : kb.Indexed) (hi' : kb'.Indexed) (hx : kb.Extends kb' stranger)
    (hs : stranger.Stranger file) (h : Paired kb kb' c c')
    (hsize : s = .heuristics → (2 ≤ c.size ↔ 2 ≤ c'.size)) :
    kb'.agreed file c' s = kb.agreed file c s := by
  have hspeaks (l : Language) : l ∈ c'.members ∧ kb'.SpeaksFor file s l ↔
      l ∈ c.members ∧ kb.SpeaksFor file s l := by
    rw [speaksFor_iff hx hs]
    cases h with
    | all =>
      rw [hi.all_members, hi'.all_members, hx.mem_iff]
      refine and_congr_left fun hspeak => or_iff_right ?_
      rintro rfl
      exact not_speaksFor_stranger hx hs ((speaksFor_iff hx hs).2 hspeak)
    | same => exact Iff.rfl
  have hc : c.members.Sublist kb.languages := by
    cases h with
    | all => exact (reached_all hi).sublist
    | same h => exact h.sublist
  have hc' : c'.members.Pairwise fun a b => a.name < b.name := by
    cases h with
    | all => rw [hi'.all_members]; exact hi'.order
    | same h => exact hi.order.sublist h.sublist
  have hsub' : ∀ l ∈ c'.members, l ∈ kb'.languages := by
    cases h with
    | all => exact hi'.mem_languages
    | same h => exact fun l hl => hx.mem_iff.2 (.inr (h.sublist.subset hl))
  refine Candidates.eq_of_strict (hc'.sublist agreed_sublist)
    ((hi.order.sublist hc).sublist agreed_sublist) fun l => ?_
  rw [mem_agreed_iff hi' hsub', mem_agreed_iff hi hc.subset, ← and_assoc, ← and_assoc, hspeaks]
  exact and_congr_right fun _ => forall_congr' fun heq => (hsize heq).symm

theorem size_all (hi : kb.Indexed) : kb.all.size = kb.languages.length := by
  rw [Candidates.size, hi.all_members]

/-- A stage that speaks for no language of the base leaves both bases as they are. -/
theorem paired_of_silent (hi : kb.Indexed) (hi' : kb'.Indexed) (hx : kb.Extends kb' stranger)
    (hs : stranger.Stranger file) (hno : ∀ m ∈ kb.languages, ¬ kb.SpeaksFor file s m) :
    Paired kb kb' (kb.narrow s file kb.all) (kb'.narrow s file kb'.all) := by
  have hno' : ∀ m ∈ kb'.languages, ¬ kb'.SpeaksFor file s m := by
    intro m hm
    rcases hx.mem_iff.1 hm with rfl | hm
    · exact not_speaksFor_stranger hx hs
    · rw [speaksFor_iff hx hs]
      exact hno m hm
  rw [narrow_of_unspoken hi hi.mem_languages fun m hm => hno m (hi.mem_languages m hm),
    narrow_of_unspoken hi' hi'.mem_languages fun m hm => hno' m (hi'.mem_languages m hm)]
  exact .all

/-- **One stage.** -/
theorem paired_narrow (hi : kb.Indexed) (hi' : kb'.Indexed) (hx : kb.Extends kb' stranger)
    (hs : stranger.Stranger file) (h : Paired kb kb' c c')
    (hlone : s = .heuristics → ∀ l, kb.languages = [l] → kb.SpeaksFor file .heuristics l →
      c.isUniverse = false) :
    Paired kb kb' (kb.narrow s file c) (kb'.narrow s file c') := by
  by_cases hsize : s = .heuristics → (2 ≤ c.size ↔ 2 ≤ c'.size)
  · have hagreed := agreed_of_paired hi hi' hx hs h hsize
    have hreached : Reached kb c := by
      cases h with
      | all => exact reached_all hi
      | same h => exact h
    by_cases hnil : kb.agreed file c s = []
    · rw [narrow_eq, narrow_eq, hagreed, if_pos hnil, if_pos hnil]
      exact h
    · have hnext : Reached kb ⟨kb.agreed file c s, false⟩ := by
        rw [← narrow_of_agreed hnil]
        exact reached_narrow hreached
      rw [narrow_eq, narrow_eq, hagreed, if_neg hnil, if_neg hnil]
      exact .same hnext rfl
  · cases h with
    | same => exact absurd (fun _ => Iff.rfl) hsize
    | all =>
      -- only one of the two sizes is above one, so there is one language
      obtain ⟨rfl, hsize⟩ := Classical.not_imp.1 hsize
      have hlen := hx.languages.length_eq
      rw [size_all hi, size_all hi', hlen, List.length_cons] at hsize
      obtain ⟨l, hl⟩ := List.length_eq_one_iff.1 (show kb.languages.length = 1 by omega)
      have hsilent : ¬ kb.SpeaksFor file .heuristics l := fun hspeaks =>
        absurd (hlone rfl l hl hspeaks) (by simp [all, Candidates.ofList])
      exact paired_of_silent hi hi' hx hs (hl ▸ List.forall_mem_singleton.2 hsilent)

/-! ## Runs in the two bases -/

/-- If nothing has been agreed on before heuristics, nothing but heuristics speaks for a lone
language. -/
theorem onlyHeuristics_of_universe (hi : kb.Indexed) (hb : file.isBinary = false)
    (hl : kb.languages = [l]) (hspeaks : kb.SpeaksFor file .heuristics l)
    (h : (kb.after file [.filename, .shebang, .extension, .modeline]).isUniverse = true) :
    kb.OnlyHeuristics file l := by
  have hall : kb.all.size ≤ 1 := by rw [size_all hi, hl]; exact Nat.le_refl 1
  have huniverse : (kb.after file Stage.all).isUniverse = true := by
    have hlast : kb.after file Stage.all = kb.narrow .heuristics file
        (kb.after file [.filename, .shebang, .extension, .modeline]) := rfl
    rw [hlast, (reached_after hi _).all h, narrow_of_silent (by rw [proposal?, if_pos hall])]
    rfl
  refine ⟨hl, hb, fun s hs hspeak => ?_, hspeaks⟩
  have hmem : l ∈ kb.agreed file kb.all s := by
    rw [mem_agreed_iff hi hi.mem_languages, hi.all_members, hl]
    exact ⟨List.mem_singleton_self l, hspeak, fun heq => absurd heq hs⟩
  have hnil : kb.agreed file kb.all s = [] := by
    cases s with
    | filename => exact agreed_eq_nil hi [] rfl huniverse
    | shebang => exact agreed_eq_nil hi [.filename] rfl huniverse
    | extension => exact agreed_eq_nil hi [.filename, .shebang] rfl huniverse
    | modeline => exact agreed_eq_nil hi [.filename, .shebang, .extension] rfl huniverse
    | heuristics => exact absurd rfl hs
  rw [hnil] at hmem
  cases hmem

theorem paired_along (hi : kb.Indexed) (hi' : kb'.Indexed) (hx : kb.Extends kb' stranger)
    (hs : stranger.Stranger file) {stages : List Stage} (h : Stage.heuristics ∉ stages)
    (hc : Paired kb kb' c c') :
    Paired kb kb' (kb.along file c stages) (kb'.along file c' stages) := by
  induction stages generalizing c c' with
  | nil => exact hc
  | cons s stages ih =>
    rw [List.mem_cons, not_or] at h
    exact ih h.2 (paired_narrow hi hi' hx hs hc fun heq => absurd heq.symm h.1)

theorem heuristics_not_mem {pre post : List Stage} (hall : Stage.all = pre ++ post)
    (hpost : post ≠ []) : Stage.heuristics ∉ pre := by
  obtain ⟨mid, t, rfl⟩ := (List.eq_nil_or_concat post).resolve_left hpost
  have hcut : [.filename, .shebang, .extension, .modeline] ++ [.heuristics] =
      (pre ++ mid) ++ [t] := by
    rw [List.append_assoc, ← @List.concat_eq_append _ mid]
    exact hall
  have hpre : pre ++ mid = [.filename, .shebang, .extension, .modeline] :=
    (List.append_inj_left' hcut rfl).symm
  intro hmem
  have := List.mem_append_left mid hmem
  rw [hpre] at this
  revert this
  decide

/-- **Runs.** After any stages the candidates are paired; after all of them, if heuristics are not
the only ones that speak. -/
theorem paired_after (hi : kb.Indexed) (hi' : kb'.Indexed) (hx : kb.Extends kb' stranger)
    (hs : stranger.Stranger file) (hno : ∀ l, ¬ kb.OnlyHeuristics file l) {pre post : List Stage}
    (hall : Stage.all = pre ++ post) (hb : post ≠ [] ∨ file.isBinary = false) :
    Paired kb kb' (kb.after file pre) (kb'.after file pre) := by
  have early {stages : List Stage} (h : Stage.heuristics ∉ stages) :
      Paired kb kb' (kb.after file stages) (kb'.after file stages) :=
    paired_along hi hi' hx hs h .all
  by_cases hpost : post = []
  · subst hpost
    rw [List.append_nil] at hall
    have hb : file.isBinary = false := hb.resolve_left (fun h => h rfl)
    have hlast : pre = [.filename, .shebang, .extension, .modeline] ++ [.heuristics] := hall.symm
    rw [hlast, after_concat, after_concat]
    refine paired_narrow hi hi' hx hs (early (by decide)) fun _ l hl hspeaks => ?_
    rw [← Bool.not_eq_true]
    exact fun huniverse => hno l (onlyHeuristics_of_universe hi hb hl hspeaks huniverse)
  · exact early (heuristics_not_mem hall hpost)

theorem decides_iff (hi : kb.Indexed) (hi' : kb'.Indexed) (hx : kb.Extends kb' stranger)
    (hs : stranger.Stranger file) (hno : ∀ l, ¬ kb.OnlyHeuristics file l) {pre post : List Stage}
    (hall : Stage.all = pre ++ s :: post) (hb : pre = [] ∨ file.isBinary = false) :
    kb'.Decides file pre s l ↔ kb.Decides file pre s l := by
  have hbefore := paired_after hi hi' hx hs hno hall (.inl nofun)
  have hbehind : Paired kb kb' (kb.after file (pre ++ [s])) (kb'.after file (pre ++ [s])) := by
    have hcut : Stage.all = (pre ++ [s]) ++ post := by rw [hall, List.append_assoc]; rfl
    refine paired_after hi hi' hx hs hno hcut ?_
    rcases hb with rfl | hb
    · left
      rintro rfl
      cases hall
    · exact .inr hb
  rw [Decides, Decides, hbefore.single?, hbehind.single?]

theorem settle_all (chooser : Option Chooser) :
    settle chooser file kb.all = .ok (.noMatch .unknown []) := rfl

/-- **Frame.** A stranger changes no verdict, unless nothing but heuristics speaks for a lone
language. -/
theorem verdict_of_stranger (hi : kb.Indexed) (hi' : kb'.Indexed) (hx : kb.Extends kb' stranger)
    (hs : stranger.Stranger file) (hno : ∀ l, ¬ kb.OnlyHeuristics file l)
    (chooser : Option Chooser) : kb'.verdict chooser file = kb.verdict chooser file := by
  rcases @verdict_cases kb' chooser file with
    ⟨pre, s, post, l, hall, hd, hb, hv'⟩ | ⟨hb', -, hv'⟩ | ⟨hb', -, hv'⟩
  · rw [hv', verdict_of_decides chooser hall ((decides_iff hi hi' hx hs hno hall hb).1 hd) hb]
  all_goals
    rcases @verdict_cases kb chooser file with
      ⟨pre, s, post, l, hall, hd, hb, hv⟩ | ⟨hb, -, hv⟩ | ⟨hb, -, hv⟩
  · rw [hv, verdict_of_decides chooser hall ((decides_iff hi hi' hx hs hno hall hb).2 hd) hb]
  · rw [hv', hv]
  · exact absurd (hb'.symm.trans hb) nofun
  · rw [hv, verdict_of_decides chooser hall ((decides_iff hi hi' hx hs hno hall hb).2 hd) hb]
  · exact absurd (hb'.symm.trans hb) nofun
  · rw [hv', hv]
    have hpaired : Paired kb kb' (kb.after file Stage.all) (kb'.after file Stage.all) :=
      paired_after hi hi' hx hs hno (List.append_nil _).symm (.inr hb)
    generalize kb.after file Stage.all = c at hpaired
    generalize kb'.after file Stage.all = c' at hpaired
    cases hpaired with
    | all => rw [settle_all, settle_all]
    | same => rfl

/-! ## The exception -/

/-- A lone language is not told by heuristics. -/
theorem verdict_of_onlyHeuristics (hi : kb.Indexed) (h : kb.OnlyHeuristics file l)
    (chooser : Option Chooser) : kb.verdict chooser file = .ok (.noMatch .unknown []) := by
  have hsize : kb.all.size ≤ 1 := by rw [size_all hi, h.lone]; exact Nat.le_refl 1
  have hearly : kb.after file [.filename, .shebang, .extension, .modeline] = kb.all := by
    refine after_of_unspoken hi fun t ht m hm => ?_
    rw [h.lone, List.mem_singleton] at hm
    subst hm
    exact h.silent t fun heq => by
      subst heq
      revert ht
      decide
  have hall : kb.after file Stage.all = kb.all := by
    have hlast : kb.after file Stage.all = kb.narrow .heuristics file
        (kb.after file [.filename, .shebang, .extension, .modeline]) := rfl
    rw [hlast, hearly, narrow_of_silent (by rw [proposal?, if_pos hsize])]
  rcases @verdict_cases kb chooser file with
    ⟨pre, s, post, m, heq, hd, -, -⟩ | ⟨hb, -, -⟩ | ⟨-, -, hv⟩
  · -- what has decided would still be there
    have hnone : (kb.after file Stage.all).single? = none := by rw [hall, single?_all]
    rw [heq, after_append_cons, after_append_of_single hd.2, hd.2] at hnone
    cases hnone
  · rw [h.text] at hb
    cases hb
  · rw [hv, hall, settle_all]

/-- Next to a stranger, it is. -/
theorem extended_of_onlyHeuristics (hi' : kb'.Indexed) (hx : kb.Extends kb' stranger)
    (hs : stranger.Stranger file) (h : kb.OnlyHeuristics file l) (chooser : Option Chooser) :
    kb'.verdict chooser file = .ok (.language l.name (.stage .heuristics)) := by
  have hmem (m : Language) : m ∈ kb'.languages ↔ m = stranger ∨ m = l := by
    rw [hx.mem_iff, h.lone, List.mem_singleton]
  have hsole : kb'.Sole (kb'.SpeaksFor file .heuristics) l := by
    refine ⟨(hmem l).2 (.inr rfl), (speaksFor_iff hx hs).2 h.speaks, fun m hm hspeak => ?_⟩
    rcases (hmem m).1 hm with rfl | rfl
    · exact absurd hspeak (not_speaksFor_stranger hx hs)
    · rfl
  have hpre : ∀ t ∈ [Stage.filename, .shebang, .extension, .modeline], ∀ m ∈ kb'.languages,
      ¬ kb'.SpeaksFor file t m := by
    intro t ht m hm
    rcases (hmem m).1 hm with rfl | rfl
    · exact not_speaksFor_stranger hx hs
    · rw [speaksFor_iff hx hs]
      exact h.silent t fun heq => by
        subst heq
        revert ht
        decide
  refine verdict_of_first hi' chooser rfl (.inr h.text) hpre hsole fun _ => ?_
  rw [size_all hi', hx.languages.length_eq, h.lone]
  exact Nat.le_refl 2

end KnowledgeBase

end LangId
