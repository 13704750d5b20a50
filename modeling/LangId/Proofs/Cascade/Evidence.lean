import LangId.Proofs.Cascade.Verdict
import LangId.Proofs.Suffixes

/-!
# What speaks for a language

**What is stated.** `Supports` says for each strategy what in the file and in the definitions
speaks for a language, in terms of what languages declare and not of indexes. `Evidence` adds that
every stage before the strategy spoke for the language too, or for no candidate at all.

**Results.**
* `supports_of_proposal`: what a stage proposes is supported by it. One case per stage.
* `mem_of_earlier`: a language that is left was in the lookup of every stage before which met the
  candidates it received.
* `identify_evidence`: the language of every match is declared and has the evidence of the strategy
  that is reported.
-/
namespace LangId

open Text

/-- Whether a language declares an extension, up to case. -/
def Language.DeclaresExtension (l : Language) (e : List Char) : Prop :=
  ∃ d ∈ l.extensions, lower d = lower (String.ofList e)

/-- The stages that come before a strategy. -/
def Strategy.earlier : Strategy → List Stage
  | .stage s => Stage.all.takeWhile (· != s)
  | .classifier => Stage.all

namespace KnowledgeBase

variable (kb : KnowledgeBase) (file : Sample)

/-! ## Evidence -/

/-- The first of some rules that applies to a content confirms a language. -/
def Confirms (rules : List HeuristicRule) (content : List Char) (l : Language) : Prop :=
  ∃ before r behind, rules = before ++ r :: behind ∧
    (∀ b ∈ before, b.applies content = false) ∧ r.applies content = true ∧ l.name ∈ r.languages

/-- What speaks for a language. -/
def Supports : Strategy → Language → Prop
  | .stage .filename, l => file.basename ∈ l.filenames
  | .stage .shebang, l => ∃ i, Shebang.interpreter? file.content = some i ∧
      (i ∈ l.interpreters ∨ (∀ m ∈ kb.languages, i ∉ m.interpreters) ∧
        ∃ bare, Shebang.stripVersion? i = some bare ∧ bare ∈ l.interpreters)
  | .stage .extension, l => ∃ e,
      Sample.LongestSuffix (fun t => ∃ m ∈ kb.languages, m.DeclaresExtension t)
        (lowerChars file.basename.toList) e ∧ l.DeclaresExtension e
  | .stage .modeline, l => ∃ m, Modeline.find? file.lines = some m ∧
      ∃ a ∈ l.modes, lower a = lower m
  | .stage .heuristics, l => ∃ e,
      Sample.LongestSuffix (fun t => kb.rulesFor (String.ofList t) ≠ [])
        (lowerChars file.basename.toList) e ∧
      Confirms (kb.rulesFor (String.ofList e)) file.content l
  | .classifier, l => kb.model? l.name ≠ none

/-- The evidence that a strategy has for a language. -/
structure Evidence (strategy : Strategy) (l : Language) : Prop where
  declared : l ∈ kb.languages
  supports : kb.Supports file strategy l
  /-- Before the strategy, no lookup spoke only for other candidates. -/
  earlier : ∀ pre s post, strategy.earlier = pre ++ s :: post →
    ∀ p, kb.proposal? file (kb.after file pre) s = some p →
      (kb.after file pre).inter p ≠ [] → l ∈ p.members

variable {kb file} {c p : Candidates} {s : Stage} {l : Language}

theorem confirms_of_firstApplying? {rules : List HeuristicRule} {content : List Char}
    {r : HeuristicRule} (h : firstApplying? rules content = some r) (hl : l.name ∈ r.languages) :
    Confirms rules content l := by
  obtain ⟨hr, before, behind, heq, hbefore⟩ := List.find?_eq_some_iff_append.1 h
  exact ⟨before, r, behind, heq, fun b hb => by simpa using hbefore b hb, hr, hl⟩

theorem byExtension_ne_nil (hi : kb.Indexed) {e : List Char} :
    (!(kb.byExtension (String.ofList e)).isEmpty) = true ↔
      ∃ m ∈ kb.languages, m.DeclaresExtension e := by
  simp only [Candidates.isEmpty, Bool.not_eq_true', List.isEmpty_eq_false_iff_exists_mem,
    hi.extension, Language.DeclaresExtension]

/-- The rules that are tried are those of the longest suffix with any. -/
theorem rulesOfExtensions_eq {basename : String}
    (h : kb.rulesOfExtensions (Sample.extensionsOf basename) ≠ []) :
    ∃ e, Sample.LongestSuffix (fun t => kb.rulesFor (String.ofList t) ≠ [])
        (lowerChars basename.toList) e ∧
      kb.rulesOfExtensions (Sample.extensionsOf basename) = kb.rulesFor (String.ofList e) := by
  unfold rulesOfExtensions at h ⊢
  cases hf : ((Sample.extensionsOf basename).map kb.rulesFor).find? (!·.isEmpty) with
  | none =>
    rw [hf] at h
    exact absurd rfl h
  | some rules =>
    obtain ⟨e, he, rfl⟩ := Sample.find?_extensionsOf hf
    refine ⟨e, ?_, rfl⟩
    simpa only [Bool.not_eq_true', List.isEmpty_eq_false_iff] using he

/-- **One stage.** What a stage proposes is supported by it. -/
theorem supports_of_proposal (hi : kb.Indexed) (hp : kb.proposal? file c s = some p)
    (hl : l ∈ p.members) : kb.Supports file (.stage s) l := by
  cases s with
  | filename =>
    obtain rfl := Option.some.inj hp
    exact (hi.filename.1 hl).2
  | shebang =>
    obtain ⟨i, hi', rfl⟩ := Option.map_eq_some_iff.1 hp
    refine ⟨i, hi', ?_⟩
    rcases mem_ofInterpreter hl with hl | ⟨hnone, bare, hbare, hl⟩
    · exact .inl (hi.interpreter.1 hl).2
    · refine .inr ⟨fun m hm hmem => ?_, bare, hbare, (hi.interpreter.1 hl).2⟩
      have : m ∈ (kb.byInterpreter i).members := hi.interpreter.2 ⟨hm, hmem⟩
      rw [hnone] at this
      cases this
  | extension =>
    obtain ⟨e, he, rfl⟩ := Sample.find?_extensionsOf hp
    simp only [byExtension_ne_nil hi] at he
    exact ⟨e, he, (hi.extension.1 hl).2⟩
  | modeline =>
    obtain ⟨m, hm, rfl⟩ := Option.map_eq_some_iff.1 hp
    exact ⟨m, hm, (hi.mode.1 hl).2⟩
  | heuristics =>
    simp only [proposal?] at hp
    split at hp
    · cases hp
    · obtain ⟨r, hr, rfl⟩ := Option.map_eq_some_iff.1 hp
      have hname : l.name ∈ r.languages := by simpa using (List.mem_filter.1 hl).2
      have hne : kb.rulesOfExtensions file.extensions ≠ [] := by
        intro hnil
        rw [hnil] at hr
        cases hr
      obtain ⟨e, he, heq⟩ := rulesOfExtensions_eq hne
      refine ⟨e, he, ?_⟩
      rw [← heq]
      exact confirms_of_firstApplying? hr hname

/-- A language that is left was in every earlier lookup that met the candidates it received. -/
theorem mem_of_earlier {pre post : List Stage}
    (h : l ∈ (kb.after file (pre ++ s :: post)).members)
    (hp : kb.proposal? file (kb.after file pre) s = some p)
    (hmeets : (kb.after file pre).inter p ≠ []) : l ∈ p.members := by
  have hagreed : kb.agreed file (kb.after file pre) s = (kb.after file pre).inter p := by
    rw [agreed, hp, Option.map_some, Option.getD_some]
  have hl := mem_agreed_of_mem_after h (by rw [hagreed]; exact hmeets)
  rw [hagreed] at hl
  exact (Candidates.mem_inter.1 hl).2

theorem earlier_eq {pre post : List Stage} (h : Stage.all = pre ++ s :: post) :
    (Strategy.stage s).earlier = pre := by
  have hnodup : (pre ++ s :: post).Nodup := by
    rw [← h]
    decide
  have hne : ∀ t ∈ pre, (t != s) = true := by
    intro t ht
    have := (List.nodup_append.1 hnodup).2.2 t ht s List.mem_cons_self
    exact bne_iff_ne.2 this
  rw [Strategy.earlier, h, List.takeWhile_append_of_pos hne, List.takeWhile_cons_of_neg (by simp),
    List.append_nil]

/-- The language that a stage decides on has its evidence. -/
theorem evidence_of_decides (hi : kb.Indexed) {pre post : List Stage}
    (hall : Stage.all = pre ++ s :: post) (h : kb.Decides file pre s l) :
    kb.Evidence file (.stage s) l := by
  have hagreed : l ∈ kb.agreed file (kb.after file pre) s := by
    rw [decides_agreed h]
    exact List.mem_singleton_self l
  obtain ⟨hl, p, hp, hlp⟩ := mem_agreed.1 hagreed
  refine ⟨(reached_after hi pre).sublist.subset hl, supports_of_proposal hi hp hlp, ?_⟩
  rw [earlier_eq hall]
  rintro pre' s' post' rfl p' hp' hmeets
  exact mem_of_earlier hl hp' hmeets

/-- The language that a classifier chooses has its evidence. -/
theorem evidence_of_classified (hi : kb.Indexed)
    (hl : l ∈ (kb.after file Stage.all).members) (hm : kb.model? l.name ≠ none) :
    kb.Evidence file .classifier l := by
  refine ⟨(reached_after hi Stage.all).sublist.subset hl, hm, ?_⟩
  intro pre s post heq p hp hmeets
  rw [show Stage.all = pre ++ s :: post from heq] at hl
  exact mem_of_earlier hl hp hmeets

/-- **Evidence.** The language of every match is declared and has the evidence of the strategy that
is reported. -/
theorem identify_evidence {R : Type} {languages : List Language} {blocks : List HeuristicBlock}
    {rules : List ExclusionRule} {models : List (String × Model)}
    (hkb : make languages blocks rules models = .ok kb) (classifier : Option (Classifier R))
    (file : Sample) {r : Identification} {name : String} {strategy : Strategy}
    (hr : kb.identify (kb.chooserOf classifier) file = .ok r)
    (hv : r.verdict = .language name strategy) :
    ∃ l, l.name = name ∧ kb.Evidence file strategy l := by
  have hi : kb.Indexed := indexed_of_make hkb
  have h := (identify_eq_ok.1 hr).1
  rw [hv] at h
  rcases verdict_cases (kb.chooserOf classifier) file with
    ⟨pre, s, post, l, hall, hd, -, hs⟩ | ⟨-, -, hs⟩ | ⟨-, -, hs⟩ <;> rw [hs] at h
  · cases h
    exact ⟨l, rfl, evidence_of_decides hi hall hd⟩
  · cases h
  · rcases settle_eq_ok h with ⟨-, hv⟩ | ⟨-, l, hl, hm, -, hv⟩ | ⟨-, -, hv⟩
    · cases hv
    · cases hv
      exact ⟨l, rfl, evidence_of_classified hi hl hm⟩
    · cases hv

/-! ## A file that its modeline tells -/

/-- Languages of which two share an extension, and two a mode. -/
def logicLanguages : List Language :=
  [{ name := "Logtalk", category := .programming, extensions := [".lgt"], modes := ["prolog"] },
   { name := "Perl", category := .programming, extensions := [".pl"], modes := ["perl"] },
   { name := "Prolog", category := .programming, extensions := [".pl"], modes := ["prolog"] }]

/-- A file whose extension leaves two of them, and whose modeline leaves one of these. -/
def logicFile : Sample :=
  { path := "src/queens.pl", content := "% vim: set ft=Prolog :".toList, size := 22 }

/-- Neither its name nor an interpreter speaks for the file. -/
theorem after_logicFile (hi : kb.Indexed) (hl : kb.languages = logicLanguages) :
    kb.after logicFile [.filename, .shebang] = kb.all := by
  have hname : kb.agreed logicFile kb.all .filename = [] := by
    rw [agreed_filename hi, hl]
    decide +kernel
  have filename : kb.narrow .filename logicFile kb.all = kb.all := by
    rw [narrow_eq, if_pos hname]
  have shebang : kb.narrow .shebang logicFile kb.all = kb.all := narrow_of_silent rfl
  simp only [after, List.foldl_cons, List.foldl_nil, filename, shebang]

theorem proposal?_logicFile (hi : kb.Indexed) (hl : kb.languages = logicLanguages)
    (c : Candidates) : kb.proposal? logicFile c .extension = some (kb.byExtension ".pl") := by
  have hextensions : logicFile.extensions = [".pl"] := by decide +kernel
  have hperl : logicLanguages[1] ∈ (kb.byExtension ".pl").members := by
    rw [hi.extension, hl]
    exact ⟨by decide, ".pl", by decide, rfl⟩
  have hknown : (!(kb.byExtension ".pl").isEmpty) = true := by
    rw [Candidates.isEmpty, Bool.not_eq_true', List.isEmpty_eq_false_iff]
    exact List.ne_nil_of_mem hperl
  rw [proposal?, hextensions, ofExtensions?, List.map_singleton]
  exact List.find?_cons_of_pos hknown

/-- The extension leaves the languages that share it. -/
theorem agreed_logicFile_extension (hi : kb.Indexed) (hl : kb.languages = logicLanguages) :
    kb.agreed logicFile kb.all .extension = logicLanguages.drop 1 := by
  rw [agreed_of_proposal (fun l => l.extensions.any (lower · == lower ".pl"))
    (proposal?_logicFile hi hl _), hi.all_members, hl]
  · decide +kernel
  · intro l hall
    rw [hi.all_members] at hall
    rw [hi.extension, and_iff_right hall]
    simp

/-- The mode is that of one language that the extension has left, and of one that it has not. -/
theorem agreed_logicFile_modeline (hi : kb.Indexed) (hl : kb.languages = logicLanguages) :
    kb.agreed logicFile ⟨logicLanguages.drop 1, false⟩ .modeline = [logicLanguages[2]] := by
  have hfound : Modeline.find? logicFile.lines = some "Prolog" := by decide +kernel
  have hp : kb.proposal? logicFile ⟨logicLanguages.drop 1, false⟩ .modeline =
      some (kb.byMode "Prolog") := by
    rw [proposal?, hfound]
    rfl
  rw [agreed_of_proposal (fun l => l.modes.any (lower · == lower "Prolog")) hp]
  · decide +kernel
  · intro l hmem
    have hall : l ∈ kb.languages := by
      rw [hl]
      exact List.mem_of_mem_drop hmem
    rw [hi.mode, and_iff_right hall]
    simp

theorem decides_logicFile (hi : kb.Indexed) (hl : kb.languages = logicLanguages) :
    kb.Decides logicFile [.filename, .shebang, .extension] .modeline logicLanguages[2] := by
  have hextension := agreed_logicFile_extension hi hl
  have hmodeline := agreed_logicFile_modeline hi hl
  have hafter : kb.after logicFile ([.filename, .shebang] ++ [.extension]) =
      ⟨logicLanguages.drop 1, false⟩ := by
    rw [after_concat, after_logicFile hi hl, narrow_of_agreed (by rw [hextension]; nofun), hextension]
  constructor
  · exact (congrArg Candidates.single? hafter).trans rfl
  · rw [after_concat]
    refine (congrArg (fun c => (kb.narrow .modeline logicFile c).single?) hafter).trans ?_
    rw [narrow_of_agreed (by rw [hmodeline]; nofun), hmodeline]
    rfl

/-- The modeline decides on a language that the extension has left. -/
theorem logicFile_evidence : ∃ kb r l, make logicLanguages [] [] [] = .ok kb ∧
    kb.identify (kb.chooserOf (none : Option (Classifier Float))) logicFile = .ok r ∧
    r.verdict = .language "Prolog" (.stage .modeline) ∧
    l.name = "Prolog" ∧ kb.Evidence logicFile (.stage .modeline) l ∧
    ∃ p, kb.proposal? logicFile (kb.after logicFile [.filename, .shebang]) .extension = some p ∧
      l ∈ p.members := by
  obtain ⟨kb, hkb⟩ : ∃ kb, make logicLanguages [] [] [] = .ok kb := ⟨_, rfl⟩
  have hi := indexed_of_make hkb
  have hl : kb.languages = logicLanguages := by
    rw [(make_eq_ok hkb).2.1, Candidates.mergeSort_of_strict (by decide +kernel)]
  have hv := verdict_of_decides (kb.chooserOf (none : Option (Classifier Float))) rfl
    (decides_logicFile hi hl) (.inr rfl)
  have hr : kb.identify (kb.chooserOf (none : Option (Classifier Float))) logicFile =
      .ok ⟨"src/queens.pl", .language "Prolog" (.stage .modeline)⟩ := identify_eq_ok.2 ⟨hv, rfl⟩
  obtain ⟨l, hname, he⟩ := identify_evidence hkb none logicFile hr rfl
  have hp := proposal?_logicFile hi hl (kb.after logicFile [.filename, .shebang])
  refine ⟨kb, _, l, hkb, hr, rfl, hname, he, _, hp, ?_⟩
  -- the extension is a stage before the modeline, and met two of all languages
  refine he.earlier [.filename, .shebang] .extension [] rfl _ hp ?_
  have hmeets := agreed_logicFile_extension hi hl
  rw [agreed, proposal?_logicFile hi hl, Option.map_some, Option.getD_some] at hmeets
  rw [after_logicFile hi hl, hmeets]
  exact List.cons_ne_nil _ _

end KnowledgeBase

end LangId
