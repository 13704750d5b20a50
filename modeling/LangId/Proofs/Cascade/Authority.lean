import LangId.Proofs.Cascade.Opinions

/-!
# The authority of earlier stages

The first stage that speaks for any language decides, if it speaks for just one: stages before it
have left all languages, and none behind it is asked. So nothing that later stages would look at can
change the result.

**Results.**
* `verdict_of_first`: said of any stage. Heuristics are asked only if there are several languages.
* `identify_authority`: said of the name of a file, of the interpreter, and of the extension.
-/
namespace LangId.KnowledgeBase

variable (kb : KnowledgeBase)

/-- A language is the only one of a knowledge base that has a property. -/
structure Sole (p : Language → Prop) (l : Language) : Prop where
  declared : l ∈ kb.languages
  holds : p l
  only : ∀ m ∈ kb.languages, p m → m = l

variable {kb} {file : Sample} {pre post : List Stage} {s : Stage} {l : Language}

/-- Stages that speak for no language leave all of them. -/
theorem after_of_unspoken (hi : kb.Indexed)
    (h : ∀ t ∈ pre, ∀ m ∈ kb.languages, ¬ kb.SpeaksFor file t m) : kb.after file pre = kb.all := by
  unfold after
  refine List.foldlRecOn (motive := fun c => c = kb.all) pre _ rfl fun c hc t ht => ?_
  rw [hc]
  exact narrow_of_unspoken hi hi.mem_languages fun m hm => h t ht m (hi.mem_languages m hm)

/-- A stage that speaks for one of all languages agrees on this one alone. -/
theorem agreed_of_sole (hi : kb.Indexed) (h : kb.Sole (kb.SpeaksFor file s) l)
    (hsize : s = .heuristics → 2 ≤ kb.all.size) : kb.agreed file kb.all s = [l] := by
  have hsub : (kb.agreed file kb.all s).Sublist kb.languages := by
    rw [← hi.all_members]
    exact agreed_sublist
  have hmem : ∀ m, m ∈ kb.agreed file kb.all s ↔ m ∈ [l] := by
    intro m
    rw [mem_agreed_iff hi hi.mem_languages, hi.all_members, List.mem_singleton]
    constructor
    · rintro ⟨hm, hs, -⟩
      exact h.only m hm hs
    · rintro rfl
      exact ⟨h.declared, h.holds, hsize⟩
  have hnodup := (Candidates.nodup_of_strict hi.order).sublist hsub
  have hone : [l].Nodup := List.nodup_cons.2 ⟨List.not_mem_nil, List.nodup_nil⟩
  exact List.perm_singleton.1 ((List.perm_ext_iff_of_nodup hnodup hone).2 hmem)

/-- **The first stage that speaks.** If it speaks for a single language, it decides. -/
theorem verdict_of_first (hi : kb.Indexed) (chooser : Option Chooser)
    (hall : Stage.all = pre ++ s :: post) (hb : pre = [] ∨ file.isBinary = false)
    (hpre : ∀ t ∈ pre, ∀ m ∈ kb.languages, ¬ kb.SpeaksFor file t m)
    (h : kb.Sole (kb.SpeaksFor file s) l) (hsize : s = .heuristics → 2 ≤ kb.all.size) :
    kb.verdict chooser file = .ok (.language l.name (.stage s)) := by
  have hagreed := agreed_of_sole hi h hsize
  refine verdict_of_decides chooser hall ⟨?_, ?_⟩ hb
  · rw [after_of_unspoken hi hpre]
    exact single?_all
  · rw [after_concat, after_of_unspoken hi hpre, narrow_of_agreed (by rw [hagreed]; nofun), hagreed]
    rfl

/-- **Authority.** For every knowledge base that can be built, every classifier and every file:
a file name that a single language declares decides, also where the content is binary; of files
without binary content whose name no language declares, an interpreter that leads to a single
language decides; and if it leads to none, so does the longest extension that any language declares,
if a single one does. -/
theorem identify_authority {languages : List Language} {blocks : List HeuristicBlock}
    {rules : List ExclusionRule} {models : List (String × Model)}
    (hkb : make languages blocks rules models = .ok kb) (chooser : Option Chooser) (file : Sample)
    (l : Language) :
    (kb.Sole (fun m => file.basename ∈ m.filenames) l →
      kb.identify chooser file = .ok ⟨file.path, .language l.name (.stage .filename)⟩) ∧
    ((∀ m ∈ kb.languages, file.basename ∉ m.filenames) → file.isBinary = false →
      kb.Sole (kb.SpeaksFor file .shebang) l →
      kb.identify chooser file = .ok ⟨file.path, .language l.name (.stage .shebang)⟩) ∧
    ((∀ m ∈ kb.languages, file.basename ∉ m.filenames) → file.isBinary = false →
      (∀ m ∈ kb.languages, ¬ kb.SpeaksFor file .shebang m) →
      kb.Sole (kb.SpeaksFor file .extension) l →
      kb.identify chooser file = .ok ⟨file.path, .language l.name (.stage .extension)⟩) := by
  have hi : kb.Indexed := indexed_of_make hkb
  refine ⟨fun h => ?_, fun hname hb h => ?_, fun hname hb hshebang h => ?_⟩
  · have hv := verdict_of_first hi chooser rfl (.inl rfl) nofun h nofun
    exact identify_eq_ok.2 ⟨hv, rfl⟩
  · have hpre : ∀ t ∈ [Stage.filename], ∀ m ∈ kb.languages, ¬ kb.SpeaksFor file t m :=
      List.forall_mem_singleton.2 hname
    have hv := verdict_of_first hi chooser rfl (.inr hb) hpre h nofun
    exact identify_eq_ok.2 ⟨hv, rfl⟩
  · have hpre : ∀ t ∈ [Stage.filename, .shebang], ∀ m ∈ kb.languages, ¬ kb.SpeaksFor file t m :=
      List.forall_mem_cons.2 ⟨hname, List.forall_mem_singleton.2 hshebang⟩
    have hv := verdict_of_first hi chooser rfl (.inr hb) hpre h nofun
    exact identify_eq_ok.2 ⟨hv, rfl⟩

/-! ## Three files -/

/-- A language of a file name, an interpreter and an extension. -/
def snake : Language :=
  { name := "Snake", category := .programming, extensions := [".sn"], filenames := ["Snakefile"],
    interpreters := ["snake"] }

/-- A language of an extension only. -/
def crab : Language := { name := "Crab", category := .programming, extensions := [".cr"] }

/-- A file that its name tells, although its content is binary. -/
def snakeNamed : Sample :=
  { path := "src/Snakefile", content := ['\x00'], size := 1, isBinary := true }

/-- A script that has the extension of another language. -/
def snakeScript : Sample := { path := "run.cr", content := "#!/bin/snake".toList, size := 12 }

/-- A file without any sign but its extension. -/
def crabSource : Sample := { path := "main.cr", content := ['x'], size := 1 }

theorem languages_snake_crab {models : List (String × Model)}
    (h : make [crab, snake] [] [] models = .ok kb) : kb.languages = [crab, snake] := by
  rw [(make_eq_ok h).2.1, Candidates.mergeSort_of_strict (by decide +kernel)]

theorem snakeNamed_sole {models : List (String × Model)}
    (h : make [crab, snake] [] [] models = .ok kb) :
    kb.Sole (fun m => snakeNamed.basename ∈ m.filenames) snake := by
  have hname : snakeNamed.basename = "Snakefile" := by decide +kernel
  refine ⟨?_, by decide +kernel, ?_⟩
  · rw [languages_snake_crab h]
    decide
  · rw [languages_snake_crab h, hname]
    decide +kernel

theorem snakeScript_sole {models : List (String × Model)}
    (h : make [crab, snake] [] [] models = .ok kb) :
    kb.Sole (kb.SpeaksFor snakeScript .shebang) snake := by
  have hfound : Shebang.interpreter? snakeScript.content = some "snake" := by decide +kernel
  have hsnake : snake ∈ kb.languages := by
    rw [languages_snake_crab h]
    decide
  refine ⟨hsnake, ⟨"snake", hfound, .inl (by decide)⟩, ?_⟩
  rintro m hm ⟨i, hi, hd⟩
  obtain rfl := Option.some.inj (hfound.symm.trans hi)
  rcases hd with hd | ⟨hno, -⟩
  · rw [languages_snake_crab h] at hm
    revert m
    decide +kernel
  · exact absurd (by decide) (hno snake hsnake)

theorem crabSource_sole {models : List (String × Model)}
    (h : make [crab, snake] [] [] models = .ok kb) :
    kb.Sole (kb.SpeaksFor crabSource .extension) crab := by
  have hextensions : crabSource.extensions = [".cr"] := by decide +kernel
  have hcrab : crab ∈ kb.languages := by
    rw [languages_snake_crab h]
    decide
  have hdeclares : crab.DeclaresExtension ".cr".toList :=
    ⟨".cr", by decide, by decide +kernel⟩
  refine ⟨hcrab, ⟨".cr", ⟨?_, ⟨crab, hcrab, hdeclares⟩, ?_⟩, hdeclares⟩, ?_⟩
  · rw [hextensions]
    decide
  · rw [hextensions]
    exact List.forall_mem_singleton.2 fun _ => Nat.le_refl _
  · rintro m hm ⟨e, he, d, hd, heq⟩
    have hmem := he.mem
    rw [hextensions, List.mem_singleton] at hmem
    subst hmem
    rw [languages_snake_crab h] at hm
    revert m d
    decide +kernel

/-- Each of the three files is identified by what comes first, whatever the classifier. -/
theorem three_files_identified : ∃ kb, make [crab, snake] [] [] [] = .ok kb ∧
    ∀ chooser,
      kb.identify chooser snakeNamed = .ok ⟨"src/Snakefile", .language "Snake" (.stage .filename)⟩ ∧
      kb.identify chooser snakeScript = .ok ⟨"run.cr", .language "Snake" (.stage .shebang)⟩ ∧
      kb.identify chooser crabSource = .ok ⟨"main.cr", .language "Crab" (.stage .extension)⟩ := by
  obtain ⟨kb, hkb⟩ : ∃ kb, make [crab, snake] [] [] [] = .ok kb := ⟨_, rfl⟩
  refine ⟨kb, hkb, fun chooser => ⟨?_, ?_, ?_⟩⟩
  · exact (identify_authority hkb chooser snakeNamed snake).1 (snakeNamed_sole hkb)
  · refine (identify_authority hkb chooser snakeScript snake).2.1 ?_ rfl (snakeScript_sole hkb)
    rw [languages_snake_crab hkb]
    decide +kernel
  · refine (identify_authority hkb chooser crabSource crab).2.2 ?_ rfl ?_ (crabSource_sole hkb)
    · rw [languages_snake_crab hkb]
      decide +kernel
    · have hnone : Shebang.interpreter? crabSource.content = none := by decide +kernel
      rintro m - ⟨i, hi, -⟩
      rw [hnone] at hi
      cases hi

end LangId.KnowledgeBase
