import LangId.Proofs.Cascade.Strangers
import LangId.Proofs.Knowledge.Declarations
import LangId.Proofs.Report.Analysis

/-!
# One more language

What a further declaration changes. Where both definitions are accepted, no rule names the new
language and no training data belongs to it, since rules and training data are about languages that
were declared before; so rules and models are the same in both bases (`Parts.extends`). If besides
it declares none of the keys of a file (`LanguageEntry.Unrelated`), it is a stranger to the file
(`stranger_of_unrelated`). Keys are compared in lower case; lower-casing is idempotent, so that the
keys that are kept are found as they are.

**Results.**
* `build_extended`: an unrelated language changes the result for a file exactly if nothing but
  heuristics speaks for the only language that was declared before; then this language is found,
  where nothing was found before.
-/
namespace LangId

open Text

/-- A declaration of none of the keys of a file. -/
structure LanguageEntry.Unrelated (name : String) (e : LanguageEntry) (file : Sample) : Prop where
  filename : file.basename ∉ e.filenames
  extension : ∀ x ∈ e.extensions, lower x ∉ file.extensions
  interpreter : ∀ i, Shebang.interpreter? file.content = some i → i ∉ e.interpreters
  bare : ∀ i bare, Shebang.interpreter? file.content = some i →
    Shebang.stripVersion? i = some bare → bare ∉ e.interpreters
  mode : ∀ m, Modeline.find? file.lines = some m → lower m ∉ Build.modesOf name e

/-- The same definitions with one more language, in whatever place. -/
structure Payload.ExtendedBy (p p' : Payload) (name : String) (e : LanguageEntry) : Prop where
  languages : p'.languages.Perm ((name, e) :: p.languages)
  counts : p'.counts = p.counts
  samples : p'.samples = p.samples
  heuristics : p'.heuristics = p.heuristics
  vendor : p'.vendor = p.vendor
  documentation : p'.documentation = p.documentation
  generated : p'.generated = p.generated

/-! ## Keys of a file and of a stranger -/

/-- Extensions of a file are in lower case. -/
theorem Sample.lower_of_mem_extensions {file : Sample} {x : String} (h : x ∈ file.extensions) :
    lower x = x := by
  rw [extensions, extensionsOf_eq] at h
  split at h
  · cases h
  · obtain ⟨t, ht, rfl⟩ := List.mem_map.1 h
    have hsub := (mem_dottedSuffixes.1 ht).1.subset
    exact lower_ofList_of_isLow fun c hc => isLow_of_mem_lowerChars (hsub hc)

namespace Build

variable {name : String} {e : LanguageEntry} {l : Language}

/-- **Keys.** A language whose declaration has none of the keys of a file is a stranger to it. -/
theorem stranger_of_unrelated {file : Sample} (h : language name e = .ok l)
    (hu : e.Unrelated name file) : l.Stranger file := by
  obtain ⟨hextensions, hfilenames, hinterpreters, hmodes⟩ := keys_of_language h
  refine ⟨?_, fun i hi => ?_, fun i bare hi hbare => ?_, fun x hx => ?_, fun m hm a ha heq => ?_⟩
  · rw [hfilenames, mem_sortedSet]
    exact hu.filename
  · rw [hinterpreters, mem_sortedSet]
    exact hu.interpreter i hi
  · rw [hinterpreters, mem_sortedSet]
    exact hu.bare i bare hi hbare
  · rintro ⟨d, hd, heq⟩
    rw [hextensions, mem_sortedSet] at hd
    obtain ⟨declared, hmem, rfl⟩ := List.mem_map.1 hd
    rw [lower_lower, String.ofList_toList, Sample.lower_of_mem_extensions hx] at heq
    exact hu.extension declared hmem (heq ▸ hx)
  · rw [hmodes, mem_sortedSet] at ha
    rw [lower_of_mem_modesOf ha] at heq
    exact hu.mode m hm (heq ▸ ha)

end Build

/-! ## The parts of the two bases -/

namespace Payload

variable {p p' : Payload} {bound : Nat} {name : String} {e : LanguageEntry}

namespace Parts

variable (parts : p.Parts bound) (parts' : p'.Parts bound)

theorem languages_extended (hx : p.ExtendedBy p' name e) :
    ∃ l, Build.language name e = .ok l ∧ parts'.languages.Perm (l :: parts.languages) := by
  obtain ⟨languages, hl, hperm⟩ := mapM_of_perm hx.languages parts'.languages_eq
  obtain ⟨l, rest, hlanguage, hrest, rfl⟩ := mapM_cons_eq_ok.1 hl
  rw [Except.ok.inj (parts.languages_eq.symm.trans hrest)]
  exact ⟨l, hlanguage, hperm⟩

/-- Rules and models are the same in both bases. -/
theorem rest_extended (hx : p.ExtendedBy p' name e) : parts'.blocks = parts.blocks ∧
    parts'.rules = parts.rules ∧ parts'.models = parts.models := by
  obtain ⟨l, -, hperm⟩ := languages_extended parts parts' hx
  have hd : (Build.declaredNames parts.languages).Extends (Build.declaredNames parts'.languages) :=
    Build.extends_of_subset parts.names parts'.names fun m hm =>
      hperm.mem_iff.2 (List.mem_cons_of_mem l hm)
  refine ⟨?_, ?_, ?_⟩
  · have hblocks := Build.heuristics_of_extends hd parts.blocks_eq
    rw [← hx.heuristics, parts'.blocks_eq] at hblocks
    exact Except.ok.inj hblocks
  · have hrules : Build.exclusionRules p' = Build.exclusionRules p := by
      rw [Build.exclusionRules, Build.exclusionRules, hx.vendor, hx.generated, hx.documentation]
    rw [parts'.rules_eq, parts.rules_eq] at hrules
    exact Except.ok.inj hrules
  · have hmodels := Build.models_of_extends hd hx.counts hx.samples parts.models_eq
    rw [parts'.models_eq] at hmodels
    exact Except.ok.inj hmodels

end Parts

theorem extends_of_extendedBy {kb kb' : KnowledgeBase} (h : p.build bound = .ok kb)
    (h' : p'.build bound = .ok kb') (hx : p.ExtendedBy p' name e) :
    ∃ l, Build.language name e = .ok l ∧ kb.Extends kb' l ∧ kb'.models = kb.models ∧
      kb'.vocabulary = kb.vocabulary := by
  obtain ⟨parts, hmake, rfl⟩ := build_eq_assemble h
  obtain ⟨parts', hmake', rfl⟩ := build_eq_assemble h'
  obtain ⟨l, hl, hperm⟩ := parts.languages_extended parts' hx
  obtain ⟨hblocks, -, hmodels⟩ := parts.rest_extended parts' hx
  refine ⟨l, hl, ⟨?_, fun x => ?_, fun x r hr hmem => ?_⟩, ?_, ?_⟩
  · exact (List.mergeSort_perm _ _).trans
      (hperm.trans ((List.mergeSort_perm _ _).symm.cons l))
  · rw [KnowledgeBase.rulesFor, KnowledgeBase.rulesFor, Parts.base, Parts.base,
      KnowledgeBase.assemble, KnowledgeBase.assemble, hblocks]
  · -- a rule names what was declared before, and names are told apart
    have hdeclared := declared_of_build h hr l.name hmem
    rw [(Build.language_eq_ok hl).2.2] at hdeclared
    obtain ⟨entry, hentry, heq⟩ := List.mem_map.1 hdeclared
    have hnames : ((name, e) :: p.languages).map (fun l => lower l.1) |>.Nodup :=
      (hx.languages.map _).nodup_iff.1 (valid_of_build h').names
    refine (List.nodup_cons.1 hnames).1 (List.mem_map.2 ⟨entry, hentry, ?_⟩)
    rw [heq]
  · rw [Parts.base, Parts.base, KnowledgeBase.assemble, KnowledgeBase.assemble, hmodels]
  · rw [Parts.base, Parts.base, KnowledgeBase.assemble, KnowledgeBase.assemble, hmodels]

end Payload

/-! ## Identification -/

/-- With the same models the same is chosen. -/
theorem Identifier.chooser_of_models {settings : Settings} {kb kb' : KnowledgeBase}
    {filter filter' : ExclusionFilter} (hm : kb'.models = kb.models)
    (hv : kb'.vocabulary = kb.vocabulary) :
    (Identifier.mk settings kb' filter').chooser = (Identifier.mk settings kb filter).chooser := by
  have hmodel : kb'.model? = kb.model? := by
    funext n
    rw [KnowledgeBase.model?, KnowledgeBase.model?, hm]
  have hhas : kb'.hasModels = kb.hasModels := by
    rw [KnowledgeBase.hasModels, KnowledgeBase.hasModels, hm]
  unfold chooser
  dsimp only [classifier]
  rw [hmodel, hhas, hv]

namespace Payload

variable {p p' : Payload} {bound : Nat} {name : String} {e : LanguageEntry}

/-- **One more language** that declares none of the keys of a file changes what is found out about it
exactly if nothing but heuristics speaks for the only language that was declared before: then this
language is found next to the new one, and none without it. -/
theorem build_extended {kb kb' : KnowledgeBase} (h : p.build bound = .ok kb)
    (h' : p'.build bound = .ok kb') (hx : p.ExtendedBy p' name e) (settings : Settings)
    (filter filter' : ExclusionFilter) (path : String) (bytes : List UInt8) :
    let i : Identifier := ⟨settings, kb, filter⟩
    let i' : Identifier := ⟨settings, kb', filter'⟩
    let file := i.sample (Path.canonical path) (Content.whole bytes)
    e.Unrelated name file →
      (i'.identify path bytes = i.identify path bytes ↔ ∀ l, ¬ kb.OnlyHeuristics file l) ∧
      ∀ l, kb.OnlyHeuristics file l →
        i.identify path bytes = .ok ⟨file.path, .noMatch .unknown []⟩ ∧
        i'.identify path bytes = .ok ⟨file.path, .language l.name (.stage .heuristics)⟩ := by
  intro i i' file hu
  obtain ⟨stranger, hl, hextends, hmodels, hvocabulary⟩ := extends_of_extendedBy h h' hx
  have hs : stranger.Stranger file := Build.stranger_of_unrelated hl hu
  have hi := indexed_of_build h
  have hi' := indexed_of_build h'
  have hidentify : i.identify path bytes = kb.identify i.chooser file := rfl
  have hchooser : i'.chooser = i.chooser := Identifier.chooser_of_models hmodels hvocabulary
  have hidentify' : i'.identify path bytes = kb'.identify i.chooser file := by
    rw [← hchooser]
    rfl
  have hexception {l : Language} (hlone : kb.OnlyHeuristics file l) :
      i.identify path bytes = .ok ⟨file.path, .noMatch .unknown []⟩ ∧
        i'.identify path bytes = .ok ⟨file.path, .language l.name (.stage .heuristics)⟩ := by
    rw [hidentify, hidentify', KnowledgeBase.identify_eq_ok, KnowledgeBase.identify_eq_ok]
    exact ⟨⟨KnowledgeBase.verdict_of_onlyHeuristics hi hlone _, rfl⟩,
      KnowledgeBase.extended_of_onlyHeuristics hi' hextends hs hlone _, rfl⟩
  refine ⟨⟨fun hsame l hlone => ?_, fun hno => ?_⟩, fun l hlone => hexception hlone⟩
  · obtain ⟨hv, hv'⟩ := hexception hlone
    rw [hsame, hv] at hv'
    cases hv'
  · rw [hidentify, hidentify', KnowledgeBase.identify, KnowledgeBase.identify,
      KnowledgeBase.verdict_of_stranger hi hi' hextends hs hno]

/-- Languages that declare no keys, of which heuristics tell the first. -/
def headers (names : List String) : Payload where
  languages := names.map fun name => (name, { category := "programming" })
  heuristics := { blocks := [{ extensions := [".h"], rules := [{ languages := .one "A" }] }] }

theorem headers_extended (names : List String) (name : String) :
    (headers names).ExtendedBy (headers (names ++ [name])) name { category := "programming" } := by
  refine ⟨?_, rfl, rfl, rfl, rfl, rfl, rfl⟩
  rw [headers, headers, List.map_append]
  exact List.perm_append_comm

/-- A file with the extension of the rule. -/
def headerFile : Sample where
  path := "x.h"
  content := ['t']
  size := 1

theorem sample_headerFile (kb : KnowledgeBase) :
    (Identifier.plain kb).sample (Path.canonical "x.h") (Content.whole [116]) = headerFile := by
  have h : Sample.ofBytes (Path.canonical "x.h") [116] 51200 (some 1) = headerFile := by
    decide +kernel
  exact h

theorem unrelated_headerFile (name : String) :
    LanguageEntry.Unrelated name { category := "programming" } headerFile := by
  have hshebang : Shebang.interpreter? headerFile.content = none := by decide +kernel
  have hmode : Modeline.find? headerFile.lines = none := by decide +kernel
  exact ⟨nofun, nofun, nofun, nofun, fun m hm => nomatch hmode.symm.trans hm⟩

/-- Two languages before, so that heuristics are asked in any case. -/
theorem two_headers_extended : ∃ kb kb', (headers ["A", "B"]).build 10 = .ok kb ∧
    (headers ["A", "B", "C"]).build 10 = .ok kb' ∧
    (headers ["A", "B"]).ExtendedBy (headers ["A", "B", "C"]) "C" { category := "programming" } ∧
    LanguageEntry.Unrelated "C" { category := "programming" } headerFile ∧
    (Identifier.plain kb').identify "x.h" [116] = (Identifier.plain kb).identify "x.h" [116] := by
  obtain ⟨kb, hkb, hlength⟩ : ∃ kb, (headers ["A", "B"]).build 10 = .ok kb ∧
      kb.languages.length = 2 := ⟨_, rfl, List.length_mergeSort _⟩
  obtain ⟨kb', hkb'⟩ : ∃ kb', (headers ["A", "B", "C"]).build 10 = .ok kb' := ⟨_, rfl⟩
  have hx := headers_extended ["A", "B"] "C"
  refine ⟨kb, kb', hkb, hkb', hx, unrelated_headerFile "C", ?_⟩
  have hsame := build_extended hkb hkb' hx {} ⟨[], []⟩ ⟨[], []⟩ "x.h" [116]
  refine (hsame ?_).1.2 fun l hlone => ?_
  · rw [← Identifier.plain, sample_headerFile]
    exact unrelated_headerFile "C"
  · rw [hlone.lone] at hlength
    cases hlength

theorem languages_of_lone {kb : KnowledgeBase} (h : p.build bound = .ok kb)
    (hlone : p.languages = [(name, e)]) :
    ∃ l, Build.language name e = .ok l ∧ kb.languages = [l] := by
  obtain ⟨parts, -, rfl⟩ := build_eq_assemble h
  have hlanguages := parts.languages_eq
  rw [hlone] at hlanguages
  obtain ⟨l, rest, hl, hrest, heq⟩ := mapM_cons_eq_ok.1 hlanguages
  obtain rfl := pure_eq_ok.1 hrest
  refine ⟨l, hl, ?_⟩
  rw [Parts.base, KnowledgeBase.assemble, heq]
  exact List.mergeSort_singleton l

/-- Nothing but the rule speaks for the language. -/
theorem onlyHeuristics_headers {kb : KnowledgeBase} (h : (headers ["A"]).build 10 = .ok kb) :
    ∃ l, kb.OnlyHeuristics headerFile l ∧ l.name = "A" := by
  obtain ⟨l, hl, hlone⟩ := languages_of_lone h rfl
  have hname := (Build.language_eq_ok hl).2.2
  have hstranger := Build.stranger_of_unrelated hl (unrelated_headerFile "A")
  have hrule : (((headers ["A"]).build 10).toOption.bind fun kb =>
      firstApplying? (kb.rulesOfExtensions headerFile.extensions) headerFile.content).map
        (·.languages) = some ["A"] := by decide +kernel
  obtain ⟨r, hr, hlanguages⟩ := Option.map_eq_some_iff.1 hrule
  rw [toOption_eq_some.2 h, Option.bind_some] at hr
  refine ⟨l, ⟨hlone, rfl, fun s hs => KnowledgeBase.not_speaksFor_of_stranger hstranger hs, ?_⟩,
    hname⟩
  refine KnowledgeBase.confirms_rulesOfExtensions.1
    (KnowledgeBase.firstApplying?_confirms.1 ⟨r, hr, ?_⟩)
  rw [hlanguages, hname]
  exact List.mem_singleton_self "A"

/-- **Counterexample.** With one language before, the new one changes what is found. -/
theorem lone_header_changes : ∃ kb kb', (headers ["A"]).build 10 = .ok kb ∧
    (headers ["A", "B"]).build 10 = .ok kb' ∧
    (headers ["A"]).ExtendedBy (headers ["A", "B"]) "B" { category := "programming" } ∧
    LanguageEntry.Unrelated "B" { category := "programming" }
      ((Identifier.plain kb).sample (Path.canonical "x.h") (Content.whole [116])) ∧
    (Identifier.plain kb).identify "x.h" [116] = .ok ⟨"x.h", .noMatch .unknown []⟩ ∧
    (Identifier.plain kb').identify "x.h" [116] =
      .ok ⟨"x.h", .language "A" (.stage .heuristics)⟩ := by
  obtain ⟨kb, hkb⟩ : ∃ kb, (headers ["A"]).build 10 = .ok kb := ⟨_, rfl⟩
  obtain ⟨kb', hkb'⟩ : ∃ kb', (headers ["A", "B"]).build 10 = .ok kb' := ⟨_, rfl⟩
  have hx := headers_extended ["A"] "B"
  obtain ⟨l, honly, hname⟩ := onlyHeuristics_headers hkb
  obtain ⟨stranger, hstranger, hextends, -⟩ := extends_of_extendedBy hkb hkb' hx
  have hs := Build.stranger_of_unrelated hstranger (unrelated_headerFile "B")
  have hidentify (kb : KnowledgeBase) : (Identifier.plain kb).identify "x.h" [116] =
      kb.identify (Identifier.plain kb).chooser headerFile := by
    rw [← sample_headerFile kb]
    rfl
  refine ⟨kb, kb', hkb, hkb', hx, ?_, ?_, ?_⟩
  · rw [sample_headerFile]
    exact unrelated_headerFile "B"
  · rw [hidentify, KnowledgeBase.identify_eq_ok]
    exact ⟨KnowledgeBase.verdict_of_onlyHeuristics (indexed_of_build hkb) honly _, rfl⟩
  · rw [hidentify, KnowledgeBase.identify_eq_ok, ← hname]
    exact ⟨KnowledgeBase.extended_of_onlyHeuristics (indexed_of_build hkb') hextends hs honly _, rfl⟩

end Payload

end LangId
