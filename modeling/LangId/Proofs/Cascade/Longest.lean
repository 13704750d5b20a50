import LangId.Proofs.Cascade.Opinions
import LangId.Proofs.Knowledge.Answers

/-!
# The longest declared extension

The stage of extensions looks up one extension after the other in an index. Here it is said without
a run and without an index: the extensions of a file are certain suffixes of its name, and what the
stage leaves is told by the longest of them that is declared, by the languages that declare this one,
and by the candidates that come in.

**Results.**
* `extensions_listed`: which texts are the extensions of a file, and in which order.
* `narrow_extension`, `narrow_of_undeclared`: what the stage leaves.
* `narrow_longest`: both together, and that no other extension of a file and no other declaration of
  a base makes a difference.
-/
namespace LangId

open Text

instance (l : Language) (e : List Char) : Decidable (l.DeclaresExtension e) :=
  inferInstanceAs (Decidable (∃ d ∈ l.extensions, lower d = lower (String.ofList e)))

namespace Sample

/-- The suffixes of a name that begin at a dot, the longest first; none if the name ends in one. -/
structure ListsSuffixes (name : List Char) (extensions : List String) : Prop where
  none : name.getLast? = some '.' → extensions = []
  mem_iff : name.getLast? ≠ some '.' → ∀ {e : String},
    e ∈ extensions ↔ e.toList <:+ name ∧ e.toList.head? = some '.'
  decreasing : extensions.Pairwise fun a b => b.length < a.length

theorem extensions_listed (file : Sample) :
    ListsSuffixes (lowerChars file.basename.toList) file.extensions where
  none := by
    intro hdot
    rw [extensions, extensionsOf_eq, if_pos hdot]
  mem_iff := by
    intro hdot e
    rw [extensions, extensionsOf_eq, if_neg hdot, ← mem_dottedSuffixes, List.mem_map]
    constructor
    · rintro ⟨t, ht, he⟩
      rwa [← he, String.toList_ofList]
    · intro he
      exact ⟨e.toList, he, String.ofList_toList⟩
  decreasing := pairwise_extensions file

end Sample

namespace KnowledgeBase

/-- Whether any language declares an extension. -/
def Knows (kb : KnowledgeBase) (e : String) : Prop :=
  ∃ l ∈ kb.languages, l.DeclaresExtension e.toList

/-- The languages that declare an extension. -/
def declaring (kb : KnowledgeBase) (e : String) : List Language :=
  kb.languages.filter fun l => l.DeclaresExtension e.toList

/-- Their names. -/
def namesDeclaring (kb : KnowledgeBase) (e : String) : List String :=
  (kb.declaring e).map (·.name)

variable {kb kb' : KnowledgeBase} {file file' : Sample} {c c' : Candidates} {e : String}

theorem mem_declaring {l : Language} :
    l ∈ kb.declaring e ↔ l ∈ kb.languages ∧ l.DeclaresExtension e.toList := by
  rw [declaring, List.mem_filter, decide_eq_true_eq]

/-! ## What the stage leaves -/

/-- The index of extensions holds what is declared. -/
theorem byExtension_eq (hi : kb.Indexed) :
    kb.byExtension e = Candidates.ofList (kb.declaring e) := by
  have hmem (l : Language) : l ∈ (kb.extensionIndex.lookup (lower e)).getD [] ↔
      l ∈ kb.declaring e := by
    rw [mem_declaring, Language.DeclaresExtension, String.ofList_toList, ← hi.extension,
      byExtension, Index.find, Candidates.mem_ofList]
  refine Candidates.ofList_congr hmem fun l hl m hm => ?_
  exact hi.eq_of_name (mem_declaring.1 ((hmem l).1 hl)).1 (mem_declaring.1 ((hmem m).1 hm)).1

theorem proposal?_extension (hi : kb.Indexed) {p : Candidates} :
    kb.proposal? file c .extension = some p ↔
      ∃ e, file.LongestExtension kb.Knows e ∧ Candidates.ofList (kb.declaring e) = p := by
  rw [proposal?, ofExtensions?_eq_some hi]
  simp only [byExtension_eq hi]
  rfl

/-- The stage narrows by the languages that declare the longest declared extension. -/
theorem narrow_extension (hi : kb.Indexed) (h : file.LongestExtension kb.Knows e) :
    kb.narrow .extension file c = c.narrow (Candidates.ofList (kb.declaring e)) := by
  rw [narrow, narrow?, (proposal?_extension hi).2 ⟨e, h, rfl⟩]
  rfl

/-- A file without a declared extension keeps its candidates. -/
theorem narrow_of_undeclared (hi : kb.Indexed) (h : ∀ e ∈ file.extensions, ¬ kb.Knows e) :
    kb.narrow .extension file c = c := by
  apply narrow_of_silent
  rw [Option.eq_none_iff_forall_ne_some]
  intro p hp
  obtain ⟨e, he, -⟩ := (proposal?_extension hi).1 hp
  exact h e he.mem he.holds

/-! ## What makes no difference -/

/-- Which candidates declare an extension can be seen by their names. -/
theorem names_inter_declaring (hi : kb.Indexed) (hc : ∀ l ∈ c.members, l ∈ kb.languages) :
    (c.inter (Candidates.ofList (kb.declaring e))).map (·.name) =
      c.names.filter (· ∈ kb.namesDeclaring e) := by
  rw [Candidates.names, List.filter_map, Candidates.inter]
  congr 1
  refine List.filter_congr fun l hl => ?_
  rw [Bool.eq_iff_iff, Candidates.contains, List.contains_iff_mem, Candidates.mem_ofList,
    Function.comp_apply, decide_eq_true_eq, namesDeclaring, List.mem_map]
  constructor
  · intro hd
    exact ⟨l, hd, rfl⟩
  · rintro ⟨m, hm, hname⟩
    rwa [hi.eq_of_name (hc l hl) (mem_declaring.1 hm).1 hname.symm]

/-- The names and the mark that the stage leaves, told by the names and the mark that come in. -/
theorem names_narrow_extension (hi : kb.Indexed) (h : file.LongestExtension kb.Knows e)
    (hc : ∀ l ∈ c.members, l ∈ kb.languages) :
    let named := c.names.filter (· ∈ kb.namesDeclaring e)
    (kb.narrow .extension file c).names = (if named = [] then c.names else named) ∧
      (kb.narrow .extension file c).isUniverse = (c.isUniverse && named.isEmpty) := by
  intro named
  have hnamed : (c.inter (Candidates.ofList (kb.declaring e))).map (·.name) = named :=
    names_inter_declaring hi hc
  have hmark : (Candidates.ofList (kb.declaring e)).isUniverse = false := rfl
  rw [narrow_extension hi h, Candidates.narrow_eq, hmark, ← hnamed]
  by_cases hnone : c.inter (Candidates.ofList (kb.declaring e)) = []
  · simp [hnone]
  · simp [hnone, Candidates.names]

/-- Two runs of the stage that see the same of one extension: candidates with the same names and the
same mark, and the same names of languages that declare it. -/
structure SeesAlike (e : String) (kb kb' : KnowledgeBase) (c c' : Candidates) : Prop where
  names : c.names = c'.names
  mark : c.isUniverse = c'.isUniverse
  declaring : ∀ n, n ∈ kb.namesDeclaring e ↔ n ∈ kb'.namesDeclaring e
  declared : ∀ l ∈ c.members, l ∈ kb.languages
  declared' : ∀ l ∈ c'.members, l ∈ kb'.languages

/-- Other extensions, of the file as of languages, make no difference. -/
theorem narrow_of_seesAlike (hi : kb.Indexed) (hi' : kb'.Indexed)
    (h : file.LongestExtension kb.Knows e) (h' : file'.LongestExtension kb'.Knows e)
    (hs : SeesAlike e kb kb' c c') :
    (kb.narrow .extension file c).names = (kb'.narrow .extension file' c').names ∧
      (kb.narrow .extension file c).isUniverse = (kb'.narrow .extension file' c').isUniverse := by
  obtain ⟨hnames, hmark⟩ := names_narrow_extension hi h hs.declared
  obtain ⟨hnames', hmark'⟩ := names_narrow_extension hi' h' hs.declared'
  have hnamed : c.names.filter (· ∈ kb.namesDeclaring e) =
      c'.names.filter (· ∈ kb'.namesDeclaring e) := by
    rw [hs.names]
    simp only [hs.declaring]
  rw [hnames, hmark, hnames', hmark', hnamed, hs.names, hs.mark]
  exact ⟨rfl, rfl⟩

variable {languages : List Language} {blocks : List HeuristicBlock}
  {rules : List ExclusionRule} {models : List (String × Model)}

/-- **The longest declared extension.** The extensions of a file are the suffixes of its name in
lower case that begin at a dot, the longest first, or there are none if the name ends in a dot; the
stage of extensions narrows by the languages that declare the longest of them that any language
declares, and changes nothing if none is declared. Two bases and two files for which this extension
is the same, declared by languages of the same names, lead to the same candidates. -/
theorem narrow_longest (h : make languages blocks rules models = .ok kb) (file : Sample)
    (c : Candidates) :
    Sample.ListsSuffixes (lowerChars file.basename.toList) file.extensions ∧
    ((∃ e ∈ file.extensions, kb.Knows e) → ∃ e, file.LongestExtension kb.Knows e) ∧
    (∀ e, file.LongestExtension kb.Knows e →
      kb.narrow .extension file c = c.narrow (Candidates.ofList (kb.declaring e))) ∧
    ((∀ e ∈ file.extensions, ¬ kb.Knows e) → kb.narrow .extension file c = c) ∧
    ∀ {languages' blocks' rules' models' kb' file' c' e},
      make languages' blocks' rules' models' = .ok kb' →
      file.LongestExtension kb.Knows e → file'.LongestExtension kb'.Knows e →
      SeesAlike e kb kb' c c' →
      (kb.narrow .extension file c).names = (kb'.narrow .extension file' c').names ∧
      (kb.narrow .extension file c).isUniverse = (kb'.narrow .extension file' c').isUniverse := by
  have hi := indexed_of_make h
  refine ⟨Sample.extensions_listed file, Sample.exists_longestExtension, ?_, ?_, ?_⟩
  · exact fun e he => narrow_extension hi he
  · exact narrow_of_undeclared hi
  · intro _ _ _ _ kb' file' c' e h' he he' hs
    exact narrow_of_seesAlike hi (indexed_of_make h') he he' hs

/-- A language of an extension with two dots. -/
def types : Language := { name := "Types", category := .programming, extensions := [".d.ts"] }

/-- A language of the shorter extension. -/
def script : Language := { name := "Script", category := .programming, extensions := [".ts"] }

/-- A file with both extensions. -/
def typesFile : Sample := { path := "a.D.ts", content := [], size := 0 }

theorem typesFile_longest {kb : KnowledgeBase} (hl : kb.languages = [script, types]) :
    typesFile.LongestExtension kb.Knows ".d.ts" where
  mem := by decide +kernel
  holds := by
    rw [Knows, hl]
    decide +kernel
  longest := fun t ht _ => (by decide +kernel : ∀ t ∈ typesFile.extensions, t.length ≤ 5) t ht

theorem typesFile_narrowed : ∃ kb, make [script, types] [] [] [] = .ok kb ∧
    kb.narrow .extension typesFile kb.all = ⟨[types], false⟩ := by
  obtain ⟨kb, hkb⟩ : ∃ kb, make [script, types] [] [] [] = .ok kb := ⟨_, rfl⟩
  have hl : kb.languages = [script, types] := by
    rw [(make_eq_ok hkb).2.1]
    exact Candidates.mergeSort_of_strict (by decide +kernel)
  have hnarrow := (narrow_longest hkb typesFile kb.all).2.2.1 _ (typesFile_longest hl)
  have hd : kb.declaring ".d.ts" = [types] := by
    rw [declaring, hl]
    decide +kernel
  refine ⟨kb, hkb, hnarrow.trans ?_⟩
  rw [all, hl, hd, Candidates.ofList_of_strict (by decide +kernel),
    Candidates.ofList_of_strict (List.pairwise_singleton _ _)]
  decide +kernel

end KnowledgeBase

end LangId
