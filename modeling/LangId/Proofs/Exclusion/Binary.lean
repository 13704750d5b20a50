import LangId.Proofs.Exclusion.FirstMatch
import LangId.Proofs.Gitignore.Names
import LangId.Proofs.Path

/-!
# Files that are no text

The last rules of a filter are on extensions of files that are no text. Each of them is a line of a
`.gitignore` file without a slash, so it is not the name of a file alone that it looks at: every
directory on the way counts as well, and a file with any name is kept out below a directory whose name
ends in such an extension.

**Results.**
* `excludes_iff_nameEnds`: what the rules keep out if no other rule matches.
* `exists_nameEnds_iff`: for ordinary paths, the components that the rules look at.
* `excluded_by_name`: when the name of a file alone decides.
* `directory_uncovered`: a source file that is kept out for a directory.
-/
namespace LangId

open Gitignore Text

/-- The rule on an extension. -/
def binaryRule (extension : String) : ExclusionRule where
  kind := .binary
  pattern := "*" ++ extension
  form := .gitignore
  excluded := true
  test := .gitignore (some ⟨true, endsIn extension.toList⟩)

/-- A name ends in an extension of files that are no text. -/
def BinaryName (name : List Char) : Prop := ∃ x ∈ binaryExtensions, x.toList <:+ name

instance (name : List Char) : Decidable (BinaryName name) :=
  inferInstanceAs (Decidable (∃ x ∈ _, _))

/-- The components of the canonical spelling of a path. -/
def Path.namesOf (path : String) : List String := Path.components (Path.canonical path).toList

/-- What a path names has a name of a file that is no text. -/
def Path.OwnNameBinary (path : String) : Prop :=
  ∃ name ∈ (Path.namesOf path).getLast?, BinaryName name.toList

/-- A directory on the way has a name of a file that is no text. -/
def Path.DirectoryBinary (path : String) : Prop :=
  ∃ name ∈ (Path.namesOf path).dropLast, BinaryName name.toList

instance (path : String) : Decidable (Path.OwnNameBinary path) :=
  inferInstanceAs (Decidable (∃ name ∈ (_ : Option String), _))

instance (path : String) : Decidable (Path.DirectoryBinary path) :=
  inferInstanceAs (Decidable (∃ name ∈ (_ : List String), _))

/-- A path without line feeds, with at most one slash in front. Line feeds end what patterns look at,
and of two slashes in front they see one. -/
structure Path.Ordinary (path : String) : Prop where
  line : '\n' ∉ (Path.canonical path).toList
  front : ¬['/', '/'] <+: (Path.canonical path).toList

instance (path : String) : Decidable (Path.Ordinary path) :=
  decidable_of_iff (_ ∧ _) ⟨fun h => ⟨h.1, h.2⟩, fun h => ⟨h.line, h.front⟩⟩

variable {path : String} {s text : List Char} {f : ExclusionFilter} {others : List ExclusionRule}

/-! ## The rules -/

theorem literal_of_mem {x : String} (hx : x ∈ binaryExtensions) : Literal x.toList := by
  have h : ∀ x ∈ binaryExtensions, Literal x.toList := by decide +kernel
  exact h x hx

theorem two_le_length_of_mem {x : String} (hx : x ∈ binaryExtensions) : 2 ≤ x.toList.length := by
  have h : ∀ x ∈ binaryExtensions, 2 ≤ x.toList.length := by decide +kernel
  exact h x hx

theorem make_binaryRule {x : String} (h : Literal x.toList) :
    ExclusionRule.make .binary ("*" ++ x) .gitignore = .ok (binaryRule x) := by
  have hline : "*" ++ x = String.ofList ('*' :: x.toList) := by
    rw [← String.toList_inj, String.toList_append]
    exact (String.toList_ofList ..).symm
  have hread : Pattern.ofLine ("*" ++ x) = .ok (some ⟨true, endsIn x.toList⟩) :=
    hline ▸ ofLine_star h
  rw [ExclusionRule.make, ExclusionRule.ofGitignore, hread]
  rfl

theorem binaryRules_eq : binaryRules = .ok (binaryExtensions.map binaryRule) := by
  have h (extensions : List String) (hall : ∀ x ∈ extensions, Literal x.toList) :
      extensions.mapM (fun x => ExclusionRule.make .binary ("*" ++ x) .gitignore) =
        .ok (extensions.map binaryRule) := by
    induction extensions with
    | nil => rfl
    | cons x extensions ih =>
      obtain ⟨hx, hrest⟩ := List.forall_mem_cons.1 hall
      rw [List.mapM_cons, make_binaryRule hx, ih hrest]
      rfl
  exact h _ fun x => literal_of_mem

theorem accepts_binaryRule {x : String} :
    (binaryRule x).accepts path = true ↔ NameEnds x.toList (seenPath path.toList) := by
  rw [← accepts_endsIn, ExclusionRule.accepts, binaryRule, PathTest.accepts, ignores,
    Option.toList_some, List.reverse_singleton, List.find?_singleton]
  split
  · rename_i h
    exact iff_of_true rfl h
  · rename_i h
    exact iff_of_false nofun h

namespace ExclusionFilter

/-- Where no other rule matches and all kinds count, the rules on extensions decide. -/
theorem excludes_iff_nameEnds (hrules : f.rules = others ++ binaryExtensions.map binaryRule)
    (hkinds : ∀ kind, kind ∈ f.kinds)
    (hothers : ∀ r ∈ others, r.accepts (Path.canonical path) = false) :
    f.excludes path = true ↔
      ∃ x ∈ binaryExtensions, NameEnds x.toList (seenPath (Path.canonical path).toList) := by
  have hnone : others.find? (·.accepts (Path.canonical path)) = none := by
    simpa using hothers
  have hrule : f.rule? path =
      (binaryExtensions.map binaryRule).find? (·.accepts (Path.canonical path)) := by
    rw [rule?, firstMatch?, hrules]
    simp only [Bool.true_and, List.find?_append, hnone, Option.none_or]
  rw [excludes, deciding?_of_all_kinds hkinds, hrule, Option.any_eq_true]
  constructor
  · rintro ⟨r, hr, -⟩
    have haccepts := List.find?_some hr
    obtain ⟨x, hx, rfl⟩ := List.mem_map.1 (List.mem_of_find?_eq_some hr)
    exact ⟨x, hx, accepts_binaryRule.1 haccepts⟩
  · rintro ⟨x, hx, hends⟩
    have hfound : ((binaryExtensions.map binaryRule).find?
        (·.accepts (Path.canonical path))).isSome = true :=
      List.find?_isSome.2 ⟨_, List.mem_map_of_mem hx, accepts_binaryRule.2 hends⟩
    obtain ⟨r, hr⟩ := Option.isSome_iff_exists.1 hfound
    obtain ⟨y, -, rfl⟩ := List.mem_map.1 (List.mem_of_find?_eq_some hr)
    exact ⟨_, hr, rfl⟩

end ExclusionFilter

/-! ## Names on the way -/

/-- Empty components and `.` end in no text of two characters. -/
theorem exists_piece_iff (htext : 2 ≤ text.length) :
    (∃ piece ∈ splitOn '/' s, text <:+ piece) ↔
      ∃ name ∈ Path.components s, text <:+ name.toList := by
  simp only [Path.components, List.mem_map, List.mem_filter]
  constructor
  · rintro ⟨piece, hpiece, hends⟩
    have hlength := Nat.le_trans htext hends.length_le
    refine ⟨_, ⟨piece, ⟨hpiece, ?_⟩, rfl⟩, by rwa [String.toList_ofList]⟩
    match piece, hlength with
    | _ :: _ :: _, _ => simp
  · rintro ⟨_, ⟨piece, ⟨hpiece, -⟩, rfl⟩, hends⟩
    exact ⟨piece, hpiece, by rwa [String.toList_ofList] at hends⟩

/-- Rules see a text without the slash in front, if there is one. -/
theorem seenPath_cases (hhere : ¬['.', '/'] <+: s) :
    s = '/' :: seenPath s ∨ ¬['/'] <+: s ∧ seenPath s = s := by
  unfold seenPath
  split
  · exact .inl rfl
  · exact (hhere ⟨_, rfl⟩).elim
  · rename_i hslash _
    exact .inr ⟨fun ⟨rest, h⟩ => hslash rest h.symm, rfl⟩

/-- A slash in front is an empty component more. -/
theorem components_cons_slash (s : List Char) :
    Path.components ('/' :: s) = Path.components s := rfl

/-- **Names on the way.** For ordinary paths, the rules look at the components. -/
theorem exists_nameEnds_iff (h : Path.Ordinary path) :
    (∃ x ∈ binaryExtensions, NameEnds x.toList (seenPath (Path.canonical path).toList)) ↔
      ∃ name ∈ Path.namesOf path, BinaryName name.toList := by
  have hseen : '\n' ∉ seenPath (Path.canonical path).toList ∧
      ¬['/'] <+: seenPath (Path.canonical path).toList ∧
      Path.components (seenPath (Path.canonical path).toList) = Path.namesOf path := by
    obtain ⟨hline, hfront⟩ := h
    rw [Path.namesOf]
    rcases seenPath_cases (Path.isCanonical_canonical path).2 with hslash | ⟨hslash, hsame⟩
    · rw [hslash] at hline hfront
      refine ⟨fun hmem => hline (List.mem_cons_of_mem _ hmem), fun hprefix => hfront ?_, ?_⟩
      · exact List.cons_prefix_cons.2 ⟨rfl, hprefix⟩
      · exact (components_cons_slash _).symm.trans (congrArg _ hslash.symm)
    · rw [hsame]
      exact ⟨hline, hslash, rfl⟩
  obtain ⟨hline, hslash, hnames⟩ := hseen
  have hone {x : String} (hx : x ∈ binaryExtensions) :
      NameEnds x.toList (seenPath (Path.canonical path).toList) ↔
        ∃ name ∈ Path.namesOf path, x.toList <:+ name.toList := by
    rw [nameEnds_iff hline hslash ((literal_of_mem hx).notMem (by decide)),
      exists_piece_iff (two_le_length_of_mem hx), hnames]
  constructor
  · rintro ⟨x, hx, hends⟩
    obtain ⟨name, hname, hends⟩ := (hone hx).1 hends
    exact ⟨name, hname, x, hx, hends⟩
  · rintro ⟨name, hname, x, hx, hends⟩
    exact ⟨x, hx, (hone hx).2 ⟨name, hname, hends⟩⟩

theorem exists_name_iff :
    (∃ name ∈ Path.namesOf path, BinaryName name.toList) ↔
      Path.OwnNameBinary path ∨ Path.DirectoryBinary path := by
  rw [Path.OwnNameBinary, Path.DirectoryBinary]
  rcases List.eq_nil_or_concat (Path.namesOf path) with hnil | ⟨dirs, own, hnames⟩
  · simp [hnil]
  · simp [hnames, or_and_right, exists_or, or_comm]

namespace ExclusionFilter

variable {builtin extra : List ExclusionRule} {settings : FilterSettings}

/-- **Names.** Where all kinds keep files out and no other rule matches a path, it is kept out exactly
if some name on the way ends in an extension of files that are no text. The name of the file alone
decides exactly if no directory has such a name, or the file has one as well. -/
theorem excluded_by_name (h : make builtin settings = .ok f)
    (hkinds : ∀ kind, kind ∈ settings.kinds)
    (hextra : settings.extraRules.mapM ExtraRule.toRule = .ok extra)
    (hothers : ∀ r ∈ extra ++ builtin, r.accepts (Path.canonical path) = false) :
    (f.excludes path = true ↔ ∃ x ∈ binaryExtensions,
      NameEnds x.toList (seenPath (Path.canonical path).toList)) ∧
    (Path.Ordinary path →
      (f.excludes path = true ↔ Path.OwnNameBinary path ∨ Path.DirectoryBinary path) ∧
      ((f.excludes path = true ↔ Path.OwnNameBinary path) ↔
        (Path.DirectoryBinary path → Path.OwnNameBinary path))) := by
  obtain ⟨_, binary, hextra', hbinary, rfl⟩ := make_eq_ok.1 h
  obtain rfl := Except.ok.inj (hextra.symm.trans hextra')
  obtain rfl := Except.ok.inj (binaryRules_eq.symm.trans hbinary)
  have hexcludes := excludes_iff_nameEnds (f := ⟨_, settings.kinds⟩) rfl hkinds hothers
  refine ⟨hexcludes, fun hordinary => ?_⟩
  have hnames := hexcludes.trans ((exists_nameEnds_iff hordinary).trans exists_name_iff)
  refine ⟨hnames, ?_⟩
  rw [hnames]
  exact or_iff_left_iff_imp

/-- With rules of a user in front: an image in a directory with such a name as well, spelt with a
backslash. -/
theorem excluded_by_name_icon : ∃ f extra, make [] savesOne = .ok f ∧
    (∀ kind, kind ∈ savesOne.kinds) ∧ savesOne.extraRules.mapM ExtraRule.toRule = .ok extra ∧
    (∀ r ∈ extra ++ [], r.accepts (Path.canonical "./b.egg\\a.png") = false) ∧
    f.excludes "./b.egg\\a.png" = true := by
  have hpassed : (savesOne.extraRules.mapM ExtraRule.toRule).toOption.map
      (·.all (!·.accepts (Path.canonical "./b.egg\\a.png"))) = some true := by decide +kernel
  obtain ⟨extra, hsome, hall⟩ := Option.map_eq_some_iff.1 hpassed
  have hextra := toOption_eq_some.1 hsome
  have hothers : ∀ r ∈ extra ++ [], r.accepts (Path.canonical "./b.egg\\a.png") = false := by
    simpa using hall
  have hmake : make [] savesOne = .ok ⟨extra ++ [] ++ binaryExtensions.map binaryRule, _⟩ :=
    make_eq_ok.2 ⟨extra, _, hextra, binaryRules_eq, rfl⟩
  have hkinds (kind : ExclusionKind) : kind ∈ savesOne.kinds := by
    cases kind <;> decide
  have hordinary : Path.Ordinary "./b.egg\\a.png" := by decide +kernel
  have hown : Path.OwnNameBinary "./b.egg\\a.png" := by decide +kernel
  have hnames := (excluded_by_name hmake hkinds hextra hothers).2 hordinary
  exact ⟨_, extra, hmake, hkinds, hextra, hothers, (hnames.2.2 fun _ => hown).2 hown⟩

/-- **Counterexample.** A file without an extension is kept out for the directory that it is in. -/
theorem directory_uncovered : ∃ f, make [] {} = .ok f ∧ f.excludes "a.so/b" = true ∧
    f.excludedAs "a.so/b" = some .binary ∧ ¬Path.OwnNameBinary "a.so/b" := by
  have hmake : make [] {} = .ok ⟨binaryExtensions.map binaryRule, ExclusionKind.all⟩ :=
    make_eq_ok.2 ⟨[], _, rfl, binaryRules_eq, rfl⟩
  refine ⟨_, hmake, by decide +kernel, by decide +kernel, by decide +kernel⟩

end ExclusionFilter

end LangId
