import LangId.Proofs.Tree.Spelling
import LangId.Proofs.Tree.Ways
import LangId.Provider

/-!
# Reading what has been scanned

A scanner reports the files below its root by paths, and a provider reads what these paths lead to
from the same root. Where the names are free of backslashes a path leads back to the file that it
comes from (`read_pathOf`), and no two files have the same path (`nodup_map_pathOf`); whether a file
is ignored can then be told as well, so that the scan ends (`paths_total`).
-/
namespace LangId.Scanner

open LangId.Tree (Place Plain ValidName)

/-- The files below the root of a scanner, in the order in which they are found. -/
def places (s : Scanner) (t : Tree) : List Place :=
  match t.at? s.root with
  | some d => d.files
  | none => []

variable {s : Scanner} {t : Tree} {p q : Place}

theorem paths_eq (s : Scanner) (t : Tree) :
    s.paths t = ((s.places t).map pathOf).filterM fun path => (s.isIgnored t path).map (!·) := by
  rw [paths, places]
  cases t.at? s.root with
  | some d => rfl
  | none => rfl

/-- The files below the root of a scanner that are not ignored. -/
def kept (s : Scanner) (t : Tree) : List Place :=
  (s.places t).filter fun p => (s.isIgnored t (pathOf p)).toOption == some false

/-- A scan ends if it can be told of every file whether it is ignored. -/
theorem paths_eq_ok {paths : List String} : s.paths t = .ok paths ↔
    (∀ p ∈ s.places t, ∃ ignored, s.isIgnored t (pathOf p) = .ok ignored) ∧
      paths = (s.kept t).map pathOf := by
  have hkeeps : ((fun path => ((s.isIgnored t path).map (!·)).toOption == some true) ∘ pathOf) =
      fun p => (s.isIgnored t (pathOf p)).toOption == some false := by
    funext p
    rw [Function.comp_apply]
    cases s.isIgnored t (pathOf p) with
    | error f => rfl
    | ok ignored => cases ignored <;> rfl
  rw [paths_eq, filterM_eq_ok, List.filter_map, hkeeps, List.forall_mem_map]
  simp only [exists_map_iff, kept]

/-! ## Places -/

/-- A file that is not a link, below the root of a scanner, with neither a link nor a directory of
version control on the way down to it. -/
structure Finds (s : Scanner) (t : Tree) (p : Place) : Prop where
  below : p ≠ []
  file : ∃ bytes, t.at? (s.root ++ p) = some (.file bytes)
  outside : ∀ name ∈ p.dropLast, name ∉ Gitignore.metadataNames

/-- These are the files that a scanner comes to. -/
theorem mem_places_iff (ht : t.Wellformed) : p ∈ s.places t ↔ s.Finds t p := by
  rw [places]
  cases hroot : t.at? s.root with
  | none =>
    refine ⟨nofun, fun h => ?_⟩
    obtain ⟨bytes, hat⟩ := h.file
    rw [Tree.at?_append, hroot] at hat
    cases hat
  | some d =>
    have hat : t.at? (s.root ++ p) = d.at? p := by
      rw [Tree.at?_append, hroot]
      rfl
    rw [Tree.mem_files_iff (ht.at hroot).2]
    exact ⟨fun h => ⟨h.below, hat ▸ h.file, h.outside⟩, fun h => ⟨h.below, hat ▸ h.file, h.outside⟩⟩

theorem Finds.names (ht : t.Wellformed) (h : s.Finds t p) : ∀ name ∈ p, ValidName name := by
  obtain ⟨bytes, hat⟩ := h.file
  exact fun name hname => (ht.at hat).1 name (List.mem_append_right _ hname)

theorem mem_kept (ht : t.Wellformed) :
    p ∈ s.kept t ↔ s.Finds t p ∧ s.isIgnored t (pathOf p) = .ok false := by
  rw [kept, List.mem_filter, mem_places_iff ht, beq_iff_eq, toOption_eq_some]

theorem kept_sublist : (s.kept t).Sublist (s.places t) := List.filter_sublist

/-- There is a file at every place that is found, behind names that files can have. -/
theorem file_of_mem_places (ht : t.Wellformed) (h : p ∈ s.places t) :
    p ≠ [] ∧ (∀ name ∈ p, ValidName name) ∧
      ∃ bytes, t.at? (s.root ++ p) = some (.file bytes) := by
  have hfinds := (mem_places_iff ht).1 h
  exact ⟨hfinds.below, hfinds.names ht, hfinds.file⟩

/-- The files are found in order, each of them once. -/
theorem pairwise_places (ht : t.Wellformed) : (s.places t).Pairwise Tree.Before := by
  rw [places]
  split
  · rename_i d hd
    exact Tree.pairwise_files (ht.at hd).2
  · exact .nil

theorem nodup_places (ht : t.Wellformed) : (s.places t).Nodup :=
  (pairwise_places ht).imp Tree.Before.ne

theorem places_pair {file directory inner : String} (hroot : s.root = [])
    (hdirectory : directory ∉ Gitignore.metadataNames) :
    s.places (Tree.pair file directory inner) = [[file], [directory, inner]] := by
  rw [places, hroot]
  exact Tree.files_pair hdirectory

/-! ## Paths -/

/-- The path of a file leads back to it. -/
theorem read_pathOf {bytes : List UInt8} (ht : t.Wellformed) (h : p ∈ s.places t) (hp : Plain p)
    (hat : t.at? (s.root ++ p) = some (.file bytes)) (bound : Nat) :
    Provider.ofTree t ⟨.absolute, s.root⟩ bound (pathOf p) =
      .ok ⟨bytes.take bound, bytes.length⟩ := by
  obtain ⟨hne, hnames, -⟩ := file_of_mem_places ht h
  have hread : t.read (s.root ++ p) = .ok bytes := Tree.read_of_file ht hat
  have hfull : ((⟨.absolute, s.root⟩ : Path).join ⟨.relative, p⟩).parts = s.root ++ p := rfl
  rw [Provider.ofTree, ofString_pathOf hne hnames hp, hfull, hread]

/-- Files without backslashes have paths of their own. -/
theorem pathOf_inj (ht : t.Wellformed) (hfp : s.Finds t p) (hfq : s.Finds t q) (hp : Plain p)
    (hq : Plain q) (heq : pathOf p = pathOf q) : p = q := by
  have hsame : (⟨.relative, p⟩ : Path) = ⟨.relative, q⟩ := by
    rw [← ofString_pathOf hfp.below (hfp.names ht) hp, heq,
      ofString_pathOf hfq.below (hfq.names ht) hq]
  exact (Path.mk.inj hsame).2

theorem nodup_map_pathOf {found : List Place} (ht : t.Wellformed)
    (hfound : found.Sublist (s.places t)) (hp : ∀ p ∈ found, Plain p) :
    (found.map pathOf).Nodup := by
  have hfinds : ∀ p ∈ found, s.Finds t p := fun p hmem =>
    (mem_places_iff ht).1 (hfound.subset hmem)
  exact ((nodup_places ht).sublist hfound).map_on fun p hmem q hmem' =>
    pathOf_inj ht (hfinds p hmem) (hfinds q hmem') (hp p hmem) (hp q hmem')

/-- What a scan reports are the paths of files that it has found. -/
theorem exists_of_paths {paths : List String} (h : s.paths t = .ok paths) :
    ∃ found : List Place, found.Sublist (s.places t) ∧ paths = found.map pathOf :=
  ⟨s.kept t, kept_sublist, (paths_eq_ok.1 h).2⟩

/-- What a scanner is made of. -/
theorem ofTree_eq_ok {way : List String} {respect : Bool} : ofTree t way respect = .ok s ↔
    t.resolve way = .ok s.root ∧ Gitignore.Filter.ofTree t s.root = .ok s.filter ∧
      s.respectGitignore = respect := by
  unfold ofTree
  constructor
  · intro h
    split at h
    · cases h
    · rename_i root hroot
      split at h
      · cases h
      · rename_i filter hfilter
        obtain rfl := pure_eq_ok.1 h
        exact ⟨hroot, hfilter, rfl⟩
  · rintro ⟨hroot, hfilter, rfl⟩
    rw [hroot]
    dsimp only
    rw [hfilter]
    rfl

/-- Where ignored files are looked up: below the root. -/
theorem filter_root {way : List String} {respect : Bool}
    (h : ofTree t way respect = .ok s) : s.filter.root = s.root := by
  obtain ⟨bases, -, hfilter⟩ := bind_eq_ok.1 (ofTree_eq_ok.1 h).2.1
  rw [← pure_eq_ok.1 hfilter]

/-- Whether a file without backslashes is ignored can be told. -/
theorem isIgnored_of_plain {way : List String} {respect : Bool} (ht : t.Wellformed)
    (h : ofTree t way respect = .ok s) (hfinds : s.Finds t p) (hp : Plain p) :
    ∃ ignored, s.isIgnored t (pathOf p) = .ok ignored := by
  obtain ⟨bytes, hat⟩ := hfinds.file
  rw [isIgnored]
  split
  · have hresolve : t.resolve (s.root ++ p) = .ok (s.root ++ p) := Tree.resolve_of_file ht hat
    have hignores : s.filter.ignores t ⟨.relative, p⟩ =
        .ok (s.filter.ignoresPlace (s.root ++ p)) := by
      refine bind_eq_ok.2 ⟨s.root ++ p, ?_, rfl⟩
      rw [filter_root h]
      exact hresolve
    rw [ofString_pathOf hfinds.below (hfinds.names ht) hp, hignores]
    exact ⟨_, rfl⟩
  · exact ⟨_, rfl⟩

/-- A scan of files without backslashes ends. -/
theorem paths_total {way : List String} {respect : Bool} (ht : t.Wellformed)
    (h : ofTree t way respect = .ok s) (hp : ∀ p ∈ s.places t, Plain p) :
    ∃ paths, s.paths t = .ok paths :=
  ⟨_, paths_eq_ok.2 ⟨fun p hmem =>
    isIgnored_of_plain ht h ((mem_places_iff ht).1 hmem) (hp p hmem), rfl⟩⟩

end LangId.Scanner
