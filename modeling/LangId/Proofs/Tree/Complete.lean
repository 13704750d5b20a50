import LangId.Proofs.Tree.Listing

/-!
# What a scan reports

A scan comes to every file below its root that is not a link and has neither a link nor a directory
of version control above it (`Scanner.Finds`), and keeps those that are not ignored. It reports the
path of each of them once, and nothing else. Backslashes are rewritten in paths, so two files can have
the same one, and whether a file is ignored is asked for the place that its path names, which may
hold something else: a circle of links there ends the scan.

**Results.**
* `scan_complete`: what a scan reports, when it ends, and what does not matter for it.
* `path_reported_twice`: two files are reported with one path, and a third is not reported since a
  path leads round in a circle.
-/
namespace LangId.Scanner

open LangId.Tree (Place Plain SameContents pair)

variable {s : Scanner} {t : Tree} {way : List String} {respect : Bool}

/-- Without the ignore files a scan ends, with the paths of all files that it comes to. -/
theorem paths_all (s : Scanner) (t : Tree) :
    { s with respectGitignore := false }.paths t = .ok ((s.places t).map pathOf) := by
  have hkept : { s with respectGitignore := false }.kept t = s.places t :=
    List.filter_eq_self.2 fun _ _ => rfl
  exact paths_eq_ok.2 ⟨fun _ _ => ⟨false, rfl⟩, by rw [hkept]⟩

/-- **Completeness.** The files that a scan keeps are those below the root that are no links, with
neither links nor directories of version control above them, and whose paths are not ignored. If it
ends, which it does if it can be told of each file whether it is ignored, it reports the path of each
of them once and nothing else; no path comes twice unless two of the files share it. For files
without backslashes it can be told, and they share no paths. How directories are listed does not
matter. A scanner that does not respect the ignore files reports these paths among all others. -/
theorem scan_complete (ht : t.Wellformed) (h : ofTree t way respect = .ok s) :
    (∀ p, p ∈ s.kept t ↔ s.Finds t p ∧ s.isIgnored t (pathOf p) = .ok false) ∧
    (∀ paths, s.paths t = .ok paths ↔
      (∀ p, s.Finds t p → ∃ ignored, s.isIgnored t (pathOf p) = .ok ignored) ∧
        paths = (s.kept t).map pathOf) ∧
    (s.kept t).Nodup ∧
    (((s.kept t).map pathOf).Nodup ↔
      ∀ p ∈ s.kept t, ∀ q ∈ s.kept t, pathOf p = pathOf q → p = q) ∧
    (∀ p, s.Finds t p → Plain p → (∃ ignored, s.isIgnored t (pathOf p) = .ok ignored) ∧
      ∀ q, s.Finds t q → Plain q → pathOf p = pathOf q → p = q) ∧
    (∀ t', t'.Wellformed → SameContents t t' →
      ofTree t' way respect = .ok s ∧ s.paths t' = s.paths t) ∧
    ∃ all, ofTree t way false = .ok all ∧ ∃ paths, all.paths t = .ok paths ∧
      ((s.kept t).map pathOf).Sublist paths := by
  have hnodup : (s.kept t).Nodup := (nodup_places ht).sublist kept_sublist
  refine ⟨fun p => mem_kept ht, fun paths => ?_, hnodup, ?_, fun p hp hplain => ?_,
    fun t' ht' hsame => ?_, { s with respectGitignore := false }, ?_, _, paths_all s t, ?_⟩
  · simp only [paths_eq_ok, mem_places_iff ht]
  · exact List.nodup_map_iff_inj_on hnodup
  · refine ⟨isIgnored_of_plain ht h hp hplain, fun q hq hplain' heq => ?_⟩
    exact pathOf_inj ht hp hq hplain hplain' heq
  · rw [← ofTree_congr ht ht' hsame, paths_congr ht ht' hsame]
    exact ⟨h, rfl⟩
  · obtain ⟨hroot, hfilter, -⟩ := ofTree_eq_ok.1 h
    exact ofTree_eq_ok.2 ⟨hroot, hfilter, rfl⟩
  · exact kept_sublist.map pathOf

/-! ## Small trees -/

theorem pair_complete : ∃ s, ofTree (pair "a" "b" "x") [] true = .ok s ∧
    s.paths (pair "a" "b" "x") = .ok ["a", "b/x"] ∧ ["b", "x"] ∈ s.kept (pair "a" "b" "x") ∧
    s.paths (.directory [("b", .directory [("x", .file [121, 121])]), ("a", .file [120])]) =
      .ok ["a", "b/x"] := by
  obtain ⟨s, hs, hroot⟩ : ∃ s, ofTree (pair "a" "b" "x") [] true = .ok s ∧ s.root = [] :=
    ⟨_, rfl, rfl⟩
  have hplaces : s.places (pair "a" "b" "x") = [["a"], ["b", "x"]] :=
    places_pair hroot (by decide)
  have htree : (pair "a" "b" "x").Wellformed :=
    Tree.wellformed_pair (by decide) (by decide) (by decide) (by decide)
  have hfinds : s.Finds (pair "a" "b" "x") ["b", "x"] :=
    (mem_places_iff htree).1 (hplaces ▸ by decide)
  obtain ⟨hpaths, hignored⟩ : s.paths (pair "a" "b" "x") = .ok ["a", "b/x"] ∧
      s.isIgnored (pair "a" "b" "x") (pathOf ["b", "x"]) = .ok false := by
    obtain rfl := Except.ok.inj hs
    rw [paths_eq, hplaces]
    decide +kernel
  obtain ⟨hkept, -, -, -, -, hlisting, -⟩ := scan_complete htree hs
  have hperm := List.Perm.swap ("b", Tree.directory [("x", .file [121, 121])]) ("a", .file [120]) []
  obtain ⟨-, hrelisted⟩ := hlisting _ (htree.of_perm hperm) (Tree.sameContents_of_perm htree hperm)
  exact ⟨s, hs, hpaths, (hkept _).2 ⟨hfinds, hignored⟩, hrelisted.trans hpaths⟩

/-- A link that leads to itself, a file whose name begins like a way through it, and a file. -/
def roundabout : Tree :=
  .directory [("l", .link "l"), ("l\\x", .file []), ("m", .file [])]

theorem files_roundabout : roundabout.files = [["l\\x"], ["m"]] := by
  have hsorted : Text.sorted ["l\\x", "m"] = ["l\\x", "m"] := Text.sorted_of_pairwise (by decide)
  rw [roundabout, Tree.files, Tree.arranged]
  change (Text.sorted ["l\\x", "m"]).map _ ++ _ = _
  rw [hsorted]
  simp [Tree.filesBelow, Tree.byName]

theorem wellformed_roundabout : roundabout.Wellformed := by
  refine .directory (by decide) (by decide) ?_
  exact List.forall_mem_cons.2 ⟨.link _, List.forall_mem_cons.2 ⟨.file _,
    List.forall_mem_singleton.2 (.file _)⟩⟩

/-- **Counterexample.** A file whose name is `a`, a backslash and `b` is reported with the path of the
file `a/b`, which comes twice. A file whose name is `l`, a backslash and `x` has a path through the
link `l`, which leads to itself: the scan fails, and the file `m` is not reported. -/
theorem path_reported_twice : (∃ s, ofTree (pair "a\\b" "a" "b") [] true = .ok s ∧
      (pair "a\\b" "a" "b").Wellformed ∧ s.Finds (pair "a\\b" "a" "b") ["a\\b"] ∧
      s.Finds (pair "a\\b" "a" "b") ["a", "b"] ∧
      s.isIgnored (pair "a\\b" "a" "b") "a/b" = .ok false ∧
      s.paths (pair "a\\b" "a" "b") = .ok ["a/b", "a/b"]) ∧
    ∃ s, ofTree roundabout [] true = .ok s ∧ roundabout.Wellformed ∧ s.Finds roundabout ["m"] ∧
      s.isIgnored roundabout "m" = .ok false ∧ s.paths roundabout = .error .tooManyLinks := by
  constructor
  · obtain ⟨s, hs, hroot⟩ : ∃ s, ofTree (pair "a\\b" "a" "b") [] true = .ok s ∧ s.root = [] :=
      ⟨_, rfl, rfl⟩
    have hplaces : s.places (pair "a\\b" "a" "b") = [["a\\b"], ["a", "b"]] :=
      places_pair hroot (by decide)
    have htree : (pair "a\\b" "a" "b").Wellformed :=
      Tree.wellformed_pair (by decide) (by decide) (by decide) (by decide)
    refine ⟨s, hs, htree, (mem_places_iff htree).1 (hplaces ▸ by decide),
      (mem_places_iff htree).1 (hplaces ▸ by decide), ?_⟩
    obtain rfl := Except.ok.inj hs
    rw [paths_eq, hplaces]
    decide +kernel
  · obtain ⟨s, hs, hroot⟩ : ∃ s, ofTree roundabout [] true = .ok s ∧ s.root = [] := ⟨_, rfl, rfl⟩
    have hplaces : s.places roundabout = [["l\\x"], ["m"]] := by
      rw [places, hroot]
      exact files_roundabout
    refine ⟨s, hs, wellformed_roundabout,
      (mem_places_iff wellformed_roundabout).1 (hplaces ▸ by decide), ?_⟩
    obtain rfl := Except.ok.inj hs
    rw [paths_eq, hplaces]
    decide +kernel

end LangId.Scanner
