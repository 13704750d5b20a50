import LangId.Proofs.CommandLine.Statistics
import LangId.Proofs.Tree.Scanning

/-!
# Statistics on what has been scanned

The files of a directory are scanned first and read afterwards, by the paths that the scan has
reported. If these paths come from names without backslashes, none of them is missed: every report
counts every scanned file once, and none is unreadable.

**Results.**
* `scan_reads_back`: from a scan to the contents of the files, and to the reports.
* `backslash_misread`: one name with a backslash is enough for two files with one path, of which only
  one is read.
-/
namespace LangId.CommandLine

open LangId.Tree (Place Plain ValidName)
open Scanner (pathOf places)

variable {s : Surroundings} {i : Identifier} {directory : String} {r : Report} {scanner : Scanner}

/-- The contents of the files that have been scanned. -/
def contentOf (s : Surroundings) (i : Identifier) (scanner : Scanner) : Provider :=
  Provider.ofTree s.tree ⟨.absolute, scanner.root⟩ i.settings.sampling.maxBytes

/-- What the scan of a directory has found, in a tree that is well-formed. -/
structure Scanned (s : Surroundings) (i : Identifier) (directory : String) (scanner : Scanner)
    (found : List Place) : Prop where
  wellformed : s.tree.Wellformed
  ofTree : Scanner.ofTree s.tree (s.way (Path.ofString directory))
    i.settings.filter.respectGitignore = .ok scanner
  sublist : found.Sublist (scanner.places s.tree)
  paths : scanner.paths s.tree = .ok (found.map pathOf)

variable {found : List Place}

theorem canonical_of_mem {path : String} (h : path ∈ found.map pathOf) :
    Path.canonical path = path := by
  obtain ⟨p, -, rfl⟩ := List.mem_map.1 h
  exact Path.canonical_canonical _

theorem Scanned.reads (h : Scanned s i directory scanner found) (hp : ∀ p ∈ found, Plain p) :
    ∀ path ∈ found.map pathOf, (contentOf s i scanner).reads path = true := by
  intro path hpath
  obtain ⟨p, hmem, rfl⟩ := List.mem_map.1 hpath
  have hplace := h.sublist.subset hmem
  obtain ⟨-, -, bytes, hat⟩ := Scanner.file_of_mem_places h.wellformed hplace
  rw [Provider.reads, contentOf, Scanner.read_pathOf h.wellformed hplace (hp p hmem) hat]
  rfl

/-- A report on files without backslashes lacks none of them. -/
theorem Scanned.report (h : Scanned s i directory scanner found) (hp : ∀ p ∈ found, Plain p)
    (hr : s.report i directory = .ok r) :
    r.unreadable = [] ∧
      r.ofLanguages.files + r.unknown.files + r.excluded.files = found.length := by
  obtain ⟨scanner', paths, hscanner, hpaths, hr⟩ := report_eq_ok.1 hr
  obtain rfl := Except.ok.inj (h.ofTree.symm.trans hscanner)
  obtain rfl := Except.ok.inj (h.paths.symm.trans hpaths)
  have haccounts : i.Accounts (contentOf s i scanner) ((found.map pathOf).map Path.canonical) r :=
    Identifier.accounts_of_analyze hr
  have hsame : (found.map pathOf).map Path.canonical = found.map pathOf := by
    calc (found.map pathOf).map Path.canonical = (found.map pathOf).map id :=
          List.map_congr_left fun path hpath => canonical_of_mem hpath
      _ = found.map pathOf := List.map_id _
  rw [hsame] at haccounts
  have hall : r.unreadable = [] := by
    rw [haccounts.unreadable, List.filter_eq_nil_iff]
    intro path hpath
    rw [h.reads hp path hpath]
    nofun
  have hfiles := haccounts.files
  rw [hall, List.length_nil, List.length_map] at hfiles
  exact ⟨hall, hfiles⟩

/-- There is such a report, unless an identification fails. -/
theorem Scanned.report_total (h : Scanned s i directory scanner found)
    (hp : ∀ p ∈ found, Plain p)
    (hid : ∀ path ∈ found.map pathOf, i.Identifies (contentOf s i scanner) path) :
    ∃ r, s.report i directory = .ok r := by
  have hanalyze : ∃ r, i.analyze (found.map pathOf) (contentOf s i scanner) = .ok r := by
    refine Identifier.analyze_of_reads (fun path hpath => ?_) fun path hpath => ?_
    · rw [canonical_of_mem hpath]
      exact h.reads hp path hpath
    · rw [canonical_of_mem hpath]
      exact hid path hpath
  obtain ⟨r, hr⟩ := hanalyze
  exact ⟨r, report_eq_ok.2 ⟨scanner, _, h.ofTree, h.paths, hr⟩⟩

/-- **Reading back.** The path of a file that a scan finds names the place of the file exactly if no
name on the way has a backslash, and is then read as this file. A scan of such files ends, and the
paths that any scan reports are those of files that it finds, each found once. If those files are
without backslashes their paths are distinct, no report has unreadable files, and each of them is
counted once; there is a report unless an identification fails. -/
theorem scan_reads_back {t : Tree} (ht : t.Wellformed) {way : List String} {respect : Bool}
    (h : Scanner.ofTree t way respect = .ok scanner) :
    (∀ p ∈ scanner.places t, ∃ bytes, t.at? (scanner.root ++ p) = some (.file bytes) ∧
      ((Path.ofString (pathOf p)).parts = p ↔ Plain p) ∧
      (Plain p → ∀ bound, Provider.ofTree t ⟨.absolute, scanner.root⟩ bound (pathOf p) =
        .ok ⟨bytes.take bound, bytes.length⟩)) ∧
    ((∀ p ∈ scanner.places t, Plain p) → ∃ paths, scanner.paths t = .ok paths) ∧
    ∀ paths, scanner.paths t = .ok paths → ∃ found : List Place,
      found.Sublist (scanner.places t) ∧ found.Nodup ∧ paths = found.map pathOf ∧
      ((∀ p ∈ found, Plain p) → paths.Nodup ∧
        ∀ (s : Surroundings) (i : Identifier) (directory : String), s.tree = t →
          s.way (Path.ofString directory) = way →
          i.settings.filter.respectGitignore = respect →
          (∀ r, s.report i directory = .ok r → r.unreadable = [] ∧
            r.ofLanguages.files + r.unknown.files + r.excluded.files = paths.length) ∧
          ((∀ path ∈ paths, i.Identifies (contentOf s i scanner) path) →
            ∃ r, s.report i directory = .ok r)) := by
  refine ⟨fun p hmem => ?_, Scanner.paths_total ht h, fun paths hpaths => ?_⟩
  · obtain ⟨hne, hnames, bytes, hat⟩ := Scanner.file_of_mem_places ht hmem
    exact ⟨bytes, hat, Scanner.parts_pathOf_iff hne hnames, fun hp =>
      Scanner.read_pathOf ht hmem hp hat⟩
  · obtain ⟨found, hfound, rfl⟩ := Scanner.exists_of_paths hpaths
    refine ⟨found, hfound, (Scanner.nodup_places ht).sublist hfound, rfl, fun hp => ?_⟩
    refine ⟨Scanner.nodup_map_pathOf ht hfound hp, ?_⟩
    rintro s i directory rfl rfl rfl
    have hscanned : Scanned s i directory scanner found := ⟨ht, h, hfound, hpaths⟩
    rw [List.length_map]
    exact ⟨fun r hr => hscanned.report hp hr, hscanned.report_total hp⟩

/-! ## Two files -/

/-- A file next to a directory with another file, `a/b`. -/
def beside (name : String) : Surroundings where
  tree := .directory [(name, .file [120]), ("a", .directory [("b", .file [121, 121])])]
  here := ⟨.absolute, []⟩
  home := ⟨.absolute, []⟩
  environment := []

variable {name : String}

theorem wellformed_beside (hname : ValidName name) (hne : name ≠ "a") :
    (beside name).tree.Wellformed :=
  Tree.wellformed_pair hne hname (by decide) (by decide)

theorem places_beside (hroot : scanner.root = []) :
    scanner.places (beside name).tree = [[name], ["a", "b"]] :=
  Scanner.places_pair hroot (by decide)

theorem two_files_read_back : ∃ scanner,
    Scanner.ofTree (beside "x").tree [] true = .ok scanner ∧
    scanner.paths (beside "x").tree = .ok ["x", "a/b"] ∧
    (∀ p ∈ scanner.places (beside "x").tree, Plain p) ∧
    Provider.ofTree (beside "x").tree ⟨.absolute, scanner.root⟩ 1 "a/b" = .ok ⟨[121], 2⟩ ∧
    ∀ kb r, (beside "x").report (.plain kb) "." = .ok r → r.unreadable = [] := by
  obtain ⟨scanner, hscanner, hroot⟩ : ∃ scanner,
      Scanner.ofTree (beside "x").tree [] true = .ok scanner ∧ scanner.root = [] := ⟨_, rfl, rfl⟩
  have hplaces : scanner.places (beside "x").tree = [["x"], ["a", "b"]] := places_beside hroot
  have hplain : ∀ p ∈ scanner.places (beside "x").tree, Plain p := by
    rw [hplaces]
    decide
  obtain ⟨hread, hends, hscan⟩ :=
    scan_reads_back (wellformed_beside (by decide) (by decide)) hscanner
  have hpaths : scanner.paths (beside "x").tree = .ok ["x", "a/b"] := by
    obtain rfl := Except.ok.inj hscanner
    rw [Scanner.paths_eq, hplaces]
    decide +kernel
  obtain ⟨found, hfound, -, -, hreports⟩ := hscan _ hpaths
  obtain ⟨-, hreports⟩ := hreports fun p hp => hplain p (hfound.subset hp)
  refine ⟨scanner, hscanner, hpaths, hplain, ?_, fun kb r hr => ?_⟩
  · have hmem : ["a", "b"] ∈ scanner.places (beside "x").tree := by
      rw [hplaces]
      decide
    obtain ⟨bytes, hat, -, hcontent⟩ := hread ["a", "b"] hmem
    rw [hroot] at hat
    obtain rfl : [121, 121] = bytes := Tree.file.inj (Option.some.inj hat)
    exact hcontent (hplain _ hmem) 1
  · exact ((hreports (beside "x") (.plain kb) "." rfl rfl rfl).1 r hr).1

/-- **Counterexample.** A file whose name is `a`, a backslash and `b` has the path of the other file,
which is read twice in its place. -/
theorem backslash_misread : ∃ scanner,
    Scanner.ofTree (beside "a\\b").tree [] true = .ok scanner ∧
    (beside "a\\b").tree.Wellformed ∧
    scanner.places (beside "a\\b").tree = [["a\\b"], ["a", "b"]] ∧
    scanner.paths (beside "a\\b").tree = .ok ["a/b", "a/b"] ∧
    (beside "a\\b").tree.at? ["a\\b"] = some (.file [120]) ∧
    Provider.ofTree (beside "a\\b").tree ⟨.absolute, scanner.root⟩ 10 (pathOf ["a\\b"]) =
      .ok ⟨[121, 121], 2⟩ := by
  obtain ⟨scanner, hscanner, hroot⟩ : ∃ scanner,
      Scanner.ofTree (beside "a\\b").tree [] true = .ok scanner ∧ scanner.root = [] :=
    ⟨_, rfl, rfl⟩
  have hplaces : scanner.places (beside "a\\b").tree = [["a\\b"], ["a", "b"]] :=
    places_beside hroot
  refine ⟨scanner, hscanner, wellformed_beside (by decide) (by decide), hplaces, ?_, rfl, ?_⟩
  · obtain rfl := Except.ok.inj hscanner
    rw [Scanner.paths_eq, hplaces]
    decide +kernel
  · rw [hroot]
    rfl

end LangId.CommandLine
