import LangId.CommandLine.Run
import LangId.Proofs.Cascade.Evidence
import LangId.Proofs.Report.Analysis
import LangId.Proofs.Report.Shares

/-!
# Showing statistics

A report is shown with one row for each of its languages, for which the share of the language is
looked up by its name. The lookup fails on a report that has languages but no shares.

**Results.**
* `languageLines_eq`: where every name has its share, there is a row for each language.
* `reportResult_exit`: a report is shown in full exactly if it has no languages or its bytes can be
  divided among them.
* `stats_rows`: the same of the files below a directory, whose sizes are never negative.
* `empty_file_breaks_off`: one empty file of a known language is enough for the command to break
  off.
-/
namespace LangId.CommandLine

/-! ## Rows -/

/-- The row of a language, with its share in a total. -/
def row (total : Int) (e : String × Totals) : Except ScoreError String :=
  (Report.share e.2.bytes total).map fun share => languageLine e.1 share e.2

/-- Where every entry finds its share, every entry has its row. -/
theorem languageLines_eq {shares : List (String × Float)} {total : Int}
    {entries : List (String × Totals)}
    (h : ∀ e ∈ entries, ∃ x, Report.share e.2.bytes total = .ok x ∧ shares.lookup e.1 = some x) :
    ∃ rows, entries.mapM (row total) = .ok rows ∧ languageLines shares entries = (rows, none) := by
  induction entries with
  | nil => exact ⟨[], rfl, rfl⟩
  | cons e rest ih =>
    obtain ⟨⟨x, hx, hlookup⟩, hrest⟩ := List.forall_mem_cons.1 h
    obtain ⟨rows, hrows, hlines⟩ := ih hrest
    refine ⟨languageLine e.1 x e.2 :: rows, mapM_cons_eq_ok.2 ?_, ?_⟩
    · exact ⟨_, rows, map_eq_ok.2 ⟨x, hx, rfl⟩, hrows, rfl⟩
    · obtain ⟨name, t⟩ := e
      rw [languageLines, hlookup, hlines]

/-- Without shares the first language is looked up in vain. -/
theorem languageLines_nil {e : String × Totals} {rest : List (String × Totals)} :
    languageLines [] (e :: rest) = ([], some e.1) := by
  rw [languageLines, List.lookup_nil]

/-! ## Reports -/

variable {r : Report}

/-- What is shown beside the languages. -/
def besides (r : Report) (files : Bool) : List String :=
  remainderLines r ++ if files then fileLines r else []

/-- The lines of a report of which every language has its row. -/
def shown (r : Report) (rows : List String) (files : Bool) : List String :=
  (if r.languages.isEmpty then ["No languages detected."] else languageHeading ++ rows) ++
    besides r files

theorem reportResult_of_nil (h : r.languages = []) (files : Bool) :
    reportResult r files = { lines := shown r [] files } := by
  unfold reportResult shown besides
  rw [h]
  rfl

/-- A report whose bytes can be divided is shown with all its rows. -/
theorem reportResult_of_divisible (hw : r.Wellformed) (hne : r.languages ≠ []) (h : r.Divisible)
    (files : Bool) : ∃ rows, r.ranked.mapM (row r.totalBytes) = .ok rows ∧
      reportResult r files = { lines := shown r rows files } := by
  have hnodup : (r.ranked.map (·.1)).Nodup :=
    ((List.mergeSort_perm _ _).map _).nodup_iff.2 hw.nodup
  obtain ⟨shares, hs, hm⟩ := Report.shares_of_divisible h
  obtain ⟨rows, hrows, hlines⟩ :=
    languageLines_eq fun e he => Report.lookup_of_mapM hnodup hm he
  have hempty : r.languages.isEmpty = false := by simpa using hne
  refine ⟨rows, hrows, ?_⟩
  unfold reportResult shown besides
  simp only [hempty, hs, hlines, Bool.false_eq_true, if_false, List.append_assoc]

/-- A report without bytes for its languages breaks off at the first of them. -/
theorem reportResult_of_zero (hne : r.languages ≠ []) (h : r.totalBytes = 0) (files : Bool) :
    ∃ e ∈ r.languages, reportResult r files =
      { exit := 1, lines := languageHeading, crash := some (.noShare e.1) } := by
  have hempty : r.languages.isEmpty = false := by simpa using hne
  cases hranked : r.ranked with
  | nil => exact absurd (Report.ranked_eq_nil.1 hranked) hne
  | cons e rest =>
    refine ⟨e, Report.mem_ranked.1 (by rw [hranked]; exact List.mem_cons_self), ?_⟩
    unfold reportResult
    simp only [hempty, Report.shares_of_zero h, hranked, languageLines_nil, Bool.false_eq_true,
      if_false, List.append_nil]

theorem reportResult_exit (hw : r.Wellformed) (files : Bool) :
    (reportResult r files).exit = 0 ↔ r.languages = [] ∨ r.Divisible := by
  by_cases hne : r.languages = []
  · simp only [reportResult_of_nil hne, hne, true_or]
  constructor
  · intro h
    right
    by_cases h0 : r.totalBytes = 0
    · obtain ⟨e, -, he⟩ := reportResult_of_zero hne h0 files
      rw [he] at h
      cases h
    · cases hs : r.shares with
      | ok shares => exact Report.divisible_of_shares hne h0 hs
      | error e =>
        have hempty : r.languages.isEmpty = false := by simpa using hne
        unfold reportResult at h
        simp only [hempty, hs, Bool.false_eq_true, if_false] at h
        cases h
  · rintro (hnil | hd)
    · exact absurd hnil hne
    · obtain ⟨rows, -, hr⟩ := reportResult_of_divisible hw hne hd files
      rw [hr]

/-! ## Directories -/

variable {s : Surroundings} {i : Identifier} {directory : String}

theorem ofTree_nonneg {t : Tree} {root : Path} {bound : Nat} {path : String} {content : Content}
    (h : Provider.ofTree t root bound path = .ok content) : 0 ≤ content.size := by
  unfold Provider.ofTree at h
  dsimp only at h
  split at h
  · obtain rfl := Except.ok.inj h
    exact Int.natCast_nonneg _
  · cases h

/-- A report is made if the directory can be scanned and its files can be analyzed. -/
theorem report_eq_ok : s.report i directory = .ok r ↔ ∃ scanner paths,
    Scanner.ofTree s.tree (s.way (Path.ofString directory)) i.settings.filter.respectGitignore =
      .ok scanner ∧
    scanner.paths s.tree = .ok paths ∧
    i.analyze paths (Provider.ofTree s.tree ⟨.absolute, scanner.root⟩
      i.settings.sampling.maxBytes) = .ok r := by
  simp only [Surroundings.report, bind_eq_ok, mapError_eq_ok, exists_and_left]
  refine exists_congr fun scanner => and_congr_right fun _ =>
    exists_congr fun paths => and_congr_right fun _ => ?_
  cases i.analyze paths (Provider.ofTree s.tree ⟨.absolute, scanner.root⟩
      i.settings.sampling.maxBytes) with
  | ok r' =>
    constructor
    · exact fun h => congrArg Except.ok (pure_eq_ok.1 h)
    · exact fun h => congrArg Except.ok (Except.ok.inj h)
  | error e => cases e <;> exact ⟨nofun, nofun⟩

/-- A report can be made if the directory can be scanned, unreadable files are no error and
identification does not fail. -/
theorem report_total {scanner : Scanner} {paths : List String}
    (hscanner : Scanner.ofTree s.tree (s.way (Path.ofString directory))
      i.settings.filter.respectGitignore = .ok scanner)
    (hpaths : scanner.paths s.tree = .ok paths)
    (hs : i.settings.analysis.failOnUnreadable = false)
    (hid : ∀ p ∈ paths, i.Identifies (Provider.ofTree s.tree ⟨.absolute, scanner.root⟩
      i.settings.sampling.maxBytes) (Path.canonical p)) :
    ∃ r, s.report i directory = .ok r := by
  obtain ⟨r, hr, -⟩ := Identifier.analyze_total hs paths hid
  exact ⟨r, report_eq_ok.2 ⟨scanner, paths, hscanner, hpaths, hr⟩⟩

theorem report_sound (h : s.report i directory = .ok r) :
    r.Wellformed ∧ ∀ e ∈ r.languages, 0 ≤ e.2.bytes := by
  obtain ⟨scanner, paths, -, -, hr⟩ := report_eq_ok.1 h
  exact Identifier.analyze_sound hr fun _ _ => ofTree_nonneg

/-- Whether all languages of a report on the files of a tree can be shown with their shares: there
are none, or there are bytes to divide and not too many. -/
def Showable (r : Report) : Prop :=
  r.languages = [] ∨ 0 < r.totalBytes ∧ r.totalBytes < doubleLimit

theorem stats_of_report (h : s.report i directory = .ok r) (files : Bool) :
    s.stats i directory false files = reportResult r files := by
  rw [Surroundings.stats, h]
  rfl

/-- A report on the files of a tree is shown in full exactly if it is showable. -/
theorem stats_exit (h : s.report i directory = .ok r) (files : Bool) :
    (s.stats i directory false files).exit = 0 ↔ Showable r := by
  obtain ⟨hw, hn⟩ := report_sound h
  rw [stats_of_report h, reportResult_exit hw, Report.divisible_iff hn, Showable]

theorem stats_of_showable (h : s.report i directory = .ok r) (hshow : Showable r) (files : Bool) :
    ∃ rows, r.ranked.mapM (row r.totalBytes) = .ok rows ∧
      s.stats i directory false files = { lines := shown r rows files } := by
  obtain ⟨hw, hn⟩ := report_sound h
  rw [stats_of_report h]
  by_cases hne : r.languages = []
  · refine ⟨[], ?_, reportResult_of_nil hne files⟩
    rw [Report.ranked_eq_nil.2 hne]
    rfl
  · have hd : r.Divisible := (Report.divisible_iff hn).2 (hshow.resolve_left hne)
    exact reportResult_of_divisible hw hne hd files

theorem length_of_rows {rows : List String} (h : r.ranked.mapM (row r.totalBytes) = .ok rows) :
    rows.length = r.languages.length := by
  have hunits := map_of_mapM (g := fun _ => ()) (k := fun _ => ()) (fun _ _ _ => rfl) h
  have hlen := congrArg List.length hunits
  rw [List.length_map, List.length_map] at hlen
  rw [hlen, Report.ranked, List.length_mergeSort]

/-- **Statistics.** The shares of a report have the names of its languages exactly if it has no
languages or its bytes can be divided among them. For the files below a directory that means: the
command ends well exactly if there is a report, and it has no languages, or it has bytes and not too
many. Then it shows one row for each language, and nothing else is written. There is a report if the
directory can be scanned, unreadable files are no error and identification does not fail. -/
theorem stats_rows (s : Surroundings) (i : Identifier) (directory : String) (files : Bool) :
    (∀ r : Report, (∃ shares, r.shares = .ok shares ∧ shares.map (·.1) = r.ranked.map (·.1)) ↔
      r.languages = [] ∨ r.Divisible) ∧
    ((s.stats i directory false files).exit = 0 ↔
      ∃ r, s.report i directory = .ok r ∧ Showable r) ∧
    (∀ r, s.report i directory = .ok r → Showable r →
      ∃ rows, r.ranked.mapM (row r.totalBytes) = .ok rows ∧ rows.length = r.languages.length ∧
        s.stats i directory false files = { lines := shown r rows files }) ∧
    ∀ scanner paths, Scanner.ofTree s.tree (s.way (Path.ofString directory))
        i.settings.filter.respectGitignore = .ok scanner →
      scanner.paths s.tree = .ok paths →
      i.settings.analysis.failOnUnreadable = false →
      (∀ p ∈ paths, i.Identifies (Provider.ofTree s.tree ⟨.absolute, scanner.root⟩
        i.settings.sampling.maxBytes) (Path.canonical p)) →
      ∃ r, s.report i directory = .ok r := by
  refine ⟨Report.shares_names, ?_, fun r h hshow => ?_, fun _ _ => report_total⟩
  · cases h : s.report i directory with
    | ok r =>
      rw [stats_exit h]
      simp
    | error c =>
      have hstats : s.stats i directory false files = { exit := 1, crash := some c } := by
        rw [Surroundings.stats, h]
      rw [hstats]
      simp
  · obtain ⟨rows, hrows, hstats⟩ := stats_of_showable h hshow files
    exact ⟨rows, hrows, length_of_rows hrows, hstats⟩

/-! ## One empty file -/

/-- A directory with one empty file. -/
def oneEmptyFile : Surroundings where
  tree := .directory [("a", .file [])]
  here := ⟨.absolute, []⟩
  home := ⟨.absolute, []⟩
  environment := []

theorem oneEmptyFile_files : oneEmptyFile.tree.files = [["a"]] := by
  simp only [oneEmptyFile, Tree.files, Tree.fileNames, Tree.filesBelow, Tree.arranged, Text.sorted,
    Tree.byName, List.filterMap_cons, List.filterMap_nil, List.mergeSort_singleton,
    List.mergeSort_nil, List.flatMap_nil]
  rfl

theorem oneEmptyFile_scanned : ∃ scanner,
    Scanner.ofTree oneEmptyFile.tree (oneEmptyFile.way (Path.ofString ".")) true = .ok scanner ∧
    scanner.root = [] ∧ scanner.paths oneEmptyFile.tree = .ok ["a"] := by
  refine ⟨_, rfl, rfl, ?_⟩
  unfold Scanner.paths
  change (oneEmptyFile.tree.files.map Scanner.pathOf).filterM _ = _
  rw [oneEmptyFile_files]
  rfl

open KnowledgeBase in
/-- The report on the directory: a language without bytes. -/
theorem oneEmptyFile_report {kb : KnowledgeBase} (h : make [lone] [] [] [] = .ok kb) :
    oneEmptyFile.report (.plain kb) "." = .ok { languages := [("A", ⟨0, 1⟩)] } := by
  obtain ⟨scanner, hscanner, hroot, hpaths⟩ := oneEmptyFile_scanned
  refine report_eq_ok.2 ⟨scanner, ["a"], hscanner, hpaths, ?_⟩
  rw [hroot]
  have heval : (Identifier.plain kb).evaluate "a"
      (Provider.ofTree oneEmptyFile.tree ⟨.absolute, []⟩ 51200) =
      .ok { path := "a", result := some ⟨"a", .language "A" (.stage .filename)⟩ } := by
    change (kb.identify _ loneFile).map _ = _
    rw [loneFile_identified h]
    rfl
  have hadd : (Identifier.plain kb).add (Provider.ofTree oneEmptyFile.tree ⟨.absolute, []⟩ 51200)
      {} "a" = .ok { languages := [("A", ⟨0, 1⟩)] } := by
    rw [Identifier.add_of_evaluate heval]
    rfl
  exact bind_eq_ok.2 ⟨_, hadd, rfl⟩

open KnowledgeBase in
/-- **Counterexample.** The report on the directory has a language, but no shares, and the command
breaks off before its first row. -/
theorem empty_file_breaks_off : ∃ kb r, make [lone] [] [] [] = .ok kb ∧
    oneEmptyFile.report (.plain kb) "." = .ok r ∧
    r.ranked.map (·.1) = ["A"] ∧ r.shares = .ok [] ∧
    (oneEmptyFile.stats (.plain kb) "." false false).exit = 1 ∧
    (oneEmptyFile.stats (.plain kb) "." false false).lines = languageHeading := by
  obtain ⟨kb, hkb⟩ : ∃ kb, make [lone] [] [] [] = .ok kb := ⟨_, rfl⟩
  have hr := oneEmptyFile_report hkb
  have hzero := reportResult_of_zero (r := { languages := [("A", ⟨0, 1⟩)] }) nofun rfl false
  obtain ⟨e, -, hbreak⟩ := hzero
  refine ⟨kb, _, hkb, hr, ?_, Report.shares_of_zero rfl, ?_⟩
  · rw [Report.ranked, List.mergeSort_singleton]
    rfl
  · rw [stats_of_report hr, hbreak]
    exact ⟨rfl, rfl⟩

end LangId.CommandLine
