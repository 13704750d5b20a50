import LangId.Proofs.Report.Unreadable

/-!
# Options of a report

Whether files that are kept out are identified all the same, whether a report tells every file, and
how many workers there are, is a matter of how a report is made (`ReportOptions`). Nothing that it
counts depends on it: a file goes to the same bucket under all options (`countsAs_reporting`), since a
result of a file that is kept out is not looked at.

**Results.**
* `sameCounts_analyze`: two reports on the same paths count the same.
* `options_immaterial`: this, for the errors as well, and what is told about files.
-/
namespace LangId

/-- How a report is made. -/
structure ReportOptions where
  identifyExcluded : Bool
  includeFiles : Bool
  maxWorkers : Nat

/-- Two outcomes of a file that are counted in the same way. -/
structure Outcome.CountsAs (o o' : Outcome) : Prop where
  path : o.path = o'.path
  size : o.size = o'.size
  bucket : o.bucket = o'.bucket

namespace Report

/-- Two reports that count the same, in whatever detail they tell it. -/
structure SameCounts (r s : Report) : Prop where
  languages : r.languages = s.languages
  unknown : r.unknown = s.unknown
  excluded : r.excluded = s.excluded
  unreadable : r.unreadable = s.unreadable

variable {r r' s s' : Report} {o o' : Outcome} {settings settings' : AnalysisSettings}

theorem sameCounts_counting (h : r.SameCounts s) (ho : o.CountsAs o') :
    (r.counting o).SameCounts (s.counting o') := by
  obtain ⟨hlanguages, hunknown, hexcluded, hunreadable⟩ := h
  unfold counting
  rw [← ho.bucket, ← ho.size, ← ho.path]
  split
  · exact ⟨by rw [addLanguage, addLanguage, hlanguages], hunknown, hexcluded, hunreadable⟩
  · exact ⟨hlanguages, by rw [hunknown], hexcluded, hunreadable⟩
  · exact ⟨hlanguages, hunknown, by rw [hexcluded], hunreadable⟩
  · exact ⟨hlanguages, hunknown, hexcluded, by rw [hunreadable]⟩

theorem sameCounts_merge (h : r.SameCounts s) (ho : o.CountsAs o')
    (hr : r.merge settings o = .ok r') (hs : s.merge settings' o' = .ok s') :
    r'.SameCounts s' := by
  obtain ⟨-, rfl⟩ := merge_eq_ok.1 hr
  obtain ⟨-, rfl⟩ := merge_eq_ok.1 hs
  obtain ⟨hlanguages, hunknown, hexcluded, hunreadable⟩ := sameCounts_counting h ho
  exact ⟨hlanguages, hunknown, hexcluded, hunreadable⟩

end Report

namespace Identifier

/-- An identifier that makes reports in another way. -/
def reporting (i : Identifier) (a : ReportOptions) : Identifier :=
  { i with
    settings.analysis.identifyExcluded := a.identifyExcluded
    settings.analysis.includeFiles := a.includeFiles
    settings.analysis.maxWorkers := a.maxWorkers }

variable {i : Identifier} {provider : Provider} {path : String} {paths : List String}
  {a b : ReportOptions} {r s : Report}

/-! ## One file -/

/-- What is told about a file that is not kept out is told under all options. -/
theorem outcome_reporting (h : i.filter.excludedAs path = none) :
    (i.reporting a).outcome provider path = (i.reporting b).outcome provider path := by
  have hfilter (c : ReportOptions) : (i.reporting c).filter.excludedAs path = none := h
  unfold outcome
  cases provider path with
  | error u => rfl
  | ok content =>
    simp only [hfilter, Option.isSome_none, Bool.false_and]
    rfl

/-- A file that could be read, and is kept out, is counted as that, whatever its result. -/
theorem outcome_of_excluded {content : Content} {kind : ExclusionKind}
    (hread : provider path = .ok content) (h : i.filter.excludedAs path = some kind) :
    (i.outcome provider path).size = content.size ∧
      (i.outcome provider path).excludedAs = some kind ∧
      (i.outcome provider path).bucket = .excluded := by
  unfold outcome
  rw [hread]
  dsimp only
  rw [h]
  exact ⟨rfl, rfl, rfl⟩

theorem countsAs_reporting (a b : ReportOptions) (path : String) :
    ((i.reporting a).outcome provider path).CountsAs ((i.reporting b).outcome provider path) := by
  cases hexcluded : i.filter.excludedAs path with
  | none =>
    rw [outcome_reporting hexcluded (b := b)]
    exact ⟨rfl, rfl, rfl⟩
  | some kind =>
    cases hread : provider path with
    | error u =>
      unfold outcome
      rw [hread]
      exact ⟨rfl, rfl, rfl⟩
    | ok content =>
      obtain ⟨hsize, -, hbucket⟩ := outcome_of_excluded (i := i.reporting a) hread hexcluded
      obtain ⟨hsize', -, hbucket'⟩ := outcome_of_excluded (i := i.reporting b) hread hexcluded
      exact ⟨outcome_path.trans outcome_path.symm, hsize.trans hsize'.symm,
        hbucket.trans hbucket'.symm⟩

theorem excludedAs_outcome (h : provider.reads path = true) :
    (i.outcome provider path).excludedAs = i.filter.excludedAs path := by
  unfold outcome
  cases hread : provider path with
  | error u => exact absurd hread (Provider.reads_eq_true.1 h u)
  | ok content => rfl

/-! ## All files -/

/-- Two reports on the same paths count the same. -/
theorem sameCounts_analyze (hr : (i.reporting a).analyze paths provider = .ok r)
    (hs : (i.reporting b).analyze paths provider = .ok s) : r.SameCounts s := by
  have hr := (foldlM_add_eq_ok hr).2
  have hs := (foldlM_add_eq_ok hs).2
  rw [List.foldlM_map] at hr hs
  refine foldlM_related (R := Report.SameCounts) (fun p _ _ _ _ _ hrel hm hm' => ?_) hr hs
    ⟨rfl, rfl, rfl, rfl⟩
  exact Report.sameCounts_merge hrel (countsAs_reporting a b p) hm hm'

/-- Of the files that are told about, those that are not kept out. -/
theorem included_of_accounts (h : i.Accounts provider paths r) :
    r.files.filter (·.excludedAs.isNone) = if i.settings.analysis.includeFiles then
      (paths.filter fun p => provider.reads p && (i.filter.excludedAs p).isNone).map fun p =>
        (i.outcome provider p).report
    else [] := by
  rw [h.entries]
  split
  · rw [List.filter_map, List.filter_filter]
    congr 1
    refine List.filter_congr fun p _ => ?_
    cases hread : provider.reads p with
    | false => simp
    | true => simp [Outcome.report, excludedAs_outcome hread]
  · rfl

theorem included_analyze (hfiles : a.includeFiles = b.includeFiles)
    (hr : (i.reporting a).analyze paths provider = .ok r)
    (hs : (i.reporting b).analyze paths provider = .ok s) :
    r.files.filter (·.excludedAs.isNone) = s.files.filter (·.excludedAs.isNone) := by
  rw [included_of_accounts (accounts_of_analyze hr), included_of_accounts (accounts_of_analyze hs)]
  have hsame : (i.reporting a).settings.analysis.includeFiles =
    (i.reporting b).settings.analysis.includeFiles := hfiles
  rw [hsame]
  congr 1
  refine List.map_congr_left fun p hp => ?_
  obtain ⟨-, hkept⟩ := List.mem_filter.1 hp
  have hnone : i.filter.excludedAs p = none := by
    rw [Bool.and_eq_true] at hkept
    exact Option.isNone_iff_eq_none.1 hkept.2
  rw [outcome_reporting hnone]

/-- **Options.** If identification does not fail, then, under any two options, however many workers
there are and whichever of them is done first: an analysis fails with the same error, if it fails; the
reports count the same; and if both tell every file, or none, they tell the same about those that are
not kept out. -/
theorem options_immaterial (i : Identifier) (provider : Provider) (paths : List String)
    (h : ∀ p ∈ paths, i.Identifies provider (Path.canonical p)) (a b : ReportOptions)
    (ha : 0 < a.maxWorkers) (hb : 0 < b.maxWorkers) :
    (i.reporting a).Settles provider (Pool.start paths) ((i.reporting a).analyze paths provider) ∧
    (i.reporting b).Settles provider (Pool.start paths) ((i.reporting b).analyze paths provider) ∧
    (∀ e, (i.reporting a).analyze paths provider = .error e ↔
      (i.reporting b).analyze paths provider = .error e) ∧
    (i.settings.analysis.failOnUnreadable = false →
      ∃ r, (i.reporting a).analyze paths provider = .ok r) ∧
    ∀ r s, (i.reporting a).analyze paths provider = .ok r →
      (i.reporting b).analyze paths provider = .ok s →
      r.languages = s.languages ∧ r.unknown = s.unknown ∧ r.excluded = s.excluded ∧
      r.unreadable = s.unreadable ∧
      (a.includeFiles = b.includeFiles →
        r.files.filter (·.excludedAs.isNone) = s.files.filter (·.excludedAs.isNone)) := by
  have hidentifies (c : ReportOptions) :
      ∀ p ∈ paths, (i.reporting c).Identifies provider (Path.canonical p) := h
  refine ⟨settles_analyze ha, settles_analyze hb, fun e => ?_, fun hs => ?_, fun r s hr hs => ?_⟩
  · rw [analyze_eq_error_iff (hidentifies a), analyze_eq_error_iff (hidentifies b)]
    rfl
  · obtain ⟨r, hr, -⟩ := analyze_total (i := i.reporting a) hs paths (hidentifies a)
    exact ⟨r, hr⟩
  · obtain ⟨hlanguages, hunknown, hexcluded, hunreadable⟩ := sameCounts_analyze hr hs
    exact ⟨hlanguages, hunknown, hexcluded, hunreadable, fun hfiles =>
      included_analyze hfiles hr hs⟩

/-- The settings that keep one file out. -/
def withoutFirst : FilterSettings where
  extraRules := [⟨"a.x", .vendor, .gitignore, true⟩]

/-- A file of a language that is kept out, one that is not there, and one that is identified, once
with the first identified as well by a single worker, and once by four workers. -/
theorem withoutFirst_counted : ∃ kb f r s,
    KnowledgeBase.make [{ name := "A", category := .programming, extensions := [".x"] }] [] [] [] =
      .ok kb ∧
    ExclusionFilter.make [] withoutFirst = .ok f ∧ f.excludedAs "a.x" = some .vendor ∧
    (reporting ⟨{}, kb, f⟩ ⟨true, true, 1⟩).analyze ["a.x", "gone", "b"] twoContents = .ok r ∧
    (reporting ⟨{}, kb, f⟩ ⟨false, true, 4⟩).analyze ["a.x", "gone", "b"] twoContents = .ok s ∧
    r.languages = s.languages ∧ r.excluded = s.excluded ∧
    r.files.filter (·.excludedAs.isNone) = s.files.filter (·.excludedAs.isNone) := by
  obtain ⟨kb, hkb, hmodels⟩ : ∃ kb, KnowledgeBase.make
      [{ name := "A", category := .programming, extensions := [".x"] }] [] [] [] = .ok kb ∧
      kb.hasModels = false := ⟨_, rfl, rfl⟩
  have hvendor : (ExclusionFilter.make [] withoutFirst).toOption.bind (·.excludedAs "a.x") =
      some .vendor := by decide +kernel
  obtain ⟨f, hf, hvendor⟩ := Option.bind_eq_some_iff.1 hvendor
  have hid : ∀ p ∈ ["a.x", "gone", "b"],
      (⟨{}, kb, f⟩ : Identifier).Identifies twoContents (Path.canonical p) :=
    fun p _ => identifies_of_no_models hmodels _
  obtain ⟨-, -, -, hends, hsame⟩ := options_immaterial ⟨{}, kb, f⟩ twoContents ["a.x", "gone", "b"]
    hid ⟨true, true, 1⟩ ⟨false, true, 4⟩ Nat.one_pos (by decide)
  obtain ⟨-, -, -, hends', -⟩ := options_immaterial ⟨{}, kb, f⟩ twoContents ["a.x", "gone", "b"]
    hid ⟨false, true, 4⟩ ⟨true, true, 1⟩ (by decide) Nat.one_pos
  obtain ⟨r, hr⟩ := hends rfl
  obtain ⟨s, hs⟩ := hends' rfl
  obtain ⟨hlanguages, -, hexcluded, -, hfiles⟩ := hsame r s hr hs
  exact ⟨kb, f, r, s, hkb, toOption_eq_some.1 hf, hvendor, hr, hs, hlanguages, hexcluded, hfiles rfl⟩

end Identifier

end LangId
