import LangId.Proofs.Cascade.Verdict
import LangId.Proofs.Report.Merge

/-!
# What an analysis reports

An analysis evaluates its paths and merges the outcomes in order. `Identifier.outcome` is what
becomes of a path on which identification does not fail, and `foldlM_add` shows an analysis to be a
run of merges of these outcomes.

**Results.**
* `accounts_of_tallied`: a run of merges accounts for the paths of its outcomes (`Accounts`).
* `analyze_accounts`: if unreadable files are no error and identification does not fail, an analysis
  ends with a report that accounts for every path exactly once, and in which paths that are excluded
  have made no difference to languages and to what is unknown.
-/
namespace LangId

/-- Whether a provider has the content of a path. -/
def Provider.reads (provider : Provider) (path : String) : Bool := (provider path).toOption.isSome

namespace Identifier

variable (i : Identifier) (provider : Provider)

/-- What becomes of a path if its identification, where one is made, does not fail. -/
def outcome (path : String) : Outcome :=
  match provider path with
  | .error e => { path, error := some e }
  | .ok content =>
    let excludedAs := i.filter.excludedAs path
    let result :=
      if excludedAs.isSome && !i.settings.analysis.identifyExcluded then none
      else (i.knowledge.identify i.chooser (i.sample path content)).toOption
    { path, size := content.size, excludedAs, result }

/-- Whether the identification of a path does not fail, if its content can be had. -/
def Identifies (path : String) : Prop :=
  ∀ content, provider path = .ok content →
    ∃ found, i.knowledge.identify i.chooser (i.sample path content) = .ok found

/-- What a report says about paths that have been analyzed. -/
structure Accounts (paths : List String) (r : Report) : Prop where
  /-- Every path is counted exactly once. -/
  files : r.ofLanguages.files + r.unknown.files + r.excluded.files + r.unreadable.length =
    paths.length
  /-- So is every octet that could be read. -/
  bytes : r.ofLanguages.bytes + r.unknown.bytes + r.excluded.bytes =
    (paths.filterMap fun p => (provider p).toOption.map (·.size)).foldr (· + ·) 0
  /-- Each bucket counts just the paths that go to it. -/
  totals : ∀ b, r.totalsIn b = Totals.sum
    ((paths.filter fun p => (i.outcome provider p).bucket = b).map fun p =>
      (i.outcome provider p).totals)
  wellformed : r.Wellformed
  unreadable : r.unreadable = paths.filter fun p => !provider.reads p
  entries : r.files = if i.settings.analysis.includeFiles then
    (paths.filter provider.reads).map fun p => (i.outcome provider p).report else []

variable {i provider} {path : String} {r r' : Report}

/-! ## One path -/

theorem evaluate_eq (h : i.Identifies provider path) :
    i.evaluate path provider = .ok (i.outcome provider path) := by
  unfold evaluate outcome
  cases hp : provider path with
  | error e => rfl
  | ok content =>
    obtain ⟨found, hf⟩ := h content hp
    dsimp only
    split
    · rfl
    · rw [hf]
      rfl

theorem outcome_path : (i.outcome provider path).path = path := by
  unfold outcome
  split <;> rfl

theorem outcome_isRead : (i.outcome provider path).isRead = provider.reads path := by
  unfold outcome Provider.reads Outcome.isRead
  split <;> rename_i h <;> rw [h] <;> rfl

theorem add_of_evaluate {o : Outcome} (h : i.evaluate path provider = .ok o) :
    i.add provider r path = (r.merge i.settings.analysis o).mapError .unreadable := by
  rw [add, h]

/-! ## All paths -/

/-- An analysis is a run of merges. -/
theorem foldlM_add {paths : List String} (h : ∀ p ∈ paths, i.Identifies provider p) :
    paths.foldlM (i.add provider) r = ((paths.map (i.outcome provider)).foldlM
      (Report.merge i.settings.analysis) r).mapError .unreadable := by
  induction paths generalizing r with
  | nil => rfl
  | cons p paths ih =>
    obtain ⟨hp, hrest⟩ := List.forall_mem_cons.1 h
    rw [List.foldlM_cons, List.map_cons, List.foldlM_cons,
      add_of_evaluate (evaluate_eq hp)]
    cases r.merge i.settings.analysis (i.outcome provider p) with
    | error e => rfl
    | ok next => exact ih hrest

theorem analyze_total (hs : i.settings.analysis.failOnUnreadable = false) (paths : List String)
    (h : ∀ p ∈ paths, i.Identifies provider (Path.canonical p)) :
    ∃ r, i.analyze paths provider = .ok r ∧
      ((paths.map Path.canonical).map (i.outcome provider)).foldlM
        (Report.merge i.settings.analysis) {} = .ok r := by
  have hcan : ∀ p ∈ paths.map Path.canonical, i.Identifies provider p := List.forall_mem_map.2 h
  obtain ⟨r, hr⟩ := Report.merges_total hs ((paths.map Path.canonical).map (i.outcome provider)) {}
  refine ⟨r, ?_, hr⟩
  rw [analyze, foldlM_add hcan]
  exact mapError_eq_ok.2 hr

/-- Where every path can be read and its identification does not fail, an analysis ends. -/
theorem analyze_of_reads {paths : List String}
    (hread : ∀ p ∈ paths, provider.reads (Path.canonical p) = true)
    (h : ∀ p ∈ paths, i.Identifies provider (Path.canonical p)) :
    ∃ r, i.analyze paths provider = .ok r := by
  have hcan : ∀ p ∈ paths.map Path.canonical, i.Identifies provider p := List.forall_mem_map.2 h
  obtain ⟨r, hr⟩ : ∃ r, ((paths.map Path.canonical).map (i.outcome provider)).foldlM
      (Report.merge i.settings.analysis) {} = .ok r := by
    refine foldlM_total (fun r o ho => ⟨_, Report.merge_eq_ok.2 ⟨.inl ?_, rfl⟩⟩) {}
    obtain ⟨p, hp, rfl⟩ := List.mem_map.1 ho
    obtain ⟨path, hpath, rfl⟩ := List.mem_map.1 hp
    rw [outcome_isRead]
    exact hread path hpath
  refine ⟨r, ?_⟩
  rw [analyze, foldlM_add hcan]
  exact mapError_eq_ok.2 hr

/-! ## Any analysis that ends -/

theorem outcome_of_evaluate {o : Outcome} (h : i.evaluate path provider = .ok o) :
    o = i.outcome provider path := by
  unfold evaluate at h
  unfold outcome
  cases hp : provider path with
  | error e =>
    rw [hp] at h
    exact (Except.ok.inj h).symm
  | ok content =>
    rw [hp] at h
    dsimp only at h ⊢
    split at h
    · rename_i hkept
      rw [if_pos hkept]
      exact (Except.ok.inj h).symm
    · rename_i hkept
      obtain ⟨found, hf, rfl⟩ := map_eq_ok.1 h
      rw [if_neg hkept, hf]
      rfl

/-- An analysis that ends has evaluated every path, and is a run of merges of what became of them. -/
theorem foldlM_add_eq_ok {paths : List String} (h : paths.foldlM (i.add provider) r = .ok r') :
    (∀ p ∈ paths, i.evaluate p provider = .ok (i.outcome provider p)) ∧
      (paths.map (i.outcome provider)).foldlM (Report.merge i.settings.analysis) r = .ok r' := by
  induction paths generalizing r with
  | nil =>
    obtain rfl := pure_eq_ok.1 h
    exact ⟨nofun, rfl⟩
  | cons p paths ih =>
    rw [List.foldlM_cons] at h
    obtain ⟨next, hnext, hrest⟩ := bind_eq_ok.1 h
    unfold add at hnext
    split at hnext
    · cases hnext
    · rename_i o ho
      obtain rfl := outcome_of_evaluate ho
      obtain ⟨hevaluated, hrun⟩ := ih hrest
      refine ⟨List.forall_mem_cons.2 ⟨ho, hevaluated⟩, ?_⟩
      rw [List.map_cons, List.foldlM_cons]
      exact bind_eq_ok.2 ⟨next, mapError_eq_ok.1 hnext, hrun⟩

theorem size_of_evaluate {o : Outcome} (h : i.evaluate path provider = .ok o) :
    o.size = 0 ∨ ∃ content, provider path = .ok content ∧ o.size = content.size := by
  unfold evaluate at h
  split at h
  · obtain rfl := Except.ok.inj h
    exact .inl rfl
  · rename_i content hc
    right
    dsimp only at h
    split at h
    · obtain rfl := Except.ok.inj h
      exact ⟨content, hc, rfl⟩
    · obtain ⟨found, -, rfl⟩ := map_eq_ok.1 h
      exact ⟨content, hc, rfl⟩

/-- Whatever else an analysis meets, a report that it ends with is well-formed, and where no size is
negative no language has negative bytes. -/
theorem analyze_sound {paths : List String} (h : i.analyze paths provider = .ok r)
    (hp : ∀ path content, provider path = .ok content → 0 ≤ content.size) :
    r.Wellformed ∧ ∀ e ∈ r.languages, 0 ≤ e.2.bytes := by
  refine foldlM_preserves (P := fun r => r.Wellformed ∧ ∀ e ∈ r.languages, 0 ≤ e.2.bytes) ?_ h
    ⟨⟨List.nodup_nil, nofun⟩, nofun⟩
  intro r path r' ⟨hw, hn⟩ hadd
  unfold add at hadd
  split at hadd
  · cases hadd
  · rename_i o ho
    have hm := mapError_eq_ok.1 hadd
    have hw' := Report.wellformed_merge hw hm
    obtain ⟨-, rfl⟩ := Report.merge_eq_ok.1 hm
    have hsize : 0 ≤ o.size := by
      rcases size_of_evaluate ho with h0 | ⟨content, hc, hsize⟩
      · exact Int.le_of_eq h0.symm
      · rw [hsize]
        exact hp path content hc
    exact ⟨hw', Report.nonneg_counting hsize hn⟩

/-! ## Accounts -/

theorem files_sum (os : List Outcome) : (Totals.sum (os.map (·.totals))).files = os.length := by
  induction os with
  | nil => rfl
  | cons o os ih =>
    rw [List.map_cons, Totals.sum_cons, List.length_cons, ← ih, Nat.add_comm]
    rfl

theorem bytes_sum (paths : List String) :
    (Totals.sum (((paths.map (i.outcome provider)).filter (·.isRead)).map (·.totals))).bytes =
      (paths.filterMap fun p => (provider p).toOption.map (·.size)).foldr (· + ·) 0 := by
  induction paths with
  | nil => rfl
  | cons p paths ih =>
    rw [List.map_cons, List.filter_cons, outcome_isRead, List.filterMap_cons]
    unfold Provider.reads
    cases hp : provider p with
    | error e => exact ih
    | ok content =>
      have ht : (i.outcome provider p).totals = ⟨content.size, 1⟩ := by
        unfold outcome
        rw [hp]
        rfl
      have hsome : (Except.ok content : Except Unreadable Content).toOption = some content := rfl
      simp only [hsome, Option.isSome_some, if_true, Option.map_some, List.map_cons,
        Totals.sum_cons, List.foldr_cons, ht, ← ih]
      rfl

/-- The outcomes of some paths among those with a property. -/
theorem map_filter_outcome {α : Type} (f : Outcome → α) (q : Outcome → Bool) (paths : List String) :
    ((paths.map (i.outcome provider)).filter q).map f =
      (paths.filter fun p => q (i.outcome provider p)).map fun p => f (i.outcome provider p) := by
  rw [List.filter_map, List.map_map]
  rfl

/-- A run of merges of the outcomes of some paths accounts for these paths. -/
theorem accounts_of_tallied {paths : List String}
    (h : Report.Tallied i.settings.analysis (paths.map (i.outcome provider)) r) :
    i.Accounts provider paths r := by
  have hread : (fun p => (i.outcome provider p).isRead) = provider.reads :=
    funext fun p => outcome_isRead
  have hun : r.unreadable = paths.filter fun p => !provider.reads p := by
    rw [h.unreadable, map_filter_outcome]
    simp only [outcome_isRead, outcome_path, List.map_id']
  refine ⟨?_, ?_, fun b => ?_, h.wellformed, hun, ?_⟩
  · have hfiles : r.ofLanguages.files + (r.unknown.files + r.excluded.files) =
        (paths.filter provider.reads).length := by
      have := congrArg Totals.files h.readable
      rwa [files_sum, List.filter_map, List.length_map, Function.comp_def, hread] at this
    have hlen := List.length_eq_countP_add_countP provider.reads (l := paths)
    rw [List.countP_eq_length_filter, List.countP_eq_length_filter] at hlen
    rw [hun]
    simp only [Bool.not_eq_true, Bool.decide_eq_false] at hlen
    omega
  · have hbytes := congrArg Totals.bytes h.readable
    rw [bytes_sum, Report.ofReadable] at hbytes
    rw [← hbytes, Int.add_assoc]
    rfl
  · rw [h.totals b, map_filter_outcome]
  · rw [h.files, map_filter_outcome, hread]

/-- Any analysis that ends accounts for its paths. -/
theorem accounts_of_analyze {paths : List String} (h : i.analyze paths provider = .ok r) :
    i.Accounts provider (paths.map Path.canonical) r :=
  accounts_of_tallied (Report.tallied_run Report.tallied_empty (foldlM_add_eq_ok h).2)

theorem bucket_of_excluded (h : i.filter.excludedAs path ≠ none) :
    (i.outcome provider path).bucket = .excluded ∨
      (i.outcome provider path).bucket = .unreadable := by
  unfold outcome Outcome.bucket
  cases provider path with
  | error e => exact .inr rfl
  | ok content =>
    left
    simp [Option.isSome_iff_ne_none, h]

/-- **Accounts.** If unreadable files are no error and identification does not fail, an analysis
ends with a report that accounts for every path exactly once. Leaving out the excluded paths does
not change what it tells about languages and what is unknown. -/
theorem analyze_accounts (i : Identifier) (provider : Provider) (paths : List String)
    (hs : i.settings.analysis.failOnUnreadable = false)
    (h : ∀ p ∈ paths, i.Identifies provider (Path.canonical p)) :
    ∃ r, i.analyze paths provider = .ok r ∧
      i.Accounts provider (paths.map Path.canonical) r ∧
      ∃ r', i.analyze (paths.filter fun p => (i.filter.excludedAs (Path.canonical p)).isNone)
          provider = .ok r' ∧
        r'.languages = r.languages ∧ r'.unknown = r.unknown := by
  obtain ⟨r, hr, hrun⟩ := analyze_total hs paths h
  refine ⟨r, hr, accounts_of_tallied (Report.tallied_run Report.tallied_empty hrun), ?_⟩
  obtain ⟨r', hr', hrun'⟩ := analyze_total hs
    (paths.filter fun p => (i.filter.excludedAs (Path.canonical p)).isNone)
    fun p hp => h p (List.mem_filter.1 hp).1
  refine ⟨r', hr', ?_⟩
  -- leaving paths out is leaving their outcomes out
  have hfilter : ((paths.filter fun p => (i.filter.excludedAs (Path.canonical p)).isNone).map
      Path.canonical).map (i.outcome provider) =
      ((paths.map Path.canonical).map (i.outcome provider)).filter fun o =>
        (i.filter.excludedAs o.path).isNone := by
    rw [List.filter_map, List.filter_map]
    simp only [Function.comp_def, outcome_path]
  have hq : ∀ o ∈ (paths.map Path.canonical).map (i.outcome provider),
      (i.filter.excludedAs o.path).isNone = false →
        o.bucket = .excluded ∨ o.bucket = .unreadable := by
    intro o ho hq
    obtain ⟨p, -, rfl⟩ := List.mem_map.1 ho
    rw [outcome_path] at hq
    exact bucket_of_excluded fun hnone => by simp [hnone] at hq
  rw [hfilter] at hrun'
  obtain ⟨hl, hu⟩ := Report.agree_run hq hrun hrun' ⟨rfl, rfl⟩
  exact ⟨hl.symm, hu.symm⟩

/-- Without models no identification fails. -/
theorem identifies_of_no_models (h : i.knowledge.hasModels = false) (path : String) :
    i.Identifies provider path := by
  intro content _
  have hnone : i.chooser = none := by simp [chooser, h]
  rw [hnone]
  exact KnowledgeBase.identify_none_ok _ _

/-- Definitions under default settings, with nothing kept out. -/
def plain (knowledge : KnowledgeBase) : Identifier := ⟨{}, knowledge, ⟨[], []⟩⟩

/-- The contents of two files. -/
def twoContents : Provider := Provider.ofContents [("a.x", [120]), ("b", [120, 120])]

/-- The contents of three files. -/
def threeContents : Provider :=
  Provider.ofContents [("a.x", [120]), ("lib/a.x", [120, 120, 120]), ("b", [120, 120])]

/-- The settings that keep a directory out. -/
def withoutLibrary : FilterSettings where
  extraRules := [⟨"lib/", .vendor, .gitignore, true⟩]

/-- Files that are kept out are identified all the same, and every file is told about. -/
def thorough (knowledge : KnowledgeBase) (filter : ExclusionFilter) : Identifier :=
  { settings := { analysis := { identifyExcluded := true, includeFiles := true } }
    knowledge, filter }

/-- What is then told about the files that can be read, the first of them given twice. -/
def thoroughReports : List FileReport :=
  [⟨"a.x", 1, none, some ⟨"a.x", .language "A" (.stage .extension)⟩⟩,
   ⟨"lib/a.x", 3, some .vendor, some ⟨"lib/a.x", .language "A" (.stage .extension)⟩⟩,
   ⟨"a.x", 1, none, some ⟨"a.x", .language "A" (.stage .extension)⟩⟩,
   ⟨"b", 2, none, some ⟨"b", .noMatch .unknown []⟩⟩]

/-- Five paths: a file of a language, twice; one that is not there; one that is kept out and identified
all the same; and one without a language. -/
theorem five_paths_accounted : ∃ kb f r,
    KnowledgeBase.make [{ name := "A", category := .programming, extensions := [".x"] }] [] [] [] =
      .ok kb ∧
    ExclusionFilter.make [] withoutLibrary = .ok f ∧
    (thorough kb f).analyze ["a.x", "gone", "lib/a.x", "./a.x", "b"] threeContents = .ok r ∧
    r.unreadable = ["gone"] ∧
    r.ofLanguages.files + r.unknown.files + r.excluded.files + r.unreadable.length = 5 ∧
    r.ofLanguages.bytes + r.unknown.bytes + r.excluded.bytes = 7 ∧
    r.excluded = ⟨3, 1⟩ ∧
    r.files = thoroughReports ∧
    ∃ r', (thorough kb f).analyze ["a.x", "gone", "./a.x", "b"] threeContents = .ok r' ∧
      r'.languages = r.languages ∧ r'.unknown = r.unknown := by
  have hrun : (KnowledgeBase.make
      [{ name := "A", category := .programming, extensions := [".x"] }] [] [] []).toOption.bind
      (fun kb => (ExclusionFilter.make [] withoutLibrary).toOption.bind fun f =>
        ((thorough kb f).analyze ["a.x", "gone", "lib/a.x", "./a.x", "b"] threeContents).toOption.map
          fun r => (kb.hasModels, ["a.x", "gone", "lib/a.x", "./a.x", "b"].filter fun p =>
            ((thorough kb f).filter.excludedAs (Path.canonical p)).isNone, r.excluded, r.files)) =
      some (false, ["a.x", "gone", "./a.x", "b"], ⟨3, 1⟩, thoroughReports) := by decide +kernel
  obtain ⟨kb, hkb, hrun⟩ := Option.bind_eq_some_iff.1 hrun
  obtain ⟨f, hf, hrun⟩ := Option.bind_eq_some_iff.1 hrun
  obtain ⟨r, hr, hrun⟩ := Option.map_eq_some_iff.1 hrun
  simp only [Prod.mk.injEq] at hrun
  obtain ⟨hmodels, hkept, hexcluded, hfiles⟩ := hrun
  have hanalyze := toOption_eq_some.1 hr
  obtain ⟨r', hr', haccounts, hleft⟩ := analyze_accounts (thorough kb f) threeContents
    ["a.x", "gone", "lib/a.x", "./a.x", "b"] rfl fun p _ => identifies_of_no_models hmodels _
  obtain rfl := Except.ok.inj (hanalyze.symm.trans hr')
  refine ⟨kb, f, r, toOption_eq_some.1 hkb, toOption_eq_some.1 hf, hr', ?_, haccounts.files, ?_,
    hexcluded, hfiles, ?_⟩
  · rw [haccounts.unreadable]
    decide +kernel
  · rw [haccounts.bytes]
    decide +kernel
  · rwa [hkept] at hleft

end Identifier

end LangId
