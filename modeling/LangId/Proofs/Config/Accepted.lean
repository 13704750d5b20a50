import LangId.Config.Environment
import LangId.Proofs.Classifier.Scores

/-!
# What accepted settings keep to

Settings that are read from data have passed the checks of their fields, or are the defaults, which
pass them too (`Schema.optional_preserves`). `Settings.Accepted` lists the checks of all sections;
`accepted_of_schema` derives them, section by section (`ReadFrom`), for settings that are read, and
`accepted_of_read` for settings that are read with an environment, whose directory of definitions has
been found.
-/
namespace LangId

open Data

namespace Data.Checked

variable {α β : Type}

theorem map_eq_ok {f : α → β} {x : Checked α} {b : β} :
    f <$> x = .ok b ↔ ∃ a, x = .ok a ∧ f a = b := by
  cases x with
  | ok a =>
    constructor
    · exact fun h => ⟨a, rfl, Checked.ok.inj h⟩
    · rintro ⟨_, ha, rfl⟩
      obtain rfl := Checked.ok.inj ha
      rfl
  | bad issues => exact ⟨nofun, nofun⟩

theorem seq_eq_ok {f : Checked (α → β)} {x : Checked α} {b : β} :
    f <*> x = .ok b ↔ ∃ g a, f = .ok g ∧ x = .ok a ∧ g a = b := by
  cases f with
  | ok g =>
    cases x with
    | ok a =>
      constructor
      · exact fun h => ⟨g, a, rfl, rfl, Checked.ok.inj h⟩
      · rintro ⟨_, _, hg, ha, rfl⟩
        cases hg
        cases ha
        rfl
    | bad issues => exact ⟨nofun, nofun⟩
  | bad issues => cases x <;> exact ⟨nofun, nofun⟩

theorem within_eq_ok {step : Step} {x : Checked α} {a : α} : x.within step = .ok a ↔ x = .ok a := by
  cases x with
  | ok b => exact Iff.rfl
  | bad issues => exact ⟨nofun, nofun⟩

theorem andThen_eq_ok {x : Checked α} {f : α → Checked β} {b : β} :
    x.andThen f = .ok b ↔ ∃ a, x = .ok a ∧ f a = .ok b := by
  cases x with
  | ok a => exact ⟨fun h => ⟨a, rfl, h⟩, fun ⟨_, ha, hb⟩ => by cases ha; exact hb⟩
  | bad issues => exact ⟨nofun, nofun⟩

theorem all_eq_ok {results : List (Checked α)} {as : List α} (h : all results = .ok as) :
    ∀ a ∈ as, .ok a ∈ results := by
  induction results generalizing as with
  | nil =>
    obtain rfl := Checked.ok.inj h
    exact nofun
  | cons r rest ih =>
    obtain ⟨_, tail, hr, htail, rfl⟩ := seq_eq_ok.1 h
    obtain ⟨a, rfl, rfl⟩ := map_eq_ok.1 hr
    exact List.forall_mem_cons.2
      ⟨List.mem_cons_self, fun b hb => List.mem_cons_of_mem _ (ih htail b hb)⟩

end Data.Checked

namespace Data.Schema

variable {α : Type} {a : α} {v : Value} {found : List (Value × Value)}

theorem record_eq_ok {s : List (Value × Value) → Checked α} (h : record s v = .ok a) :
    ∃ found, v = .map found ∧ s found = .ok a := by
  obtain ⟨found, hentries, ha⟩ := Checked.andThen_eq_ok.1 h
  unfold entries at hentries
  split at hentries
  · rw [Checked.ok.inj hentries]
    exact ⟨found, rfl, ha⟩
  · cases hentries

theorem strictRecord_eq_ok {names : List (Value × Value) → List String}
    {s : List (Value × Value) → Checked α} (h : strictRecord names s v = .ok a) :
    ∃ found, v = .map found ∧ s found = .ok a := by
  obtain ⟨found, hv, h⟩ := record_eq_ok h
  split at h
  · rename_i b hb _
    exact ⟨found, hv, hb.trans h⟩
  · cases h

/-- A field that may be missing has been read, or has its default. -/
theorem optional_eq_ok {name : String} {s : Schema α} {d : α} (h : optional name s d found = .ok a) :
    (∃ v, s v = .ok a) ∨ a = d := by
  unfold optional at h
  split at h
  · exact .inl ⟨_, Checked.within_eq_ok.1 h⟩
  · exact .inr (Checked.ok.inj h).symm

/-- What every reading of a field says, and its default, too, holds of the field. -/
theorem optional_preserves (P : α → Prop) {name : String} {s : Schema α} {d : α}
    (h : optional name s d found = .ok a) (hs : ∀ v a, s v = .ok a → P a) (hd : P d) : P a := by
  rcases optional_eq_ok h with ⟨v, hv⟩ | rfl
  · exact hs v a hv
  · exact hd

theorem required_eq_ok {name : String} {s : Schema α} (h : required name s found = .ok a) :
    ∃ v, s v = .ok a := by
  unfold required at h
  split at h
  · exact ⟨_, Checked.within_eq_ok.1 h⟩
  · cases h

theorem someText_eq_ok {t : String} (h : someText v = .ok t) : t ≠ "" := by
  obtain ⟨u, -, h⟩ := Checked.andThen_eq_ok.1 h
  split at h
  · cases h
  · rename_i hempty
    obtain rfl := Checked.ok.inj h
    simpa using hempty

theorem literal_eq_ok {words : List String} {t : String} (h : literal words v = .ok t) :
    t ∈ words := by
  unfold literal at h
  split at h
  · split at h
    · rename_i hmem
      obtain rfl := Checked.ok.inj h
      simpa using hmem
    · cases h
  · cases h

theorem items_eq_ok {s : Schema α} {values : List Value} {as : List α}
    (h : items s values = .ok as) : ∀ a ∈ as, ∃ v, s v = .ok a := by
  intro a ha
  obtain ⟨⟨v, i⟩, -, hv⟩ := List.mem_map.1 (Checked.all_eq_ok h a ha)
  exact ⟨v, Checked.within_eq_ok.1 hv⟩

theorem list_eq_ok {s : Schema α} {as : List α} (h : list s v = .ok as) :
    ∀ a ∈ as, ∃ v, s v = .ok a := by
  unfold list at h
  split at h
  · exact items_eq_ok h
  · exact items_eq_ok h
  · cases h

theorem numberIn_eq_ok {above most x : Float} (h : numberIn above most v = .ok x) :
    above < x ∧ x ≤ most := by
  obtain ⟨y, -, h⟩ := Checked.andThen_eq_ok.1 h
  split at h
  · cases h
  rename_i hmost
  split at h
  · cases h
  rename_i habove
  obtain rfl := Checked.ok.inj h
  exact ⟨by simpa using habove, by simpa using hmost⟩

theorem integerIn_eq_ok {low high n : Int} (h : integerIn low high v = .ok n) :
    low ≤ n ∧ n ≤ high := by
  obtain ⟨k, -, h⟩ := Checked.andThen_eq_ok.1 h
  split at h
  · cases h
  rename_i hhigh
  split at h
  · cases h
  rename_i hlow
  obtain rfl := Checked.ok.inj h
  exact ⟨Int.not_lt.1 hlow, Int.not_lt.1 hhigh⟩

end Data.Schema

/-- What a classifier may be set to. -/
structure ClassifierSettings.Valid (c : ClassifierSettings) : Prop where
  smoothing : Smoothing c.smoothing
  fewest : 100 ≤ c.maxTokens
  most : c.maxTokens ≤ 1000000

theorem naturalIn_eq_ok {low high n : Nat} {v : Value} (h : naturalIn low high v = .ok n) :
    low ≤ n ∧ n ≤ high := by
  obtain ⟨k, hk, rfl⟩ := Checked.map_eq_ok.1 h
  obtain ⟨hlow, hhigh⟩ := Schema.integerIn_eq_ok hk
  omega

namespace ClassifierSettings

/-- The defaults are valid. -/
theorem valid_default : ({} : ClassifierSettings).Valid :=
  ⟨⟨by decide, by decide⟩, by decide, by decide⟩

theorem valid_of_schema {v : Value} {c : ClassifierSettings} (h : schema v = .ok c) : c.Valid := by
  obtain ⟨found, -, h⟩ := Schema.record_eq_ok h
  obtain ⟨_, maxTokens, hrest, hmax, rfl⟩ := Checked.seq_eq_ok.1 h
  obtain ⟨_, smoothing, hrest', hsmoothing, rfl⟩ := Checked.seq_eq_ok.1 hrest
  obtain ⟨enabled, -, rfl⟩ := Checked.map_eq_ok.1 hrest'
  have hs : Smoothing smoothing := Schema.optional_preserves Smoothing hsmoothing
    (fun _ _ hx => ⟨(Schema.numberIn_eq_ok hx).1, (Schema.numberIn_eq_ok hx).2⟩)
    valid_default.smoothing
  have hm := Schema.optional_preserves (fun n => 100 ≤ n ∧ n ≤ 1000000) hmax
    (fun _ _ hn => naturalIn_eq_ok hn) ⟨valid_default.fewest, valid_default.most⟩
  exact ⟨hs, hm.1, hm.2⟩

end ClassifierSettings

/-! ## The other sections -/

theorem SamplingSettings.bounds_of_schema {v : Value} {c : SamplingSettings}
    (h : schema v = .ok c) : 1024 ≤ c.maxBytes ∧ c.maxBytes ≤ 10485760 := by
  obtain ⟨found, -, h⟩ := Schema.record_eq_ok h
  obtain ⟨maxBytes, hmax, rfl⟩ := Checked.map_eq_ok.1 h
  exact Schema.optional_preserves (fun n => 1024 ≤ n ∧ n ≤ 10485760) hmax
    (fun _ _ hn => naturalIn_eq_ok hn) (by decide)

theorem ExtraRule.pattern_of_schema {v : Value} {r : ExtraRule} (h : schema v = .ok r) :
    r.pattern ≠ "" := by
  obtain ⟨found, -, h⟩ := Schema.record_eq_ok h
  obtain ⟨_, excluded, h₃, -, rfl⟩ := Checked.seq_eq_ok.1 h
  obtain ⟨_, form, h₂, -, rfl⟩ := Checked.seq_eq_ok.1 h₃
  obtain ⟨_, kind, h₁, -, rfl⟩ := Checked.seq_eq_ok.1 h₂
  obtain ⟨pattern, hpattern, rfl⟩ := Checked.map_eq_ok.1 h₁
  obtain ⟨w, hw⟩ := Schema.required_eq_ok hpattern
  exact Schema.someText_eq_ok hw

theorem FilterSettings.patterns_of_schema {v : Value} {c : FilterSettings}
    (h : schema v = .ok c) : ∀ r ∈ c.extraRules, r.pattern ≠ "" := by
  obtain ⟨found, -, h⟩ := Schema.record_eq_ok h
  obtain ⟨_, respectGitignore, h₂, -, rfl⟩ := Checked.seq_eq_ok.1 h
  obtain ⟨_, kinds, h₁, -, rfl⟩ := Checked.seq_eq_ok.1 h₂
  obtain ⟨extraRules, hrules, rfl⟩ := Checked.map_eq_ok.1 h₁
  refine Schema.optional_preserves (fun rules => ∀ r ∈ rules, r.pattern ≠ "") hrules
    (fun v rules hlist r hr => ?_) nofun
  obtain ⟨w, hw⟩ := Schema.list_eq_ok hlist r hr
  exact ExtraRule.pattern_of_schema hw

theorem AnalysisSettings.workers_of_schema {v : Value} {c : AnalysisSettings}
    (h : schema v = .ok c) : 1 ≤ c.maxWorkers ∧ c.maxWorkers ≤ 64 := by
  obtain ⟨found, -, h⟩ := Schema.record_eq_ok h
  obtain ⟨_, failOnUnreadable, h₃, -, rfl⟩ := Checked.seq_eq_ok.1 h
  obtain ⟨_, includeFiles, h₂, -, rfl⟩ := Checked.seq_eq_ok.1 h₃
  obtain ⟨_, identifyExcluded, h₁, -, rfl⟩ := Checked.seq_eq_ok.1 h₂
  obtain ⟨maxWorkers, hmax, rfl⟩ := Checked.map_eq_ok.1 h₁
  exact Schema.optional_preserves (fun n => 1 ≤ n ∧ n ≤ 64) hmax
    (fun _ _ hn => naturalIn_eq_ok hn) (by decide)

/-- What events may be logged as. -/
structure LoggingSettings.Valid (c : LoggingSettings) : Prop where
  level : c.level ∈ ["DEBUG", "INFO", "WARNING", "ERROR"]
  format : c.format ∈ ["console", "json"]

theorem LoggingSettings.valid_of_schema {v : Value} {c : LoggingSettings}
    (h : schema v = .ok c) : c.Valid := by
  obtain ⟨found, -, h⟩ := Schema.record_eq_ok h
  obtain ⟨_, retention, h₄, -, rfl⟩ := Checked.seq_eq_ok.1 h
  obtain ⟨_, rotation, h₃, -, rfl⟩ := Checked.seq_eq_ok.1 h₄
  obtain ⟨_, file, h₂, -, rfl⟩ := Checked.seq_eq_ok.1 h₃
  obtain ⟨_, format, h₁, hformat, rfl⟩ := Checked.seq_eq_ok.1 h₂
  obtain ⟨level, hlevel, rfl⟩ := Checked.map_eq_ok.1 h₁
  exact {
    level := Schema.optional_preserves (· ∈ ["DEBUG", "INFO", "WARNING", "ERROR"]) hlevel
      (fun _ _ ht => Schema.literal_eq_ok ht) (by decide)
    format := Schema.optional_preserves (· ∈ ["console", "json"]) hformat
      (fun _ _ ht => Schema.literal_eq_ok ht) (by decide) }

/-- The path of a directory that is read is what a text resolves to. -/
theorem DefinitionSettings.directory_of_schema {resolve : Resolver} {v : Value}
    {c : DefinitionSettings} (h : schema resolve v = .ok c) {d : String}
    (hd : c.directory = some d) :
    ∃ fields t, v = .map fields ∧ Value.field? "directory" fields = some (.text t) ∧
      resolve t = d := by
  obtain ⟨fields, hv, h⟩ := Schema.record_eq_ok h
  obtain ⟨directory, hdirectory, rfl⟩ := Checked.map_eq_ok.1 h
  unfold Schema.optional at hdirectory
  split at hdirectory
  · rename_i w hw
    have hread := Checked.within_eq_ok.1 hdirectory
    unfold Schema.nullable at hread
    split at hread
    · obtain rfl := Checked.ok.inj hread
      cases hd
    · obtain ⟨e, he, rfl⟩ := Checked.map_eq_ok.1 hread
      obtain rfl := Option.some.inj hd
      unfold directoryText at he
      split at he
      · split at he
        · cases he
        · exact ⟨fields, _, hv, hw, Checked.ok.inj he⟩
      · cases he
  · obtain rfl := Checked.ok.inj hdirectory
    cases hd

namespace Settings

/-- What settings may be. -/
structure Accepted (s : Settings) : Prop where
  sampling : 1024 ≤ s.sampling.maxBytes ∧ s.sampling.maxBytes ≤ 10485760
  classifier : s.classifier.Valid
  patterns : ∀ r ∈ s.filter.extraRules, r.pattern ≠ ""
  workers : 1 ≤ s.analysis.maxWorkers ∧ s.analysis.maxWorkers ≤ 64
  logging : s.logging.Valid

/-- The defaults are accepted. -/
theorem accepted_default : ({} : Settings).Accepted where
  sampling := by decide
  classifier := ClassifierSettings.valid_default
  patterns := nofun
  workers := by decide
  logging := ⟨by decide, by decide⟩

variable {resolve : Resolver} {s : Settings}

/-- Accepted settings have a number that a classifier can smooth by. -/
theorem Accepted.canSmooth (h : s.Accepted) :
    Classifier.canSmooth s.classifier.smoothing = true := by
  have hpositive := Number.isPositive_of_zero_lt h.classifier.smoothing.positive
  rw [Classifier.canSmooth, decide_eq_false hpositive.not_le_zero, Bool.not_false]

/-- The sections of settings have been read from entries. -/
structure ReadFrom (resolve : Resolver) (found : List (Value × Value)) (s : Settings) : Prop where
  definitions : Schema.optional "definitions" (DefinitionSettings.schema resolve) {} found =
    .ok s.definitions
  sampling : Schema.optional "sampling" SamplingSettings.schema {} found = .ok s.sampling
  classifier : Schema.optional "classifier" ClassifierSettings.schema {} found = .ok s.classifier
  filter : Schema.optional "filter" FilterSettings.schema {} found = .ok s.filter
  analysis : Schema.optional "analysis" AnalysisSettings.schema {} found = .ok s.analysis
  logging : Schema.optional "logging" LoggingSettings.schema {} found = .ok s.logging

theorem readFrom_of_schema {v : Value} (h : schema resolve v = .ok s) :
    ∃ found, v = .map found ∧ ReadFrom resolve found s := by
  obtain ⟨found, hv, h⟩ := Schema.strictRecord_eq_ok h
  obtain ⟨_, logging, h₅, hlogging, rfl⟩ := Checked.seq_eq_ok.1 h
  obtain ⟨_, analysis, h₄, hanalysis, rfl⟩ := Checked.seq_eq_ok.1 h₅
  obtain ⟨_, filter, h₃, hfilter, rfl⟩ := Checked.seq_eq_ok.1 h₄
  obtain ⟨_, classifier, h₂, hclassifier, rfl⟩ := Checked.seq_eq_ok.1 h₃
  obtain ⟨_, sampling, h₁, hsampling, rfl⟩ := Checked.seq_eq_ok.1 h₂
  obtain ⟨definitions, hdefinitions, rfl⟩ := Checked.map_eq_ok.1 h₁
  exact ⟨found, hv, hdefinitions, hsampling, hclassifier, hfilter, hanalysis, hlogging⟩

/-- **Accepted settings** have passed the checks of all sections. -/
theorem accepted_of_schema {v : Value} (h : schema resolve v = .ok s) : s.Accepted := by
  obtain ⟨found, -, hread⟩ := readFrom_of_schema h
  exact {
    sampling := Schema.optional_preserves (fun c => 1024 ≤ c.maxBytes ∧ c.maxBytes ≤ 10485760)
      hread.sampling (fun _ _ hc => SamplingSettings.bounds_of_schema hc) accepted_default.sampling
    classifier := Schema.optional_preserves ClassifierSettings.Valid hread.classifier
      (fun _ _ hc => ClassifierSettings.valid_of_schema hc) accepted_default.classifier
    patterns := Schema.optional_preserves (fun c => ∀ r ∈ c.extraRules, r.pattern ≠ "")
      hread.filter (fun _ _ hc => FilterSettings.patterns_of_schema hc) accepted_default.patterns
    workers := Schema.optional_preserves (fun c => 1 ≤ c.maxWorkers ∧ c.maxWorkers ≤ 64)
      hread.analysis (fun _ _ hc => AnalysisSettings.workers_of_schema hc) accepted_default.workers
    logging := Schema.optional_preserves LoggingSettings.Valid hread.logging
      (fun _ _ hc => LoggingSettings.valid_of_schema hc) accepted_default.logging }

theorem valid_of_schema {v : Value} (h : schema resolve v = .ok s) : s.classifier.Valid :=
  (accepted_of_schema h).classifier

/-- Where nothing is wrong with the directory of definitions, it is one that has been found. -/
theorem located_of_schema {locate : Locator} {data : List (Value × Value)}
    (hfault : directoryFault? locate data = none)
    (h : schema locate.resolver (.map data) = .ok s) {d : String}
    (hd : s.definitions.directory = some d) : ∃ t, locate t = .ok d := by
  obtain ⟨_, hv, hread⟩ := readFrom_of_schema h
  obtain rfl := Value.map.inj hv
  have hdefinitions := hread.definitions
  unfold Schema.optional at hdefinitions
  split at hdefinitions
  · rename_i v hfield
    obtain ⟨fields, t, rfl, hdirectory, hresolve⟩ :=
      DefinitionSettings.directory_of_schema (Checked.within_eq_ok.1 hdefinitions) hd
    refine ⟨t, ?_⟩
    simp only [directoryFault?, hfield, hdirectory] at hfault
    rw [Locator.resolver] at hresolve
    cases hlocate : locate t with
    | ok place =>
      rw [hlocate] at hresolve
      exact congrArg Except.ok hresolve
    | error f =>
      rw [hlocate] at hfault
      cases hfault
  · rw [← Checked.ok.inj hdefinitions] at hd
    cases hd

/-- **Settings that are read** are accepted, and their directory of definitions has been found. -/
theorem accepted_of_read {locate : Locator} {environment : Environment.Variables}
    {data : List (Value × Value)} (h : read locate environment data = .ok s) :
    s.Accepted ∧ ∀ d, s.definitions.directory = some d → ∃ t, locate t = .ok d := by
  unfold read at h
  split at h
  · cases h
  split at h
  · cases h
  rename_i hfault
  split at h
  · rename_i hs
    obtain rfl := Except.ok.inj h
    exact ⟨accepted_of_schema hs, fun d hd => located_of_schema hfault hs hd⟩
  · cases h

end Settings

end LangId
