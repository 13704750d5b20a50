import LangId.Proofs.Config.Loading
import LangId.Proofs.Exclusion.Extra

/-!
# Rules that break off a command line

A command line reads its settings, then the definitions, and puts them together. A rule of the
settings that cannot be read shows only in the last of these steps, which reports nothing: the command
line breaks off, whatever it has been asked for.

**Results.**
* `run_crash_iff`: the command lines that break off over a rule, and over which one.
* `bad_rule_breaks_off`: rules that can be read are all that accepted settings need to be used. Settings
  with another one are accepted as well (`unclosedGroup_unusable`).
-/
namespace LangId.CommandLine

open Data

/-- A command line that has settings and definitions to put together. -/
structure Prepares (s : Surroundings) (arguments : List String) (settings : Settings)
    (kb : KnowledgeBase) (config : Option String) (command : Command) (logged : Surroundings) :
    Prop where
  request : Request.parse arguments = .ok (.run config (.ok command))
  notHelp : command ≠ .help
  configThere : s.checkConfig config = .ok ()
  argumentsThere : s.checkCommand command = .ok ()
  settingsRead : s.settings config = .ok settings
  logThere : s.withLog settings.logging = .ok logged
  definitions : settings.knowledge logged.tree = .ok kb

variable {s logged : Surroundings} {arguments : List String} {settings : Settings}
  {kb : KnowledgeBase} {config : Option String} {command : Command} {e : Identifier.Error}
  {f : Failure} {r : Result} {i : Identifier}

/-! ## Steps before and after the one that puts things together

Each of them can break off, but not with the error of that one step. -/

theorem checkConfig_ne_identifier : s.checkConfig config ≠ .error (.crash (.identifier e)) := by
  unfold Surroundings.checkConfig
  intro h
  split at h
  · cases h
  · split at h <;> cases h

theorem checkCommand_ne_identifier : s.checkCommand command ≠ .error (.crash (.identifier e)) := by
  unfold Surroundings.checkCommand
  intro h
  split at h
  · split at h <;> cases h
  · cases h

theorem settings_ne_identifier : s.settings config ≠ .error (.crash (.identifier e)) := by
  intro h
  unfold Surroundings.settings at h
  split at h
  · obtain ⟨_, -, h⟩ := mapError_eq_error.1 h
    cases h
  · obtain ⟨_, -, h⟩ := mapError_eq_error.1 h
    split at h <;> cases h

theorem withLog_ne_identifier {logging : LoggingSettings} :
    s.withLog logging ≠ .error (.crash (.identifier e)) := by
  unfold Surroundings.withLog
  intro h
  split at h
  · cases h
  · dsimp only at h
    split at h <;> cases h

theorem report_ne_identifier {directory : String} : s.report i directory ≠ .error (.identifier e) := by
  intro h
  unfold Surroundings.report at h
  rcases bind_eq_error.1 h with h | ⟨scanner, -, h⟩
  · obtain ⟨_, -, h⟩ := mapError_eq_error.1 h
    cases h
  rcases bind_eq_error.1 h with h | ⟨paths, -, h⟩
  · obtain ⟨_, -, h⟩ := mapError_eq_error.1 h
    cases h
  dsimp only at h
  split at h <;> cases h

theorem stats_crash_ne_identifier {directory : String} {json files : Bool} :
    (s.stats i directory json files).crash ≠ some (.identifier e) := by
  unfold Surroundings.stats
  split
  · rename_i c hc
    intro h
    obtain rfl := Option.some.inj h
    exact report_ne_identifier hc
  split
  · exact nofun
  unfold reportResult
  dsimp only
  split
  · exact nofun
  split
  · exact nofun
  split <;> exact nofun

/-! ## Putting settings and definitions together -/

/-- A command changes at most what is shown of an analysis. -/
theorem settingsFor_eq (settings : Settings) (command : Command) :
    ∃ analysis, settingsFor settings command = { settings with analysis } := by
  cases command with
  | stats directory json files => cases files <;> exact ⟨_, rfl⟩
  | help | identify | vendored => exact ⟨_, rfl⟩

theorem knowledge_settingsFor (t : Tree) :
    (settingsFor settings command).knowledge t = settings.knowledge t := by
  obtain ⟨analysis, h⟩ := settingsFor_eq settings command
  rw [h]
  rfl

theorem make_settingsFor : Identifier.make kb (settingsFor settings command) = .error e ↔
    Identifier.make kb settings = .error e := by
  obtain ⟨analysis, h⟩ := settingsFor_eq settings command
  rw [h, Identifier.make, Identifier.make]
  dsimp only
  cases ExclusionFilter.make kb.exclusionRules settings.filter with
  | error fault => rfl
  | ok filter =>
    dsimp only
    split <;> simp

theorem identifier_eq_error : s.identifier settings = .error (.crash (.identifier e)) ↔
    ∃ kb, settings.knowledge s.tree = .ok kb ∧ Identifier.make kb settings = .error e := by
  unfold Surroundings.identifier
  rw [bind_eq_error]
  constructor
  · rintro (h | ⟨kb, hkb, h⟩)
    · obtain ⟨_, -, h⟩ := mapError_eq_error.1 h
      split at h <;> cases h
    · obtain ⟨e', he', h⟩ := mapError_eq_error.1 h
      cases h
      exact ⟨kb, mapError_eq_ok.1 hkb, he'⟩
  · rintro ⟨kb, hkb, he⟩
    exact .inr ⟨kb, mapError_eq_ok.2 hkb, mapError_eq_error.2 ⟨e, he, rfl⟩⟩

/-! ## Command lines -/

theorem perform_eq_identifier : s.perform config command = .error (.crash (.identifier e)) ↔
    s.checkCommand command = .ok () ∧ ∃ settings, s.settings config = .ok settings ∧
      ∃ logged, s.withLog settings.logging = .ok logged ∧
      ∃ kb, settings.knowledge logged.tree = .ok kb ∧ Identifier.make kb settings = .error e := by
  unfold Surroundings.perform
  simp only [bind_eq_error, checkCommand_ne_identifier, settings_ne_identifier,
    withLog_ne_identifier, false_or, identifier_eq_error, knowledge_settingsFor, make_settingsFor]
  constructor
  · rintro ⟨_, hcommand, settings, hsettings, logged, hlogged, h | ⟨i, -, h⟩⟩
    · exact ⟨hcommand, settings, hsettings, logged, hlogged, h⟩
    · -- with an identifier every command is answered
      cases command <;> cases h
  · rintro ⟨hcommand, settings, hsettings, logged, hlogged, h⟩
    exact ⟨(), hcommand, settings, hsettings, logged, hlogged, .inl h⟩

/-- A command line that is answered does not break off over a rule. -/
theorem crash_ne_identifier_of_perform (h : s.perform config command = .ok r) :
    r.crash ≠ some (.identifier e) := by
  unfold Surroundings.perform at h
  obtain ⟨-, -, h⟩ := bind_eq_ok.1 h
  obtain ⟨settings, -, h⟩ := bind_eq_ok.1 h
  obtain ⟨logged, -, h⟩ := bind_eq_ok.1 h
  obtain ⟨i, -, h⟩ := bind_eq_ok.1 h
  cases command with
  | help =>
    obtain rfl := pure_eq_ok.1 h
    exact nofun
  | identify paths json =>
    obtain rfl := pure_eq_ok.1 h
    intro hcrash
    obtain ⟨_, -, hcrash⟩ := Option.map_eq_some_iff.1 hcrash
    cases hcrash
  | vendored paths =>
    obtain rfl := pure_eq_ok.1 h
    exact nofun
  | stats directory json files =>
    obtain rfl := pure_eq_ok.1 h
    exact stats_crash_ne_identifier

theorem answer_eq_identifier {request : Request} :
    s.answer request = .error (.crash (.identifier e)) ↔
      ∃ config command, request = .run config (.ok command) ∧ command ≠ .help ∧
        s.checkConfig config = .ok () ∧
        s.perform config command = .error (.crash (.identifier e)) := by
  constructor
  · intro h
    cases request with
    | help | version => cases h
    | run config command =>
      rcases bind_eq_error.1 h with h | ⟨_, hconfig, h⟩
      · exact absurd h checkConfig_ne_identifier
      split at h
      · cases h
      · cases h
      · rename_i command hhelp _
        exact ⟨config, command, rfl, hhelp, hconfig, h⟩
  · rintro ⟨config, command, rfl, hne, hconfig, h⟩
    refine bind_eq_error.2 (.inr ⟨(), hconfig, ?_⟩)
    cases command with
    | help => exact absurd rfl hne
    | identify | vendored | stats => exact h

theorem crash_ne_identifier_of_answer {request : Request} (h : s.answer request = .ok r) :
    r.crash ≠ some (.identifier e) := by
  cases request with
  | help | version =>
    obtain rfl := Except.ok.inj h
    exact nofun
  | run config command =>
    obtain ⟨-, -, h⟩ := bind_eq_ok.1 h
    split at h
    · cases h
    · obtain rfl := pure_eq_ok.1 h
      exact nofun
    · exact crash_ne_identifier_of_perform h

/-- The settings of a command line are accepted. -/
theorem accepted_of_settings (h : s.settings config = .ok settings) : settings.Accepted := by
  unfold Surroundings.settings at h
  split at h
  · exact (Settings.accepted_of_read (mapError_eq_ok.1 h)).1
  · have hload := mapError_eq_ok.1 h
    obtain ⟨bytes, hbytes⟩ := Settings.read_of_load hload
    exact (Settings.accepted_of_load hbytes hload).1

/-- A command line gets as far as the rules, and the first one that cannot be read is refused. -/
theorem answer_eq_identifier_iff {request : Request} (h : Request.parse arguments = .ok request) :
    s.answer request = .error (.crash (.identifier e)) ↔
      ∃ settings kb config command logged,
        Prepares s arguments settings kb config command logged ∧ settings.FirstBadRule e := by
  rw [answer_eq_identifier]
  simp only [perform_eq_identifier]
  constructor
  · rintro ⟨config, command, rfl, hne, hconfig, hcommand, settings, hsettings, logged, hlogged, kb,
      hkb, he⟩
    have hsmooth := (accepted_of_settings hsettings).canSmooth
    exact ⟨settings, kb, config, command, logged,
      ⟨h, hne, hconfig, hcommand, hsettings, hlogged, hkb⟩,
      (Identifier.make_eq_error_iff hsmooth).1 he⟩
  · rintro ⟨settings, kb, config, command, logged, hp, he⟩
    have hsmooth := (accepted_of_settings hp.settingsRead).canSmooth
    exact ⟨config, command, Except.ok.inj (h.symm.trans hp.request), hp.notHelp, hp.configThere,
      hp.argumentsThere, settings, hp.settingsRead, logged, hp.logThere, kb, hp.definitions,
      (Identifier.make_eq_error_iff hsmooth).2 he⟩

theorem result_crash_eq : f.result.crash = some (.identifier e) ↔ f = .crash (.identifier e) := by
  cases f with
  | usage | reported => exact ⟨nofun, nofun⟩
  | crash c =>
    constructor
    · exact fun h => congrArg Failure.crash (Option.some.inj h)
    · exact fun h => congrArg some (Failure.crash.inj h)

theorem run_crash_iff : (run s arguments).crash = some (.identifier e) ↔
    ∃ settings kb config command logged,
      Prepares s arguments settings kb config command logged ∧ settings.FirstBadRule e := by
  unfold run
  split
  · rename_i hparse
    refine ⟨nofun, ?_⟩
    rintro ⟨_, _, _, _, _, hp, -⟩
    cases hparse.symm.trans hp.request
  · rename_i request hparse
    rw [← answer_eq_identifier_iff hparse]
    split
    · rename_i hanswer
      rw [hanswer]
      exact ⟨fun h => absurd h (crash_ne_identifier_of_answer hanswer), nofun⟩
    · rename_i hanswer
      rw [hanswer, result_crash_eq]
      exact ⟨congrArg Except.error, Except.error.inj⟩

/-- A command line that breaks off over a rule shows and reports nothing. -/
theorem run_eq_of_crash (h : (run s arguments).crash = some (.identifier e)) :
    run s arguments = { exit := 1, crash := some (.identifier e) } := by
  unfold run at h ⊢
  split at h
  · cases h
  · split at h
    · rename_i hanswer
      exact absurd h (crash_ne_identifier_of_answer hanswer)
    · rw [result_crash_eq.1 h]
      rfl

/-- **Bad rules.** Definitions and accepted settings can be put together exactly if all rules of the
settings can be read, and the first that cannot is the error. A command line that gets there breaks
off over it: it exits with 1, and neither shows nor reports anything. -/
theorem bad_rule_breaks_off (h : settings.Accepted) (kb : KnowledgeBase) (s : Surroundings)
    (arguments : List String) (e : Identifier.Error) :
    ((∃ i, Identifier.make kb settings = .ok i) ↔ ∀ r ∈ settings.filter.extraRules, r.Readable) ∧
    (Identifier.make kb settings = .error e ↔ settings.FirstBadRule e) ∧
    ((run s arguments).crash = some (.identifier e) ↔
      ∃ settings kb config command logged,
        Prepares s arguments settings kb config command logged ∧ settings.FirstBadRule e) ∧
    ((run s arguments).crash = some (.identifier e) ↔
      run s arguments = { exit := 1, crash := some (.identifier e) }) :=
  ⟨Identifier.exists_make_iff h.canSmooth, Identifier.make_eq_error_iff h.canSmooth, run_crash_iff,
    run_eq_of_crash, fun h => congrArg Result.crash h⟩

/-- Settings with a rule of either form. -/
def twoRules : Settings where
  filter := { extraRules := [{ pattern := "[ab]/**/c.js" }, { pattern := "^docs/", form := .regex }] }

/-- Both rules can be read, so that the settings can be used. -/
theorem twoRules_usable : twoRules.Accepted ∧ (∀ r ∈ twoRules.filter.extraRules, r.Readable) ∧
    ∃ kb i, ({} : Payload).build 10 = .ok kb ∧ Identifier.make kb twoRules = .ok i := by
  have haccepted : twoRules.Accepted :=
    { Settings.accepted_default with
      patterns := by decide }
  have hmade : ∀ r ∈ twoRules.filter.extraRules, r.toRule.toOption.isSome := by decide +kernel
  have hreadable : ∀ r ∈ twoRules.filter.extraRules, r.Readable := by
    intro r hr
    obtain ⟨rule, hrule⟩ := Option.isSome_iff_exists.1 (hmade r hr)
    exact ExtraRule.exists_toRule_iff.1 ⟨rule, toOption_eq_some.1 hrule⟩
  obtain ⟨kb, hkb⟩ : ∃ kb, ({} : Payload).build 10 = .ok kb := ⟨_, rfl⟩
  let nowhere : Surroundings :=
    { tree := Tree.empty, here := ⟨.absolute, []⟩, home := ⟨.absolute, []⟩, environment := [] }
  obtain ⟨i, hi⟩ := (bad_rule_breaks_off haccepted kb nowhere [] .smoothing).1.2 hreadable
  exact ⟨haccepted, hreadable, kb, i, hkb, hi⟩

/-- Settings with one rule, whose group is not closed. -/
def unclosedGroup : Value :=
  .map [(.text "filter", .map [(.text "extra_rules",
    .list [.map [(.text "pattern", .text "("), (.text "syntax", .text "regex")]])])]

/-- These settings are accepted, and cannot be used with any definitions. -/
theorem unclosedGroup_unusable : ∃ settings, Settings.schema id unclosedGroup = .ok settings ∧
    settings.Accepted ∧ ∀ kb,
      Identifier.make kb settings = .error (.rule (.regex (.malformed .openParenthesis))) := by
  have hschema : Settings.schema id unclosedGroup =
      .ok { filter := { extraRules := [{ pattern := "(", form := .regex }] } } := rfl
  have haccepted := Settings.accepted_of_schema hschema
  refine ⟨_, hschema, haccepted, fun kb => ?_⟩
  have hrules : [ExtraRule.mk "(" .vendor .regex true] = [] ++ _ :: [] := rfl
  exact (Identifier.make_eq_error_iff haccepted.canSmooth).2 (.refused hrules nofun rfl)

end LangId.CommandLine
