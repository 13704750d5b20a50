import LangId.Proofs.Exclusion.Extra

/-!
# The first match decides

A filter is asked in three ways: whether a path is kept out, why it is, and what the rules of one
kind say. Each question has its own run through the rules, and positive and negative rules of all
kinds stand mixed in one list. What the runs have in common is the first rule of some sort that
matches a path, and the rules before it.

**Results.**
* `firstMatch?_eq_some`: what a run finds.
* `firstMatch?_of_stands`, `firstMatch?_congr`: rules behind the match do not count, nor do rules of
  other sorts.
* `first_match_wins`: all that a filter made of definitions and settings answers about a path.
-/
namespace LangId.ExclusionFilter

variable {f : ExclusionFilter} {rules before : List ExclusionRule} {kinds : List ExclusionKind}
  {counts : ExclusionRule → Bool} {path : String} {r : ExclusionRule} {kind : ExclusionKind}

/-- A rule of some sort that matches a path, where no rule of that sort before it does. -/
structure FirstMatch (f : ExclusionFilter) (counts : ExclusionRule → Bool) (path : String)
    (before : List ExclusionRule) (r : ExclusionRule) : Prop where
  stands : before ++ [r] <+: f.rules
  sort : counts r = true
  accepts : r.accepts (Path.canonical path) = true
  passed : ∀ q ∈ before, counts q = true → q.accepts (Path.canonical path) = false

/-- The first rule that matches a path among those of the kinds that keep files out. -/
def Decides (f : ExclusionFilter) (path : String) (before : List ExclusionRule)
    (r : ExclusionRule) : Prop :=
  f.FirstMatch (fun q => f.kinds.contains q.kind) path before r

/-! ## Runs through the rules -/

theorem firstMatch?_eq_some :
    f.firstMatch? counts path = some r ↔ ∃ before, f.FirstMatch counts path before r := by
  simp only [firstMatch?, List.find?_eq_some_iff_append, Bool.and_eq_true, Bool.not_eq_true',
    Bool.and_eq_false_imp]
  constructor
  · rintro ⟨⟨hcounts, haccepts⟩, before, behind, hrules, hpassed⟩
    refine ⟨before, ⟨behind, ?_⟩, hcounts, haccepts, hpassed⟩
    rw [hrules, List.append_assoc, List.singleton_append]
  · rintro ⟨before, ⟨behind, hrules⟩, hcounts, haccepts, hpassed⟩
    refine ⟨⟨hcounts, haccepts⟩, before, behind, ?_, hpassed⟩
    rw [← hrules, List.append_assoc, List.singleton_append]

theorem any_firstMatch? : (f.firstMatch? counts path).any (·.excluded) = true ↔
    ∃ before r, f.FirstMatch counts path before r ∧ r.excluded = true := by
  rw [Option.any_eq_true]
  constructor
  · rintro ⟨r, hr, hexcluded⟩
    obtain ⟨before, h⟩ := firstMatch?_eq_some.1 hr
    exact ⟨before, r, h, hexcluded⟩
  · rintro ⟨before, r, h, hexcluded⟩
    exact ⟨r, firstMatch?_eq_some.2 ⟨before, h⟩, hexcluded⟩

/-- Rules behind the first match can be any. -/
theorem firstMatch?_of_stands (h : f.FirstMatch counts path before r)
    (hrules : before ++ [r] <+: rules) :
    firstMatch? ⟨rules, kinds⟩ counts path = f.firstMatch? counts path := by
  rw [firstMatch?_eq_some.2 ⟨before, h⟩]
  exact firstMatch?_eq_some.2 ⟨before, hrules, h.sort, h.accepts, h.passed⟩

/-- A run asks no rule of another sort. -/
theorem firstMatch?_eq_find? : f.firstMatch? counts path =
    (f.rules.filter counts).find? (·.accepts (Path.canonical path)) := by
  rw [firstMatch?, List.find?_filter]
  congr 1
  funext r
  cases counts r <;> cases r.accepts (Path.canonical path) <;> rfl

/-- Rules of other sorts can be any. -/
theorem firstMatch?_congr (h : rules.filter counts = f.rules.filter counts) :
    firstMatch? ⟨rules, kinds⟩ counts path = f.firstMatch? counts path := by
  rw [firstMatch?_eq_find?, firstMatch?_eq_find?, h]

/-! ## The three questions -/

theorem deciding?_eq_some : f.deciding? path = some r ↔ ∃ before, f.Decides path before r :=
  firstMatch?_eq_some

/-- Whether a path is kept out and why is read off one rule. -/
theorem answers_of_deciding? (h : deciding? ⟨rules, f.kinds⟩ path = f.deciding? path) :
    excludes ⟨rules, f.kinds⟩ path = f.excludes path ∧
      excludedAs ⟨rules, f.kinds⟩ path = f.excludedAs path := by
  rw [excludes, excludedAs, h]
  exact ⟨rfl, rfl⟩

theorem excludedAs_of_decides (h : f.Decides path before r) :
    f.excludedAs path = if r.excluded then some r.kind else none := by
  rw [excludedAs, deciding?_eq_some.2 ⟨before, h⟩]

theorem isSome_excludedAs : (f.excludedAs path).isSome = f.excludes path := by
  rw [excludedAs, excludes]
  cases f.deciding? path with
  | none => rfl
  | some r => cases hr : r.excluded <;> simp [hr]

/-- Where all kinds keep files out, the first rule that matches decides. -/
theorem deciding?_of_all_kinds (h : ∀ kind, kind ∈ f.kinds) : f.deciding? path = f.rule? path := by
  have hcounts : (fun r : ExclusionRule => f.kinds.contains r.kind) = fun _ => true :=
    funext fun r => List.contains_iff_mem.2 (h r.kind)
  rw [deciding?, rule?, hcounts]

/-- What a filter answers about a path, said by first matches. -/
structure Answers (f : ExclusionFilter) (path : String) : Prop where
  excludes_iff_reason : f.excludes path = true ↔ (f.excludedAs path).isSome = true
  excludes_iff : f.excludes path = true ↔ ∃ before r, f.Decides path before r ∧ r.excluded = true
  reason : ∀ {before r}, f.Decides path before r → r.excluded = true →
    f.excludedAs path = some r.kind
  /-- Rules of kinds that do not count can be left out. -/
  other_kinds : ∀ rules, rules = f.rules.filter (fun r => f.kinds.contains r.kind) →
    excludes ⟨rules, f.kinds⟩ path = f.excludes path ∧
      excludedAs ⟨rules, f.kinds⟩ path = f.excludedAs path
  /-- Any rules can stand behind the one that decides. -/
  behind : ∀ {before r}, f.Decides path before r → ∀ rules, before ++ [r] <+: rules →
    excludes ⟨rules, f.kinds⟩ path = f.excludes path ∧
      excludedAs ⟨rules, f.kinds⟩ path = f.excludedAs path
  one_kind_iff : ∀ kind, f.excludesAs kind path = true ↔
    ∃ before r, f.FirstMatch (·.kind == kind) path before r ∧ r.excluded = true
  /-- What the rules of one kind say depends on them alone, and not on the kinds that count. -/
  one_kind : ∀ kind rules kinds,
    rules.filter (·.kind == kind) = f.rules.filter (·.kind == kind) →
    excludesAs ⟨rules, kinds⟩ kind path = f.excludesAs kind path
  rule_iff : ∀ r, f.rule? path = some r ↔ ∃ before, f.FirstMatch (fun _ => true) path before r
  all_kinds : (∀ kind, kind ∈ f.kinds) →
    f.excludes path = ((f.rule? path).map (·.excluded)).getD false

theorem answers (f : ExclusionFilter) (path : String) : f.Answers path where
  excludes_iff_reason := by rw [isSome_excludedAs]
  excludes_iff := any_firstMatch?
  reason := by
    intro before r h hr
    rw [excludedAs_of_decides h, if_pos hr]
  other_kinds := by
    intro rules hrules
    apply answers_of_deciding?
    apply firstMatch?_congr
    rw [hrules, List.filter_filter]
    simp only [Bool.and_self]
  behind := fun h rules hrules => answers_of_deciding? (firstMatch?_of_stands h hrules)
  one_kind_iff := fun kind => any_firstMatch?
  one_kind := by
    intro kind rules kinds h
    rw [excludesAs, excludesAs, firstMatch?_congr h]
  rule_iff := fun r => firstMatch?_eq_some
  all_kinds := by
    intro h
    rw [excludes, deciding?_of_all_kinds h]
    cases f.rule? path <;> rfl

variable {builtin : List ExclusionRule} {settings : FilterSettings}

theorem make_eq_ok : make builtin settings = .ok f ↔ ∃ extra binary,
    settings.extraRules.mapM ExtraRule.toRule = .ok extra ∧ binaryRules = .ok binary ∧
      ⟨extra ++ builtin ++ binary, settings.kinds⟩ = f := by
  simp only [make, bind_eq_ok, pure, Except.pure, Except.ok.injEq, exists_and_left]

/-- **The first match wins.** A filter made of definitions and settings asks the rules of the user,
then those of the definitions, then those on extensions, and all its answers about a path are read
off the first of them that matches, among those that the question is about. -/
theorem first_match_wins (h : make builtin settings = .ok f) :
    (∃ extra binary, settings.extraRules.mapM ExtraRule.toRule = .ok extra ∧
        binaryRules = .ok binary ∧ f.rules = extra ++ builtin ++ binary) ∧
      f.kinds = settings.kinds ∧ ∀ path, f.Answers path := by
  obtain ⟨extra, binary, hextra, hbinary, rfl⟩ := make_eq_ok.1 h
  exact ⟨⟨extra, binary, hextra, hbinary, rfl⟩, rfl, fun path => answers _ path⟩

/-- A directory is kept out, save one file in it. -/
def savesOne : FilterSettings where
  extraRules := [⟨"deps/own.py", .vendor, .gitignore, false⟩, ⟨"deps/", .vendor, .gitignore, true⟩]

theorem first_match_wins_savesOne : ∃ f, make [] savesOne = .ok f ∧
    (∃ extra binary, savesOne.extraRules.mapM ExtraRule.toRule = .ok extra ∧
        binaryRules = .ok binary ∧ f.rules = extra ++ [] ++ binary) ∧
      f.kinds = savesOne.kinds ∧ ∀ path, f.Answers path := by
  have h : (make [] savesOne).toOption.isSome = true := by decide +kernel
  obtain ⟨f, hf⟩ := Option.isSome_iff_exists.1 h
  have hmake := toOption_eq_some.1 hf
  exact ⟨f, hmake, first_match_wins hmake⟩

example : ["deps/a.py", "./deps/own.py", "own.py", "a.png"].map (fun path =>
    (make [] savesOne).toOption.bind (·.excludedAs path)) =
      [some .vendor, none, none, some .binary] := by
  decide +kernel

end LangId.ExclusionFilter
