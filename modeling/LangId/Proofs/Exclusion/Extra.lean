import LangId.Identifier
import LangId.Proofs.Gitignore.Lines

/-!
# Rules that users add

Settings are accepted with rules of any text, which is read only when a filter is made of them. The
rules on extensions can always be read, and those of definitions are there already, so that the rules
that a user adds decide whether there is a filter, and the first of them that cannot be read says why
there is none.

**Results.**
* `exists_make_iff`: when definitions and settings can be put together.
* `make_eq_error_iff`: the error if they cannot.
-/
namespace LangId

namespace ExtraRule

/-- A rule whose text can be read. -/
def Readable (r : ExtraRule) : Prop :=
  match r.form with
  | .regex => ∃ p, Regex.Pattern.compile {} r.pattern = .ok p
  | .gitignore => Gitignore.ReadableLine r.pattern

theorem exists_toRule_iff {r : ExtraRule} : (∃ rule, r.toRule = .ok rule) ↔ r.Readable := by
  obtain ⟨pattern, kind, form, excluded⟩ := r
  cases form with
  | regex =>
    refine (exists_congr fun _ => mapError_eq_ok).trans ?_
    exact exists_map_iff
  | gitignore =>
    refine (exists_congr fun _ => mapError_eq_ok).trans ?_
    exact exists_map_iff.trans Gitignore.ofLine_eq_ok_iff

end ExtraRule

theorem exists_binaryRules : ∃ rules, binaryRules = .ok rules := by
  have h : binaryRules.toOption.isSome = true := by decide +kernel
  obtain ⟨rules, hrules⟩ := Option.isSome_iff_exists.1 h
  exact ⟨rules, toOption_eq_some.1 hrules⟩

/-- The first rule that cannot be read, and why it is refused. -/
inductive Settings.FirstBadRule (settings : Settings) : Identifier.Error → Prop
  | refused {pre post : List ExtraRule} {r : ExtraRule} {fault : ExclusionRule.Error} :
      settings.filter.extraRules = pre ++ r :: post → (∀ q ∈ pre, q.Readable) →
      r.toRule = .error fault → FirstBadRule settings (.rule fault)

theorem Settings.firstBadRule_iff {settings : Settings} {e : Identifier.Error} :
    settings.FirstBadRule e ↔
      (settings.filter.extraRules.mapM ExtraRule.toRule).mapError .rule = .error e := by
  simp only [mapError_eq_error, mapM_eq_error_iff, ExtraRule.exists_toRule_iff]
  constructor
  · rintro ⟨hrules, hpre, hr⟩
    exact ⟨_, ⟨_, _, _, hrules, hpre, hr⟩, rfl⟩
  · rintro ⟨_, ⟨_, _, _, hrules, hpre, hr⟩, rfl⟩
    exact .refused hrules hpre hr

namespace Identifier

variable {kb : KnowledgeBase} {settings : Settings} {e : Error}

/-- Where a classifier can be made, only the rules are left to fail. -/
theorem make_of_canSmooth (h : Classifier.canSmooth settings.classifier.smoothing = true) :
    make kb settings = ((settings.filter.extraRules.mapM ExtraRule.toRule).mapError .rule >>=
      fun extra => binaryRules.mapError .rule >>= fun binary =>
        .ok ⟨settings, kb, extra ++ kb.exclusionRules ++ binary, settings.filter.kinds⟩) := by
  rw [make, ExclusionFilter.make, h, Bool.not_true, Bool.and_false]
  cases settings.filter.extraRules.mapM ExtraRule.toRule with
  | error e => rfl
  | ok extra => cases binaryRules <;> rfl

/-- **Rules that can be read** are all that definitions and settings need to be put together. -/
theorem exists_make_iff (h : Classifier.canSmooth settings.classifier.smoothing = true) :
    (∃ i, make kb settings = .ok i) ↔ ∀ r ∈ settings.filter.extraRules, r.Readable := by
  obtain ⟨binary, hbinary⟩ := exists_binaryRules
  simp only [← ExtraRule.exists_toRule_iff, ← mapM_eq_ok, make_of_canSmooth h, hbinary]
  exact exists_bind_pure.trans (exists_congr fun _ => mapError_eq_ok)

/-- **The first rule that cannot be read** is why definitions and settings cannot be put together. -/
theorem make_eq_error_iff (h : Classifier.canSmooth settings.classifier.smoothing = true) :
    make kb settings = .error e ↔ settings.FirstBadRule e := by
  obtain ⟨binary, hbinary⟩ := exists_binaryRules
  rw [make_of_canSmooth h, hbinary, bind_eq_error, Settings.firstBadRule_iff]
  refine or_iff_left ?_
  rintro ⟨_, -, h⟩
  cases h

end Identifier

end LangId
