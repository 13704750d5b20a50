import LangId.Knowledge.Source
import LangId.Proofs.Config.Accepted
import LangId.Proofs.Knowledge.Bundled

/-!
# Two ways to the same definitions

Settings with a directory of definitions get the base of their own bound on tokens. Settings without
one get the bundled base, which is that of the default bound, whatever theirs is: a smaller bound
counts for files that are classified, but not for the texts that the models are trained on.

**Results.**
* `knowledge_bundled`: both ways lead to a base, and the two bases give the same answers exactly if
  the bound is at least 138.
* `bound_missed`: with a hundred tokens, the least bound that is accepted, they do not.
-/
namespace LangId.Settings

theorem knowledge_of_none {s : Settings} {t : Tree} {kb : KnowledgeBase}
    (h : s.definitions.directory = none) (hkb : KnowledgeBase.bundled = .ok kb) :
    s.knowledge t = .ok kb := by
  rw [knowledge, h, hkb]
  rfl

theorem knowledge_of_some {s : Settings} {t : Tree} {directory : String} {p : Payload}
    {kb : KnowledgeBase} (h : s.definitions.directory = some directory)
    (hload : Payload.load t (Path.ofString directory) = .ok p)
    (hkb : p.build s.classifier.maxTokens = .ok kb) : s.knowledge t = .ok kb := by
  rw [knowledge, h]
  exact bind_eq_ok.2 ⟨p, hload, by rw [hkb]; rfl⟩

/-- **Two ways to the bundled definitions.** Settings without a directory lead to one base, and
settings with the same bound on tokens and a directory of the same definitions to another. Whatever
the bound, both are built; they give the same answers exactly if the bound is not below the length
of the longest training text. -/
theorem knowledge_bundled (s : Settings) (t : Tree) (h : s.definitions.directory = none) :
    ∃ kb kb', s.knowledge t = .ok kb ∧ Bundled.payload.build s.classifier.maxTokens = .ok kb' ∧
      (∀ (s' : Settings) (t' : Tree) (directory : String),
        s'.definitions.directory = some directory →
        s'.classifier.maxTokens = s.classifier.maxTokens →
        Payload.load t' (Path.ofString directory) = .ok Bundled.payload →
        s'.knowledge t' = .ok kb') ∧
      (kb.Agrees kb' ↔ 138 ≤ s.classifier.maxTokens) := by
  obtain ⟨kb, hkb⟩ := Bundled.exists_build Token.defaultBound
  obtain ⟨kb', hkb'⟩ := Bundled.exists_build s.classifier.maxTokens
  refine ⟨kb, kb', knowledge_of_none h hkb, hkb', ?_, Bundled.agrees_iff hkb hkb'⟩
  intro s' t' directory hdirectory hbound hload
  exact knowledge_of_some hdirectory hload (hbound ▸ hkb')

theorem defaultBound_heeded : ({} : Settings).definitions.directory = none ∧
    ∃ kb kb', ({} : Settings).knowledge (.directory []) = .ok kb ∧
      Bundled.payload.build ({} : Settings).classifier.maxTokens = .ok kb' ∧ kb.Agrees kb' := by
  obtain ⟨kb, kb', hkb, hkb', -, hagrees⟩ := knowledge_bundled {} (.directory []) rfl
  exact ⟨rfl, kb, kb', hkb, hkb', hagrees.2 (by decide)⟩

/-- Settings that let a hundred tokens of a text be read. -/
def hundredTokens : Settings := { classifier := { maxTokens := 100 } }

/-- The bound of accepted settings is missed. -/
theorem bound_missed : hundredTokens.Accepted ∧ hundredTokens.definitions.directory = none ∧
    ∃ kb kb', hundredTokens.knowledge (.directory []) = .ok kb ∧
      Bundled.payload.build hundredTokens.classifier.maxTokens = .ok kb' ∧ ¬kb.Agrees kb' := by
  obtain ⟨kb, hkb⟩ := Bundled.exists_build Token.defaultBound
  obtain ⟨kb', hkb'⟩ := Bundled.exists_build hundredTokens.classifier.maxTokens
  refine ⟨?_, rfl, kb, kb', knowledge_of_none rfl hkb, hkb', fun hagrees => ?_⟩
  · exact { accepted_default with
      classifier := ⟨ClassifierSettings.valid_default.smoothing, by decide, by decide⟩ }
  · exact absurd ((Bundled.agrees_iff hkb hkb').1 hagrees) (by decide)

end LangId.Settings
