import LangId.Proofs.Classifier.Choice
import LangId.Proofs.Knowledge.Counting

/-!
# Evidence for models

A language gets a model if anything is taken in for it; only then is left out what counts nothing. A
table of counts may list a token with the count zero, so there are models without any token, which
are scored as if the language had been trained.

**Results.**
* `exists_model_iff`: the languages that get a model.
* `countOf_pos_iff`, `total_pos_iff`: what is counted, and whether a model counts anything.
* `models_evidenced`: every model rests on evidence exactly if no language has nothing but zeros.
* `zeros_modelled`: a model without a token.
-/
namespace LangId

open Text

namespace Tally

/-- Whatever is added stays, be it zero. -/
theorem addAll_ne_nil {t : Tally String} (h : t ≠ []) (entries : Tally String) :
    t.addAll entries ≠ [] :=
  List.foldlRecOn (motive := fun t : Tally String => t ≠ []) entries _ h
    fun t _ e _ => add_ne_nil t e.1 e.2

theorem addAll_nil_eq_nil {entries : Tally String} : addAll [] entries = [] ↔ entries = [] := by
  cases entries with
  | nil => exact iff_of_true rfl rfl
  | cons e rest =>
    exact iff_of_false (addAll_ne_nil (add_ne_nil [] e.1 e.2) rest) (List.cons_ne_nil _ _)

/-- Where nothing counts less than zero, neither does all together. -/
theorem total_nonneg {t : Tally String} (h : Build.Nonneg t) : 0 ≤ t.total := by
  induction t with
  | nil => exact Int.le_refl 0
  | cons e rest ih =>
    obtain ⟨he, hrest⟩ := List.forall_mem_cons.1 h
    rw [total_cons]
    exact Int.add_nonneg he (ih hrest)

/-- Where nothing counts less than zero, a sum is positive exactly if some part of it is. -/
theorem total_pos_iff {t : Tally String} (h : Build.Nonneg t) :
    0 < t.total ↔ ∃ e ∈ t, 0 < e.2 := by
  induction t with
  | nil => exact iff_of_false (Int.lt_irrefl 0) (by simp)
  | cons e rest ih =>
    obtain ⟨he, hrest⟩ := List.forall_mem_cons.1 h
    have hle := total_nonneg hrest
    rw [total_cons, List.exists_mem_cons_iff, ← ih hrest]
    omega

theorem weightOf_nonneg {entries : Tally String} (h : Build.Nonneg entries) (token : String) :
    0 ≤ weightOf token entries := total_nonneg fun e he => h e (List.mem_of_mem_filter he)

theorem weightOf_pos_iff {entries : Tally String} (h : Build.Nonneg entries) (token : String) :
    0 < weightOf token entries ↔ ∃ n, (token, n) ∈ entries ∧ 0 < n := by
  rw [weightOf, total_pos_iff fun e he => h e (List.mem_of_mem_filter he)]
  simp only [List.mem_filter, beq_iff_eq]
  constructor
  · rintro ⟨⟨_, n⟩, ⟨he, rfl⟩, hpos⟩
    exact ⟨n, he, hpos⟩
  · rintro ⟨n, he, hpos⟩
    exact ⟨(token, n), ⟨he, rfl⟩, hpos⟩

end Tally

/-! ## What definitions say of a language -/

namespace Payload

section

variable (p : Payload) (bound : Nat) (name : String)

/-- Some table lists a token for a language, with whatever count, or some token is read of its
texts. -/
def Mentions : Prop :=
  (∃ t ∈ p.counts, lower t.1 = lower name ∧ t.2 ≠ []) ∨ ∃ token, 0 < p.occurrences bound name token

/-- A token counts for a language, in a table or in a text. -/
def Attests (token : String) : Prop :=
  (∃ t ∈ p.counts, lower t.1 = lower name ∧ ∃ n, (token, n) ∈ t.2 ∧ 0 < n) ∨
    0 < p.occurrences bound name token

/-- Some token counts for a language. -/
def Evidence : Prop := ∃ token, p.Attests bound name token

/-- Tokens are listed for a language, but none of them counts. -/
def Hollow : Prop := p.Mentions bound name ∧ ¬p.Evidence bound name

end

variable {p : Payload} {bound : Nat} {kb : KnowledgeBase} {name : String}

theorem mentions_of_evidence (h : p.Evidence bound name) : p.Mentions bound name := by
  obtain ⟨token, ⟨t, ht, hname, n, hn, -⟩ | hread⟩ := h
  · exact .inl ⟨t, ht, hname, List.ne_nil_of_mem hn⟩
  · exact .inr ⟨token, hread⟩

/-- What is mentioned of a language is what is taken in for it. -/
theorem addedTo_ne_nil : p.addedTo bound name ≠ [] ↔ p.Mentions bound name := by
  have htexts : countsOf bound (p.textsOf name) ≠ [] ↔
      ∃ token, 0 < p.occurrences bound name token := by
    simp only [occurrences, List.count_pos_iff, countsOf, List.flatMap_map, ← List.map_flatMap,
      ne_eq, List.map_eq_nil_iff]
    constructor
    · exact List.exists_mem_of_ne_nil _
    · rintro ⟨_, h⟩
      exact List.ne_nil_of_mem h
  have htables : (p.counts.filter fun t => lower t.1 == lower name).flatMap (·.2) ≠ [] ↔
      ∃ t ∈ p.counts, lower t.1 = lower name ∧ t.2 ≠ [] := by
    simp [List.flatMap_eq_nil_iff]
  rw [addedTo_eq, ne_eq, List.append_eq_nil_iff, Decidable.not_and_iff_or_not, ← ne_eq, ← ne_eq,
    htables, htexts]
  rfl

namespace Parts

variable (parts : p.Parts bound)

/-- **Models.** A language has one exactly if it is mentioned. -/
theorem exists_model_iff : (∃ m, parts.base.model? name = some m) ↔ p.Mentions bound name := by
  rw [← addedTo_ne_nil]
  cases hfound : parts.declared.find? name with
  | none =>
    refine iff_of_false ?_ (not_not_intro (parts.addedTo_eq_nil hfound))
    rintro ⟨m, hm⟩
    obtain ⟨found, h, -⟩ := parts.model?_eq_some.1 hm
    rw [hfound] at h
    cases h
  | some found =>
    obtain ⟨tallies, hms, hholds⟩ := Build.holdings_of_models parts.models_eq
    have hempty : Build.tallyOf tallies found = [] ↔ p.addedTo bound name = [] := by
      have hlength := (parts.tallyOf_perm hfound hms hholds).length_eq
      rw [← @Tally.addAll_nil_eq_nil (p.addedTo bound name), ← List.length_eq_zero_iff,
        hlength, List.length_eq_zero_iff]
    rw [ne_eq, ← hempty]
    constructor
    · rintro ⟨m, hm⟩ hnil
      obtain ⟨other, hother, hm⟩ := parts.model?_eq_some.1 hm
      obtain rfl := Option.some.inj (hfound.symm.trans hother)
      obtain ⟨t, ht, hne, -⟩ := hms.mem _ m hm
      rw [Build.tallyOf, ht] at hnil
      rw [show t = [] from hnil] at hne
      cases hne
    · intro hne
      by_contra hno
      refine hne (hms.tallyOf_eq_nil fun m hm => hno ⟨m, ?_⟩)
      exact parts.model?_eq_some.2 ⟨found, hfound, hm⟩

/-- Every model that is kept is the model of some name. -/
theorem exists_model?_of_mem {m : String × Model} (hm : m ∈ parts.base.models) :
    ∃ name, parts.base.model? name = some m.2 := by
  have hlookup := (Table.mem_iff_lookup parts.nodup_models).1 hm
  obtain ⟨n, -, hn⟩ := parts.lookup_models_eq_some.1 hlookup
  exact ⟨n, by rw [KnowledgeBase.model?, hn, hlookup]⟩

theorem hasModels_iff : parts.base.hasModels = true ↔ ∃ name, p.Mentions bound name := by
  have hmodels : parts.base.hasModels = true ↔ parts.base.models ≠ [] := by
    simp [KnowledgeBase.hasModels]
  simp only [hmodels, ← parts.exists_model_iff]
  constructor
  · intro h
    obtain ⟨m, hm⟩ := List.exists_mem_of_ne_nil _ h
    obtain ⟨name, hname⟩ := parts.exists_model?_of_mem hm
    exact ⟨name, m.2, hname⟩
  · rintro ⟨name, m, hm⟩
    have hmem := (Table.mem_iff_lookup parts.nodup_models (e := (lower name, m))).2 hm
    exact List.ne_nil_of_mem hmem

/-- **Counts.** A token counts for a language if some part of the definitions counts it. -/
theorem countOf_pos_iff {token : String} :
    0 < parts.base.countOf name token ↔ p.Attests bound name token := by
  have hnonneg :
      Build.Nonneg ((p.counts.filter fun t => lower t.1 == lower name).flatMap (·.2)) := by
    intro e he
    obtain ⟨t, ht, he⟩ := List.mem_flatMap.1 he
    exact ((Build.models_eq_ok parts.models_eq).1 t (List.mem_of_mem_filter ht)).2 e he
  have htables : 0 < p.tabulated name token ↔
      ∃ t ∈ p.counts, lower t.1 = lower name ∧ ∃ n, (token, n) ∈ t.2 ∧ 0 < n := by
    rw [tabulated, Tally.weightOf_pos_iff hnonneg]
    simp only [List.mem_flatMap, List.mem_filter, beq_iff_eq]
    constructor
    · rintro ⟨n, ⟨t, ⟨ht, hname⟩, hn⟩, hpos⟩
      exact ⟨t, ht, hname, n, hn, hpos⟩
    · rintro ⟨t, ht, hname, n, hn, hpos⟩
      exact ⟨n, ⟨t, ⟨ht, hname⟩, hn⟩, hpos⟩
  have hle : 0 ≤ p.tabulated name token := Tally.weightOf_nonneg hnonneg token
  rw [parts.countOf_eq, Attests, ← htables]
  omega

/-- A model counts something exactly if there is evidence for it. -/
theorem total_pos_iff {m : Model} (h : parts.base.model? name = some m) :
    0 < m.total ↔ p.Evidence bound name := by
  have htable : parts.base.table name = m.counts := by rw [KnowledgeBase.table, h]; rfl
  have htotal : m.total = (parts.base.table name).total := by
    rw [← parts.totalOf_eq, KnowledgeBase.totalOf, h]
    rfl
  have hpos (e) (he : e ∈ parts.base.table name) : 0 < e.2 := parts.pos_of_mem_table he
  rw [htotal, Tally.total_pos_iff fun e he => Int.le_of_lt (hpos e he), Prod.exists]
  refine exists_congr fun token => ?_
  rw [← parts.countOf_pos_iff]
  constructor
  · rintro ⟨n, hn, -⟩
    obtain ⟨hcount, heq⟩ := parts.mem_table_iff.1 hn
    rwa [heq]
  · exact fun hcount => ⟨_, parts.mem_table_iff.2 ⟨hcount, rfl⟩, hcount⟩

/-- What counts for a spelling of a name counts for the declared language. -/
theorem exists_language_of_evidence {token : String} (h : 0 < parts.base.countOf name token) :
    ∃ l ∈ parts.base.languages,
      parts.base.countOf l.name token = parts.base.countOf name token := by
  have hevidence : p.Evidence bound name := ⟨token, parts.countOf_pos_iff.1 h⟩
  obtain ⟨m, hm⟩ := parts.exists_model_iff.2 (mentions_of_evidence hevidence)
  obtain ⟨found, hfound, -⟩ := parts.model?_eq_some.1 hm
  obtain ⟨l, hl, -, hlower⟩ := (Build.find?_declaredNames_eq_some parts.names).1 hfound
  refine ⟨l, List.mem_mergeSort.2 hl, ?_⟩
  simp only [KnowledgeBase.countOf, KnowledgeBase.table, KnowledgeBase.model?, hlower]

theorem vocabulary_pos_iff : 0 < parts.base.vocabulary ↔ ∃ name, p.Evidence bound name := by
  have hvocabulary : 0 < parts.base.vocabulary ↔
      ∃ token, ∃ l ∈ parts.base.languages, 0 < parts.base.countOf l.name token := by
    simp only [← parts.mem_vocabulary_iff]
    exact List.length_pos_iff_exists_mem
  rw [hvocabulary]
  constructor
  · rintro ⟨token, l, -, hcount⟩
    exact ⟨l.name, token, parts.countOf_pos_iff.1 hcount⟩
  · rintro ⟨name, token, h⟩
    have hcount := parts.countOf_pos_iff.2 h
    obtain ⟨l, hl, hsame⟩ := parts.exists_language_of_evidence hcount
    exact ⟨token, l, hl, hsame ▸ hcount⟩

end Parts

/-! ## Which languages are scored -/

/-- What definitions make of models: who has one, which count anything, and who is scored. -/
structure Modelled (p : Payload) (bound : Nat) (kb : KnowledgeBase) : Prop where
  model : ∀ name, (∃ m, kb.model? name = some m) ↔ p.Mentions bound name
  total : ∀ name m, kb.model? name = some m → (0 < m.total ↔ p.Evidence bound name)
  hasModels : kb.hasModels = true ↔ ∃ name, p.Mentions bound name
  vocabulary : 0 < kb.vocabulary ↔ ∃ name, p.Evidence bound name
  scored : ∀ {R : Type} (c : Classifier R) content candidates ranked,
    c.scores kb.model? kb.vocabulary content candidates = .ok ranked →
      ∀ l, (∃ e ∈ ranked, e.language = l) ↔ l ∈ candidates.members ∧ p.Mentions bound l.name

/-- No model without evidence. -/
structure Grounded (p : Payload) (bound : Nat) (kb : KnowledgeBase) : Prop where
  model : ∀ name, (∃ m, kb.model? name = some m) ↔ p.Evidence bound name
  total : ∀ m ∈ kb.models, 0 < m.2.total
  hasModels : kb.hasModels = true ↔ 0 < kb.vocabulary
  scored : ∀ {R : Type} (c : Classifier R) content candidates ranked,
    c.scores kb.model? kb.vocabulary content candidates = .ok ranked →
      ∀ e ∈ ranked, p.Evidence bound e.language.name

theorem Parts.modelled (parts : p.Parts bound) : p.Modelled bound parts.base where
  model _ := parts.exists_model_iff
  total _ _ hm := parts.total_pos_iff hm
  hasModels := parts.hasModels_iff
  vocabulary := parts.vocabulary_pos_iff
  scored _ _ _ _ h l := by
    rw [Classifier.mem_scores h, ← parts.exists_model_iff, Option.ne_none_iff_exists']

/-- Where no language has nothing but zeros, what is mentioned has evidence. -/
theorem Parts.grounded (parts : p.Parts bound) (h : ∀ name, ¬p.Hollow bound name) :
    p.Grounded bound parts.base := by
  have hevidence (name : String) : p.Mentions bound name ↔ p.Evidence bound name :=
    ⟨fun hm => by_contra fun hno => h name ⟨hm, hno⟩, mentions_of_evidence⟩
  exact {
    model := fun name => parts.exists_model_iff.trans (hevidence name)
    total := fun m hm => by
      obtain ⟨name, hname⟩ := parts.exists_model?_of_mem hm
      rw [parts.total_pos_iff hname, ← hevidence, ← parts.exists_model_iff]
      exact ⟨m.2, hname⟩
    hasModels := by
      rw [parts.hasModels_iff, parts.vocabulary_pos_iff]
      exact exists_congr hevidence
    scored := fun c content candidates ranked hscores e he =>
      (hevidence _).1 ((parts.modelled.scored c content candidates ranked hscores _).1
        ⟨e, he, rfl⟩).2 }

/-- **Models and evidence.** A language gets a model if anything is listed for it, and its total is
positive if any of that counts. So every model rests on evidence exactly if no language has nothing
but zeros. -/
theorem models_evidenced (h : p.build bound = .ok kb) :
    p.Modelled bound kb ∧ (p.Grounded bound kb ↔ ∀ name, ¬p.Hollow bound name) := by
  obtain ⟨parts, -, rfl⟩ := build_eq_assemble h
  refine ⟨parts.modelled, fun hgrounded name hhollow => ?_, parts.grounded⟩
  exact hhollow.2 ((hgrounded.model name).1 (parts.exists_model_iff.2 hhollow.1))

/-- A language of which a token is listed with the count zero. -/
def zeros : Payload where
  languages := [("A", { category := "programming" })]
  counts := [("A", [("t", 0)])]

theorem models_evidenced_spellings : ∃ kb, spellings.build 10 = .ok kb ∧
    spellings.Modelled 10 kb ∧ (spellings.Grounded 10 kb ↔ ∀ name, ¬spellings.Hollow 10 name) := by
  have hok : (spellings.build 10).toOption.isSome = true := by decide +kernel
  obtain ⟨kb, hkb⟩ := Option.isSome_iff_exists.1 hok
  have hbuild := toOption_eq_some.1 hkb
  exact ⟨kb, hbuild, models_evidenced hbuild⟩

/-- There is a model, but no token in any. -/
theorem zeros_modelled : ∃ kb, zeros.build 10 = .ok kb ∧ kb.hasModels = true ∧
    kb.vocabulary = 0 ∧ ¬zeros.Grounded 10 kb := by
  have hread : (zeros.build 10).toOption.map (fun kb => (kb.hasModels, kb.vocabulary)) =
      some (true, 0) := by decide +kernel
  obtain ⟨kb, hkb, hread⟩ := Option.map_eq_some_iff.1 hread
  obtain ⟨hmodels, hvocabulary⟩ := Prod.mk.inj hread
  refine ⟨kb, toOption_eq_some.1 hkb, hmodels, hvocabulary, fun hgrounded => ?_⟩
  have hpos := hgrounded.hasModels.1 hmodels
  omega

end Payload

end LangId
