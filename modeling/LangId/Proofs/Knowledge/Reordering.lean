import LangId.Proofs.Knowledge.Answers
import LangId.Proofs.Knowledge.Assembly
import LangId.Proofs.Knowledge.Validity
import LangId.Proofs.Text.Order

/-!
# The order of declarations

Languages, tables of counts and training texts stand in definitions in some order. What is built
keeps traces of it: languages stand under their keys, and tokens in models, in the order in which
they came up. No answer shows these traces.

**Results.**
* `build_reordered`: definitions in another order (`Payload.Reordered`) are accepted just as well,
  and the base that is built gives the same answers and identifies every file alike, even if the sets
  of languages in it are listed in any other order (`KnowledgeBase.Relisted`).
-/
namespace LangId

open Text

namespace Payload

/-- The same definitions, but with languages, tables of counts and training texts in another
order. -/
structure Reordered (p p' : Payload) : Prop where
  languages : p.languages.Perm p'.languages
  counts : p.counts.Perm p'.counts
  samples : p.samples.Perm p'.samples
  heuristics : p'.heuristics = p.heuristics
  vendor : p'.vendor = p.vendor
  documentation : p'.documentation = p.documentation
  generated : p'.generated = p.generated

variable {p p' : Payload} {bound : Nat}

/-! ## Acceptance -/

theorem Reordered.pathPatterns (h : p.Reordered p') (kind : ExclusionKind) :
    p'.pathPatterns kind = p.pathPatterns kind := by
  cases kind with
  | vendor => exact h.vendor
  | generated => exact h.generated
  | documentation => exact h.documentation
  | binary => rfl

theorem Reordered.declares (h : p.Reordered p') {n : String} : p'.Declares n ↔ p.Declares n :=
  exists_congr fun _ => and_congr_left fun _ => h.languages.mem_iff.symm

/-- Nothing that definitions have to be like depends on their order. -/
theorem Reordered.valid (h : p.Reordered p') (hv : p.Valid) : p'.Valid where
  categories l hl := hv.categories l (h.languages.mem_iff.2 hl)
  extensions l hl := hv.extensions l (h.languages.mem_iff.2 hl)
  names := (h.languages.map _).nodup_iff.1 hv.names
  ruleLanguages := by
    rw [h.heuristics]
    exact fun b hb r hr n hn => h.declares.2 (hv.ruleLanguages b hb r hr n hn)
  countLanguages t ht := h.declares.2 (hv.countLanguages t (h.counts.mem_iff.2 ht))
  sampleLanguages s hs := h.declares.2 (hv.sampleLanguages s (h.samples.mem_iff.2 hs))
  named := by rw [h.heuristics]; exact hv.named
  clauses := by rw [h.heuristics]; exact hv.clauses
  paths kind := by rw [h.pathPatterns]; exact hv.paths kind
  references := by rw [h.heuristics]; exact hv.references
  keys := by rw [keys, h.heuristics]; exact hv.keys
  counts t ht := hv.counts t (h.counts.mem_iff.2 ht)

/-! ## The parts of the two bases -/

namespace Parts

variable {parts : p.Parts bound} {parts' : p'.Parts bound}

theorem languages_perm (h : p.Reordered p') : parts.languages.Perm parts'.languages := by
  obtain ⟨languages, hl, hperm⟩ := mapM_of_perm h.languages parts.languages_eq
  rw [← Except.ok.inj (hl.symm.trans parts'.languages_eq)]
  exact hperm

theorem find?_eq (h : p.Reordered p') (n : String) :
    (Build.declaredNames parts.languages).find? n =
      (Build.declaredNames parts'.languages).find? n := by
  refine Option.ext fun found => ?_
  rw [Build.find?_declaredNames_eq_some parts.names, Build.find?_declaredNames_eq_some parts'.names]
  exact exists_congr fun l => and_congr_left fun _ => (languages_perm h).mem_iff

theorem blocks_eq_blocks (h : p.Reordered p') : parts.blocks = parts'.blocks := by
  have hd : (Build.declaredNames parts.languages).Extends (Build.declaredNames parts'.languages) :=
    fun n _ hfound => (find?_eq h n).symm.trans hfound
  have hblocks := Build.heuristics_of_extends hd parts.blocks_eq
  rw [← h.heuristics, parts'.blocks_eq] at hblocks
  exact (Except.ok.inj hblocks).symm

theorem rules_eq_rules (h : p.Reordered p') : parts.rules = parts'.rules := by
  have hrules : Build.exclusionRules p' = Build.exclusionRules p := by
    rw [Build.exclusionRules, Build.exclusionRules, h.vendor, h.generated, h.documentation]
  rw [parts'.rules_eq, parts.rules_eq] at hrules
  exact (Except.ok.inj hrules).symm

theorem languages_eq_languages (h : p.Reordered p') (hi : parts.base.Indexed) :
    parts.base.languages = parts'.base.languages := by
  have hperm : parts.base.languages.Perm parts'.base.languages :=
    (List.mergeSort_perm _ _).trans ((languages_perm h).trans (List.mergeSort_perm _ _).symm)
  refine hperm.eq_of_pairwise (fun l m hl hm hlm hml => ?_)
    (Candidates.pairwise_mergeSort_byName _) (Candidates.pairwise_mergeSort_byName _)
  exact hi.eq_of_name hl (hperm.mem_iff.2 hm) (notAfter_antisymm hlm hml)

/-- What is kept for each language is found whatever the order of the languages. -/
theorem lookup_eq {α : Type} (h : p.Reordered p') (f : Language → α) (k : String) :
    (parts.languages.map fun l => (lower l.name, f l)).lookup k =
      (parts'.languages.map fun l => (lower l.name, f l)).lookup k := by
  refine Table.lookup_of_perm ?_ ((languages_perm h).map _)
  rw [List.map_map]
  exact parts.names

theorem models_rel (h : p.Reordered p') (k : String) :
    Option.Rel Model.Alike (parts.base.models.lookup k) (parts'.base.models.lookup k) := by
  cases hm : parts.base.models.lookup k with
  | some m =>
    obtain ⟨n, hmem, hn⟩ := parts.lookup_models_eq_some.1 hm
    obtain ⟨m', hmem', halike⟩ := Build.models_alike (find?_eq h) h.counts h.samples
      parts.models_eq parts'.models_eq hmem
    rw [parts'.lookup_models_eq_some.2 ⟨n, hmem', hn⟩]
    exact .some halike
  | none =>
    cases hm' : parts'.base.models.lookup k with
    | none => exact .none
    | some m' =>
      obtain ⟨n, hmem', hn⟩ := parts'.lookup_models_eq_some.1 hm'
      obtain ⟨m, hmem, -⟩ := Build.models_alike (fun n => (find?_eq h n).symm) h.counts.symm
        h.samples.symm parts'.models_eq parts.models_eq hmem'
      rw [parts.lookup_models_eq_some.2 ⟨n, hmem, hn⟩] at hm
      cases hm

end Parts

end Payload

/-! ## What models count together -/

namespace KnowledgeBase

/-- Tables of models in which the models found under each key are alike. -/
structure SameModels (ms ms' : List (String × Model)) : Prop where
  names : (ms.map (·.1)).Nodup
  names' : (ms'.map (·.1)).Nodup
  alike : ∀ k, Option.Rel Model.Alike (ms.lookup k) (ms'.lookup k)

variable {ms ms' : List (String × Model)}

theorem SameModels.symm (h : SameModels ms ms') : SameModels ms' ms := by
  refine ⟨h.names', h.names, fun k => ?_⟩
  have hk := h.alike k
  generalize ms.lookup k = o at hk
  generalize ms'.lookup k = o' at hk
  cases hk with
  | some halike => exact .some halike.symm
  | none => exact .none

theorem SameModels.mem_tokens (h : SameModels ms ms') {t : String}
    (ht : t ∈ ms.flatMap fun m => m.2.counts.map (·.1)) :
    t ∈ ms'.flatMap fun m => m.2.counts.map (·.1) := by
  obtain ⟨⟨k, m⟩, hm, ht⟩ := List.mem_flatMap.1 ht
  have hk := h.alike k
  rw [(Table.mem_iff_lookup h.names).1 hm] at hk
  generalize hm' : ms'.lookup k = o at hk
  cases hk with
  | some halike =>
    refine List.mem_flatMap.2 ⟨_, (Table.mem_iff_lookup h.names' (e := (k, _))).2 hm', ?_⟩
    exact halike.mem_tokens.1 ht

/-- The same models have the same tokens. -/
theorem SameModels.vocabularyOf (h : SameModels ms ms') : vocabularyOf ms = vocabularyOf ms' :=
  congrArg List.length (sortedSet_congr fun _ => ⟨h.mem_tokens, h.symm.mem_tokens⟩)

theorem SameModels.isEmpty (h : SameModels ms ms') : ms.isEmpty = ms'.isEmpty := by
  rw [Bool.eq_iff_iff, List.isEmpty_iff, List.isEmpty_iff, Table.eq_nil_iff_lookup,
    Table.eq_nil_iff_lookup]
  refine forall_congr' fun k => ?_
  have hk := h.alike k
  generalize ms.lookup k = o at hk
  generalize ms'.lookup k = o' at hk
  cases hk <;> simp

end KnowledgeBase

/-! ## The two bases -/

namespace Payload

variable {p p' : Payload} {bound : Nat}

theorem Parts.sameModels {parts : p.Parts bound} {parts' : p'.Parts bound} (h : p.Reordered p') :
    KnowledgeBase.SameModels parts.base.models parts'.base.models :=
  ⟨KnowledgeBase.nodup_putAll _, KnowledgeBase.nodup_putAll _, models_rel h⟩

/-- The bases of two orders give the same answers, however their sets are listed. -/
theorem Parts.agrees {parts : p.Parts bound} {parts' : p'.Parts bound} (h : p.Reordered p')
    (hi : parts.base.Indexed) (hi' : parts'.base.Indexed) {a b : KnowledgeBase}
    (ha : parts.base.Relisted a) (hb : parts'.base.Relisted b) : a.Agrees b := by
  have hmodels : KnowledgeBase.SameModels parts.base.models parts'.base.models := sameModels h
  have hblocks : parts.blocks = parts'.blocks := blocks_eq_blocks h
  refine (ha.indexed hi).agrees (hb.indexed hi') ?_ (fun n => ?_) (fun e => ?_) (fun n => ?_) ?_
    (fun n => ?_) ?_ ?_
  · rw [ha.languages, hb.languages, languages_eq_languages h hi]
  · rw [KnowledgeBase.language?, KnowledgeBase.language?, ha.byName, hb.byName]
    exact lookup_eq h id _
  · rw [KnowledgeBase.rulesFor, KnowledgeBase.rulesFor, ha.heuristics, hb.heuristics, base, base,
      KnowledgeBase.assemble, KnowledgeBase.assemble, hblocks]
  · rw [KnowledgeBase.rulesOf, KnowledgeBase.rulesOf, ha.attached, hb.attached, base, base,
      KnowledgeBase.assemble, KnowledgeBase.assemble, hblocks]
    exact congrArg (Option.getD · [])
      (lookup_eq h (fun l => KnowledgeBase.rulesNaming (lower l.name) parts'.blocks) _)
  · rw [ha.exclusionRules, hb.exclusionRules]
    exact rules_eq_rules h
  · rw [KnowledgeBase.model?, KnowledgeBase.model?, ha.models, hb.models]
    exact hmodels.alike _
  · rw [KnowledgeBase.hasModels, KnowledgeBase.hasModels, ha.models, hb.models, hmodels.isEmpty]
  · rw [ha.vocabulary, hb.vocabulary]
    exact hmodels.vocabularyOf

/-- **The order of declarations** makes no difference: definitions in another order are accepted, and
all answers and all identifications are the same, whatever the order in which the sets of languages
are listed and gone through. -/
theorem build_reordered {kb : KnowledgeBase} (h : p.build bound = .ok kb) (hp : p.Reordered p') :
    ∃ kb', p'.build bound = .ok kb' ∧ ∀ a b, kb.Relisted a → kb'.Relisted b →
      a.Agrees b ∧
      (∀ settings, (Identifier.make a settings).map Identifier.identify =
        (Identifier.make b settings).map Identifier.identify) ∧
      ∀ file stages listing, listing.Perm (a.after file stages).members →
        Candidates.ofList listing (a.after file stages).isUniverse = a.after file stages := by
  obtain ⟨kb', h'⟩ := (build_accepts p' bound).1.2 (hp.valid (valid_of_build h))
  refine ⟨kb', h', fun a b ha hb => ?_⟩
  have hi := indexed_of_build h
  have hi' := indexed_of_build h'
  obtain ⟨parts, -, rfl⟩ := build_eq_assemble h
  obtain ⟨parts', -, rfl⟩ := build_eq_assemble h'
  have hagrees := Parts.agrees hp hi hi' ha hb
  refine ⟨hagrees, Identifier.identify_of_agrees hagrees, fun file stages listing hlisting => ?_⟩
  exact KnowledgeBase.ofList_of_reached (ha.indexed hi)
    (KnowledgeBase.reached_after (ha.indexed hi) stages) hlisting

/-- Two languages with a file name in common, and counts for one of them under two spellings. -/
def twoSpellings : Payload where
  languages := [("B", { category := "programming", filenames := ["x"] }),
    ("A", { category := "programming", filenames := ["x"] })]
  counts := [("A", [("t", 1)]), ("a", [("u", 2)])]

/-- The same, each list from its end. -/
def twoSpellingsBackwards : Payload where
  languages := twoSpellings.languages.reverse
  counts := twoSpellings.counts.reverse

theorem twoSpellings_reordered : twoSpellings.Reordered twoSpellingsBackwards ∧
    ∃ kb kb', twoSpellings.build 10 = .ok kb ∧ twoSpellingsBackwards.build 10 = .ok kb' ∧
      kb.models ≠ kb'.models ∧ kb.Agrees kb' := by
  have hp : twoSpellings.Reordered twoSpellingsBackwards :=
    ⟨(List.reverse_perm _).symm, (List.reverse_perm _).symm, .refl _, rfl, rfl, rfl, rfl⟩
  obtain ⟨kb, hkb⟩ : ∃ kb, twoSpellings.build 10 = .ok kb := ⟨_, rfl⟩
  obtain ⟨kb', hkb', hsame⟩ := build_reordered hkb hp
  refine ⟨hp, kb, kb', hkb, hkb', ?_, (hsame kb kb' (.refl kb) (.refl kb')).1⟩
  obtain rfl := Except.ok.inj hkb
  obtain rfl := Except.ok.inj hkb'
  decide +kernel

end Payload

end LangId
