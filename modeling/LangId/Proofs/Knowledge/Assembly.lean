import LangId.Proofs.Knowledge.Faults
import LangId.Proofs.Knowledge.Training

/-!
# How a knowledge base is put together

The other lemmas on building say that something is built; here it is said what. A base that
`KnowledgeBase.make` accepts is the one that `assemble` puts together (`make_eq_assemble`). Of the
languages, the other parts of the definitions see no more than the declared form of a name: if every
declared name keeps its form (`Declared.Extends`), rules and models stay as they are
(`heuristics_of_extends`, `models_of_extends`).

**Results.**
* `Payload.build_eq_assemble`: what building has put together, part by part.
* `Payload.Parts.lookup_models_eq_some`: the model of a language is the one that was made for it.
-/
namespace LangId

open Text

namespace KnowledgeBase

variable {languages : List Language} {blocks : List HeuristicBlock} {rules : List ExclusionRule}
  {models : List (String × Model)} {kb : KnowledgeBase}

/-- A knowledge base of checked parts. -/
def assemble (languages : List Language) (blocks : List HeuristicBlock)
    (rules : List ExclusionRule) (models : List (String × Model)) : KnowledgeBase where
  languages := languages.mergeSort Candidates.byName
  byName := languages.map fun l => (lower l.name, l)
  extensionIndex := Index.ofLanguages (fun l => sortedSet (l.extensions.map lower)) languages
  filenameIndex := Index.ofLanguages (·.filenames) languages
  interpreterIndex := Index.ofLanguages (·.interpreters) languages
  modeIndex := Index.ofLanguages (fun l => sortedSet (l.modes.map lower)) languages
  heuristics := rulesByExtension blocks
  attached := languages.map fun l => (lower l.name, rulesNaming (lower l.name) blocks)
  exclusionRules := rules
  models := putAll (models.map fun m => (lower m.1, m.2))
  vocabulary := vocabularyOf (putAll (models.map fun m => (lower m.1, m.2)))

theorem make_eq_assemble (h : make languages blocks rules models = .ok kb) :
    kb = assemble languages blocks rules models := by
  obtain ⟨byName, hd, h⟩ := bind_eq_ok.1 h
  obtain ⟨rfl, hnodup⟩ := declared_eq_ok.1 hd
  have hall : (languages.map fun l => (lower l.name, l)).map (·.2) = languages := by
    rw [List.map_map]
    exact List.map_id languages
  -- the two checks end in an error or let the base through
  dsimp only at h
  split at h
  · cases h
  split at h
  · cases h
  rw [hall, List.map_map] at h
  exact (pure_eq_ok.1 h).symm

/-- With keys that are told apart, every value stays under its key. -/
theorem lookup_putAll_eq_some {α : Type} {entries : List (String × α)} {k : String} {v : α}
    (h : (entries.map (·.1)).Nodup) : (putAll entries).lookup k = some v ↔ (k, v) ∈ entries := by
  refine ⟨mem_of_lookup_putAll, fun hmem => ?_⟩
  cases hv : (putAll entries).lookup k with
  | none => exact absurd (List.mem_map.2 ⟨_, hmem, rfl⟩) (lookup_putAll_eq_none.1 hv)
  | some w =>
    have hw := (Table.mem_iff_lookup h).1 (mem_of_lookup_putAll hv)
    rw [← hw]
    exact (Table.mem_iff_lookup h).1 hmem

theorem put_eq_upsert {α : Type} (key : String) (value : α) (entries : List (String × α)) :
    put key value entries = Table.upsert key (fun _ => value) entries := by
  induction entries with
  | nil => rfl
  | cons entry rest ih => simp [put, Table.upsert, ih]

/-- Whatever is put, keys are told apart. -/
theorem nodup_putAll {α : Type} (entries : List (String × α)) :
    ((putAll entries).map (·.1)).Nodup := by
  have hstep (found : List (String × α)) (entry : String × α) (h : (found.map (·.1)).Nodup) :
      ((put entry.1 entry.2 found).map (·.1)).Nodup := by
    rw [put_eq_upsert]
    exact Table.nodup_upsert h
  exact List.foldlRecOn (motive := fun found : List (String × α) => (found.map (·.1)).Nodup)
    entries _ (b := []) List.nodup_nil fun found hfound entry _ => hstep found entry hfound

end KnowledgeBase

namespace Build

/-! ## Declared names -/

/-- Every declared name keeps its form. -/
def Declared.Extends (d d' : Declared) : Prop :=
  ∀ n found, d.find? n = some found → d'.find? n = some found

variable {declared declared' : Declared} {languages : List Language}

/-- Where names are told apart, the declared form of a name is the name of its language. -/
theorem find?_declaredNames_eq_some (h : (languages.map fun l => lower l.name).Nodup)
    {n found : String} : (declaredNames languages).find? n = some found ↔
      ∃ l ∈ languages, l.name = found ∧ lower l.name = lower n := by
  have hkeys : ((languages.map fun l => (lower l.name, l.name)).map (·.1)).Nodup := by
    rwa [List.map_map]
  rw [Declared.find?, declaredNames, KnowledgeBase.lookup_putAll_eq_some hkeys, List.mem_map]
  simp only [Prod.mk.injEq]
  exact exists_congr fun l => and_congr_right fun _ => and_comm

/-- Where names are told apart, an accepted language more lets all others keep their forms. -/
theorem extends_of_subset {languages' : List Language}
    (h : (languages.map fun l => lower l.name).Nodup)
    (h' : (languages'.map fun l => lower l.name).Nodup) (hsub : languages ⊆ languages') :
    (declaredNames languages).Extends (declaredNames languages') := by
  intro n found hfound
  obtain ⟨l, hl, hname⟩ := (find?_declaredNames_eq_some h).1 hfound
  exact (find?_declaredNames_eq_some h').2 ⟨l, hsub hl, hname⟩

/-! ## Rules and models -/

theorem rule_of_extends (hd : declared.Extends declared') {named : List (String × Regex.Pattern)}
    {source : String} {extensions : List String} {e : RuleEntry} {order : Nat} {r : HeuristicRule}
    (h : rule declared named source extensions e order = .ok r) :
    rule declared' named source extensions e order = .ok r := by
  obtain ⟨languages, hl, h⟩ := bind_eq_ok.1 h
  refine bind_eq_ok.2 ⟨languages, mapM_of_imp (fun n found hn => ?_) hl, h⟩
  rw [ruleLanguage, hd n found (ruleLanguage_eq_ok hn)]

theorem block_of_extends (hd : declared.Extends declared') {named : List (String × Regex.Pattern)}
    {found found' : List HeuristicBlock × List String} {b : BlockEntry}
    (h : block declared named found b = .ok found') :
    block declared' named found b = .ok found' := by
  obtain ⟨rules, hrules, h⟩ := bind_eq_ok.1 h
  exact bind_eq_ok.2 ⟨rules, mapM_of_imp (fun _ _ hr => rule_of_extends hd hr) hrules, h⟩

theorem heuristics_of_extends (hd : declared.Extends declared') {e : HeuristicsEntry}
    {blocks : List HeuristicBlock} (h : heuristics declared e = .ok blocks) :
    heuristics declared' e = .ok blocks := by
  obtain ⟨named, hnamed, h⟩ := bind_eq_ok.1 h
  obtain ⟨found, hfound, h⟩ := bind_eq_ok.1 h
  exact bind_eq_ok.2 ⟨named, hnamed, bind_eq_ok.2
    ⟨found, foldlM_of_imp (fun _ _ _ hb => block_of_extends hd hb) hfound, h⟩⟩

theorem models_of_extends (hd : declared.Extends declared') {bound : Nat} {p p' : Payload}
    (hc : p'.counts = p.counts) (hs : p'.samples = p.samples) {ms : List (String × Model)}
    (h : models declared bound p = .ok ms) : models declared' bound p' = .ok ms := by
  obtain ⟨counted, hcounted, h⟩ := bind_eq_ok.1 h
  obtain ⟨tallies, htallies, h⟩ := bind_eq_ok.1 h
  refine bind_eq_ok.2 ⟨counted, ?_, bind_eq_ok.2 ⟨tallies, ?_, h⟩⟩
  · rw [hc]
    refine foldlM_of_imp (fun ts t ts' ht => ?_) hcounted
    obtain ⟨found, hfound, -, -⟩ := addCounts_eq_ok ht
    rw [← ht, addCounts, addCounts, hfound, hd _ _ hfound]
  · rw [hs]
    refine foldlM_of_imp (fun ts s ts' hs => ?_) htallies
    obtain ⟨found, hfound, -⟩ := addSamples_eq_ok hs
    rw [← hs, addSamples, addSamples, hfound, hd _ _ hfound]

end Build

/-! ## What building puts together -/

namespace Payload

variable {p : Payload} {bound : Nat} {kb : KnowledgeBase}

/-- The parts that a knowledge base is built from. -/
structure Parts (p : Payload) (bound : Nat) where
  languages : List Language
  blocks : List HeuristicBlock
  rules : List ExclusionRule
  models : List (String × Model)
  languages_eq : p.languages.mapM (fun x => Build.language x.1 x.2) = .ok languages
  names : (languages.map fun l => lower l.name).Nodup
  blocks_eq : Build.heuristics (Build.declaredNames languages) p.heuristics = .ok blocks
  rules_eq : Build.exclusionRules p = .ok rules
  models_eq : Build.models (Build.declaredNames languages) bound p = .ok models

/-- The base that the parts make. -/
def Parts.base (parts : p.Parts bound) : KnowledgeBase :=
  .assemble parts.languages parts.blocks parts.rules parts.models

/-- **What building puts together.** -/
theorem build_eq_assemble (h : p.build bound = .ok kb) : ∃ parts : p.Parts bound,
    KnowledgeBase.make parts.languages parts.blocks parts.rules parts.models = .ok kb ∧
      kb = parts.base := by
  obtain ⟨languages, blocks, rules, models, hl, hb, hr, hm, hmake⟩ := build_eq_ok h
  refine ⟨⟨languages, blocks, rules, models, hl, (KnowledgeBase.make_eq_ok hmake).1, hb, hr, hm⟩,
    hmake, KnowledgeBase.make_eq_assemble hmake⟩

theorem indexed_of_build (h : p.build bound = .ok kb) : kb.Indexed := by
  obtain ⟨parts, hmake, -⟩ := build_eq_assemble h
  exact KnowledgeBase.indexed_of_make hmake

namespace Parts

variable (parts : p.Parts bound)

/-- A model is kept under the declared form of a name. -/
theorem find?_of_mem_models {m : String × Model} (hm : m ∈ parts.models) :
    (Build.declaredNames parts.languages).find? m.1 = some m.1 := by
  obtain ⟨n, hn⟩ := (Build.models_eq_ok parts.models_eq).2.2 m hm
  obtain ⟨l, hl, hname, -⟩ := Build.find?_declaredNames hn
  exact (Build.find?_declaredNames_eq_some parts.names).2 ⟨l, hl, hname, by rw [hname]⟩

/-- The names of models are told apart in lower case, too. -/
theorem model_keys : ((parts.models.map fun m => (lower m.1, m.2)).map (·.1)).Nodup := by
  rw [List.map_map]
  refine List.Pairwise.map _ (fun _ _ h => h) ?_
  refine List.Pairwise.imp_of_mem (fun {a b} ha hb hne heq => hne ?_)
    (List.pairwise_map.1 (Build.nodup_of_models parts.models_eq))
  have hsame : (Build.declaredNames parts.languages).find? a.1 =
      (Build.declaredNames parts.languages).find? b.1 :=
    congrArg (List.lookup · (Build.declaredNames parts.languages)) heq
  rw [parts.find?_of_mem_models ha, parts.find?_of_mem_models hb] at hsame
  exact Option.some.inj hsame

/-- **The model of a language** is the one that was made for it. -/
theorem lookup_models_eq_some {k : String} {m : Model} :
    parts.base.models.lookup k = some m ↔ ∃ n, (n, m) ∈ parts.models ∧ lower n = k := by
  rw [base, KnowledgeBase.assemble, KnowledgeBase.lookup_putAll_eq_some parts.model_keys,
    List.mem_map]
  simp only [Prod.exists, Prod.mk.injEq]
  constructor
  · rintro ⟨n, m', hmem, hname, rfl⟩
    exact ⟨n, hmem, hname⟩
  · rintro ⟨n, hmem, hname⟩
    exact ⟨n, m, hmem, hname, rfl⟩

end Parts

end Payload

end LangId
