import LangId.Proofs.Knowledge.Building

/-!
# What can be wrong with definitions

`Payload.Fault` says in terms of the definitions alone what each error is about: the entry that is
wrong, and the part of the definitions that the error is told of.

**Results.**
* `build_eq_error_cases`: building fails at one of its parts, or at the last check of names.
* `build_eq_error`: every error of building is a fault of the definitions.
-/
namespace LangId

open Text

namespace Payload

/-- Whether a language is declared, in whatever case. -/
def Declares (p : Payload) (name : String) : Prop := ∃ l ∈ p.languages, lower l.1 = lower name

/-- The names of languages in lower case. -/
def nameKeys (p : Payload) : List String := p.languages.map fun l => lower l.1

/-- The extensions of all blocks in lower case. -/
def keys (p : Payload) : List String := p.heuristics.blocks.flatMap (·.keys)

/-- What is wrong with definitions, and the error that tells it. -/
inductive Fault (p : Payload) : BuildError → Prop
  | category {name : String} {e : LanguageEntry} : (name, e) ∈ p.languages →
      Category.ofName? (lower e.category) = none →
      Fault p (.definition (.unknownCategory e.category name))
  | extension {name x : String} {e : LanguageEntry} : (name, e) ∈ p.languages →
      x ∈ e.extensions → Build.isExtension x = false →
      Fault p (.definition (.badExtension x name))
  | named {name : String} {value : OneOrMany} {e : BuildError} :
      (name, value) ∈ p.heuristics.named →
      Dialect.compile value ("named_patterns." ++ name) = .error e → Fault p e
  | rule {b : BlockEntry} {r : RuleEntry} {name : String} : b ∈ p.heuristics.blocks →
      r ∈ b.rules → name ∈ r.languages.toList → ¬p.Declares name →
      Fault p (.definition (.undeclaredInRule name b.source))
  | clause {b : BlockEntry} {c : ClauseEntry} {value : OneOrMany} {e : BuildError} :
      b ∈ p.heuristics.blocks → c ∈ b.clauses → value ∈ c.values →
      Dialect.compile value b.source = .error e → Fault p e
  | reference {b : BlockEntry} {c : ClauseEntry} {name : String} : b ∈ p.heuristics.blocks →
      c ∈ b.clauses → c.namedPattern = some name → name ∉ p.heuristics.named.map (·.1) →
      Fault p (.definition (.unknownPattern name b.source))
  | repeated {b : BlockEntry} {x : String} : b ∈ p.heuristics.blocks → x ∈ b.keys →
      1 < p.keys.count x → Fault p (.definition (.repeatedExtension x b.source))
  | path {kind : ExclusionKind} {q : String} {fault : Regex.Fault} : q ∈ p.pathPatterns kind →
      Regex.Pattern.compile {} (Dialect.adapt q) = .error (.malformed fault) →
      Fault p (.definition (.badPathPattern kind q fault))
  | pathLimit {kind : ExclusionKind} {q : String} {e : Regex.Error} : q ∈ p.pathPatterns kind →
      Regex.Pattern.compile {} (Dialect.adapt q) = .error e → (∀ fault, e ≠ .malformed fault) →
      Fault p (.pattern e)
  | counts {t : String × List (String × Int)} : t ∈ p.counts → ¬p.Declares t.1 →
      Fault p (.definition (.undeclaredCounts t.1))
  | negative {t : String × List (String × Int)} {c : String × Int} : t ∈ p.counts → c ∈ t.2 →
      c.2 < 0 → Fault p (.definition (.negativeCount t.1))
  | samples {s : String × List String} : s ∈ p.samples → ¬p.Declares s.1 →
      Fault p (.definition (.undeclaredSamples s.1))
  | duplicate {name : String} : name ∈ p.languages.map (·.1) →
      1 < p.nameKeys.count (lower name) → Fault p (.definition (.duplicateLanguage name))

/-! ## The parts of building -/

variable {p : Payload} {bound : Nat}

theorem build_eq_ok {kb : KnowledgeBase} (h : p.build bound = .ok kb) :
    ∃ languages blocks rules models,
      p.languages.mapM (fun x => Build.language x.1 x.2) = .ok languages ∧
      Build.heuristics (Build.declaredNames languages) p.heuristics = .ok blocks ∧
      Build.exclusionRules p = .ok rules ∧
      Build.models (Build.declaredNames languages) bound p = .ok models ∧
      KnowledgeBase.make languages blocks rules models = .ok kb := by
  obtain ⟨languages, hl, h⟩ := bind_eq_ok.1 h
  obtain ⟨blocks, hb, h⟩ := bind_eq_ok.1 h
  obtain ⟨rules, hr, h⟩ := bind_eq_ok.1 h
  obtain ⟨models, hm, h⟩ := bind_eq_ok.1 h
  refine ⟨languages, blocks, rules, models, hl, hb, hr, hm, ?_⟩
  split at h
  · rename_i hmake
    rw [hmake, pure_eq_ok.1 h]
  · cases h

/-- The last checks refuse nothing but names. -/
theorem build_eq_error_cases {x : BuildError} (h : p.build bound = .error x) :
    p.languages.mapM (fun x => Build.language x.1 x.2) = .error x ∨
      ∃ languages, p.languages.mapM (fun x => Build.language x.1 x.2) = .ok languages ∧
        (Build.heuristics (Build.declaredNames languages) p.heuristics = .error x ∨
          Build.exclusionRules p = .error x ∨
          Build.models (Build.declaredNames languages) bound p = .error x ∨
          ∃ e, KnowledgeBase.declared languages = .error e ∧ x = .definition e) := by
  rcases bind_eq_error.1 h with h | ⟨languages, hl, h⟩
  · exact .inl h
  refine .inr ⟨languages, hl, ?_⟩
  rcases bind_eq_error.1 h with h | ⟨blocks, hb, h⟩
  · exact .inl h
  rcases bind_eq_error.1 h with h | ⟨rules, hr, h⟩
  · exact .inr (.inl h)
  rcases bind_eq_error.1 h with h | ⟨models, hm, h⟩
  · exact .inr (.inr (.inl h))
  have hname {n found : String}
      (hfound : (Build.declaredNames languages).find? n = some found) :
      ∃ l ∈ languages, l.name = found :=
    (Build.find?_declaredNames hfound).imp fun _ hl => ⟨hl.1, hl.2.1⟩
  split at h
  · cases h
  · rename_i e hmake
    refine .inr (.inr (.inr ⟨e, KnowledgeBase.make_eq_error ?_ ?_ hmake, (Except.error.inj h).symm⟩))
    · intro b hb' r hr' n hn
      obtain ⟨m, hm'⟩ := Build.declared_of_heuristics hb b hb' r hr' n hn
      exact hname hm'
    · intro m hm'
      obtain ⟨n, hn⟩ := (Build.models_eq_ok hm).2.2 m hm'
      exact hname hn

/-! ## Faults in the parts -/

theorem fault_of_clauses {named : List (String × Regex.Pattern)} {b : BlockEntry}
    (hnamed : named.map (·.1) = p.heuristics.named.map (·.1)) (hb : b ∈ p.heuristics.blocks)
    {c : ClauseEntry} (hc : c ∈ b.clauses) {x : BuildError}
    (h : Build.clauses named b.source c = .error x) : p.Fault x := by
  rcases Build.clauses_eq_error h with ⟨value, hv, hx⟩ | ⟨n, hn, hno, rfl⟩
  · exact .clause hb hc hv hx
  · exact .reference hb hc hn (hnamed ▸ hno)

variable {languages : List Language}
  (hl : p.languages.mapM (fun x => Build.language x.1 x.2) = .ok languages)

include hl

/-- What is declared has a declared form. -/
theorem find?_eq_none_iff {name : String} :
    (Build.declaredNames languages).find? name = none ↔ ¬p.Declares name := by
  have hnames := Build.names_of_languages hl
  rw [Build.find?_declaredNames_eq_none]
  constructor
  · rintro hno ⟨l, hmem, heq⟩
    have : l.1 ∈ languages.map (·.name) := hnames ▸ List.mem_map.2 ⟨l, hmem, rfl⟩
    obtain ⟨m, hm, hml⟩ := List.mem_map.1 this
    exact hno m hm (by rw [hml, heq])
  · intro hno l hmem heq
    have : l.name ∈ p.languages.map (·.1) := hnames ▸ List.mem_map.2 ⟨l, hmem, rfl⟩
    obtain ⟨m, hm, hml⟩ := List.mem_map.1 this
    exact hno ⟨m, hm, by rw [hml, heq]⟩

theorem declares_iff {name : String} :
    (∃ found, (Build.declaredNames languages).find? name = some found) ↔ p.Declares name := by
  rw [← Option.ne_none_iff_exists', ne_eq, find?_eq_none_iff hl, Classical.not_not]

theorem fault_of_rule {named : List (String × Regex.Pattern)} {b : BlockEntry}
    (hnamed : named.map (·.1) = p.heuristics.named.map (·.1)) (hb : b ∈ p.heuristics.blocks)
    {r : RuleEntry} (hr : r ∈ b.rules) {i : Nat} {x : BuildError}
    (h : Build.rule (Build.declaredNames languages) named b.source b.keys r i = .error x) :
    p.Fault x := by
  rcases Build.rule_eq_error h with ⟨n, hn, hnone, rfl⟩ | ⟨c, hc, hx⟩
  · exact .rule hb hr hn ((find?_eq_none_iff hl).1 hnone)
  · exact fault_of_clauses hnamed hb (List.mem_flatMap.2 ⟨r, hr, hc⟩) hx

theorem fault_of_heuristics {x : BuildError}
    (h : Build.heuristics (Build.declaredNames languages) p.heuristics = .error x) :
    p.Fault x := by
  rcases Build.heuristics_eq_error h with ⟨n, hn, hx⟩ | ⟨named, hnamed, h⟩
  · exact .named hn hx
  obtain ⟨pre, b, post, found, hsplit, hpre, hx⟩ := foldlM_eq_error h
  have hb : b ∈ p.heuristics.blocks := by simp [hsplit]
  rcases Build.block_eq_error hx with ⟨r, hr, i, hrule⟩ | ⟨e, he, rfl⟩
  · exact fault_of_rule hl (Build.names_of_namedPatterns hnamed) hb hr hrule
  · obtain ⟨hmem, hcount⟩ := Build.count_of_takenExtension? he
    refine .repeated hb hmem (Nat.lt_of_lt_of_le hcount ?_)
    -- what is taken so far are the extensions of the blocks before
    have htaken := (Build.taken_of_blocks hpre).count_eq e
    simp only [List.nil_append] at htaken
    rw [Payload.keys, hsplit]
    simp only [List.flatMap_append, List.flatMap_cons, List.count_append, htaken]
    omega

theorem fault_of_models {x : BuildError}
    (h : Build.models (Build.declaredNames languages) bound p = .error x) : p.Fault x := by
  rcases Build.models_eq_error h with ⟨t, ht, found, hx⟩ | ⟨s, hs, found, hx⟩
  · rcases Build.addCounts_eq_error hx with ⟨hnone, rfl⟩ | ⟨c, hc, hneg, rfl⟩
    · exact .counts ht ((find?_eq_none_iff hl).1 hnone)
    · exact .negative ht hc hneg
  · obtain ⟨hnone, rfl⟩ := Build.addSamples_eq_error hx
    exact .samples hs ((find?_eq_none_iff hl).1 hnone)

theorem nameKeys_eq : p.nameKeys = languages.map fun l => lower l.name := by
  rw [nameKeys]
  change p.languages.map (lower ∘ (·.1)) = languages.map (lower ∘ (·.name))
  rw [← List.map_map, ← List.map_map, Build.names_of_languages hl]

theorem fault_of_declared {e : DefinitionError}
    (h : KnowledgeBase.declared languages = .error e) : p.Fault (.definition e) := by
  have hnames := Build.names_of_languages hl
  obtain ⟨l, hmem, rfl, hcount⟩ := KnowledgeBase.declared_eq_error h
  refine .duplicate (hnames ▸ List.mem_map.2 ⟨l, hmem, rfl⟩) ?_
  rwa [nameKeys_eq hl]

omit hl

theorem fault_of_languages {x : BuildError}
    (h : p.languages.mapM (fun x => Build.language x.1 x.2) = .error x) : p.Fault x := by
  obtain ⟨⟨name, e⟩, hmem, hx⟩ := mapM_eq_error h
  rcases Build.language_eq_error hx with ⟨hnone, rfl⟩ | ⟨extension, he, hform, rfl⟩
  · exact .category hmem hnone
  · exact .extension hmem he hform

theorem fault_of_exclusionRules {x : BuildError} (h : Build.exclusionRules p = .error x) :
    p.Fault x := by
  obtain ⟨kind, q, hq, hx⟩ := Build.exclusionRules_eq_error h
  rcases Build.exclusionRule_eq_error hx with ⟨fault, hf, rfl⟩ | ⟨e, he, hno, rfl⟩
  · exact .path hq hf
  · exact .pathLimit hq he hno

/-- **Errors.** Every error of building tells a fault of the definitions. -/
theorem build_eq_error {x : BuildError} (h : p.build bound = .error x) : p.Fault x := by
  rcases build_eq_error_cases h with h | ⟨languages, hl, h | h | h | ⟨e, hd, rfl⟩⟩
  · exact fault_of_languages h
  · exact fault_of_heuristics hl h
  · exact fault_of_exclusionRules h
  · exact fault_of_models hl h
  · exact fault_of_declared hl hd

end Payload

end LangId
