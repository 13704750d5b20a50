import LangId.Proofs.Dialect.Compile
import LangId.Proofs.Knowledge.Faults

/-!
# Valid definitions

`Payload.Valid` lists what definitions have to be like, with nothing in it about the order of the
checks. Building accepts exactly the valid definitions (`build_accepts`): what is built is valid, and
what is valid has no fault that an error could tell of.
-/
namespace LangId.Payload

open Text

/-- What definitions have to be like. -/
structure Valid (p : Payload) : Prop where
  /-- Categories are known, in whatever case. -/
  categories : ∀ l ∈ p.languages, ∃ c : Category, lower l.2.category = c.name
  /-- Extensions are a dot and at least one character. -/
  extensions : ∀ l ∈ p.languages, ∀ x ∈ l.2.extensions, ∃ c rest, x.toList = '.' :: c :: rest
  /-- Names differ under lower-casing. -/
  names : p.nameKeys.Nodup
  /-- Rules and training data are about declared languages. -/
  ruleLanguages : ∀ b ∈ p.heuristics.blocks, ∀ r ∈ b.rules, ∀ n ∈ r.languages.toList, p.Declares n
  countLanguages : ∀ t ∈ p.counts, p.Declares t.1
  sampleLanguages : ∀ s ∈ p.samples, p.Declares s.1
  /-- Patterns can be read. -/
  named : ∀ n ∈ p.heuristics.named, Dialect.Compiles n.2
  clauses : ∀ b ∈ p.heuristics.blocks, ∀ c ∈ b.clauses, ∀ value ∈ c.values, Dialect.Compiles value
  paths : ∀ kind, ∀ q ∈ p.pathPatterns kind,
    ∃ pattern, Regex.Pattern.compile {} (Dialect.adapt q) = .ok pattern
  /-- Named patterns are there. -/
  references : ∀ b ∈ p.heuristics.blocks, ∀ c ∈ b.clauses, ∀ n, c.namedPattern = some n →
    n ∈ p.heuristics.named.map (·.1)
  /-- No extension belongs to two blocks, or twice to one. -/
  keys : p.keys.Nodup
  /-- Counts are not negative. -/
  counts : ∀ t ∈ p.counts, ∀ c ∈ t.2, 0 ≤ c.2

theorem ofName?_eq_some {s : String} {c : Category} :
    Category.ofName? s = some c ↔ s = c.name := by
  constructor
  · intro h
    have := List.find?_some h
    exact (eq_of_beq this).symm
  · rintro rfl
    exact Category.ofName?_name c

theorem ofName?_eq_none {s : String} :
    Category.ofName? s = none ↔ ¬∃ c : Category, s = c.name := by
  simp only [← ofName?_eq_some, Option.eq_none_iff_forall_ne_some, not_exists]

theorem isExtension_iff {x : String} :
    Build.isExtension x = true ↔ ∃ c rest, x.toList = '.' :: c :: rest := by
  unfold Build.isExtension
  split
  · rename_i c rest h
    exact iff_of_true rfl ⟨c, rest, h⟩
  · rename_i hno
    exact iff_of_false nofun fun ⟨c, rest, h⟩ => hno c rest h

/-! ## What can be checked -/

instance (p : Payload) (name : String) : Decidable (p.Declares name) :=
  inferInstanceAs (Decidable (∃ l ∈ p.languages, lower l.1 = lower name))

instance (s : String) : Decidable (∃ c : Category, s = c.name) :=
  decidable_of_iff ((Category.ofName? s).isSome = true) <| by
    simp only [Option.isSome_iff_exists, ofName?_eq_some]

instance (x : String) : Decidable (∃ c rest, x.toList = '.' :: c :: rest) :=
  decidable_of_iff _ isExtension_iff

instance (value : OneOrMany) : Decidable (Dialect.Compiles value) :=
  decidable_of_iff ((Dialect.compile value "").toOption.isSome = true) <| by
    simp only [Option.isSome_iff_exists, toOption_eq_some, Dialect.compiles_iff]

/-! ## Rules -/

/-- A rule of an extension comes from a block. -/
theorem mem_rulesFor {kb : KnowledgeBase} {blocks : List HeuristicBlock} {x : String}
    {r : HeuristicRule} (hkb : kb.heuristics = KnowledgeBase.rulesByExtension blocks)
    (hr : r ∈ kb.rulesFor x) : ∃ b ∈ blocks, r ∈ b.rules := by
  unfold KnowledgeBase.rulesFor at hr
  rw [hkb] at hr
  cases hlookup : (KnowledgeBase.rulesByExtension blocks).lookup (lower x) with
  | none => simp [hlookup] at hr
  | some rules =>
    obtain ⟨b, hb, hmem⟩ := List.mem_flatMap.1 (KnowledgeBase.mem_of_lookup_putAll hlookup)
    obtain ⟨e, -, heq⟩ := List.mem_map.1 hmem
    refine ⟨b, hb, ?_⟩
    rw [(Prod.mk.inj heq).2]
    simpa [hlookup] using hr

variable {p : Payload} {bound : Nat}

/-! ## What is built is valid -/

theorem valid_blocks {languages : List Language} {blocks : List HeuristicBlock}
    (hl : p.languages.mapM (fun x => Build.language x.1 x.2) = .ok languages)
    (h : Build.heuristics (Build.declaredNames languages) p.heuristics = .ok blocks) :
    (∀ n ∈ p.heuristics.named, Dialect.Compiles n.2) ∧ p.keys.Nodup ∧
      ∀ b ∈ p.heuristics.blocks,
        (∀ r ∈ b.rules, ∀ n ∈ r.languages.toList, p.Declares n) ∧
        ∀ c ∈ b.clauses, (∀ value ∈ c.values, Dialect.Compiles value) ∧
          ∀ n, c.namedPattern = some n → n ∈ p.heuristics.named.map (·.1) := by
  obtain ⟨named, found, hnamed, hfound, -⟩ := Build.heuristics_eq_ok h
  have hrules : ∀ b ∈ p.heuristics.blocks, ∀ r ∈ b.rules, ∃ i q,
      Build.rule (Build.declaredNames languages) named b.source b.keys r i = .ok q := by
    refine forall_of_foldlM (fun f b f' hb r hr => ?_) hfound
    obtain ⟨rules, hrules, -, -⟩ := Build.block_eq_ok hb
    rw [← List.zipIdx_map_fst 0 b.rules] at hr
    obtain ⟨⟨r, i⟩, hi, rfl⟩ := List.mem_map.1 hr
    obtain ⟨q, hq⟩ := mapM_eq_ok.1 ⟨_, hrules⟩ _ hi
    exact ⟨i, q, hq⟩
  refine ⟨fun n hn => ?_, ?_, fun b hb => ⟨fun r hr n hn => ?_, fun c hc => ?_⟩⟩
  · obtain ⟨q, hq⟩ := mapM_eq_ok.1 ⟨_, hnamed⟩ n hn
    obtain ⟨pattern, hpattern, -⟩ := bind_eq_ok.1 hq
    exact Dialect.compiles_iff.1 ⟨pattern, hpattern⟩
  · have hperm := Build.taken_of_blocks hfound
    exact hperm.nodup_iff.1 (Build.nodup_of_blocks hfound List.nodup_nil)
  · obtain ⟨i, q, hq⟩ := hrules b hb r hr
    exact (declares_iff hl).1 ((Build.rule_eq_ok hq).1 n hn)
  · obtain ⟨r, hr, hc⟩ := List.mem_flatMap.1 hc
    obtain ⟨i, q, hq⟩ := hrules b hb r hr
    obtain ⟨cs, hcs⟩ := (Build.rule_eq_ok hq).2.1 c hc
    obtain ⟨hvalues, hnames⟩ := Build.clauses_eq_ok hcs
    refine ⟨fun value hv => Dialect.compiles_iff.1 (hvalues value hv), fun n hn => ?_⟩
    rw [← Build.names_of_namedPatterns hnamed]
    exact hnames n hn

/-- What is built is valid. -/
theorem valid_of_build {kb : KnowledgeBase} (h : p.build bound = .ok kb) : p.Valid := by
  obtain ⟨languages, blocks, rules, models, hl, hb, hr, hm, hmake⟩ := build_eq_ok h
  have hlanguages := fun l hmem => mapM_eq_ok.1 ⟨_, hl⟩ l hmem
  obtain ⟨hnamed, hkeys, hblocks⟩ := valid_blocks hl hb
  obtain ⟨hcounts, hsamples, -⟩ := Build.models_eq_ok hm
  refine {
    categories := fun l hmem => ?_
    extensions := fun l hmem x hx => ?_
    names := ?_
    ruleLanguages := fun b hb => (hblocks b hb).1
    countLanguages := fun t ht => (declares_iff hl).1 (hcounts t ht).1
    sampleLanguages := fun s hs => (declares_iff hl).1 (hsamples s hs)
    named := hnamed
    clauses := fun b hb c hc => ((hblocks b hb).2 c hc).1
    paths := fun kind q hq => ?_
    references := fun b hb c hc => ((hblocks b hb).2 c hc).2
    keys := hkeys
    counts := fun t ht => (hcounts t ht).2 }
  · obtain ⟨m, hlanguage⟩ := hlanguages l hmem
    exact (Build.language_eq_ok hlanguage).1.imp fun c hc => ofName?_eq_some.1 hc
  · obtain ⟨m, hlanguage⟩ := hlanguages l hmem
    exact isExtension_iff.1 ((Build.language_eq_ok hlanguage).2.1 x hx)
  · rw [nameKeys_eq hl]
    exact (KnowledgeBase.make_eq_ok hmake).1
  · obtain ⟨r, hrule⟩ := Build.exclusionRules_eq_ok hr kind q hq
    exact Build.exclusionRule_eq_ok hrule

/-- The rules of a base that is built confirm declared languages, under the declared names. -/
theorem declared_of_build {kb : KnowledgeBase} (h : p.build bound = .ok kb) {x : String}
    {r : HeuristicRule} (hr : r ∈ kb.rulesFor x) : ∀ n ∈ r.languages, n ∈ p.languages.map (·.1) := by
  obtain ⟨languages, blocks, rules, models, hl, hb, -, -, hmake⟩ := build_eq_ok h
  obtain ⟨b, hb', hr'⟩ := mem_rulesFor (KnowledgeBase.make_eq_ok hmake).2.2.2.2.2.2 hr
  intro n hn
  obtain ⟨m, hm⟩ := Build.declared_of_heuristics hb b hb' r hr' n hn
  obtain ⟨l, hmem, rfl, -⟩ := Build.find?_declaredNames hm
  rw [← Build.names_of_languages hl]
  exact List.mem_map.2 ⟨l, hmem, rfl⟩

/-! ## What is valid is built -/

theorem compile_ne_error {value : OneOrMany} {source : String} {e : BuildError}
    (h : Dialect.Compiles value) : Dialect.compile value source ≠ .error e := by
  obtain ⟨q, hq⟩ : ∃ q, Dialect.compile value source = .ok q := Dialect.compiles_iff.2 h
  simp [hq]

/-- Valid definitions have no faults: each kind of fault goes against one of the fields. -/
theorem not_fault_of_valid (hv : p.Valid) {e : BuildError} : ¬p.Fault e := by
  intro h
  cases h with
  | category hl hnone => exact ofName?_eq_none.1 hnone (hv.categories _ hl)
  | extension hl hx hform =>
    exact Bool.false_ne_true (hform.symm.trans (isExtension_iff.2 (hv.extensions _ hl _ hx)))
  | named hn he => exact compile_ne_error (hv.named _ hn) he
  | rule hb hr hn hno => exact hno (hv.ruleLanguages _ hb _ hr _ hn)
  | clause hb hc hvalue he => exact compile_ne_error (hv.clauses _ hb _ hc _ hvalue) he
  | reference hb hc hn hno => exact hno (hv.references _ hb _ hc _ hn)
  | repeated hb hx hcount => exact Nat.not_lt.2 (List.nodup_iff_count.1 hv.keys _) hcount
  | path hq he | pathLimit hq he _ =>
    obtain ⟨pattern, hpattern⟩ := hv.paths _ _ hq
    simp [hpattern] at he
  | counts ht hno => exact hno (hv.countLanguages _ ht)
  | negative ht hc hneg => exact Int.not_lt.2 (hv.counts _ ht _ hc) hneg
  | samples hs hno => exact hno (hv.sampleLanguages _ hs)
  | duplicate _ hcount => exact Nat.not_lt.2 (List.nodup_iff_count.1 hv.names _) hcount

theorem exists_build_of_valid (hv : p.Valid) (bound : Nat) : ∃ kb, p.build bound = .ok kb := by
  cases h : p.build bound with
  | ok kb => exact ⟨kb, rfl⟩
  | error e => exact absurd (build_eq_error h) (not_fault_of_valid hv)

/-- **Acceptance.** Building accepts exactly the valid definitions. -/
theorem build_accepts (p : Payload) (bound : Nat) :
    ((∃ kb, p.build bound = .ok kb) ↔ p.Valid) ∧
      ∀ kb, p.build bound = .ok kb → ∀ x, ∀ r ∈ kb.rulesFor x, ∀ n ∈ r.languages,
        n ∈ p.languages.map (·.1) := by
  refine ⟨⟨fun ⟨kb, h⟩ => valid_of_build h, fun hv => ?_⟩, fun kb h x r hr => declared_of_build h hr⟩
  exact exists_build_of_valid hv bound

/-- A language whose rule names it, and its extension, in another case than the declaration. -/
def otherCase : Payload where
  languages := [("Ada", { category := "Programming", extensions := [".ada"] })]
  heuristics := {
    named := [("body", .one "body$")]
    blocks := [{ extensions := [".ADA"]
                 rules := [{ languages := .one "ADA", clause := { namedPattern := some "body" } }] }] }

theorem otherCase_accepted : otherCase.Valid ∧ ∃ kb, otherCase.build 10 = .ok kb ∧
    (kb.rulesFor ".Ada").map (·.languages) = [["Ada"]] ∧
    ∀ r ∈ kb.rulesFor ".Ada", ∀ n ∈ r.languages, n ∈ ["Ada"] := by
  have hrules : ((otherCase.build 10).map fun kb =>
      (kb.rulesFor ".Ada").map (·.languages)).toOption = some [["Ada"]] := by decide +kernel
  cases h : otherCase.build 10 with
  | error e => simp [h, Except.map, Except.toOption] at hrules
  | ok kb =>
    obtain ⟨haccepts, hdeclared⟩ := build_accepts otherCase 10
    refine ⟨haccepts.1 ⟨kb, h⟩, kb, rfl, ?_, hdeclared kb h ".Ada"⟩
    simpa [h, Except.map, Except.toOption] using hrules

end LangId.Payload
