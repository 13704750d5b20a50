import LangId.Proofs.Cascade.Opinions
import LangId.Proofs.Knowledge.Assembly
import LangId.Proofs.Text.Lower
import LangId.Proofs.Dialect.Alternation

/-!
# The first rule that holds

Heuristics are declared in blocks: extensions, and rules in order, each with conditions of four
kinds. A knowledge base keeps none of this form. Its rules stand under extensions in lower case, with
compiled patterns and with languages in their declared spelling, and the stage of heuristics goes
through them by two loops that end in different ways. Here the stage is tied to the declarations.

**What is stated.** `RuleEntry.HoldsOn` says when a declared rule holds for a content, and
`HeuristicsEntry.Decides` that a rule is the first that does, in the block that the longest extension
of a file with any rules leads to.

**Results.**
* `applies_iff`, `names_iff`: a rule that is built holds when the declared one does, and names the
  same languages.
* `lookup_rules`: under an extension stand the rules of the block that lists it.
* `narrow_first_rule`: what the stage leaves.
-/
namespace LangId

open Text

/-! ## Conditions as declared -/

/-- Some of the patterns are found in a content. -/
def OneOrMany.FoundIn (value : OneOrMany) (content : List Char) : Prop :=
  ∃ source q, Dialect.compile value source = .ok q ∧ q.occursIn content = true

/-- The conditions of an entry hold for a content. -/
structure ClauseEntry.HoldsOn (named : List (String × OneOrMany)) (content : List Char)
    (c : ClauseEntry) : Prop where
  pattern : ∀ value, c.pattern = some value → value.FoundIn content
  negative : ∀ value, c.negativePattern = some value → ¬ value.FoundIn content
  named : ∀ n, c.namedPattern = some n → ∃ value, named.lookup n = some value ∧ value.FoundIn content

/-- The conditions of a rule hold for a content; they do if there are none. -/
def RuleEntry.HoldsOn (named : List (String × OneOrMany)) (content : List Char) (r : RuleEntry) :
    Prop :=
  ∀ c ∈ r.clauses, c.HoldsOn named content

/-- A block lists an extension, up to case. -/
def BlockEntry.Lists (b : BlockEntry) (e : String) : Prop := ∃ x ∈ b.extensions, lower x = lower e

namespace HeuristicsEntry

/-- Some block with rules lists an extension. -/
def HasRules (h : HeuristicsEntry) (e : String) : Prop := ∃ b ∈ h.blocks, b.Lists e ∧ b.rules ≠ []

/-- A block lists an extension, and its rules begin with some and then one more. -/
def Begins (h : HeuristicsEntry) (e : String) (before : List RuleEntry) (r : RuleEntry) : Prop :=
  ∃ b ∈ h.blocks, b.Lists e ∧ before ++ [r] <+: b.rules

/-- The first rule that holds for a file, of the block that its longest extension with rules leads
to. -/
structure Decides (h : HeuristicsEntry) (file : Sample) (e : String) (before : List RuleEntry)
    (r : RuleEntry) : Prop where
  longest : file.LongestExtension h.HasRules e
  begins : h.Begins e before r
  passed : ∀ q ∈ before, ¬ q.HoldsOn h.named file.content
  holds : r.HoldsOn h.named file.content

end HeuristicsEntry

theorem mem_of_firstApplying? {rules : List HeuristicRule} {content : List Char} {q : HeuristicRule}
    (h : firstApplying? rules content = some q) : q ∈ rules :=
  List.mem_of_find?_eq_some h

/-- A rule names a language, up to case, which is declared with just this name. -/
def Payload.names (p : Payload) (r : RuleEntry) (l : Language) : Bool :=
  p.languages.any (·.1 == l.name) && r.languages.toList.any fun n => lower n == lower l.name

namespace Build

variable {declared : Declared} {entries : List (String × OneOrMany)}
  {named : List (String × Regex.Pattern)} {source : String} {content : List Char}

/-! ## Conditions as built -/

theorem foundIn_iff {value : OneOrMany} {q : Regex.Pattern}
    (h : Dialect.compile value source = .ok q) :
    value.FoundIn content ↔ q.occursIn content = true := by
  constructor
  · rintro ⟨source', q', hq', hfound⟩
    have hsame := (Dialect.compile_eq_ok.1 hq').2
    rw [(Dialect.compile_eq_ok.1 h).2] at hsame
    rwa [Except.ok.inj hsame]
  · intro hfound
    exact ⟨source, q, h, hfound⟩

theorem foundIn_of_occursIn? {value : OneOrMany} {text : String} {b : Bool}
    (h : Dialect.occursIn? value source text = some b) : value.FoundIn text.toList ↔ b = true := by
  obtain ⟨q, hq, rfl⟩ := Dialect.occursIn?_eq_some.1 h
  exact foundIn_iff hq

theorem holds_of_clause {negated : Bool} {o : Option OneOrMany} {cs : List Clause}
    (h : clause source negated o = .ok cs) :
    (∀ k ∈ cs, k.holds content = true) ↔
      ∀ value, o = some value → (value.FoundIn content ↔ negated = false) := by
  cases o with
  | none =>
    obtain rfl := Except.ok.inj h
    exact iff_of_true nofun nofun
  | some value =>
    obtain ⟨q, hq, rfl⟩ := map_eq_ok.1 h
    simp only [Option.some.injEq, forall_eq', List.mem_singleton, forall_eq, foundIn_iff hq,
      Clause.holds]
    cases q.occursIn content <;> cases negated <;> decide

/-- A named pattern is compiled under its name. -/
theorem lookup_namedPatterns {e : HeuristicsEntry} (h : namedPatterns e = .ok named) {n : String}
    {q : Regex.Pattern} (hq : named.lookup n = some q) :
    ∃ value source, e.named.lookup n = some value ∧ Dialect.compile value source = .ok q := by
  unfold namedPatterns at h
  generalize e.named = entries at h ⊢
  induction entries generalizing named with
  | nil =>
    obtain rfl := pure_eq_ok.1 h
    cases hq
  | cons entry rest ih =>
    obtain ⟨first, behind, hfirst, hbehind, rfl⟩ := mapM_cons_eq_ok.1 h
    obtain ⟨pattern, hpattern, hpair⟩ := bind_eq_ok.1 hfirst
    obtain rfl := pure_eq_ok.1 hpair
    rw [Table.lookup_cons] at hq ⊢
    split at hq
    · rename_i hn
      obtain rfl := Option.some.inj hq
      exact ⟨entry.2, _, if_pos hn, hpattern⟩
    · rename_i hn
      rw [if_neg hn]
      exact ih hq hbehind

/-- The clauses of an entry hold when its conditions do. -/
theorem holds_of_clauses {e : HeuristicsEntry} (hnamed : namedPatterns e = .ok named)
    {c : ClauseEntry} {cs : List Clause} (h : clauses named source c = .ok cs) :
    (∀ k ∈ cs, k.holds content = true) ↔ c.HoldsOn e.named content := by
  obtain ⟨positive, hp, h⟩ := bind_eq_ok.1 h
  obtain ⟨negative, hn, h⟩ := bind_eq_ok.1 h
  have hpattern : (∀ k ∈ positive, k.holds content = true) ↔
      ∀ value, c.pattern = some value → value.FoundIn content := by
    rw [holds_of_clause hp]
    simp only [iff_true]
  have hnegative : (∀ k ∈ negative, k.holds content = true) ↔
      ∀ value, c.negativePattern = some value → ¬ value.FoundIn content := by
    rw [holds_of_clause hn]
    simp only [Bool.true_eq_false, iff_false]
  -- the third kind adds a clause or none
  obtain ⟨more, hcs, hmore⟩ : ∃ more, cs = positive ++ negative ++ more ∧
      ((∀ k ∈ more, k.holds content = true) ↔
        ∀ n, c.namedPattern = some n → ∃ value, e.named.lookup n = some value ∧
          value.FoundIn content) := by
    cases hc : c.namedPattern with
    | none =>
      simp only [hc] at h
      exact ⟨[], by rw [List.append_nil, pure_eq_ok.1 h], iff_of_true nofun nofun⟩
    | some n =>
      simp only [hc] at h
      split at h
      · rename_i q hq
        obtain ⟨value, source, hvalue, hcompile⟩ := lookup_namedPatterns hnamed hq
        refine ⟨[⟨q, false⟩], (pure_eq_ok.1 h).symm, ?_⟩
        simp only [List.mem_singleton, forall_eq, Option.some.injEq, forall_eq', hvalue,
          exists_eq_left', foundIn_iff hcompile, Clause.holds]
        cases q.occursIn content <;> decide
      · cases h
  rw [hcs, List.forall_mem_append, List.forall_mem_append, hpattern, hnegative, hmore]
  constructor
  · rintro ⟨⟨hpattern, hnegative⟩, hnamed⟩
    exact ⟨hpattern, hnegative, hnamed⟩
  · intro h
    exact ⟨⟨h.pattern, h.negative⟩, h.named⟩

/-! ## Rules as built -/

variable {extensions : List String} {r : RuleEntry} {order : Nat} {q : HeuristicRule}

/-- A rule that is built applies when the declared one holds. -/
theorem applies_iff {e : HeuristicsEntry} (hnamed : namedPatterns e = .ok named)
    (h : rule declared named source extensions r order = .ok q) :
    q.applies content = true ↔ r.HoldsOn e.named content := by
  obtain ⟨languages, -, h⟩ := bind_eq_ok.1 h
  obtain ⟨own, hown, h⟩ := bind_eq_ok.1 h
  obtain ⟨further, hfurther, h⟩ := bind_eq_ok.1 h
  obtain rfl := pure_eq_ok.1 h
  have hflat : (∀ k ∈ further.flatten, k.holds content = true) ↔
      ∀ c ∈ r.further, c.HoldsOn e.named content := by
    constructor
    · intro hflat c hc
      obtain ⟨cs, hmade⟩ := mapM_eq_ok.1 ⟨_, hfurther⟩ c hc
      have hcs := (mem_mapM hfurther).2 ⟨c, hc, hmade⟩
      exact (holds_of_clauses hnamed hmade).1 fun k hk =>
        hflat k (List.mem_flatten.2 ⟨cs, hcs, hk⟩)
    · intro hc k hk
      obtain ⟨cs, hcs, hk⟩ := List.mem_flatten.1 hk
      obtain ⟨c, hmem, hmade⟩ := mem_of_mapM hfurther hcs
      exact (holds_of_clauses hnamed hmade).2 (hc c hmem) k hk
  rw [HeuristicRule.applies, List.all_eq_true, List.forall_mem_append, holds_of_clauses hnamed hown,
    hflat, RuleEntry.HoldsOn, RuleEntry.clauses, List.forall_mem_cons]

/-- A rule that is built names the languages that the declared one names. -/
theorem names_iff {p : Payload} {languages : List Language}
    (hl : p.languages.mapM (fun x => language x.1 x.2) = .ok languages)
    (hnames : (languages.map fun l => lower l.name).Nodup)
    (h : rule (declaredNames languages) named source extensions r order = .ok q) (l : Language) :
    q.languages.contains l.name = p.names r l := by
  obtain ⟨found, hfound, h⟩ := bind_eq_ok.1 h
  obtain ⟨own, -, h⟩ := bind_eq_ok.1 h
  obtain ⟨further, -, h⟩ := bind_eq_ok.1 h
  obtain rfl := pure_eq_ok.1 h
  have hdeclared (m : String) : (∃ x ∈ p.languages, x.1 = m) ↔ ∃ k ∈ languages, k.name = m := by
    rw [← List.mem_map, ← List.mem_map, names_of_languages hl]
  have hfind {n : String} : ruleLanguage (declaredNames languages) source n = .ok l.name ↔
      (∃ k ∈ languages, k.name = l.name) ∧ lower n = lower l.name := by
    have hok : ruleLanguage (declaredNames languages) source n = .ok l.name ↔
        (declaredNames languages).find? n = some l.name := by
      refine ⟨ruleLanguage_eq_ok, fun hn => ?_⟩
      rw [ruleLanguage, hn]
    rw [hok, find?_declaredNames_eq_some hnames]
    constructor
    · rintro ⟨k, hk, hname, hlower⟩
      exact ⟨⟨k, hk, hname⟩, by rw [← hlower, hname]⟩
    · rintro ⟨⟨k, hk, hname⟩, hlower⟩
      exact ⟨k, hk, hname, by rw [hlower, hname]⟩
  rw [Bool.eq_iff_iff, List.contains_iff_mem, mem_mapM hfound, Payload.names, Bool.and_eq_true,
    List.any_eq_true, List.any_eq_true]
  simp only [beq_iff_eq, hdeclared, hfind]
  constructor
  · rintro ⟨n, hn, hk, hlower⟩
    exact ⟨hk, n, hn, hlower⟩
  · rintro ⟨hk, n, hn, hlower⟩
    exact ⟨n, hn, hk, hlower⟩

/-- The first rule of a block that is built to apply is made from the first that holds. -/
theorem firstApplying?_eq_some {e : HeuristicsEntry} (hnamed : namedPatterns e = .ok named)
    {b : BlockEntry} {rules : List HeuristicRule} (h : blockRules declared named b = .ok rules) :
    firstApplying? rules content = some q ↔ ∃ before r, before ++ [r] <+: b.rules ∧
      (∀ x ∈ before, ¬ x.HoldsOn e.named content) ∧ r.HoldsOn e.named content ∧
      rule declared named b.source b.keys r before.length = .ok q := by
  rw [firstApplying?, find?_of_mapM (P := fun x => x.1.HoldsOn e.named content) h
    fun x q hq => applies_iff hnamed hq]
  constructor
  · rintro ⟨numbered, x, behind, heq, hpassed, hholds, hq⟩
    obtain ⟨before, rest, hrules, rfl, hrest⟩ := List.zipIdx_eq_append_iff.1 heq
    obtain ⟨r, after, rfl, rfl, -⟩ := List.zipIdx_eq_cons_iff.1 hrest.symm
    refine ⟨before, r, ⟨after, ?_⟩, fun y hy => ?_, hholds, ?_⟩
    · rw [hrules, List.append_assoc, List.singleton_append]
    · rw [← List.zipIdx_map_fst 0 before] at hy
      obtain ⟨z, hz, rfl⟩ := List.mem_map.1 hy
      exact hpassed z hz
    · rwa [Nat.zero_add] at hq
  · rintro ⟨before, r, ⟨after, hrules⟩, hpassed, hholds, hq⟩
    refine ⟨before.zipIdx, (r, before.length), after.zipIdx (before.length + 1), ?_, ?_, hholds, hq⟩
    · rw [← hrules, List.append_assoc, List.singleton_append, List.zipIdx_append, List.zipIdx_cons,
        Nat.zero_add]
    · exact fun z hz => hpassed z.1 (List.fst_mem_of_mem_zipIdx hz)

/-! ## Blocks as built -/

variable {blocks : List BlockEntry} {found found' : List HeuristicBlock × List String}

theorem mem_of_blocks (h : blocks.foldlM (block declared named) found = .ok found')
    {made : HeuristicBlock} : made ∈ found'.1 ↔ made ∈ found.1 ∨
      ∃ b ∈ blocks, ∃ rules, blockRules declared named b = .ok rules ∧ made = ⟨b.keys, rules⟩ := by
  induction blocks generalizing found with
  | nil =>
    obtain rfl := pure_eq_ok.1 h
    exact (or_iff_left (by simp)).symm
  | cons b rest ih =>
    rw [List.foldlM_cons] at h
    obtain ⟨next, hnext, hrest⟩ := bind_eq_ok.1 h
    obtain ⟨rules, hrules, -, rfl⟩ := block_eq_ok hnext
    rw [ih hrest, List.mem_cons, or_comm (b := made ∈ found.1), or_assoc]
    refine or_congr_right ?_
    rw [List.exists_mem_cons_iff]
    refine or_congr_left ?_
    simp only [hrules, Except.ok.injEq, exists_eq_left']

/-- The extensions that are taken are those of the blocks, in lower case. -/
theorem taken_eq_extensions (h : blocks.foldlM (block declared named) ([], []) = .ok found') :
    found'.2 = found'.1.flatMap fun made => made.extensions.map lower := by
  refine foldlM_preserves (P := fun f : List HeuristicBlock × List String =>
    f.2 = f.1.flatMap fun made => made.extensions.map lower) (fun f b f' hf hb => ?_) h rfl
  obtain ⟨rules, -, -, rfl⟩ := block_eq_ok hb
  have hkeys : b.keys.map lower = b.keys := by
    rw [BlockEntry.keys, List.map_map]
    exact List.map_congr_left fun x _ => lower_lower x
  dsimp only
  rw [List.flatMap_cons, hkeys, hf]

/-- Under an extension stand the rules of the block that lists it. -/
theorem lookup_rules {e : HeuristicsEntry} {made : List HeuristicBlock}
    (h : heuristics declared e = .ok made) : ∃ named, namedPatterns e = .ok named ∧
      (∀ b ∈ e.blocks, ∃ rules, blockRules declared named b = .ok rules) ∧
      ∀ x rules, (KnowledgeBase.rulesByExtension made).lookup (lower x) = some rules ↔
        ∃ b ∈ e.blocks, b.Lists x ∧ blockRules declared named b = .ok rules := by
  obtain ⟨named, found, hnamed, hfound, rfl⟩ := heuristics_eq_ok h
  refine ⟨named, hnamed, forall_of_foldlM (fun f b f' hb => ?_) hfound, fun x rules => ?_⟩
  · obtain ⟨rules, hrules, -, -⟩ := block_eq_ok hb
    exact ⟨rules, hrules⟩
  have hkeys : ((found.1.reverse.flatMap fun b =>
      b.extensions.map fun x => (lower x, b.rules)).map (·.1)).Nodup := by
    rw [List.map_flatMap]
    simp only [List.map_map]
    refine ((List.reverse_perm _).flatMap_right _).nodup_iff.2 ?_
    have hnodup := nodup_of_blocks hfound List.nodup_nil
    rwa [taken_eq_extensions hfound] at hnodup
  rw [KnowledgeBase.rulesByExtension, KnowledgeBase.lookup_putAll_eq_some hkeys]
  simp only [List.mem_flatMap, List.mem_reverse, mem_of_blocks hfound, List.not_mem_nil, false_or,
    List.mem_map, Prod.mk.injEq]
  constructor
  · rintro ⟨made, ⟨b, hb, rules', hrules, hmade⟩, key, hkey, hx, heq⟩
    subst hmade
    obtain ⟨y, hy, rfl⟩ := List.mem_map.1 hkey
    exact ⟨b, hb, ⟨y, hy, by rw [← hx, lower_lower]⟩, by rw [hrules, ← heq]⟩
  · rintro ⟨b, hb, ⟨y, hy, hx⟩, hrules⟩
    exact ⟨_, ⟨b, hb, rules, hrules, rfl⟩, lower y, List.mem_map.2 ⟨y, hy, rfl⟩,
      by rw [lower_lower, hx], rfl⟩

theorem ne_nil_of_blockRules {b : BlockEntry} {rules : List HeuristicRule}
    (h : blockRules declared named b = .ok rules) : rules ≠ [] ↔ b.rules ≠ [] := by
  unfold blockRules at h
  cases hb : b.rules with
  | nil =>
    rw [hb, List.zipIdx_nil] at h
    obtain rfl := pure_eq_ok.1 h
    exact iff_of_false (fun hne => hne rfl) (fun hne => hne rfl)
  | cons r rest =>
    rw [hb, List.zipIdx_cons] at h
    obtain ⟨first, behind, -, -, rfl⟩ := mapM_cons_eq_ok.1 h
    exact iff_of_true (List.cons_ne_nil _ _) (List.cons_ne_nil _ _)

end Build

/-! ## The stage of heuristics -/

namespace Payload

variable {p : Payload} {bound : Nat} {kb : KnowledgeBase} {file : Sample} {c : Candidates}
  {e : String} {before : List RuleEntry} {r : RuleEntry} {content : List Char}

/-- How the rules of a base come from the blocks of its definitions. -/
theorem rulesFor_of_build (h : p.build bound = .ok kb) : ∃ languages named,
    p.languages.mapM (fun x => Build.language x.1 x.2) = .ok languages ∧
    (languages.map fun l => lower l.name).Nodup ∧ Build.namedPatterns p.heuristics = .ok named ∧
    (∀ {e b}, b ∈ p.heuristics.blocks → b.Lists e →
      Build.blockRules (Build.declaredNames languages) named b = .ok (kb.rulesFor e)) ∧
    ∀ {e}, kb.rulesFor e ≠ [] → ∃ b ∈ p.heuristics.blocks, b.Lists e := by
  obtain ⟨parts, -, rfl⟩ := build_eq_assemble h
  obtain ⟨named, hnamed, hmade, hlookup⟩ := Build.lookup_rules parts.blocks_eq
  refine ⟨parts.languages, named, parts.languages_eq, parts.names, hnamed, ?_, ?_⟩
  · intro e b hb hlists
    obtain ⟨rules, hrules⟩ := hmade b hb
    have hfound : parts.base.heuristics.lookup (lower e) = some rules :=
      (hlookup e rules).2 ⟨b, hb, hlists, hrules⟩
    rwa [KnowledgeBase.rulesFor, hfound, Option.getD_some]
  · intro e hne
    cases hfound : parts.base.heuristics.lookup (lower e) with
    | none =>
      rw [KnowledgeBase.rulesFor, hfound] at hne
      exact absurd rfl hne
    | some rules =>
      obtain ⟨b, hb, hlists, -⟩ := (hlookup e rules).1 hfound
      exact ⟨b, hb, hlists⟩

/-- A base has rules for the extensions that some block with rules lists. -/
theorem rulesFor_ne_nil (h : p.build bound = .ok kb) :
    kb.rulesFor e ≠ [] ↔ p.heuristics.HasRules e := by
  obtain ⟨languages, named, -, -, -, hrules, hlisted⟩ := rulesFor_of_build h
  constructor
  · intro hne
    obtain ⟨b, hb, hlists⟩ := hlisted hne
    exact ⟨b, hb, hlists, (Build.ne_nil_of_blockRules (hrules hb hlists)).1 hne⟩
  · rintro ⟨b, hb, hlists, hne⟩
    exact (Build.ne_nil_of_blockRules (hrules hb hlists)).2 hne

theorem longest_iff (h : p.build bound = .ok kb) :
    file.LongestExtension (fun t => kb.rulesFor t ≠ []) e ↔
      file.LongestExtension p.heuristics.HasRules e := by
  have heq : (fun t => kb.rulesFor t ≠ []) = p.heuristics.HasRules :=
    funext fun t => propext (rulesFor_ne_nil h)
  rw [heq]

/-- The first declared rule that holds gives the first rule of the base that applies, and both name
the same languages. -/
theorem firstApplying?_of_begins (h : p.build bound = .ok kb)
    (hbegins : p.heuristics.Begins e before r)
    (hpassed : ∀ q ∈ before, ¬ q.HoldsOn p.heuristics.named content)
    (hholds : r.HoldsOn p.heuristics.named content) :
    ∃ q, firstApplying? (kb.rulesFor e) content = some q ∧
      ∀ l : Language, q.languages.contains l.name = p.names r l := by
  obtain ⟨languages, named, hl, hnames, hnamed, hrules, -⟩ := rulesFor_of_build h
  obtain ⟨b, hb, hlists, hprefix⟩ := hbegins
  have hmem : (r, before.length) ∈ b.rules.zipIdx := by
    obtain ⟨after, hrules⟩ := hprefix
    rw [List.mk_mem_zipIdx_iff_getElem?, ← hrules, List.append_assoc]
    simp
  obtain ⟨q, hq⟩ := mapM_eq_ok.1 ⟨_, hrules hb hlists⟩ _ hmem
  exact ⟨q, (Build.firstApplying?_eq_some hnamed (hrules hb hlists)).2
    ⟨before, r, hprefix, hpassed, hholds, hq⟩, Build.names_iff hl hnames hq⟩

/-- Where a rule of the base applies, a declared rule of the block holds. -/
theorem begins_of_firstApplying? (h : p.build bound = .ok kb) {q : HeuristicRule}
    (hq : firstApplying? (kb.rulesFor e) content = some q) : ∃ before r,
    p.heuristics.Begins e before r ∧ (∀ x ∈ before, ¬ x.HoldsOn p.heuristics.named content) ∧
      r.HoldsOn p.heuristics.named content := by
  obtain ⟨languages, named, -, -, hnamed, hrules, hlisted⟩ := rulesFor_of_build h
  have hne : kb.rulesFor e ≠ [] := List.ne_nil_of_mem (mem_of_firstApplying? hq)
  obtain ⟨b, hb, hlists⟩ := hlisted hne
  obtain ⟨before, r, hprefix, hpassed, hholds, -⟩ :=
    (Build.firstApplying?_eq_some hnamed (hrules hb hlists)).1 hq
  exact ⟨before, r, ⟨b, hb, hlists, hprefix⟩, hpassed, hholds⟩

/-- A set narrowed by some of its own members. -/
theorem narrow_filter (c : Candidates) (keep : Language → Bool) :
    c.narrow ⟨c.members.filter keep, false⟩ =
      if c.members.filter keep = [] then c else ⟨c.members.filter keep, false⟩ := by
  have hinter : c.inter ⟨c.members.filter keep, false⟩ = c.members.filter keep := by
    refine List.filter_congr fun l hl => ?_
    rw [Bool.eq_iff_iff, Candidates.contains, List.contains_iff_mem, List.mem_filter]
    exact and_iff_right hl
  rw [Candidates.narrow_eq, hinter]
  simp only [Bool.false_eq_true, false_or]

/-- The stage leaves the candidates that the first rule that applies names, or all if it names none. -/
theorem narrow_of_firstApplying? {q : HeuristicRule} (hc : 2 ≤ c.size)
    (hq : firstApplying? (kb.rulesOfExtensions file.extensions) file.content = some q) :
    kb.narrow .heuristics file c =
      if c.members.filter (q.languages.contains ·.name) = [] then c
      else ⟨c.members.filter (q.languages.contains ·.name), false⟩ := by
  have hproposal : kb.proposal? file c .heuristics =
      some ⟨c.members.filter (q.languages.contains ·.name), false⟩ := by
    rw [KnowledgeBase.proposal?, if_neg (Nat.not_le.2 hc), KnowledgeBase.confirmed?, hq,
      Option.map_some]
  rw [← narrow_filter, KnowledgeBase.narrow, KnowledgeBase.narrow?, hproposal]
  rfl

theorem narrow_of_decides (h : p.build bound = .ok kb) (hc : 2 ≤ c.size)
    (hd : p.heuristics.Decides file e before r) : kb.narrow .heuristics file c =
      if c.members.filter (p.names r) = [] then c else ⟨c.members.filter (p.names r), false⟩ := by
  obtain ⟨q, hq, hnames⟩ := firstApplying?_of_begins h hd.begins hd.passed hd.holds
  rw [← KnowledgeBase.rulesOfExtensions_of_longest ((longest_iff h).2 hd.longest)] at hq
  rw [narrow_of_firstApplying? hc hq]
  simp only [hnames]

/-- Without a rule that holds, the stage leaves all candidates. -/
theorem narrow_of_undecided (h : p.build bound = .ok kb)
    (hno : ∀ e before r, ¬ p.heuristics.Decides file e before r) :
    kb.narrow .heuristics file c = c := by
  have hnone : firstApplying? (kb.rulesOfExtensions file.extensions) file.content = none := by
    refine Option.eq_none_iff_forall_ne_some.2 fun q hq => ?_
    obtain ⟨e, he⟩ := KnowledgeBase.longest_of_mem_rulesOfExtensions (mem_of_firstApplying? hq)
    rw [KnowledgeBase.rulesOfExtensions_of_longest he] at hq
    obtain ⟨before, r, hbegins, hpassed, hholds⟩ := begins_of_firstApplying? h hq
    exact hno e before r ⟨(longest_iff h).1 he, hbegins, hpassed, hholds⟩
  apply KnowledgeBase.narrow_of_silent
  rw [KnowledgeBase.proposal?, KnowledgeBase.confirmed?, hnone]
  split <;> rfl

/-- Definitions with other blocks. -/
def withBlocks (p : Payload) (blocks : List BlockEntry) : Payload :=
  { p with heuristics := { p.heuristics with blocks } }

/-- **The first rule that holds** decides. Of at least two candidates, the stage of heuristics leaves
those that the rule names, or all if it names none of them, and all if no rule holds. Rules behind
the one that holds make no difference, nor do other blocks, as long as the same extension leads to
rules that begin in the same way. -/
theorem narrow_first_rule (h : p.build bound = .ok kb) (file : Sample) (hc : 2 ≤ c.size) :
    (∀ {e before r}, p.heuristics.Decides file e before r → kb.narrow .heuristics file c =
      if c.members.filter (p.names r) = [] then c else ⟨c.members.filter (p.names r), false⟩) ∧
    ((∀ e before r, ¬ p.heuristics.Decides file e before r) →
      kb.narrow .heuristics file c = c) ∧
    ∀ {e before r blocks bound' kb'}, p.heuristics.Decides file e before r →
      (p.withBlocks blocks).build bound' = .ok kb' →
      file.LongestExtension (p.withBlocks blocks).heuristics.HasRules e →
      (p.withBlocks blocks).heuristics.Begins e before r →
      kb'.narrow .heuristics file c = kb.narrow .heuristics file c := by
  refine ⟨narrow_of_decides h hc, narrow_of_undecided h, ?_⟩
  intro e before r blocks bound' kb' hd h' hlongest hbegins
  rw [narrow_of_decides h hc hd, narrow_of_decides h' hc ⟨hlongest, hbegins, hd.passed, hd.holds⟩]
  rfl

/-- Two languages of one extension, told apart by two rules. -/
def upOrDown : Payload where
  languages := [("Down", { category := "data" }), ("Up", { category := "data" })]
  heuristics := {
    named := [("down", .one "^down")]
    blocks := [{ extensions := [".H"]
                 rules := [{ languages := .one "Up", clause := { pattern := some (.one "^up") } },
                           { languages := .one "DOWN", clause := { namedPattern := some "down" } },
                           { languages := .one "Up" }] }] }

/-- A file of this extension. -/
def downFile : Sample := { path := "a.h", content := "down".toList, size := 4 }

/-- The second rule is the first that holds for the file. -/
theorem downFile_decided : upOrDown.heuristics.Decides downFile ".h"
    (upOrDown.heuristics.blocks.flatMap fun b => b.rules.take 1)
    { languages := .one "DOWN", clause := { namedPattern := some "down" } } where
  longest := by
    refine ⟨by decide +kernel, ⟨_, List.mem_singleton_self _, ⟨".H", by decide, by decide +kernel⟩,
      List.cons_ne_nil _ _⟩, fun t ht _ => ?_⟩
    exact (by decide +kernel : ∀ t ∈ downFile.extensions, t.length ≤ ".h".length) t ht
  begins := ⟨_, List.mem_singleton_self _, ⟨".H", by decide, by decide +kernel⟩, ⟨_, rfl⟩⟩
  passed := by
    have hup : Dialect.occursIn? (.one "^up") "" "down" = some false := by decide +kernel
    intro q hq hholds
    obtain rfl := List.mem_singleton.1 hq
    have hfound := (hholds _ List.mem_cons_self).pattern _ rfl
    exact Bool.false_ne_true ((Build.foundIn_of_occursIn? hup).1 hfound)
  holds := by
    have hdown : Dialect.occursIn? (.one "^down") "" "down" = some true := by decide +kernel
    intro c hc
    obtain rfl := List.mem_singleton.1 hc
    refine ⟨nofun, nofun, fun n hn => ?_⟩
    obtain rfl := Option.some.inj hn
    exact ⟨_, rfl, (Build.foundIn_of_occursIn? hdown).2 rfl⟩

/-- Languages with the two names. -/
def upAndDown : Candidates where
  members := [{ name := "Down", category := .data }, { name := "Up", category := .data }]
  isUniverse := true

theorem downFile_narrowed : ∃ kb, upOrDown.build 10 = .ok kb ∧
    kb.narrow .heuristics downFile upAndDown = ⟨[{ name := "Down", category := .data }], false⟩ := by
  have hbuilt : (upOrDown.build 10).toOption.isSome = true := by decide +kernel
  obtain ⟨kb, hkb⟩ := Option.isSome_iff_exists.1 hbuilt
  have h := toOption_eq_some.1 hkb
  refine ⟨kb, h, ((narrow_first_rule h downFile (by decide)).1 downFile_decided).trans ?_⟩
  decide +kernel

end Payload

end LangId
