import LangId.Proofs.Knowledge.FirstRule
import Mathlib.Data.List.Forall2
import Mathlib.Data.List.Nodup

/-!
# Rules attached to languages

Every language keeps the rules that confirm it. A rule stands there once for each time that it names
the language, and names that differ in case are one name. A rule that repeats a name is therefore kept
twice.

**What is stated.** `HeuristicsEntry.rules` are the declared rules that count, in order, and
`KnowledgeBase.rulesOfBlocks` the rules of a base that they are made into, one by one.

**Results.**
* `rulesNaming_eq`: what is attached, rule by rule.
* `nodup_rules`: no two rules of a base are the same.
* `rules_attached`: every rule is attached once exactly if no rule repeats a name.
* `twice_attached`: a rule that is attached twice.
-/
namespace LangId

open Text

/-! ## Rules as declared -/

/-- The rules of the blocks that list an extension, in order. -/
def HeuristicsEntry.rules (h : HeuristicsEntry) : List RuleEntry :=
  (h.blocks.filter (!·.extensions.isEmpty)).flatMap (·.rules)

/-- How often a rule names a language, up to case. -/
def RuleEntry.namings (r : RuleEntry) (name : String) : Nat :=
  (r.languages.toList.map lower).count (lower name)

/-- The rules of a base that stand under the blocks of its definitions, in order. -/
def KnowledgeBase.rulesOfBlocks (kb : KnowledgeBase) (blocks : List BlockEntry) :
    List HeuristicRule :=
  (blocks.filterMap (·.extensions.head?)).flatMap kb.rulesFor

/-- A declared rule is made into a rule of a base. -/
structure RuleEntry.MadeInto (h : HeuristicsEntry) (kb : KnowledgeBase) (r : RuleEntry)
    (q : HeuristicRule) : Prop where
  applies : ∀ content, q.applies content = true ↔ r.HoldsOn h.named content
  /-- It names declared languages, just as often. -/
  declared : ∀ n ∈ r.languages.toList, ∃ l ∈ kb.languages, lower l.name = lower n
  known : ∀ n ∈ q.languages, ∃ l ∈ kb.languages, l.name = n
  namings : ∀ l ∈ kb.languages, q.languages.count l.name = r.namings l.name

/-! ## Lists made entry by entry -/

section

variable {α β : Type} {as : List α} {bs : List β}

theorem countP_of_forall₂ {R : α → β → Prop} {P : α → Bool} {Q : β → Bool}
    (h : List.Forall₂ R as bs) (hPQ : ∀ a b, R a b → P a = Q b) : as.countP P = bs.countP Q := by
  induction h with
  | nil => rfl
  | cons hab _ ih => rw [List.countP_cons, List.countP_cons, ih, hPQ _ _ hab]

theorem forall_iff_of_forall₂ {R : α → β → Prop} {P : α → Prop} {Q : β → Prop}
    (h : List.Forall₂ R as bs) (hPQ : ∀ a b, R a b → (P a ↔ Q b)) :
    (∀ a ∈ as, P a) ↔ ∀ b ∈ bs, Q b := by
  induction h with
  | nil => exact iff_of_true nofun nofun
  | cons hab _ ih => rw [List.forall_mem_cons, List.forall_mem_cons, ih, hPQ _ _ hab]

theorem length_filter_le_flatMap_replicate (f : α → Nat) (as : List α) :
    (as.filter fun a => decide (0 < f a)).length ≤
      (as.flatMap fun a => List.replicate (f a) a).length := by
  induction as with
  | nil => exact Nat.le_refl 0
  | cons a rest ih =>
    rw [List.filter_cons, List.flatMap_cons, List.length_append, List.length_replicate]
    split
    · rename_i hpos
      have hpos := of_decide_eq_true hpos
      rw [List.length_cons]
      omega
    · omega

/-- With repetitions and without are the same exactly if nothing is repeated. -/
theorem flatMap_replicate_eq_filter {f : α → Nat} {as : List α} :
    (as.flatMap fun a => List.replicate (f a) a) = as.filter (fun a => decide (0 < f a)) ↔
      ∀ a ∈ as, f a ≤ 1 := by
  induction as with
  | nil => exact iff_of_true rfl nofun
  | cons a rest ih =>
    rw [List.forall_mem_cons, ← ih, List.flatMap_cons, List.filter_cons]
    match hf : f a with
    | 0 => simp
    | 1 => simp
    | n + 2 =>
      refine iff_of_false (fun heq => ?_) (fun h => by omega)
      -- there is one more than there may be
      have hlength := congrArg List.length heq
      have hle := length_filter_le_flatMap_replicate f rest
      rw [if_pos (by simp), List.length_append, List.length_replicate, List.length_cons] at hlength
      omega

end

namespace Build

variable {declared : Declared} {named : List (String × Regex.Pattern)} {source : String}
  {extensions : List String} {r : RuleEntry} {order : Nat} {q : HeuristicRule} {b : BlockEntry}
  {languages : List Language}

/-! ## Rules as built -/

theorem parts_of_rule (h : rule declared named source extensions r order = .ok q) :
    q.order = order ∧ q.extensions = extensions ∧
      r.languages.toList.mapM (ruleLanguage declared source) = .ok q.languages := by
  obtain ⟨found, hfound, h⟩ := bind_eq_ok.1 h
  obtain ⟨own, -, h⟩ := bind_eq_ok.1 h
  obtain ⟨further, -, h⟩ := bind_eq_ok.1 h
  obtain rfl := pure_eq_ok.1 h
  exact ⟨rfl, rfl, hfound⟩

/-- Where names are told apart, those of declared languages differ in lower case. -/
theorem lower_name_inj (h : (languages.map fun l => lower l.name).Nodup) {k l : Language}
    (hk : k ∈ languages) (hl : l ∈ languages) : lower k.name = lower l.name ↔ k.name = l.name := by
  refine ⟨fun heq => ?_, congrArg lower⟩
  rw [List.inj_on_of_nodup_map h hk hl heq]

/-- A rule that is built names a language as often as the declared one does. -/
theorem count_of_rule (hnames : (languages.map fun l => lower l.name).Nodup)
    (h : rule (declaredNames languages) named source extensions r order = .ok q) {l : Language}
    (hl : l ∈ languages) : q.languages.count l.name = r.namings l.name := by
  have hmade := mapM_eq_ok_iff.1 (parts_of_rule h).2.2
  rw [RuleEntry.namings, List.count_eq_countP, List.count_eq_countP, List.countP_map]
  refine (countP_of_forall₂ hmade fun n found hfound => ?_).symm
  obtain ⟨k, hk, rfl, hlower⟩ := (find?_declaredNames_eq_some hnames).1 (ruleLanguage_eq_ok hfound)
  rw [Bool.eq_iff_iff, Function.comp_apply, beq_iff_eq, beq_iff_eq, ← hlower,
    lower_name_inj hnames hk hl]

theorem madeInto_of_rule {e : HeuristicsEntry} {kb : KnowledgeBase}
    (hnames : (languages.map fun l => lower l.name).Nodup)
    (hlanguages : ∀ l, l ∈ kb.languages ↔ l ∈ languages) (hnamed : namedPatterns e = .ok named)
    (h : rule (declaredNames languages) named source extensions r order = .ok q) :
    r.MadeInto e kb q where
  applies _ := applies_iff hnamed h
  declared n hn := by
    obtain ⟨found, hfound⟩ := (rule_eq_ok h).1 n hn
    obtain ⟨l, hl, -, hlower⟩ := (find?_declaredNames_eq_some hnames).1 hfound
    exact ⟨l, (hlanguages l).2 hl, hlower⟩
  known n hn := by
    obtain ⟨m, hm⟩ := (rule_eq_ok h).2.2 n hn
    obtain ⟨l, hl, hname, -⟩ := (find?_declaredNames_eq_some hnames).1 hm
    exact ⟨l, (hlanguages l).2 hl, hname⟩
  namings l hl := count_of_rule hnames h ((hlanguages l).1 hl)

/-- A block is built rule by rule. -/
theorem madeInto_of_block {e : HeuristicsEntry} {kb : KnowledgeBase} {rules : List HeuristicRule}
    (hnames : (languages.map fun l => lower l.name).Nodup)
    (hlanguages : ∀ l, l ∈ kb.languages ↔ l ∈ languages) (hnamed : namedPatterns e = .ok named)
    (h : blockRules (declaredNames languages) named b = .ok rules) :
    List.Forall₂ (RuleEntry.MadeInto e kb) b.rules rules := by
  rw [← List.zipIdx_map_fst 0 b.rules, List.forall₂_map_left_iff]
  exact (mapM_eq_ok_iff.1 h).imp fun _ _ hq => madeInto_of_rule hnames hlanguages hnamed hq

/-! ## Blocks as built -/

/-- In front of the blocks found so far come those that are built, in reverse. -/
theorem made_of_blocks {blocks : List BlockEntry} {found found' : List HeuristicBlock × List String}
    (h : blocks.foldlM (block declared named) found = .ok found') :
    ∃ ms, found'.1 = ms.reverse ++ found.1 ∧ List.Forall₂ (fun b m =>
      m.extensions = b.keys ∧ blockRules declared named b = .ok m.rules) blocks ms := by
  induction blocks generalizing found with
  | nil =>
    obtain rfl := pure_eq_ok.1 h
    exact ⟨[], rfl, .nil⟩
  | cons b rest ih =>
    rw [List.foldlM_cons] at h
    obtain ⟨next, hnext, hrest⟩ := bind_eq_ok.1 h
    obtain ⟨rules, hrules, -, rfl⟩ := block_eq_ok hnext
    obtain ⟨ms, hms, hmade⟩ := ih hrest
    refine ⟨⟨b.keys, rules⟩ :: ms, ?_, .cons ⟨rfl, hrules⟩ hmade⟩
    rw [hms, List.reverse_cons, List.append_assoc, List.singleton_append]

/-- Blocks are built one by one. -/
theorem forall₂_of_heuristics {e : HeuristicsEntry} {made : List HeuristicBlock}
    (h : heuristics declared e = .ok made) : ∃ named, namedPatterns e = .ok named ∧
      List.Forall₂ (fun b m => m.extensions = b.keys ∧ blockRules declared named b = .ok m.rules)
        e.blocks made := by
  obtain ⟨named, found, hnamed, hfound, rfl⟩ := heuristics_eq_ok h
  obtain ⟨ms, hms, hmade⟩ := made_of_blocks hfound
  refine ⟨named, hnamed, ?_⟩
  rwa [hms, List.append_nil, List.reverse_reverse]

/-- The rules of a block are told apart by their positions. -/
theorem nodup_of_blockRules {rules : List HeuristicRule}
    (h : blockRules declared named b = .ok rules) : rules.Nodup := by
  have horders : rules.map (·.order) = b.rules.zipIdx.map (·.2) :=
    map_of_mapM (fun _ _ hq => (parts_of_rule hq).1) h
  refine List.Nodup.of_map (·.order) ?_
  rw [horders, List.zipIdx_map_snd]
  exact List.nodup_range'

/-- No extension is listed twice. -/
theorem nodup_keys {e : HeuristicsEntry} {made : List HeuristicBlock}
    (h : heuristics declared e = .ok made) : (e.blocks.flatMap (·.keys)).Nodup := by
  obtain ⟨named, found, -, hfound, -⟩ := heuristics_eq_ok h
  have hperm := taken_of_blocks hfound
  rw [List.nil_append] at hperm
  exact hperm.nodup_iff.1 (nodup_of_blocks hfound List.nodup_nil)

/-- **Different rules.** No rule comes twice, as no extension does. -/
theorem nodup_rules {e : HeuristicsEntry} {made : List HeuristicBlock}
    (h : heuristics declared e = .ok made) :
    ((made.filter (!·.extensions.isEmpty)).flatMap (·.rules)).Nodup := by
  obtain ⟨named, hnamed, hmade⟩ := forall₂_of_heuristics h
  have hextensions : made.flatMap (·.extensions) = e.blocks.flatMap (·.keys) := by
    rw [List.flatMap_def, List.flatMap_def]
    refine congrArg List.flatten (List.forall₂_eq_eq_eq ▸ ?_)
    rw [List.forall₂_map_left_iff, List.forall₂_map_right_iff]
    exact hmade.flip.imp fun _ _ h => h.1
  have hkeys : (made.flatMap (·.extensions)).Nodup := hextensions ▸ nodup_keys h
  have hrules : ∀ m ∈ made, m.rules.Nodup ∧ ∀ q ∈ m.rules, q.extensions = m.extensions := by
    refine (forall_iff_of_forall₂ (P := fun _ => True) hmade fun b m hbm => ?_).1 fun _ _ => trivial
    refine iff_of_true trivial ⟨nodup_of_blockRules hbm.2, fun q hq => ?_⟩
    obtain ⟨x, -, hx⟩ := mem_of_mapM hbm.2 hq
    rw [(parts_of_rule hx).2.1, hbm.1]
  have hmem {m : HeuristicBlock} (hm : m ∈ made.filter (!·.extensions.isEmpty)) :
      m ∈ made := List.mem_of_mem_filter hm
  refine List.nodup_flatMap.2 ⟨fun m hm => (hrules m (hmem hm)).1, ?_⟩
  refine List.Pairwise.imp_of_mem (fun {m m'} hm hm' hdisjoint q hq hq' => ?_)
    ((List.nodup_flatMap.1 hkeys).2.sublist List.filter_sublist)
  have hsame : m.extensions = m'.extensions := by
    rw [← (hrules m (hmem hm)).2 q hq, (hrules m' (hmem hm')).2 q hq']
  obtain ⟨x, hx⟩ := List.exists_mem_of_ne_nil m.extensions (by simpa using List.of_mem_filter hm)
  exact hdisjoint hx (show x ∈ m'.extensions by rwa [← hsame])

end Build

/-! ## What is attached -/

namespace KnowledgeBase

/-- To a declared language are attached the rules that name it. -/
theorem rulesOf_assemble {languages : List Language} {blocks : List HeuristicBlock}
    {rules : List ExclusionRule} {models : List (String × Model)}
    (hnames : (languages.map fun l => lower l.name).Nodup) {l : Language} (hl : l ∈ languages) :
    (assemble languages blocks rules models).rulesOf l.name =
      rulesNaming (lower l.name) blocks := by
  have hkeys : ((languages.map fun l =>
      (lower l.name, rulesNaming (lower l.name) blocks)).map (·.1)).Nodup := by
    rwa [List.map_map]
  have hlookup : (assemble languages blocks rules models).attached.lookup (lower l.name) =
      some (rulesNaming (lower l.name) blocks) :=
    (Table.mem_iff_lookup hkeys).1 (List.mem_map_of_mem hl)
  rw [rulesOf, hlookup, Option.getD_some]

/-- **What is attached,** rule by rule: each as often as it names the language. -/
theorem rulesNaming_eq {languages : List Language} {blocks : List HeuristicBlock}
    (hnames : (languages.map fun l => lower l.name).Nodup)
    (hknown : ∀ b ∈ blocks, ∀ q ∈ b.rules, ∀ n ∈ q.languages, ∃ k ∈ languages, k.name = n)
    {l : Language} (hl : l ∈ languages) : rulesNaming (lower l.name) blocks =
      ((blocks.filter (!·.extensions.isEmpty)).flatMap (·.rules)).flatMap fun q =>
        List.replicate (q.languages.count l.name) q := by
  rw [rulesNaming, List.flatMap_assoc]
  refine List.flatMap_congr fun b hb => List.flatMap_congr fun q hq => ?_
  rw [List.map_const', List.count_eq_countP, ← List.countP_eq_length_filter]
  refine congrArg (List.replicate · q) (List.countP_congr fun n hn => ?_)
  obtain ⟨k, hk, rfl⟩ := hknown b (List.mem_of_mem_filter hb) q hq n hn
  rw [beq_iff_eq, beq_iff_eq, Build.lower_name_inj hnames hk hl]

end KnowledgeBase

/-- A rule that is made names no language twice if the declared one does not. -/
theorem RuleEntry.MadeInto.count_le_one_iff {h : HeuristicsEntry} {kb : KnowledgeBase}
    {r : RuleEntry} {q : HeuristicRule} (hmade : r.MadeInto h kb q) :
    (∀ l ∈ kb.languages, q.languages.count l.name ≤ 1) ↔
      (r.languages.toList.map lower).Nodup := by
  rw [List.nodup_iff_count_le_one]
  constructor
  · intro hcount k
    by_cases hk : k ∈ r.languages.toList.map lower
    · obtain ⟨n, hn, rfl⟩ := List.mem_map.1 hk
      obtain ⟨l, hl, hlower⟩ := hmade.declared n hn
      have hle := hcount l hl
      rwa [hmade.namings l hl, RuleEntry.namings, hlower] at hle
    · rw [List.count_eq_zero_of_not_mem hk]
      exact Nat.zero_le 1
  · intro hcount l hl
    rw [hmade.namings l hl]
    exact hcount _

namespace Payload

variable {p : Payload} {bound : Nat} {kb : KnowledgeBase} {l : Language}

/-- How rules are attached to the languages that they name. -/
structure Attaches (p : Payload) (kb : KnowledgeBase) : Prop where
  made : List.Forall₂ (RuleEntry.MadeInto p.heuristics kb) p.heuristics.rules
    (kb.rulesOfBlocks p.heuristics.blocks)
  distinct : (kb.rulesOfBlocks p.heuristics.blocks).Nodup
  attached : ∀ l ∈ kb.languages, kb.rulesOf l.name =
    (kb.rulesOfBlocks p.heuristics.blocks).flatMap fun q =>
      List.replicate (q.languages.count l.name) q

/-- Every rule is attached once to each language that it names. -/
def AttachesOnce (p : Payload) (kb : KnowledgeBase) : Prop :=
  ∀ l ∈ kb.languages, kb.rulesOf l.name =
    (kb.rulesOfBlocks p.heuristics.blocks).filter (·.languages.contains l.name)

namespace Parts

variable (parts : p.Parts bound)

theorem mem_languages : l ∈ parts.base.languages ↔ l ∈ parts.languages := List.mem_mergeSort

/-- The blocks of a base with their rules, under each of their extensions. -/
theorem forall₂_blocks : ∃ named, Build.namedPatterns p.heuristics = .ok named ∧
    List.Forall₂ (fun b m => m.extensions = b.keys ∧
      Build.blockRules (Build.declaredNames parts.languages) named b = .ok m.rules ∧
      ∀ x ∈ b.extensions, parts.base.rulesFor x = m.rules) p.heuristics.blocks parts.blocks := by
  obtain ⟨named, hnamed, hmade⟩ := Build.forall₂_of_heuristics parts.blocks_eq
  obtain ⟨named', hnamed', -, hlookup⟩ := Build.lookup_rules parts.blocks_eq
  obtain rfl := Except.ok.inj (hnamed.symm.trans hnamed')
  refine ⟨named, hnamed, ?_⟩
  have hmem := (List.forall₂_and_left _ _).2 ⟨fun b hb => hb, hmade⟩
  refine hmem.imp fun b m ⟨hb, hextensions, hrules⟩ => ⟨hextensions, hrules, fun x hx => ?_⟩
  have hfound := (hlookup x m.rules).2 ⟨b, hb, ⟨x, hx, rfl⟩, hrules⟩
  rw [KnowledgeBase.rulesFor]
  exact congrArg (·.getD []) hfound

theorem rulesOfBlocks_eq : parts.base.rulesOfBlocks p.heuristics.blocks =
    (parts.blocks.filter (!·.extensions.isEmpty)).flatMap (·.rules) := by
  obtain ⟨named, -, hmade⟩ := parts.forall₂_blocks
  rw [KnowledgeBase.rulesOfBlocks]
  generalize p.heuristics.blocks = bs, parts.blocks = ms at hmade
  induction hmade with
  | nil => rfl
  | @cons b m _ _ hbm _ ih =>
    obtain ⟨hextensions, -, hrules⟩ := hbm
    rw [List.filterMap_cons, List.filter_cons, hextensions, BlockEntry.keys]
    cases hb : b.extensions with
    | nil => exact ih
    | cons x rest =>
      rw [hb] at hrules
      have hx := hrules x List.mem_cons_self
      simpa [hx] using ih

theorem attaches : p.Attaches parts.base where
  made := by
    obtain ⟨named, hnamed, hmade⟩ := parts.forall₂_blocks
    rw [parts.rulesOfBlocks_eq, HeuristicsEntry.rules]
    have hblocks : List.Forall₂ (fun b m => (b.extensions = [] ↔ m.extensions = []) ∧
        List.Forall₂ (RuleEntry.MadeInto p.heuristics parts.base) b.rules m.rules)
        p.heuristics.blocks parts.blocks := by
      refine hmade.imp fun b m ⟨hextensions, hrules, _⟩ => ⟨?_, ?_⟩
      · rw [hextensions, BlockEntry.keys, List.map_eq_nil_iff]
      · exact Build.madeInto_of_block parts.names (fun _ => parts.mem_languages) hnamed hrules
    refine List.rel_flatMap (List.rel_filter (fun b m hbm => ?_) hblocks) fun b m hbm => hbm.2
    simp [hbm.1]
  distinct := by
    rw [parts.rulesOfBlocks_eq]
    exact Build.nodup_rules parts.blocks_eq
  attached l hl := by
    have hl := parts.mem_languages.1 hl
    rw [base, KnowledgeBase.rulesOf_assemble parts.names hl, ← base, parts.rulesOfBlocks_eq]
    refine KnowledgeBase.rulesNaming_eq parts.names (fun b hb q hq n hn => ?_) hl
    obtain ⟨m, hm⟩ := Build.declared_of_heuristics parts.blocks_eq b hb q hq n hn
    obtain ⟨k, hk, hname, -⟩ := (Build.find?_declaredNames_eq_some parts.names).1 hm
    exact ⟨k, hk, hname⟩

end Parts

theorem Attaches.once_iff (h : p.Attaches kb) :
    p.AttachesOnce kb ↔ ∀ r ∈ p.heuristics.rules, (r.languages.toList.map lower).Nodup := by
  rw [forall_iff_of_forall₂ h.made fun r q hrq => hrq.count_le_one_iff.symm]
  have hfilter (name : String) : (kb.rulesOfBlocks p.heuristics.blocks).filter
      (·.languages.contains name) =
      (kb.rulesOfBlocks p.heuristics.blocks).filter (fun q => 0 < q.languages.count name) := by
    refine List.filter_congr fun q _ => ?_
    rw [Bool.eq_iff_iff, List.contains_iff_mem, decide_eq_true_iff, List.count_pos_iff]
  constructor
  · intro honce q hq l hl
    refine flatMap_replicate_eq_filter (f := fun q => q.languages.count l.name).1 ?_ q hq
    rw [← h.attached l hl, honce l hl, hfilter]
  · intro hcount l hl
    rw [h.attached l hl, hfilter]
    exact flatMap_replicate_eq_filter.2 fun q hq => hcount q hq l hl

/-- **Attached rules.** The rules of the blocks that list an extension are attached in order, each to
the languages that it names, as often as it names them: once exactly if no rule repeats a name. -/
theorem rules_attached (h : p.build bound = .ok kb) :
    p.Attaches kb ∧ (p.AttachesOnce kb ↔
      ∀ r ∈ p.heuristics.rules, (r.languages.toList.map lower).Nodup) := by
  obtain ⟨parts, -, rfl⟩ := build_eq_assemble h
  exact ⟨parts.attaches, parts.attaches.once_iff⟩

theorem rules_attached_upOrDown : ∃ kb, upOrDown.build 10 = .ok kb ∧ upOrDown.Attaches kb ∧
    (upOrDown.AttachesOnce kb ↔
      ∀ r ∈ upOrDown.heuristics.rules, (r.languages.toList.map lower).Nodup) := by
  have hbuilt : (upOrDown.build 10).toOption.isSome = true := by decide +kernel
  obtain ⟨kb, hkb⟩ := Option.isSome_iff_exists.1 hbuilt
  have h := toOption_eq_some.1 hkb
  exact ⟨kb, h, rules_attached h⟩

/-- One rule that names a language in two spellings. -/
def doubled : Payload where
  languages := [("A", { category := "programming" })]
  heuristics := { blocks := [{ extensions := [".h"], rules := [{ languages := .many ["A", "a"] }] }] }

/-- There is one rule, and the language has two. -/
theorem twice_attached : ∃ kb, doubled.build 10 = .ok kb ∧ (kb.rulesOf "A").length = 2 ∧
    ¬doubled.AttachesOnce kb := by
  have hread : (doubled.build 10).toOption.map (fun kb => ((kb.rulesOf "A").length,
      (kb.rulesOfBlocks doubled.heuristics.blocks).length, kb.languages.map (·.name))) =
      some (2, 1, ["A"]) := by decide +kernel
  obtain ⟨kb, hkb, hread⟩ := Option.map_eq_some_iff.1 hread
  simp only [Prod.mk.injEq] at hread
  obtain ⟨hrules, hblocks, hlanguages⟩ := hread
  refine ⟨kb, toOption_eq_some.1 hkb, hrules, fun honce => ?_⟩
  obtain ⟨l, hl, hname⟩ := List.mem_map.1 (hlanguages ▸ List.mem_singleton_self "A")
  have hlength := congrArg List.length (honce l hl)
  have hle := List.length_filter_le (·.languages.contains l.name)
    (kb.rulesOfBlocks doubled.heuristics.blocks)
  rw [hname] at hlength hle
  omega

end Payload

end LangId
