import LangId.Proofs.Knowledge.Attachment

/-!
# Candidates that a rule is attached to

A base attaches a rule to the languages that it names up to case, but the stage of heuristics keeps the
candidates that the rule names in their own spelling. The two are the same in a base that is built
from definitions, where rules have the declared spellings. In a base that is made of given parts they
need not be.

**Results.**
* `isAttached_iff`: the languages that a rule is attached to.
* `attached_narrowed`: when the stage leaves the candidates that the deciding rule is attached to.
* `misspelt_unnarrowed`: a rule that is attached to one of two candidates, and leaves both.
-/
namespace LangId

open Text

theorem filter_eq_filter_iff {α : Type} {p q : α → Bool} {as : List α} :
    as.filter p = as.filter q ↔ ∀ a ∈ as, p a = q a := by
  refine ⟨fun h a ha => ?_, List.filter_congr⟩
  have hmem : a ∈ as.filter p ↔ a ∈ as.filter q := by rw [h]
  rw [List.mem_filter, List.mem_filter, and_iff_right ha, and_iff_right ha] at hmem
  exact Bool.eq_iff_iff.2 hmem

namespace KnowledgeBase

variable {languages : List Language} {blocks : List HeuristicBlock} {rules : List ExclusionRule}
  {models : List (String × Model)} {kb : KnowledgeBase} {file : Sample} {c : Candidates}
  {r : HeuristicRule} {l : Language}

/-- Whether a rule is attached to a language. -/
def isAttached (kb : KnowledgeBase) (r : HeuristicRule) (l : Language) : Bool :=
  (kb.rulesOf l.name).contains r

theorem mem_rulesNaming {key : String} : r ∈ rulesNaming key blocks ↔
    (∃ b ∈ blocks, b.extensions ≠ [] ∧ r ∈ b.rules) ∧ ∃ n ∈ r.languages, lower n = key := by
  simp only [rulesNaming, List.mem_flatMap, List.mem_filter, List.mem_map, beq_iff_eq,
    Bool.not_eq_true', List.isEmpty_eq_false_iff]
  constructor
  · rintro ⟨b, ⟨hb, hne⟩, q, hq, n, ⟨hn, hkey⟩, rfl⟩
    exact ⟨⟨b, hb, hne, hq⟩, n, hn, hkey⟩
  · rintro ⟨⟨b, hb, hne, hq⟩, n, hn, hkey⟩
    exact ⟨b, ⟨hb, hne⟩, r, hq, n, ⟨hn, hkey⟩, rfl⟩

/-- The rules of a file are rules of a block that lists an extension. -/
theorem exists_block_of_mem (h : make languages blocks rules models = .ok kb)
    (hr : r ∈ kb.rulesOfExtensions file.extensions) :
    ∃ b ∈ blocks, b.extensions ≠ [] ∧ r ∈ b.rules := by
  obtain rfl := make_eq_assemble h
  obtain ⟨e, he⟩ := longest_of_mem_rulesOfExtensions hr
  rw [rulesOfExtensions_of_longest he, rulesFor] at hr
  cases hfound : (rulesByExtension blocks).lookup (lower e) with
  | none =>
    rw [assemble, hfound] at hr
    cases hr
  | some found =>
    rw [assemble, hfound, Option.getD_some] at hr
    obtain ⟨b, hb, hmem⟩ := List.mem_flatMap.1 (mem_of_lookup_putAll hfound)
    obtain ⟨x, hx, heq⟩ := List.mem_map.1 hmem
    obtain ⟨-, rfl⟩ := Prod.mk.inj heq
    exact ⟨b, hb, List.ne_nil_of_mem hx, hr⟩

/-- A rule of a file is attached to the languages that it names up to case. -/
theorem isAttached_iff (h : make languages blocks rules models = .ok kb)
    (hr : r ∈ kb.rulesOfExtensions file.extensions) (hl : l ∈ kb.languages) :
    kb.isAttached r l = true ↔ ∃ n ∈ r.languages, lower n = lower l.name := by
  have hblock := exists_block_of_mem h hr
  obtain ⟨hnames, -⟩ := make_eq_ok h
  obtain rfl := make_eq_assemble h
  rw [isAttached, List.contains_iff_mem,
    rulesOf_assemble hnames (List.mem_mergeSort.1 hl), mem_rulesNaming]
  exact and_iff_right hblock

/-- The stage leaves the candidates that a rule is attached to exactly if it names all of these in
their own spelling, or if all candidates are among them and it names none in its own spelling. -/
theorem narrow_members_iff (hc : 2 ≤ c.size)
    (hr : firstApplying? (kb.rulesOfExtensions file.extensions) file.content = some r)
    (hattached : ∀ l ∈ c.members, l.name ∈ r.languages → kb.isAttached r l = true)
    (hsome : ∃ l ∈ c.members, kb.isAttached r l = true) :
    (kb.narrow .heuristics file c).members = c.members.filter (kb.isAttached r) ↔
      (∀ l ∈ c.members, kb.isAttached r l = true → l.name ∈ r.languages) ∨
        ∀ l ∈ c.members, kb.isAttached r l = true ∧ l.name ∉ r.languages := by
  rw [Payload.narrow_of_firstApplying? hc hr]
  by_cases hnone : c.members.filter (r.languages.contains ·.name) = []
  · have hunnamed (l) (hl : l ∈ c.members) : l.name ∉ r.languages := by
      simpa using List.filter_eq_nil_iff.1 hnone l hl
    rw [if_pos hnone, eq_comm, List.filter_eq_self]
    constructor
    · exact fun hall => .inr fun l hl => ⟨hall l hl, hunnamed l hl⟩
    · rintro (hspelt | hall)
      · obtain ⟨l, hl, hattached⟩ := hsome
        exact absurd (hspelt l hl hattached) (hunnamed l hl)
      · exact fun l hl => (hall l hl).1
  · obtain ⟨l, hl⟩ := List.exists_mem_of_ne_nil _ hnone
    obtain ⟨hl, hname⟩ := List.mem_filter.1 hl
    have hname := List.contains_iff_mem.1 hname
    rw [if_neg hnone, filter_eq_filter_iff]
    constructor
    · intro hsame
      refine .inl fun k hk hattached => ?_
      rw [← hsame k hk] at hattached
      exact List.contains_iff_mem.1 hattached
    · rintro (hspelt | hall)
      · intro k hk
        rw [Bool.eq_iff_iff, List.contains_iff_mem]
        exact ⟨hattached k hk, hspelt k hk⟩
      · exact absurd hname (hall l hl).2

end KnowledgeBase

/-- In a base that is built, rules name languages in their own spelling. -/
theorem Payload.mem_languages_of_isAttached {p : Payload} {bound : Nat} {kb : KnowledgeBase}
    {file : Sample} {r : HeuristicRule} {l : Language} (h : p.build bound = .ok kb)
    (hr : r ∈ kb.rulesOfExtensions file.extensions) (hl : l ∈ kb.languages)
    (hattached : kb.isAttached r l = true) : l.name ∈ r.languages := by
  obtain ⟨parts, hmake, rfl⟩ := build_eq_assemble h
  obtain ⟨b, hb, -, hrule⟩ := KnowledgeBase.exists_block_of_mem hmake hr
  obtain ⟨n, hn, hlower⟩ := (KnowledgeBase.isAttached_iff hmake hr hl).1 hattached
  obtain ⟨m, hm⟩ := Build.declared_of_heuristics parts.blocks_eq b hb r hrule n hn
  obtain ⟨k, hk, rfl, -⟩ := (Build.find?_declaredNames_eq_some parts.names).1 hm
  rwa [← (Build.lower_name_inj parts.names hk (parts.mem_languages.1 hl)).1 hlower]

namespace KnowledgeBase

variable {languages : List Language} {blocks : List HeuristicBlock} {rules : List ExclusionRule}
  {models : List (String × Model)} {kb : KnowledgeBase} {file : Sample} {c : Candidates}
  {r : HeuristicRule}

/-- **Attached candidates.** Where the rule that decides is attached to some candidate, the stage of
heuristics leaves just the candidates that it is attached to if it names all of these in their own
spelling, or none of them while all candidates are attached, and only then. In a base that is built
from definitions it always does. -/
theorem attached_narrowed (h : make languages blocks rules models = .ok kb) (hc : 2 ≤ c.size)
    (hmem : c.members ⊆ kb.languages)
    (hr : firstApplying? (kb.rulesOfExtensions file.extensions) file.content = some r)
    (hsome : ∃ l ∈ c.members, kb.isAttached r l = true) :
    (∀ l ∈ c.members, kb.isAttached r l = true ↔ ∃ n ∈ r.languages, lower n = lower l.name) ∧
    ((kb.narrow .heuristics file c).members = c.members.filter (kb.isAttached r) ↔
      (∀ l ∈ c.members, kb.isAttached r l = true → l.name ∈ r.languages) ∨
        ∀ l ∈ c.members, kb.isAttached r l = true ∧ l.name ∉ r.languages) ∧
    ∀ {p : Payload} {bound}, p.build bound = .ok kb →
      (kb.narrow .heuristics file c).members = c.members.filter (kb.isAttached r) := by
  have hrule := mem_of_firstApplying? hr
  have hnamed (l) (hl : l ∈ c.members) := isAttached_iff h hrule (hmem hl)
  have hmembers := narrow_members_iff hc hr
    (fun l hl hname => (hnamed l hl).2 ⟨l.name, hname, rfl⟩) hsome
  refine ⟨hnamed, hmembers, fun hbuild => hmembers.2 (.inl fun l hl hattached => ?_)⟩
  exact Payload.mem_languages_of_isAttached hbuild hrule (hmem hl) hattached

/-- Two languages. -/
def twoLanguages : List Language :=
  [{ name := "C", category := .programming }, { name := "Python", category := .programming }]

/-- A rule that always applies and names a language in some spelling. -/
def ruleNaming (name : String) : HeuristicRule where
  order := 0
  extensions := [".h"]
  languages := [name]

/-- The block of this rule. -/
def blockNaming (name : String) : HeuristicBlock where
  extensions := [".h"]
  rules := [ruleNaming name]

theorem attached_narrowed_spelt : ∃ kb, make twoLanguages [blockNaming "Python"] [] [] = .ok kb ∧
    (kb.narrow .heuristics Payload.downFile ⟨twoLanguages, false⟩).members =
      twoLanguages.filter (kb.isAttached (ruleNaming "Python")) := by
  have hread : (make twoLanguages [blockNaming "Python"] [] []).toOption.map (fun kb =>
      (firstApplying? (kb.rulesOfExtensions Payload.downFile.extensions) Payload.downFile.content,
        twoLanguages.map (kb.isAttached (ruleNaming "Python")))) =
      some (some (ruleNaming "Python"), [false, true]) := by decide +kernel
  obtain ⟨kb, hkb, hread⟩ := Option.map_eq_some_iff.1 hread
  simp only [Prod.mk.injEq, twoLanguages, List.map_cons, List.map_nil, List.cons.injEq] at hread
  obtain ⟨hrule, hc, hpython, -⟩ := hread
  have h := toOption_eq_some.1 hkb
  refine ⟨kb, h, (attached_narrowed h (by decide) ?_ hrule
    ⟨_, List.mem_cons_of_mem _ List.mem_cons_self, hpython⟩).2.1.2 (.inl ?_)⟩
  · rw [(make_eq_ok h).2.1]
    exact fun l hl => List.mem_mergeSort.2 hl
  · intro l hl hattached
    rcases List.mem_cons.1 hl with rfl | hl
    · rw [hc] at hattached
      cases hattached
    · obtain rfl := List.mem_singleton.1 hl
      exact List.mem_singleton_self _

/-- The rule is attached to one of the languages, and both are left. -/
theorem misspelt_unnarrowed : ∃ kb, make twoLanguages [blockNaming "python"] [] [] = .ok kb ∧
    firstApplying? (kb.rulesOfExtensions Payload.downFile.extensions) Payload.downFile.content =
      some (ruleNaming "python") ∧
    (twoLanguages.filter (kb.isAttached (ruleNaming "python"))).map (·.name) = ["Python"] ∧
    (kb.narrow .heuristics Payload.downFile ⟨twoLanguages, false⟩).names = ["C", "Python"] := by
  have hread : (make twoLanguages [blockNaming "python"] [] []).toOption.map (fun kb =>
      (firstApplying? (kb.rulesOfExtensions Payload.downFile.extensions) Payload.downFile.content,
        (twoLanguages.filter (kb.isAttached (ruleNaming "python"))).map (·.name),
        (kb.narrow .heuristics Payload.downFile ⟨twoLanguages, false⟩).names)) =
      some (some (ruleNaming "python"), ["Python"], ["C", "Python"]) := by decide +kernel
  obtain ⟨kb, hkb, hread⟩ := Option.map_eq_some_iff.1 hread
  simp only [Prod.mk.injEq] at hread
  exact ⟨kb, toOption_eq_some.1 hkb, hread⟩

end KnowledgeBase

end LangId
