import LangId.Proofs.Cascade.Authority

/-!
# What every stage keeps to

**What is stated.** `Contract` says what a stage may do to candidates: it keeps some of them, marks
a set as the universe only if it leaves it as it is, keeps just what it speaks for unless it speaks
for none, and does nothing when it is asked again.

**Results.**
* `contract`: every stage keeps to it, for any candidates among the languages of a knowledge base,
  marked as the universe or not. It is derived from `mem_narrow`, so that the only case analysis over
  stages is the one in `mem_agreed_iff`.
* `stages_contract`: so does every stage of a run, and what one stage has taken away no later one
  brings back.
-/
namespace LangId.KnowledgeBase

variable (kb : KnowledgeBase) (file : Sample)

/-- What a stage makes of candidates. -/
structure Contract (s : Stage) (c : Candidates) : Prop where
  nonempty : (kb.narrow s file c).members ≠ []
  sublist : (kb.narrow s file c).members.Sublist c.members
  marked : (kb.narrow s file c).isUniverse = true → kb.narrow s file c = c
  /-- Candidates that the stage does not speak for go only if it speaks for others. -/
  kept : ∀ l, l ∈ (kb.narrow s file c).members ↔
    l ∈ c.members ∧ ((∃ m ∈ c.members, kb.SpeaksFor file s m) → kb.SpeaksFor file s l)
  /-- Asked again, the stage has nothing to add. -/
  silent : kb.narrow? s file (kb.narrow s file c) = none
  idempotent : kb.narrow s file (kb.narrow s file c) = kb.narrow s file c

variable {kb file} {c : Candidates} {s : Stage}

/-- A stage leaves candidates as they are exactly if it agrees on none, or on all of a set that is
not the universe. -/
theorem narrow?_eq_none : kb.narrow? s file c = none ↔
    kb.agreed file c s = [] ∨ kb.agreed file c s = c.members ∧ c.isUniverse = false := by
  unfold narrow? agreed
  cases hp : kb.proposal? file c s with
  | none => simp
  | some p => simp [Candidates.narrow?_eq_none, proposal?_isUniverse hp]

/-- What a stage agrees on is cut out of the candidates in their order, so that all of them are the
same list. -/
theorem agreed_of_forall (hne : kb.agreed file c s ≠ [])
    (h : ∀ l ∈ c.members, l ∈ kb.agreed file c s) : kb.agreed file c s = c.members := by
  unfold agreed at hne h ⊢
  cases hp : kb.proposal? file c s with
  | none =>
    rw [hp] at hne
    exact absurd rfl hne
  | some p =>
    rw [hp] at h
    exact List.filter_eq_self.2 fun l hl => (List.mem_filter.1 (h l hl)).2

/-- **Asked again.** A stage speaks for everything that it has left, or for nothing of it. -/
theorem narrow?_narrow (hi : kb.Indexed) (hc : ∀ l ∈ c.members, l ∈ kb.languages) :
    kb.narrow? s file (kb.narrow s file c) = none := by
  rw [narrow?_eq_none]
  by_cases hnil : kb.agreed file (kb.narrow s file c) s = []
  · exact .inl hnil
  right
  have hr : ∀ l ∈ (kb.narrow s file c).members, l ∈ kb.languages := fun l hl =>
    hc l (narrow_sublist.subset hl)
  obtain ⟨m, hm⟩ := List.exists_mem_of_ne_nil _ hnil
  obtain ⟨hmem, hspeaks, hsize⟩ := (mem_agreed_iff hi hr).1 hm
  have hsome : ∃ m ∈ c.members, kb.SpeaksFor file s m := ⟨m, narrow_sublist.subset hmem, hspeaks⟩
  constructor
  · refine agreed_of_forall hnil fun l hl => (mem_agreed_iff hi hr).2 ⟨hl, ?_, hsize⟩
    exact ((mem_narrow hi hc).1 hl).2 hsome
  · -- the mark of the universe is gone, since the stage has agreed on something before
    have hle : (kb.narrow s file c).size ≤ c.size := narrow_sublist.length_le
    have hne : kb.agreed file c s ≠ [] := List.ne_nil_of_mem
      ((mem_agreed_iff hi hc).2 ⟨narrow_sublist.subset hmem, hspeaks, fun h => by
        have := hsize h
        omega⟩)
    rw [narrow_of_agreed hne]

theorem contract (hi : kb.Indexed) (hne : c.members ≠ []) (hc : ∀ l ∈ c.members, l ∈ kb.languages)
    (s : Stage) : kb.Contract file s c where
  nonempty := narrow_nonempty hne
  sublist := narrow_sublist
  marked := narrow_of_isUniverse
  kept _ := mem_narrow hi hc
  silent := narrow?_narrow hi hc
  idempotent := by rw [narrow, narrow?_narrow hi hc, Option.getD_none]

/-- **The contract of stages.** For every knowledge base that can be built, every file and all
candidates among its languages, each stage keeps to its contract. After any stages in any order
candidates of the start are left; and a language that some of them have taken away stays away. -/
theorem stages_contract {languages : List Language} {blocks : List HeuristicBlock}
    {rules : List ExclusionRule} {models : List (String × Model)}
    (hkb : make languages blocks rules models = .ok kb) (file : Sample) {c : Candidates}
    (hne : c.members ≠ []) (hc : ∀ l ∈ c.members, l ∈ kb.languages) :
    (∀ s, kb.Contract file s c) ∧
    ∀ stages, (kb.along file c stages).members ≠ [] ∧
      (kb.along file c stages).members.Sublist c.members ∧
      ((kb.along file c stages).isUniverse = true → kb.along file c stages = c) ∧
      (∀ s, kb.Contract file s (kb.along file c stages)) ∧
      ∀ pre post l, stages = pre ++ post → l ∉ (kb.along file c pre).members →
        l ∉ (kb.along file c stages).members := by
  have hi : kb.Indexed := indexed_of_make hkb
  refine ⟨contract hi hne hc, fun stages => ⟨along_nonempty hne, along_sublist,
    along_of_isUniverse, ?_, ?_⟩⟩
  · exact contract hi (along_nonempty hne) fun l hl => hc l (along_sublist.subset hl)
  · rintro pre post l rfl hl hmem
    rw [along_append] at hmem
    exact hl (along_sublist.subset hmem)

/-- The interpreter of the script speaks against its extension. Once it has, the language of the
extension is gone, whatever stages follow. -/
theorem snakeScript_contract : ∃ kb, make [crab, snake] [] [] [] = .ok kb ∧
    (∀ s, kb.Contract snakeScript s kb.all) ∧
    ∀ stages, crab ∉ (kb.along snakeScript kb.all (.shebang :: stages)).members := by
  obtain ⟨kb, hkb⟩ : ∃ kb, make [crab, snake] [] [] [] = .ok kb := ⟨_, rfl⟩
  have hi : kb.Indexed := indexed_of_make hkb
  have hall : kb.all.members = [crab, snake] := by rw [hi.all_members, languages_snake_crab hkb]
  have hne : kb.all.members ≠ [] := by rw [hall]; nofun
  obtain ⟨hcontract, hruns⟩ := stages_contract hkb snakeScript hne hi.mem_languages
  refine ⟨kb, hkb, hcontract, fun stages => ?_⟩
  obtain ⟨-, -, -, -, hgone⟩ := hruns (.shebang :: stages)
  refine hgone [.shebang] stages crab rfl ?_
  have hagreed : kb.agreed snakeScript kb.all .shebang = [snake] :=
    agreed_of_sole hi (snakeScript_sole hkb) nofun
  have hleft : kb.along snakeScript kb.all [.shebang] = ⟨[snake], false⟩ := by
    have hnarrow := narrow_of_agreed (c := kb.all) (s := .shebang) (by rw [hagreed]; nofun)
    rw [hagreed] at hnarrow
    exact hnarrow
  rw [hleft]
  decide

end LangId.KnowledgeBase
