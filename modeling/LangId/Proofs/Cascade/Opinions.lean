import LangId.Proofs.Cascade.Evidence

/-!
# Which languages a stage speaks for

What a stage agrees on (`KnowledgeBase.agreed`) is read off indexes. Here it is said in terms of what
languages declare. `SpeaksFor` refines `Supports`: what supports a match is a suffix of the name of a
file, but a stage sees only the extensions that the file has, and a name that ends in a dot has none.

**Results.**
* `mem_agreed_iff`: a stage agrees on exactly the candidates that it speaks for; heuristics say
  nothing about a single candidate.
* `mem_narrow`: a stage keeps the candidates that it speaks for, or all if it speaks for none.
-/
namespace LangId.KnowledgeBase

open Text

variable (kb : KnowledgeBase) (file : Sample)

/-- Whether what a stage finds in a file speaks for a language. -/
def SpeaksFor : Stage → Language → Prop
  | .extension, l => ∃ e,
      file.LongestExtension (fun t => ∃ m ∈ kb.languages, m.DeclaresExtension t.toList) e ∧
      l.DeclaresExtension e.toList
  | .heuristics, l => ∃ e,
      file.LongestExtension (fun t => kb.rulesFor t ≠ []) e ∧
      Confirms (kb.rulesFor e) file.content l
  | s, l => kb.Supports file (.stage s) l

variable {kb file} {c p : Candidates} {s : Stage} {l : Language}

/-! ## One lookup each -/

/-- An interpreter leads to the languages that declare it or, if there are none, to those that
declare it without its version. -/
theorem mem_ofInterpreter_iff (hi : kb.Indexed) {i : String} :
    l ∈ (kb.ofInterpreter i).members ↔ l ∈ kb.languages ∧
      (i ∈ l.interpreters ∨ (∀ m ∈ kb.languages, i ∉ m.interpreters) ∧
        ∃ bare, Shebang.stripVersion? i = some bare ∧ bare ∈ l.interpreters) := by
  have hnone : (kb.byInterpreter i).isEmpty = true ↔ ∀ m ∈ kb.languages, i ∉ m.interpreters := by
    rw [Candidates.isEmpty, List.isEmpty_iff, List.eq_nil_iff_forall_not_mem]
    simp only [hi.interpreter, not_and]
  unfold ofInterpreter
  cases he : (kb.byInterpreter i).isEmpty with
  | true =>
    have hno := hnone.1 he
    have hmem : l ∈ kb.languages → i ∉ l.interpreters := hno l
    cases hs : Shebang.stripVersion? i with
    | none =>
      simp only [he, if_true, hi.interpreter]
      constructor
      · rintro ⟨hl, hd⟩
        exact absurd hd (hmem hl)
      · rintro ⟨hl, hd | ⟨-, _, h, -⟩⟩
        · exact absurd hd (hmem hl)
        · cases h
    | some bare =>
      simp only [he, if_true, hi.interpreter, Option.some.injEq, exists_eq_left']
      refine and_congr_right fun hl => ?_
      rw [or_iff_right (hmem hl), and_iff_right hno]
  | false =>
    simp only [he, Bool.false_eq_true, if_false, hi.interpreter]
    refine and_congr_right fun _ => (or_iff_left ?_).symm
    rintro ⟨hno, -⟩
    rw [hnone.2 hno] at he
    cases he

/-- The languages of extensions are those of the longest one that any language declares. -/
theorem ofExtensions?_eq_some (hi : kb.Indexed) :
    kb.ofExtensions? file.extensions = some p ↔
      ∃ e, file.LongestExtension (fun t => ∃ m ∈ kb.languages, m.DeclaresExtension t.toList) e ∧
        kb.byExtension e = p := by
  have hdeclared (t : String) : (!(kb.byExtension t).isEmpty) = true ↔
      ∃ m ∈ kb.languages, m.DeclaresExtension t.toList := by
    rw [← byExtension_ne_nil hi, String.ofList_toList]
  rw [ofExtensions?, Sample.find?_extensions]
  simp only [hdeclared]

theorem firstApplying?_confirms {rules : List HeuristicRule} {content : List Char} :
    (∃ r, firstApplying? rules content = some r ∧ l.name ∈ r.languages) ↔
      Confirms rules content l := by
  constructor
  · rintro ⟨r, hr, hl⟩
    exact confirms_of_firstApplying? hr hl
  · rintro ⟨before, r, behind, heq, hbefore, hr, hl⟩
    refine ⟨r, List.find?_eq_some_iff_append.2 ⟨hr, before, behind, heq, fun b hb => ?_⟩, hl⟩
    rw [hbefore b hb]
    rfl

/-- The rules that are found for the extensions of a file are those of the longest with any. -/
theorem find?_rulesFor {rules : List HeuristicRule} :
    (file.extensions.map kb.rulesFor).find? (!·.isEmpty) = some rules ↔
      ∃ e, file.LongestExtension (fun t => kb.rulesFor t ≠ []) e ∧ kb.rulesFor e = rules := by
  have hrules (t : String) : (!(kb.rulesFor t).isEmpty) = true ↔ kb.rulesFor t ≠ [] := by
    rw [Bool.not_eq_true', List.isEmpty_eq_false_iff]
  rw [Sample.find?_extensions]
  simp only [hrules]

/-- The rules that are tried are those of the longest extension with any. -/
theorem rulesOfExtensions_of_longest {e : String}
    (h : file.LongestExtension (fun t => kb.rulesFor t ≠ []) e) :
    kb.rulesOfExtensions file.extensions = kb.rulesFor e := by
  rw [rulesOfExtensions, find?_rulesFor.2 ⟨e, h, rfl⟩, Option.getD_some]

/-- Where a rule is tried, some extension has rules. -/
theorem longest_of_mem_rulesOfExtensions {r : HeuristicRule}
    (h : r ∈ kb.rulesOfExtensions file.extensions) :
    ∃ e, file.LongestExtension (fun t => kb.rulesFor t ≠ []) e := by
  rw [rulesOfExtensions] at h
  cases hf : (file.extensions.map kb.rulesFor).find? (!·.isEmpty) with
  | none =>
    rw [hf] at h
    cases h
  | some rules =>
    obtain ⟨e, he, -⟩ := find?_rulesFor.1 hf
    exact ⟨e, he⟩

/-- What the rules that are tried confirm, the longest extension with any rules confirms. -/
theorem confirms_rulesOfExtensions :
    Confirms (kb.rulesOfExtensions file.extensions) file.content l ↔
      ∃ e, file.LongestExtension (fun t => kb.rulesFor t ≠ []) e ∧
        Confirms (kb.rulesFor e) file.content l := by
  constructor
  · intro h
    have ⟨before, r, behind, heq, _⟩ := h
    have hr : r ∈ kb.rulesOfExtensions file.extensions := by
      rw [heq]
      exact List.mem_append_right _ List.mem_cons_self
    obtain ⟨e, he⟩ := longest_of_mem_rulesOfExtensions hr
    rw [rulesOfExtensions_of_longest he] at h
    exact ⟨e, he, h⟩
  · rintro ⟨e, he, h⟩
    rwa [rulesOfExtensions_of_longest he]

/-! ## Every stage -/

theorem mem_proposal_of_map {α : Type} {found : Option α} {f : α → Candidates} :
    (∃ p, found.map f = some p ∧ l ∈ p.members) ↔ ∃ a, found = some a ∧ l ∈ (f a).members := by
  cases found <;> simp

/-- **What a stage agrees on.** -/
theorem mem_agreed_iff (hi : kb.Indexed) (hc : ∀ l ∈ c.members, l ∈ kb.languages) :
    l ∈ kb.agreed file c s ↔
      l ∈ c.members ∧ kb.SpeaksFor file s l ∧ (s = .heuristics → 2 ≤ c.size) := by
  rw [mem_agreed]
  refine and_congr_right fun hl => ?_
  have hl' := hc l hl
  cases s with
  | filename => simp [proposal?, SpeaksFor, Supports, hi.filename, hl']
  | shebang =>
    simp only [proposal?, mem_proposal_of_map, SpeaksFor, Supports, mem_ofInterpreter_iff hi, hl']
    simp
  | extension =>
    simp only [proposal?, SpeaksFor, ofExtensions?_eq_some hi, reduceCtorEq, false_implies, and_true]
    constructor
    · rintro ⟨_, ⟨e, he, rfl⟩, hmem⟩
      refine ⟨e, he, ?_⟩
      rw [Language.DeclaresExtension, String.ofList_toList]
      exact (hi.extension.1 hmem).2
    · rintro ⟨e, he, hd⟩
      rw [Language.DeclaresExtension, String.ofList_toList] at hd
      exact ⟨_, ⟨e, he, rfl⟩, hi.extension.2 ⟨hl', hd⟩⟩
  | modeline =>
    simp only [proposal?, mem_proposal_of_map, SpeaksFor, Supports, hi.mode, hl']
    simp
  | heuristics =>
    rw [SpeaksFor, ← confirms_rulesOfExtensions, ← firstApplying?_confirms]
    by_cases hsize : c.size ≤ 1
    · have hno : ¬ 2 ≤ c.size := by omega
      simp [proposal?, hsize, hno]
    · have htwo : 2 ≤ c.size := by omega
      simp only [proposal?, if_neg hsize, confirmed?, mem_proposal_of_map]
      simp [htwo, hl]

/-- Where a stage speaks for no candidate, the candidates stay as they are. -/
theorem narrow_of_unspoken (hi : kb.Indexed) (hc : ∀ l ∈ c.members, l ∈ kb.languages)
    (h : ∀ l ∈ c.members, ¬ kb.SpeaksFor file s l) : kb.narrow s file c = c := by
  have hnil : kb.agreed file c s = [] := by
    rw [List.eq_nil_iff_forall_not_mem]
    intro l hl
    obtain ⟨hmem, hs, -⟩ := (mem_agreed_iff hi hc).1 hl
    exact h l hmem hs
  rw [narrow_eq, if_pos hnil]

/-- **What a stage leaves.** It keeps the candidates that it speaks for, or all if it speaks for
none. -/
theorem mem_narrow (hi : kb.Indexed) (hc : ∀ l ∈ c.members, l ∈ kb.languages) :
    l ∈ (kb.narrow s file c).members ↔
      l ∈ c.members ∧ ((∃ m ∈ c.members, kb.SpeaksFor file s m) → kb.SpeaksFor file s l) := by
  by_cases hsome : ∃ m ∈ c.members, kb.SpeaksFor file s m
  · obtain ⟨m, hm, hs⟩ := hsome
    have hspoken : ∃ m ∈ c.members, kb.SpeaksFor file s m := ⟨m, hm, hs⟩
    by_cases hsize : s = .heuristics → 2 ≤ c.size
    · have hne : kb.agreed file c s ≠ [] :=
        List.ne_nil_of_mem ((mem_agreed_iff hi hc).2 ⟨hm, hs, hsize⟩)
      rw [narrow_of_agreed hne, mem_agreed_iff hi hc]
      simp only [hspoken, true_implies]
      exact and_congr_right fun _ => and_iff_left hsize
    · -- a single candidate is not looked at, but it is the one that is spoken for
      have hone : c.size ≤ 1 := by
        have := (Classical.not_imp.1 hsize).2
        omega
      have hnil : kb.agreed file c s = [] := by
        rw [List.eq_nil_iff_forall_not_mem]
        exact fun l hl => hsize ((mem_agreed_iff hi hc).1 hl).2.2
      rw [narrow_eq, if_pos hnil]
      simp only [hspoken, true_implies]
      refine ⟨fun hl => ⟨hl, ?_⟩, And.left⟩
      rwa [Candidates.eq_of_size_le_one hone hl hm]
  · rw [narrow_of_unspoken hi hc fun l hl hs => hsome ⟨l, hl, hs⟩]
    simp only [hsome, false_implies, and_true]

end LangId.KnowledgeBase
