import LangId.Proofs.Knowledge.Index
import LangId.Proofs.Steps

/-!
# What a built knowledge base answers

`KnowledgeBase.make` is opened once, in `make_eq_ok`; everything later works with `Indexed`: names
differ under lower-casing, languages stand in strict order of their names, and every lookup finds
exactly the languages that declare the key (`indexed_of_make`). In such a base the set that
identification begins with is the list of languages itself (`Indexed.all_members`).
-/
namespace LangId.KnowledgeBase

open Text

/-! ## Declared names -/

theorem add_eq_ok {found found' : List (String × Language)} {l : Language} :
    declared.add found l = .ok found' ↔
      found' = (lower l.name, l) :: found ∧ found.lookup (lower l.name) = none := by
  unfold declared.add
  cases h : found.lookup (lower l.name) with
  | none => simp [eq_comm]
  | some m => simp

theorem lookup_cons_eq_none {key k : String} {l : Language} {found : List (String × Language)} :
    ((k, l) :: found).lookup key = none ↔ key ≠ k ∧ found.lookup key = none := by
  rw [Table.lookup_cons]
  by_cases h : key = k <;> simp [h]

theorem foldlM_add_eq_ok (languages : List Language) (found r : List (String × Language)) :
    languages.foldlM declared.add found = .ok r ↔
      r = (languages.map fun l => (lower l.name, l)).reverse ++ found ∧
        (languages.map fun l => lower l.name).Nodup ∧
        ∀ l ∈ languages, found.lookup (lower l.name) = none := by
  induction languages generalizing found with
  | nil => rw [List.foldlM_nil, pure_eq_ok, eq_comm]; simp
  | cons l rest ih =>
    simp only [List.foldlM_cons, bind_eq_ok, add_eq_ok, ih, List.map_cons, List.nodup_cons,
      List.reverse_cons, List.append_assoc, List.singleton_append, List.forall_mem_cons]
    constructor
    · rintro ⟨_, ⟨rfl, hnone⟩, hr, hnodup, hrest⟩
      refine ⟨hr, ⟨?_, hnodup⟩, hnone, fun m hm => (lookup_cons_eq_none.1 (hrest m hm)).2⟩
      intro hmem
      obtain ⟨m, hm, heq⟩ := List.mem_map.1 hmem
      exact (lookup_cons_eq_none.1 (hrest m hm)).1 heq
    · rintro ⟨hr, ⟨hl, hnodup⟩, hnone, hrest⟩
      refine ⟨_, ⟨rfl, hnone⟩, hr, hnodup, fun m hm => lookup_cons_eq_none.2 ⟨?_, hrest m hm⟩⟩
      exact fun heq => hl (List.mem_map.2 ⟨m, hm, heq⟩)

/-- Languages are accepted exactly if their names differ under lower-casing. -/
theorem declared_eq_ok {languages : List Language} {byName : List (String × Language)} :
    declared languages = .ok byName ↔
      byName = (languages.map fun l => (lower l.name, l)) ∧
        (languages.map fun l => lower l.name).Nodup := by
  rw [declared, map_eq_ok]
  simp only [foldlM_add_eq_ok, List.append_nil, List.lookup_nil, implies_true, and_true]
  constructor
  · rintro ⟨_, ⟨rfl, hnodup⟩, rfl⟩
    exact ⟨List.reverse_reverse _, hnodup⟩
  · rintro ⟨rfl, hnodup⟩
    exact ⟨_, ⟨rfl, hnodup⟩, List.reverse_reverse _⟩

/-! ## The fields of a built base -/

/-- What `make` puts into a knowledge base, and what it has checked before. -/
theorem make_eq_ok {languages : List Language} {blocks : List HeuristicBlock}
    {rules : List ExclusionRule} {models : List (String × Model)} {kb : KnowledgeBase}
    (h : make languages blocks rules models = .ok kb) :
    (languages.map fun l => lower l.name).Nodup ∧
      kb.languages = languages.mergeSort Candidates.byName ∧
      kb.extensionIndex =
        Index.ofLanguages (fun l => sortedSet (l.extensions.map lower)) languages ∧
      kb.filenameIndex = Index.ofLanguages (·.filenames) languages ∧
      kb.interpreterIndex = Index.ofLanguages (·.interpreters) languages ∧
      kb.modeIndex = Index.ofLanguages (fun l => sortedSet (l.modes.map lower)) languages ∧
      kb.heuristics = rulesByExtension blocks := by
  obtain ⟨byName, hd, h⟩ := bind_eq_ok.1 h
  obtain ⟨rfl, hnodup⟩ := declared_eq_ok.1 hd
  have hall : (languages.map fun l => (lower l.name, l)).map (·.2) = languages := by
    rw [List.map_map]
    exact List.map_id languages
  -- the two checks end in an error or let the base through
  dsimp only at h
  split at h
  · cases h
  split at h
  · cases h
  rw [hall] at h
  obtain rfl := pure_eq_ok.1 h
  exact ⟨hnodup, rfl, rfl, rfl, rfl, rfl, rfl⟩

/-- Lookups find what is declared, and names tell languages apart. -/
structure Indexed (kb : KnowledgeBase) : Prop where
  names : (kb.languages.map fun l => lower l.name).Nodup
  order : kb.languages.Pairwise fun a b => a.name < b.name
  extension : ∀ {e l}, l ∈ (kb.byExtension e).members ↔
    l ∈ kb.languages ∧ ∃ d ∈ l.extensions, lower d = lower e
  filename : ∀ {n l}, l ∈ (kb.byFilename n).members ↔ l ∈ kb.languages ∧ n ∈ l.filenames
  interpreter : ∀ {i l}, l ∈ (kb.byInterpreter i).members ↔ l ∈ kb.languages ∧ i ∈ l.interpreters
  mode : ∀ {m l}, l ∈ (kb.byMode m).members ↔
    l ∈ kb.languages ∧ ∃ d ∈ l.modes, lower d = lower m

theorem mem_sortedSet_lower {keys : List String} {key : String} :
    lower key ∈ sortedSet (keys.map lower) ↔ ∃ d ∈ keys, lower d = lower key := by
  rw [mem_sortedSet, List.mem_map]

theorem indexed_of_make {languages : List Language} {blocks : List HeuristicBlock}
    {rules : List ExclusionRule} {models : List (String × Model)} {kb : KnowledgeBase}
    (h : make languages blocks rules models = .ok kb) : kb.Indexed := by
  obtain ⟨hn, hl, he, hf, hi, hm, -⟩ := make_eq_ok h
  have hperm : kb.languages.Perm languages := by rw [hl]; exact List.mergeSort_perm _ _
  have hnames : (kb.languages.map fun l => lower l.name).Nodup := (hperm.map _).nodup_iff.2 hn
  refine ⟨hnames, ?_, ?_, ?_, ?_, ?_⟩
  · -- in order by the sort, strictly since no two names are equal
    have hsorted : kb.languages.Pairwise fun a b => notAfter a.name b.name = true := by
      rw [hl]
      exact Candidates.pairwise_mergeSort_byName languages
    refine List.Pairwise.imp₂ (fun a b hab hne => ?_) hsorted (List.pairwise_map.1 hnames)
    exact lt_of_notAfter hab fun heq => hne (congrArg lower heq)
  · intro e l
    rw [byExtension, he, Index.mem_find_ofLanguages, mem_sortedSet_lower, hperm.mem_iff]
  · intro n l
    rw [byFilename, hf, Index.mem_find_ofLanguages, hperm.mem_iff]
  · intro i l
    rw [byInterpreter, hi, Index.mem_find_ofLanguages, hperm.mem_iff]
  · intro m l
    rw [byMode, hm, Index.mem_find_ofLanguages, mem_sortedSet_lower, hperm.mem_iff]

namespace Indexed

variable {kb : KnowledgeBase} (h : kb.Indexed)

include h in
/-- The set that identification begins with. -/
theorem all_members : kb.all.members = kb.languages := by
  rw [all, Candidates.ofList_of_strict h.order]

include h in
theorem mem_languages : ∀ l ∈ kb.all.members, l ∈ kb.languages := by
  rw [h.all_members]
  exact fun _ hl => hl

end Indexed

end LangId.KnowledgeBase
