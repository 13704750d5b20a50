import LangId.Knowledge.Base
import LangId.Proofs.Candidates
import LangId.Proofs.Tables

/-!
# What an index holds

An `Index` is built by adding languages one by one under each of their keys. `under` reads the
languages under a key off the index as it grows: one addition is `under_add`, a whole build is
`mem_under_ofLanguages`, and a lookup finds exactly the languages that have the key
(`mem_find_ofLanguages`).
-/
namespace LangId.Index

/-- The languages under a key, in the order in which they were added. -/
def under (index : Index) (key : String) : List Language := (index.lookup key).getD []

theorem under_cons (k key : String) (ls : List Language) (rest : Index) :
    under ((k, ls) :: rest) key = if key = k then ls else rest.under key := by
  rw [under, Table.lookup_cons]
  split <;> rfl

/-- Adding a language under a key changes what is under this key and nothing else. -/
theorem under_add (index : Index) (k key : String) (l : Language) :
    (index.add k l).under key = if key = k then index.under key ++ [l] else index.under key := by
  induction index with
  | nil => simp only [add, under_cons]; simp [under]
  | cons entry rest ih =>
    obtain ⟨k', ls⟩ := entry
    rw [add]
    by_cases hk : k' = k
    · subst hk
      by_cases h : key = k' <;> simp [under_cons, h]
    · by_cases h : key = k'
      · subst h
        simp [under_cons, hk]
      · simp [under_cons, hk, h, ih]

theorem mem_under_addKeys (ks : List String) (index : Index) (key : String) (l m : Language) :
    m ∈ (ks.foldl (fun index k => index.add k l) index).under key ↔
      m ∈ index.under key ∨ m = l ∧ key ∈ ks := by
  induction ks generalizing index with
  | nil => simp
  | cons k rest ih =>
    rw [List.foldl_cons, ih, under_add]
    by_cases h : key = k
    · subst h
      by_cases hm : m = l <;> simp [hm]
    · simp [h]

theorem mem_under_addAll (keys : Language → List String) (languages : List Language)
    (index : Index) (key : String) (m : Language) :
    m ∈ (languages.foldl (fun index l => (keys l).foldl (fun index k => index.add k l) index)
        index).under key ↔ m ∈ index.under key ∨ m ∈ languages ∧ key ∈ keys m := by
  induction languages generalizing index with
  | nil => simp
  | cons l rest ih =>
    rw [List.foldl_cons, ih, mem_under_addKeys, or_assoc]
    refine or_congr_right ?_
    constructor
    · rintro (⟨rfl, hk⟩ | ⟨hm, hk⟩)
      · exact ⟨List.mem_cons_self, hk⟩
      · exact ⟨List.mem_cons_of_mem _ hm, hk⟩
    · rintro ⟨hm, hk⟩
      rcases List.mem_cons.1 hm with rfl | hm
      · exact Or.inl ⟨rfl, hk⟩
      · exact Or.inr ⟨hm, hk⟩

theorem mem_under_ofLanguages {keys : Language → List String} {languages : List Language}
    {key : String} {l : Language} :
    l ∈ (ofLanguages keys languages).under key ↔ l ∈ languages ∧ key ∈ keys l := by
  rw [ofLanguages, mem_under_addAll]
  simp [under]

/-- **Lookup.** Under a key stand exactly the languages that have it. -/
theorem mem_find_ofLanguages {keys : Language → List String} {languages : List Language}
    {key : String} {l : Language} :
    l ∈ ((ofLanguages keys languages).find key).members ↔ l ∈ languages ∧ key ∈ keys l := by
  rw [find, Candidates.mem_ofList]
  exact mem_under_ofLanguages

end LangId.Index
