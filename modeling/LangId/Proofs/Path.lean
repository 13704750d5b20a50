import LangId.Path

/-!
# The canonical spelling of paths

Rules, reports and samples spell paths in one way (`Path.canonical`). To spell a path again changes
nothing (`canonical_canonical`), and no backslash is left in it (`forwardSlashes_canonical`). The
texts that are spelt in this way already are told by their characters (`canonical_eq_self_iff`).
-/
namespace LangId.Path

theorem backslash_not_mem_forwardSlashes (s : List Char) : '\\' ∉ forwardSlashes s := by
  intro h
  obtain ⟨c, -, hc⟩ := List.mem_map.1 h
  split at hc
  · exact absurd hc (by decide)
  · rename_i hne
    exact hne (beq_iff_eq.2 hc)

theorem forwardSlashes_of_not_mem {s : List Char} (h : '\\' ∉ s) : forwardSlashes s = s := by
  have hsame : ∀ c ∈ s, (if c == '\\' then '/' else c) = c := by
    intro c hc
    have hne : (c == '\\') = false := beq_false_of_ne fun heq => h (heq ▸ hc)
    rw [hne]
    rfl
  calc forwardSlashes s = s.map id := List.map_congr_left hsame
    _ = s := List.map_id s

theorem dropHere_suffix (s : List Char) : dropHere s <:+ s := by
  fun_induction dropHere s with
  | case1 rest ih => exact (ih.trans (List.suffix_cons '/' rest)).trans (List.suffix_cons '.' _)
  | case2 s => exact List.suffix_refl s

theorem dropHere_eq_self {s : List Char} (h : ∀ rest, s ≠ '.' :: '/' :: rest) : dropHere s = s := by
  unfold dropHere
  split
  · exact absurd rfl (h _)
  · rfl

theorem dropHere_ne (s rest : List Char) : dropHere s ≠ '.' :: '/' :: rest := by
  fun_induction dropHere s with
  | case1 more ih => exact ih
  | case2 s hno => exact fun heq => hno rest heq

theorem dropHere_dropHere (s : List Char) : dropHere (dropHere s) = dropHere s :=
  dropHere_eq_self (dropHere_ne s)

theorem backslash_not_mem_canonical (s : String) : '\\' ∉ (canonical s).toList := by
  rw [canonical, String.toList_ofList]
  exact fun h => backslash_not_mem_forwardSlashes _ ((dropHere_suffix _).subset h)

theorem forwardSlashes_canonical (s : String) :
    forwardSlashes (canonical s).toList = (canonical s).toList :=
  forwardSlashes_of_not_mem (backslash_not_mem_canonical s)

/-- A canonical path is spelt as it is. -/
theorem canonical_canonical (s : String) : canonical (canonical s) = canonical s := by
  calc canonical (canonical s) = String.ofList (dropHere (canonical s).toList) := by
        rw [canonical, forwardSlashes_canonical]
    _ = canonical s := by rw [canonical, String.toList_ofList, dropHere_dropHere]

/-- A text that is the canonical spelling of a path: it has no backslash, and no `./` in front. -/
def IsCanonical (s : String) : Prop := '\\' ∉ s.toList ∧ ¬['.', '/'] <+: s.toList

instance (s : String) : Decidable (IsCanonical s) := inferInstanceAs (Decidable (_ ∧ _))

theorem canonical_eq_self_iff {s : String} : canonical s = s ↔ IsCanonical s := by
  constructor
  · intro h
    refine ⟨h ▸ backslash_not_mem_canonical s, ?_⟩
    rintro ⟨rest, hrest⟩
    rw [← h, canonical, String.toList_ofList] at hrest
    exact dropHere_ne _ rest hrest.symm
  · rintro ⟨hslashes, hhere⟩
    have hne (rest : List Char) : s.toList ≠ '.' :: '/' :: rest := fun heq => hhere ⟨rest, heq.symm⟩
    rw [canonical, forwardSlashes_of_not_mem hslashes, dropHere_eq_self hne, String.ofList_toList]

theorem isCanonical_canonical (s : String) : IsCanonical (canonical s) :=
  canonical_eq_self_iff.1 (canonical_canonical s)

end LangId.Path
