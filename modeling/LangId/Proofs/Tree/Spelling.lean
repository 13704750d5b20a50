import LangId.Proofs.Path
import LangId.Proofs.Text.Pieces
import LangId.Proofs.Tree.Places

/-!
# How places are spelt

A place is reported as a text with slashes between its names (`Scanner.pathOf`), in which no
backslash is left. Backslashes are characters that names can have, so the text tells the place only
if there are none of them (`Tree.Plain`): the place is read off its text exactly then
(`parts_pathOf_iff`).
-/
namespace LangId

open Text

namespace Tree

/-- No name of a place has a backslash in it. -/
def Plain (p : Place) : Prop := ∀ name ∈ p, '\\' ∉ name.toList

instance (p : Place) : Decidable (Plain p) := inferInstanceAs (Decidable (∀ name ∈ p, _))

/-- The characters of a place, with slashes between the names. -/
def spelt (p : Place) : List Char := ['/'].intercalate (p.map String.toList)

variable {p q : Place}

@[simp]
theorem spelt_singleton (name : String) : spelt [name] = name.toList :=
  List.intercalate_singleton

theorem spelt_cons {name : String} (hne : p ≠ []) :
    spelt (name :: p) = name.toList ++ '/' :: spelt p := by
  obtain ⟨first, more, rfl⟩ := List.exists_cons_of_ne_nil hne
  rw [spelt, List.map_cons, List.map_cons, List.intercalate_cons_cons, List.append_assoc]
  rfl

theorem splitOn_spelt (hne : p ≠ []) (hnames : ∀ name ∈ p, ValidName name) :
    splitOn '/' (spelt p) = p.map String.toList := by
  rw [splitOn_eq, spelt]
  refine List.splitOn_intercalate '/' (fun piece hpiece => ?_) (by simpa using hne)
  obtain ⟨name, hname, rfl⟩ := List.mem_map.1 hpiece
  exact (hnames name hname).no_slash

/-- What is spelt does not begin like another kind of path: the first name would be empty or a
dot. -/
theorem spelt_ne (hne : p ≠ []) (hnames : ∀ name ∈ p, ValidName name) (rest : List Char) :
    spelt p ≠ '/' :: rest ∧ spelt p ≠ '.' :: '/' :: rest := by
  have hsplit := splitOn_spelt hne hnames
  obtain ⟨first, more, rfl⟩ := List.exists_cons_of_ne_nil hne
  have hfirst := hnames first List.mem_cons_self
  rw [splitOn_eq, List.map_cons] at hsplit
  constructor
  · intro heq
    rw [heq, List.splitOn_cons_eq_if_modifyHead, if_pos (beq_self_eq_true '/')] at hsplit
    exact hfirst.ne_empty (String.toList_inj.1 (List.cons.inj hsplit).1.symm)
  · intro heq
    have hdot : ('.' :: '/' :: rest).splitOn '/' = ['.'] :: rest.splitOn '/' :=
      List.splitOn_append_cons_self_of_not_mem (show '/' ∉ ['.'] by decide) rest
    rw [heq, hdot] at hsplit
    exact hfirst.ne_here (String.toList_inj.1 (List.cons.inj hsplit).1.symm)

theorem spelt_append (hp : p ≠ []) (hq : q ≠ []) : spelt (p ++ q) = spelt p ++ '/' :: spelt q := by
  induction p with
  | nil => exact absurd rfl hp
  | cons name p ih =>
    rw [List.cons_append, spelt_cons (List.append_ne_nil_of_right_ne_nil p hq)]
    by_cases hne : p = []
    · subst hne
      rw [spelt_singleton, List.nil_append]
    · rw [spelt_cons hne, ih hne, List.append_assoc, List.cons_append]

/-- What is spelt holds slashes and the characters of names. -/
theorem notMem_spelt {c : Char} (hc : c ≠ '/') (hp : ∀ name ∈ p, c ∉ name.toList) :
    c ∉ spelt p := by
  induction p with
  | nil => exact List.not_mem_nil
  | cons name p ih =>
    obtain ⟨hname, hp⟩ := List.forall_mem_cons.1 hp
    by_cases hne : p = []
    · subst hne
      rwa [spelt_singleton]
    · rw [spelt_cons hne, List.mem_append, List.mem_cons]
      exact not_or.2 ⟨hname, not_or.2 ⟨hc, ih hp⟩⟩

theorem backslash_not_mem_spelt (hp : Plain p) : '\\' ∉ spelt p := notMem_spelt (by decide) hp

end Tree

namespace Path

open LangId.Tree (Place Plain ValidName spelt)

variable {p q : Place}

theorem anchoringOf_eq_relative {s : List Char} (h : ∀ rest, s ≠ '/' :: rest) :
    anchoringOf s = .relative := by
  unfold anchoringOf
  split
  · exact absurd rfl (h _)
  · exact absurd rfl (h _)
  · exact absurd rfl (h _)
  · rfl

theorem components_spelt (hne : p ≠ []) (hnames : ∀ name ∈ p, ValidName name) :
    components (spelt p) = p := by
  have hkept : ∀ piece ∈ p.map String.toList, (!piece.isEmpty && piece != ['.']) = true := by
    intro piece hpiece
    obtain ⟨name, hname, rfl⟩ := List.mem_map.1 hpiece
    have hvalid := hnames name hname
    have hempty : name.toList ≠ [] := fun h => hvalid.ne_empty (String.toList_inj.1 h)
    have hhere : name.toList ≠ ['.'] := fun h => hvalid.ne_here (String.toList_inj.1 h)
    simp [hempty, hhere]
  rw [components, Tree.splitOn_spelt hne hnames, List.filter_eq_self.2 hkept, List.map_map]
  calc p.map (String.ofList ∘ String.toList) = p.map id :=
        List.map_congr_left fun name _ => String.ofList_toList
    _ = p := List.map_id p

theorem ofString_spelt (hne : p ≠ []) (hnames : ∀ name ∈ p, ValidName name) :
    ofString (String.ofList (spelt p)) = ⟨.relative, p⟩ := by
  rw [ofString, String.toList_ofList, components_spelt hne hnames,
    anchoringOf_eq_relative fun rest => (Tree.spelt_ne hne hnames rest).1]

/-- The text of a relative path, unless it is empty, is the spelling of its components. -/
theorem toList_toString_relative (hne : p ≠ []) :
    (Path.mk .relative p).toString.toList = spelt p := by
  have hempty : p.isEmpty = false := by simpa using hne
  rw [Path.toString]
  dsimp only
  rw [hempty, if_neg nofun, String.toList_intercalate]
  rfl

/-- What is read off a text without backslashes has none. -/
theorem plain_parts {s : String} (h : '\\' ∉ s.toList) : Plain (ofString s).parts := by
  intro name hname hmem
  obtain ⟨piece, hpiece, rfl⟩ := List.mem_map.1 hname
  rw [String.toList_ofList] at hmem
  exact h (mem_of_mem_splitOn (List.mem_filter.1 hpiece).1 hmem)

end Path

namespace Scanner

open LangId.Tree (Place Plain ValidName spelt)

variable {p q : Place}

theorem pathOf_of_plain (hne : p ≠ []) (hnames : ∀ name ∈ p, ValidName name) (hp : Plain p) :
    pathOf p = String.ofList (spelt p) := by
  rw [pathOf, Path.canonical, Path.toList_toString_relative hne,
    Path.forwardSlashes_of_not_mem (Tree.backslash_not_mem_spelt hp),
    Path.dropHere_eq_self fun rest => (Tree.spelt_ne hne hnames rest).2]

theorem ofString_pathOf (hne : p ≠ []) (hnames : ∀ name ∈ p, ValidName name) (hp : Plain p) :
    Path.ofString (pathOf p) = ⟨.relative, p⟩ := by
  rw [pathOf_of_plain hne hnames hp, Path.ofString_spelt hne hnames]

/-- A place is read off its text exactly if it has no backslash. -/
theorem parts_pathOf_iff (hne : p ≠ []) (hnames : ∀ name ∈ p, ValidName name) :
    (Path.ofString (pathOf p)).parts = p ↔ Plain p := by
  constructor
  · intro heq
    rw [← heq]
    exact Path.plain_parts (Path.backslash_not_mem_canonical _)
  · intro hp
    rw [ofString_pathOf hne hnames hp]

end Scanner

end LangId
