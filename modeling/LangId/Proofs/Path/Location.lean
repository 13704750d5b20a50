import LangId.Proofs.Path.Respelling
import LangId.Proofs.Tree.Spelling

/-!
# What a canonical path names

A path is read component by component, and `.` and empty components do not count. The canonical
spelling has the components of the path (`components_canonical`), but one thing can change: where
`./` is followed by a slash, what is left of a relative path begins with that slash, and names a place
from the top instead of one below a root (`relative_canonical_iff`).

**Results.**
* `keepsPlace_iff`: the relative paths that stay relative, and then name the same place below every
  root.
* `canonical_location`: this, and where all other relative paths lead.
* `slash_uncovered`: a file that is read from outside the root.
-/
namespace LangId.Path

open Text

/-- A path with slashes for backslashes. -/
def slashed (p : String) : String := String.ofList (forwardSlashes p.toList)

/-- A path that is relative if its backslashes are read as slashes. -/
def IsRelative (p : String) : Prop := ¬['/'] <+: (slashed p).toList

instance (p : String) : Decidable (IsRelative p) := inferInstanceAs (Decidable ¬_)

/-- A path that begins with `./`, once or more, and then with another slash. -/
def RunsIntoSlash (p : String) : Prop := ∃ n, heres (n + 1) ++ ['/'] <+: (slashed p).toList

variable {p : String} {s : List Char}

/-! ## Components -/

theorem components_heres_append (n : Nat) (s : List Char) :
    components (heres n ++ s) = components s := by
  induction n with
  | zero => rfl
  | succ n ih =>
    have hsplit : splitOn '/' ('.' :: '/' :: (heres n ++ s)) = ['.'] :: splitOn '/' (heres n ++ s) :=
      rfl
    rw [heres_succ, List.cons_append, List.cons_append, components, hsplit]
    exact ih

theorem toList_slashed (p : String) : (slashed p).toList = forwardSlashes p.toList :=
  String.toList_ofList

/-- **Components** stay as they are, for every path. -/
theorem components_canonical (p : String) :
    components (canonical p).toList = components (slashed p).toList := by
  obtain ⟨rounds, h⟩ := eq_heres_append (slashed p).toList
  rw [h, components_heres_append, toList_canonical, toList_slashed]

/-- The first component of a text that begins with none of those that do not count. -/
theorem head?_splitOn (hslash : ¬['/'] <+: s) (hhere : ¬['.', '/'] <+: s) {c : String}
    (hc : (components s).head? = some c) : (splitOn '/' s).head? = some c.toList := by
  obtain ⟨piece, more, hsplit⟩ := List.exists_cons_of_ne_nil (splitOn_ne_nil '/' s)
  have hs : s = joinWith ['/'] (piece :: more) := by rw [← hsplit, joinWith_splitOn]
  rw [components, hsplit] at hc
  have hempty : piece ≠ [] := by
    rintro rfl
    cases more with
    | nil => cases hc
    | cons next more => exact hslash (hs ▸ List.prefix_append ['/'] _)
  have hdot : piece ≠ ['.'] := by
    rintro rfl
    cases more with
    | nil => cases hc
    | cons next more => exact hhere (hs ▸ List.prefix_append ['.', '/'] _)
  have hkept : (!piece.isEmpty && piece != ['.']) = true := by simp [hempty, hdot]
  rw [List.filter_cons, if_pos hkept, List.map_cons, List.head?_cons, Option.some.injEq] at hc
  rw [hsplit, ← hc, String.toList_ofList, List.head?_cons]

/-! ## Places -/

/-- A relative path is made absolute exactly if a slash comes behind `./`. -/
theorem relative_canonical_iff (h : IsRelative p) :
    ¬['/'] <+: (canonical p).toList ↔ ¬RunsIntoSlash p := by
  refine not_congr ⟨fun hslash => ?_, fun ⟨n, rest, hrest⟩ => ?_⟩
  · obtain ⟨rounds, hrounds⟩ := eq_heres_append (slashed p).toList
    rw [toList_canonical, ← toList_slashed] at hslash
    cases rounds with
    | zero => exact absurd (hrounds ▸ hslash) h
    | succ n => exact ⟨n, by rw [hrounds]; exact (List.prefix_append_right_inj _).2 hslash⟩
  · rw [toList_canonical, ← toList_slashed, ← hrest, List.append_assoc, dropHere_heres_append]
    exact List.prefix_append ['/'] rest

theorem ofString_of_relative (h : ¬['/'] <+: s) :
    ofString (String.ofList s) = ⟨.relative, components s⟩ := by
  rw [ofString, String.toList_ofList, anchoringOf_eq_relative fun rest hs => h ⟨rest, hs.symm⟩]

theorem isAbsolute_of_slash (h : ['/'] <+: s) : (ofString (String.ofList s)).isAbsolute = true := by
  obtain ⟨rest, rfl⟩ := h
  rw [ofString, String.toList_ofList, isAbsolute, List.singleton_append]
  unfold anchoringOf
  split
  · rfl
  · rfl
  · rfl
  · rename_i hno
    exact (hno rest rfl).elim

theorem join_of_relative (root : Path) (h : ¬['/'] <+: s) :
    root.join (ofString (String.ofList s)) = { root with parts := root.parts ++ components s } := by
  rw [ofString_of_relative h]
  rfl

/-- The canonical spelling names the same place as the path. -/
structure KeepsPlace (p : String) : Prop where
  relative : ¬['/'] <+: (canonical p).toList
  components : components (canonical p).toList = components (slashed p).toList
  /-- Seen from any root, both name the place that the components lead to. -/
  place : ∀ root : Path,
    root.join (ofString (canonical p)) =
        { root with parts := root.parts ++ Path.components (slashed p).toList } ∧
      root.join (ofString (slashed p)) =
        { root with parts := root.parts ++ Path.components (slashed p).toList }
  /-- The same content is read below any directory of any tree. -/
  content : ∀ (t : Tree) (root : Path) (bound : Nat),
    (Provider.ofTree t root bound (canonical p)).toOption =
      (Provider.ofTree t root bound (slashed p)).toOption
  /-- A rule that looks at the beginning of the path sees the first component there. -/
  first : ∀ c, (Path.components (slashed p).toList).head? = some c →
    (splitOn '/' (canonical p).toList).head? = some c.toList

theorem keepsPlace_iff (h : IsRelative p) : KeepsPlace p ↔ ¬RunsIntoSlash p := by
  rw [← relative_canonical_iff h]
  refine ⟨KeepsPlace.relative, fun hrelative => ?_⟩
  have hplace (root : Path) : root.join (ofString (canonical p)) =
        { root with parts := root.parts ++ Path.components (slashed p).toList } ∧
      root.join (ofString (slashed p)) =
        { root with parts := root.parts ++ Path.components (slashed p).toList } := by
    have hcanonical := join_of_relative root hrelative
    rw [String.ofList_toList, components_canonical] at hcanonical
    refine ⟨hcanonical, ?_⟩
    have hslashed := join_of_relative root h
    rwa [String.ofList_toList] at hslashed
  refine ⟨hrelative, components_canonical p, hplace, fun t root bound => ?_, fun c hc => ?_⟩
  · rw [Provider.ofTree, Provider.ofTree, (hplace root).1, (hplace root).2]
    dsimp only
    cases t.read _ <;> rfl
  · rw [← components_canonical] at hc
    exact head?_splitOn hrelative (isCanonical_canonical p).2 hc

/-- **Places.** The canonical spelling of a relative path always has its components. It is relative
and names the same place exactly if no slash comes behind `./` in front of the path; otherwise it is
absolute, and the place that it names is the same for all roots. -/
theorem canonical_location (h : IsRelative p) :
    components (canonical p).toList = components (slashed p).toList ∧
    (KeepsPlace p ↔ ¬RunsIntoSlash p) ∧
    (RunsIntoSlash p → ['/'] <+: (canonical p).toList ∧
      ∀ root : Path, root.join (ofString (canonical p)) = ofString (canonical p)) := by
  refine ⟨components_canonical p, keepsPlace_iff h, fun hruns => ?_⟩
  have hslash : ['/'] <+: (canonical p).toList :=
    Decidable.not_not.1 fun hno => (relative_canonical_iff h).1 hno hruns
  refine ⟨hslash, fun root => ?_⟩
  have habsolute := isAbsolute_of_slash hslash
  rw [String.ofList_toList] at habsolute
  rw [join, if_pos habsolute]

/-- With backslashes, dots and two slashes within, a path still names its place. -/
theorem dottedPath_kept : IsRelative "./src\\.//a" ∧ KeepsPlace "./src\\.//a" := by
  have h : IsRelative "./src\\.//a" := by decide +kernel
  have hruns : ¬RunsIntoSlash "./src\\.//a" := (relative_canonical_iff h).1 (by decide +kernel)
  exact ⟨h, (canonical_location h).2.1.2 hruns⟩

/-- Two files of one name, one of them in the directory `root`. -/
def twoFiles : Tree :=
  .directory [("a", .file [120]), ("root", .directory [("a", .file [121])])]

/-- **Counterexample.** With two slashes behind the dot, a relative path is made absolute: the file
that is read lies outside the root, and a rule on paths that begin with `a` does not match. -/
theorem slash_uncovered : IsRelative ".//a" ∧ canonical ".//a" = "/a" ∧ ¬KeepsPlace ".//a" ∧
    Provider.ofTree twoFiles ⟨.absolute, ["root"]⟩ 10 ".//a" = .ok ⟨[121], 1⟩ ∧
    Provider.ofTree twoFiles ⟨.absolute, ["root"]⟩ 10 (canonical ".//a") = .ok ⟨[120], 1⟩ ∧
    ((ExclusionRule.ofRegex .vendor "^a").map fun r => (r.accepts "a", r.accepts "/a")).toOption =
      some (true, false) := by
  have hcanonical : canonical ".//a" = "/a" := by decide +kernel
  refine ⟨by decide +kernel, hcanonical, fun h => ?_, rfl, ?_, by decide +kernel⟩
  · have hrelative := h.relative
    rw [hcanonical] at hrelative
    exact hrelative (by decide)
  · rw [hcanonical]
    rfl

end LangId.Path
