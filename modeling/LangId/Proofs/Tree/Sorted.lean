import LangId.Proofs.Tree.Scanning
import Mathlib.Data.List.Pairwise

/-!
# The order of a scan

A walk arranges the files of each directory by their names, and before what is below its
directories, which it arranges by their names as well (`Tree.Before`). In the texts of paths a slash
stands behind the name of a directory, and files and directories are not kept apart: the paths of a
scan are therefore in order exactly if the names beside each other are so with these slashes
(`Aligned`).

**Results.**
* `paths_sorted_iff`: how the files of a scan are arranged, and when their paths are in order.
* `file_ahead_of_directory`: a file is reported before the directory that comes before it.
-/
namespace LangId.Tree

open Text

variable {found : List Place} {p q : Place} {a b : String}

/-! ## Comparing what is spelt -/

theorem spelt_append_lt_iff (hp : p ≠ []) (hq : q ≠ []) (above : Place) :
    spelt (above ++ p) < spelt (above ++ q) ↔ spelt p < spelt q := by
  induction above with
  | nil => exact Iff.rfl
  | cons name above ih =>
    have hne {r : Place} (hr : r ≠ []) : above ++ r ≠ [] := List.append_ne_nil_of_right_ne_nil _ hr
    rw [List.cons_append, List.cons_append, spelt_cons (hne hp), spelt_cons (hne hq),
      append_lt_append_iff, List.cons_lt_cons_iff, ih]
    exact ⟨fun h => (h.resolve_left (Char.lt_irrefl '/')).2, fun h => .inr ⟨rfl, h⟩⟩

/-- The characters of a name, with a slash behind it. -/
theorem toList_slash (name : String) : (name ++ "/").toList = name.toList ++ ['/'] :=
  String.toList_append

theorem spelt_cons_slash (hp : p ≠ []) : spelt (a :: p) = (a ++ "/").toList ++ spelt p := by
  rw [spelt_cons hp, toList_slash, List.append_assoc]
  rfl

/-- A file and what is below a directory beside it. -/
theorem spelt_first_lt_iff (ha : '/' ∉ a.toList) (hq : q ≠ []) :
    spelt [a] < spelt (b :: q) ↔ a < b ++ "/" := by
  have hslash : ¬ (b ++ "/").toList <+: a.toList := fun h =>
    ha (h.subset (by rw [toList_slash]; exact List.mem_append_right _ List.mem_cons_self))
  rw [spelt_singleton, spelt_cons_slash hq, lt_append_iff hslash, lt_iff]

/-- What is below two directories. -/
theorem spelt_apart_lt_iff (ha : '/' ∉ a.toList) (hb : '/' ∉ b.toList) (hne : a ≠ b) (hp : p ≠ [])
    (hq : q ≠ []) : spelt (a :: p) < spelt (b :: q) ↔ a ++ "/" < b ++ "/" := by
  have hapart {a b : String} (ha : '/' ∉ a.toList) (hb : '/' ∉ b.toList) (hne : a ≠ b)
      (rest : List Char) : ¬ (a ++ "/").toList <+: b.toList ++ '/' :: rest := by
    rintro ⟨more, heq⟩
    rw [toList_slash, List.append_assoc] at heq
    exact hne (String.toList_inj.1 (eq_of_append_separator ha hb heq))
  rw [spelt_cons_slash hp, spelt_cons hq, append_lt_iff (hapart ha hb hne _), ← spelt_cons hq,
    spelt_cons_slash hq, lt_append_iff, lt_iff]
  rw [toList_slash a]
  exact hapart hb ha hne.symm []

/-- How a walk arranges files stays so below a common directory. -/
theorem Before.append (h : Before p q) (above : Place) : Before (above ++ p) (above ++ q) := by
  induction above with
  | nil => exact h
  | cons name above ih => exact .inner ih

/-! ## Names beside each other -/

/-- A slash behind the names of directories does not change how they compare with each other, and
with it they come behind the files that stand beside them. -/
structure Aligned (found : List Place) : Prop where
  first : ∀ (above : Place) (a b : String) (q : Place), above ++ [a] ∈ found →
    above ++ b :: q ∈ found → q ≠ [] → a < b ++ "/"
  apart : ∀ (above : Place) (a b : String) (p q : Place), above ++ a :: p ∈ found →
    above ++ b :: q ∈ found → p ≠ [] → q ≠ [] → a < b → a ++ "/" < b ++ "/"

theorem Aligned.spelt_lt (h : Aligned found)
    (hnames : ∀ p ∈ found, ∀ name ∈ p, ValidName name) (hbefore : Before p q) (above : Place)
    (hp : above ++ p ∈ found) (hq : above ++ q ∈ found) : spelt p < spelt q := by
  have hslash {r : Place} {name : String} (hr : above ++ r ∈ found) (hname : name ∈ r) :
      '/' ∉ name.toList := (hnames _ hr name (List.mem_append_right _ hname)).no_slash
  induction hbefore generalizing above with
  | own hlt =>
    rw [spelt_singleton, spelt_singleton]
    exact hlt
  | first hne =>
    exact (spelt_first_lt_iff (hslash hp List.mem_cons_self) hne).2 (h.first above _ _ _ hp hq hne)
  | apart hne hne' hlt =>
    exact (spelt_apart_lt_iff (hslash hp List.mem_cons_self) (hslash hq List.mem_cons_self)
      (distinct_of_lt hlt) hne hne').2 (h.apart above _ _ _ _ hp hq hne hne' hlt)
  | @inner a p q hbefore ih =>
    rw [List.append_cons] at hp hq
    have hlt := ih (above ++ [a]) hp hq fun hr hname => by
      rw [List.append_assoc] at hr
      exact hslash hr (List.mem_cons_of_mem _ hname)
    exact (spelt_append_lt_iff hbefore.ne_nil.1 hbefore.ne_nil.2 [a]).2 hlt

/-- Where all is in order, two of the files compare as they are arranged, whichever of them comes
first in the list. -/
theorem spelt_lt_of_before (hfound : found.Pairwise Before)
    (hsorted : found.Pairwise fun p q => spelt p < spelt q) (hp : p ∈ found) (hq : q ∈ found)
    (hbefore : Before p q) : spelt p < spelt q := by
  let Agree (p q : Place) : Prop :=
    (Before p q → spelt p < spelt q) ∧ (Before q p → spelt q < spelt p)
  have hsymm : Std.Symm Agree := ⟨fun _ _ h => h.symm⟩
  have hself : ∀ p ∈ found, Agree p p := fun p _ =>
    ⟨fun h => absurd rfl h.ne, fun h => absurd rfl h.ne⟩
  have hpairs : found.Pairwise Agree := (hfound.and hsorted).imp fun ⟨hbefore, hlt⟩ =>
    ⟨fun _ => hlt, fun hback => absurd hback hbefore.asymm⟩
  exact (hpairs.forall_of_forall hself hp hq).1 hbefore

/-- What is arranged as a walk does is in order exactly if the names are. -/
theorem pairwise_spelt_iff (hnames : ∀ p ∈ found, ∀ name ∈ p, ValidName name)
    (hfound : found.Pairwise Before) :
    found.Pairwise (fun p q => spelt p < spelt q) ↔ Aligned found := by
  have hslash {above rest : Place} {name : String} (h : above ++ name :: rest ∈ found) :
      '/' ∉ name.toList := (hnames _ h name (by simp)).no_slash
  constructor
  · intro hsorted
    refine ⟨fun above a b q ha hb hq => ?_, fun above a b p q ha hb hp hq hlt => ?_⟩
    · have hspelt := spelt_lt_of_before hfound hsorted ha hb (Before.append (.first hq) above)
      rw [spelt_append_lt_iff (List.cons_ne_nil _ _) (List.cons_ne_nil _ _)] at hspelt
      exact (spelt_first_lt_iff (hslash ha) hq).1 hspelt
    · have hspelt :=
        spelt_lt_of_before hfound hsorted ha hb (Before.append (.apart hp hq hlt) above)
      rw [spelt_append_lt_iff (List.cons_ne_nil _ _) (List.cons_ne_nil _ _)] at hspelt
      exact (spelt_apart_lt_iff (hslash ha) (hslash hb) (distinct_of_lt hlt) hp hq).1 hspelt
  · intro h
    exact hfound.imp_of_mem fun hp hq hbefore => h.spelt_lt hnames hbefore [] hp hq

end LangId.Tree

namespace LangId.Scanner

open LangId.Tree (Aligned Before Place Plain pair)

/-- **Order of a scan.** A scan reports the files that it keeps as a walk arranges them, in whatever
order directories are listed: the files of a directory by their names, and then what is below its
directories, by the names of these. Where names are free of backslashes, the paths are in order,
each before the next, exactly if the names beside each other are so with slashes behind those of
directories. -/
theorem paths_sorted_iff {s : Scanner} {t : Tree} (ht : t.Wellformed) {paths : List String}
    (h : s.paths t = .ok paths) :
    paths = (s.kept t).map pathOf ∧ (s.kept t).Pairwise Before ∧
      ((∀ p ∈ s.kept t, Plain p) → (paths.Pairwise (· < ·) ↔ Aligned (s.kept t))) := by
  have hpaths := (paths_eq_ok.1 h).2
  have hkept : (s.kept t).Pairwise Before := (pairwise_places ht).sublist kept_sublist
  refine ⟨hpaths, hkept, fun hplain => ?_⟩
  have hfinds : ∀ p ∈ s.kept t, s.Finds t p := fun p hp => ((mem_kept ht).1 hp).1
  have hspelt : ∀ p ∈ s.kept t, pathOf p = String.ofList (Tree.spelt p) := fun p hp =>
    pathOf_of_plain (hfinds p hp).below ((hfinds p hp).names ht) (hplain p hp)
  rw [hpaths, List.pairwise_map,
    ← Tree.pairwise_spelt_iff (fun p hp => (hfinds p hp).names ht) hkept]
  refine List.Pairwise.iff_of_mem fun {p q} hp hq => ?_
  rw [hspelt p hp, hspelt q hq, Text.lt_iff, String.toList_ofList, String.toList_ofList]

theorem pair_in_order : ∃ s, Scanner.ofTree (pair "a" "b" "x") [] true = .ok s ∧
    s.paths (pair "a" "b" "x") = .ok ["a", "b/x"] ∧
    (s.kept (pair "a" "b" "x")).Pairwise Before ∧ Aligned (s.kept (pair "a" "b" "x")) := by
  obtain ⟨s, hs, hroot⟩ : ∃ s, Scanner.ofTree (pair "a" "b" "x") [] true = .ok s ∧ s.root = [] :=
    ⟨_, rfl, rfl⟩
  have hplaces : s.places (pair "a" "b" "x") = [["a"], ["b", "x"]] :=
    places_pair hroot (by decide)
  have hpaths : s.paths (pair "a" "b" "x") = .ok ["a", "b/x"] := by
    obtain rfl := Except.ok.inj hs
    rw [paths_eq, hplaces]
    decide +kernel
  have hplain : ∀ p ∈ s.kept (pair "a" "b" "x"), Plain p := fun p hp =>
    (show ∀ p ∈ [["a"], ["b", "x"]], Plain p by decide) p (hplaces ▸ kept_sublist.subset hp)
  have htree : (pair "a" "b" "x").Wellformed :=
    Tree.wellformed_pair (by decide) (by decide) (by decide) (by decide)
  obtain ⟨-, hbefore, hsorted⟩ := paths_sorted_iff htree hpaths
  exact ⟨s, hs, hpaths, hbefore, (hsorted hplain).1 (by decide)⟩

/-- **Counterexample.** The file `b` is reported before `a/x`, which comes first. -/
theorem file_ahead_of_directory : ∃ s, Scanner.ofTree (pair "b" "a" "x") [] true = .ok s ∧
    (pair "b" "a" "x").Wellformed ∧ s.paths (pair "b" "a" "x") = .ok ["b", "a/x"] ∧
    ¬ ["b", "a/x"].Pairwise (· < ·) := by
  obtain ⟨s, hs, hroot⟩ : ∃ s, Scanner.ofTree (pair "b" "a" "x") [] true = .ok s ∧ s.root = [] :=
    ⟨_, rfl, rfl⟩
  refine ⟨s, hs, Tree.wellformed_pair (by decide) (by decide) (by decide) (by decide), ?_,
    by decide⟩
  obtain rfl := Except.ok.inj hs
  rw [paths_eq, places_pair hroot (by decide)]
  decide +kernel

end LangId.Scanner
