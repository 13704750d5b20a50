import LangId.Proofs.Modeline.Colon

/-!
# The lines that are searched for modelines

Modelines stand at the ends of a content: its first and its last five lines are searched, in their order,
and each of them once, where the ends of a short content overlap. The first one that holds a modeline
gives the mode. Between the ends lines may be replaced, added and taken away.

**Results.**
* `ofLine?_eq_some_iff`, `ofLine?_eq_none_iff`: the mode of one line.
* `window_eq`: the lines that are searched, told by their places.
* `window_ends`: what stands between the ends is not searched.
* `first_modeline`: the mode of the first of these lines, whatever stands between them.
-/
namespace LangId.Modeline

open Regex

variable {line mode : List Char} {lines first middle last : List (List Char)} {i count start : Nat}

/-! ## One line -/

/-- A line holds a modeline of one of the two forms. -/
def HoldsModeline (line : List Char) : Prop :=
  (starred.search line).isSome = true ∨ (colon.search line).isSome = true

/-- The mode of a line: what the starred form keeps, or what the colon form keeps of a line without the
starred form. -/
inductive ModeOf (line mode : List Char) : Prop where
  | starred (m : Match) : starred.search line = some m → m.group? 1 = some mode → ModeOf line mode
  | colon (m : Match) : starred.search line = none → colon.search line = some m →
      m.group? 1 = some mode → ModeOf line mode

theorem ofLine?_eq_some_iff : ofLine? line = some mode ↔ ModeOf line mode := by
  rw [ofLine?]
  constructor
  · intro h
    cases hstarred : starred.search line with
    | some m =>
      rw [hstarred] at h
      exact .starred m hstarred h
    | none =>
      rw [hstarred] at h
      obtain ⟨m, hcolon, hgroup⟩ := Option.bind_eq_some_iff.1 h
      exact .colon m hstarred hcolon hgroup
  · rintro (⟨m, hstarred, hgroup⟩ | ⟨m, hstarred, hcolon, hgroup⟩)
    · rw [hstarred]
      exact hgroup
    · rw [hstarred, Option.orElse_none, hcolon]
      exact hgroup

/-- Each match has a mode. -/
theorem exists_modeOf (h : HoldsModeline line) : ∃ mode, ModeOf line mode := by
  cases hstarred : starred.search line with
  | some m =>
    obtain ⟨v, -, hgroup⟩ := keeps_of_search hstarred
    exact ⟨v, .starred m hstarred hgroup⟩
  | none =>
    rw [HoldsModeline, hstarred] at h
    obtain ⟨m, hcolon⟩ := Option.isSome_iff_exists.1 (h.resolve_left Bool.false_ne_true)
    obtain ⟨v, -, hgroup⟩ := finds_of_search hcolon
    exact ⟨v, .colon m hstarred hcolon hgroup⟩

theorem ModeOf.holdsModeline (h : ModeOf line mode) : HoldsModeline line := by
  rcases h with ⟨m, hstarred, -⟩ | ⟨m, -, hcolon, -⟩
  · exact .inl (Option.isSome_iff_exists.2 ⟨m, hstarred⟩)
  · exact .inr (Option.isSome_iff_exists.2 ⟨m, hcolon⟩)

theorem ofLine?_eq_none_iff : ofLine? line = none ↔ ¬HoldsModeline line := by
  constructor
  · intro hnone h
    obtain ⟨mode, hmode⟩ := exists_modeOf h
    rw [ofLine?_eq_some_iff.2 hmode] at hnone
    cases hnone
  · intro h
    cases hmode : ofLine? line with
    | none => rfl
    | some mode => exact absurd (ofLine?_eq_some_iff.1 hmode).holdsModeline h

/-! ## The window -/

/-- A line stands at a place that is searched: among the first or among the last five lines. -/
structure SearchedAt (lines : List (List Char)) (i : Nat) (line : List Char) : Prop where
  stands : lines[i]? = some line
  near : i < 5 ∨ lines.length ≤ i + 5

/-- Whether a place among some lines is searched, by their number. -/
def isSearched (count i : Nat) : Bool := i < 5 || count ≤ i + 5

theorem isSearched_iff : isSearched count i = true ↔ i < 5 ∨ count ≤ i + 5 := by simp [isSearched]

/-- The lines that are searched, each with its place. -/
def searched (lines : List (List Char)) : List (List Char × Nat) :=
  lines.zipIdx.filter fun p => isSearched lines.length p.2

theorem mem_searched : (line, i) ∈ searched lines ↔ SearchedAt lines i line := by
  rw [searched, List.mem_filter, List.mk_mem_zipIdx_iff_getElem?, isSearched_iff]
  exact ⟨fun h => ⟨h.1, h.2⟩, fun h => ⟨h.stands, h.near⟩⟩

/-- Lines stand in the order of their places. -/
theorem pairwise_searched (lines : List (List Char)) :
    (searched lines).Pairwise fun p q => p.2 < q.2 := by
  refine List.Pairwise.filter _ (List.pairwise_map.1 ?_)
  rw [List.zipIdx_map_snd]
  exact List.pairwise_lt_range'

/-- All places of some lines are searched. -/
theorem filter_eq_zipIdx (h : ∀ i, start ≤ i → i < start + lines.length → i < 5 ∨ count ≤ i + 5) :
    (lines.zipIdx start).filter (fun p => isSearched count p.2) = lines.zipIdx start := by
  refine List.filter_eq_self.2 fun p hp => isSearched_iff.2 ?_
  obtain ⟨hle, hlt, -⟩ := List.mem_zipIdx hp
  exact h p.2 hle hlt

/-- No place of some lines is searched. -/
theorem filter_eq_nil (h : ∀ i, start ≤ i → i < start + lines.length → 5 ≤ i ∧ i + 5 < count) :
    (lines.zipIdx start).filter (fun p => isSearched count p.2) = [] := by
  refine List.filter_eq_nil_iff.2 fun p hp hsearched => ?_
  obtain ⟨hle, hlt, -⟩ := List.mem_zipIdx hp
  have hplace := h p.2 hle hlt
  have hnear := isSearched_iff.1 hsearched
  omega

/-- What stands between the ends is not searched. -/
theorem window_ends (hfirst : 5 ≤ first.length) (hlast : 5 ≤ last.length)
    (middle : List (List Char)) : window (first ++ (middle ++ last)) =
      first.take 5 ++ last.drop (last.length - 5) := by
  rw [window, searchedLines]
  simp only [List.length_append]
  split
  · -- both ends are five lines, with nothing between them
    obtain rfl : middle = [] := List.eq_nil_of_length_eq_zero (by omega)
    have hnone : last.length - 5 = 0 := by omega
    rw [List.take_of_length_le (by omega), hnone, List.drop_zero, List.nil_append]
  · have hcut : first.length + (middle.length + last.length) - 5 =
        first.length + (middle.length + (last.length - 5)) := by omega
    rw [List.take_append_of_le_length hfirst, hcut, List.drop_length_add_append,
      List.drop_length_add_append]

/-- Ten lines are two ends of five lines, and what stands between them. -/
theorem exists_ends (h : 10 ≤ lines.length) : ∃ first middle last,
    lines = first ++ (middle ++ last) ∧ first.length = 5 ∧ last.length = 5 := by
  refine ⟨lines.take 5, (lines.drop 5).take (lines.length - 10),
    (lines.drop 5).drop (lines.length - 10), ?_, ?_, ?_⟩
  · rw [List.take_append_drop, List.take_append_drop]
  · rw [List.length_take]
    omega
  · rw [List.length_drop, List.length_drop]
    omega

/-- The window holds the lines that are searched. -/
theorem window_eq (lines : List (List Char)) : window lines = (searched lines).map (·.1) := by
  by_cases hshort : lines.length ≤ 10
  · have hall : searched lines = lines.zipIdx := filter_eq_zipIdx fun i _ hi => by omega
    rw [window, searchedLines, if_pos hshort, hall, List.zipIdx_map_fst]
  · obtain ⟨first, middle, last, rfl, hfirst, hlast⟩ := exists_ends (Nat.le_of_not_le hshort)
    have hcount : (first ++ (middle ++ last)).length = 10 + middle.length := by
      simp only [List.length_append, hfirst, hlast]
      omega
    have hsearched : searched (first ++ (middle ++ last)) =
        first.zipIdx ++ last.zipIdx (5 + middle.length) := by
      rw [searched, hcount, List.zipIdx_append, List.zipIdx_append, List.filter_append,
        List.filter_append, hfirst, Nat.zero_add, filter_eq_zipIdx (fun i _ hi => by omega),
        filter_eq_nil (fun i hi hi' => by omega), filter_eq_zipIdx (fun i hi _ => by omega),
        List.nil_append]
    have hnone : last.length - 5 = 0 := by omega
    rw [window_ends hfirst.ge hlast.ge, hsearched, List.map_append, List.zipIdx_map_fst,
      List.zipIdx_map_fst, List.take_of_length_le hfirst.le, hnone, List.drop_zero]

/-! ## The first modeline -/

/-- In a list in strict order, the first member of which something is found is the least one. -/
theorem findSome?_eq_some_of_pairwise {α β : Type} {r : α → α → Prop} (hasymm : ∀ a b, r a b → ¬r b a)
    {l : List α} (hl : l.Pairwise r) {f : α → Option β} {b : β} :
    l.findSome? f = some b ↔ ∃ a ∈ l, f a = some b ∧ ∀ x ∈ l, r x a → f x = none := by
  rw [List.findSome?_eq_some_iff]
  constructor
  · rintro ⟨before, a, behind, rfl, ha, hbefore⟩
    refine ⟨a, by simp, ha, fun x hx hless => ?_⟩
    have hrest := (List.pairwise_append.1 hl).2.1
    rcases List.mem_append.1 hx with hx | hx
    · exact hbefore x hx
    · rcases List.mem_cons.1 hx with rfl | hx
      · exact absurd hless (hasymm x x hless)
      · exact absurd hless (hasymm a x (List.rel_of_pairwise_cons hrest hx))
  · rintro ⟨a, ha, hfound, hnone⟩
    obtain ⟨before, behind, rfl⟩ := List.append_of_mem ha
    refine ⟨before, a, behind, rfl, hfound, fun x hx => hnone x (List.mem_append_left _ hx) ?_⟩
    exact (List.pairwise_append.1 hl).2.2 x hx a List.mem_cons_self

/-- The mode is that of the first line that is searched and holds a modeline. -/
theorem find?_eq_some_iff {mode : String} : find? lines = some mode ↔
    ∃ i line, SearchedAt lines i line ∧ ModeOf line mode.toList ∧
      ∀ j < i, ∀ other, SearchedAt lines j other → ¬HoldsModeline other := by
  have hasymm : ∀ p q : List Char × Nat, p.2 < q.2 → ¬q.2 < p.2 := fun p q => Nat.lt_asymm
  have hfound : find? lines = some mode ↔ (window lines).findSome? ofLine? = some mode.toList := by
    rw [find?, Option.map_eq_some_iff]
    constructor
    · rintro ⟨v, hv, rfl⟩
      rw [hv, String.toList_ofList]
    · exact fun hv => ⟨mode.toList, hv, String.ofList_toList⟩
  rw [hfound, window_eq, List.findSome?_map,
    findSome?_eq_some_of_pairwise hasymm (pairwise_searched lines)]
  constructor
  · rintro ⟨⟨line, i⟩, hmem, hmode, hnone⟩
    exact ⟨i, line, mem_searched.1 hmem, ofLine?_eq_some_iff.1 hmode, fun j hj other hother =>
      ofLine?_eq_none_iff.1 (hnone (other, j) (mem_searched.2 hother) hj)⟩
  · rintro ⟨i, line, hline, hmode, hnone⟩
    exact ⟨(line, i), mem_searched.2 hline, ofLine?_eq_some_iff.2 hmode, fun p hp hless =>
      ofLine?_eq_none_iff.2 (hnone p.2 hless p.1 (mem_searched.1 hp))⟩

theorem find?_eq_none_iff : find? lines = none ↔
    ∀ i line, SearchedAt lines i line → ¬HoldsModeline line := by
  rw [find?, Option.map_eq_none_iff, window_eq, List.findSome?_map, List.findSome?_eq_none_iff]
  constructor
  · exact fun h i line hline => ofLine?_eq_none_iff.1 (h (line, i) (mem_searched.2 hline))
  · exact fun h p hp => ofLine?_eq_none_iff.2 (h p.2 p.1 (mem_searched.1 hp))

/-- **The window.** The mode is that of the first line, among the first and the last five ones, that holds
a modeline; each of these lines counts, and there is no mode if none of them holds one. Whatever stands
between the first and the last five lines, the mode is the same. -/
theorem first_modeline (lines : List (List Char)) :
    (∀ mode, find? lines = some mode ↔ ∃ i line, SearchedAt lines i line ∧
      ModeOf line mode.toList ∧ ∀ j < i, ∀ other, SearchedAt lines j other → ¬HoldsModeline other) ∧
    (find? lines = none ↔ ∀ i line, SearchedAt lines i line → ¬HoldsModeline line) ∧
    ∀ first middle last, lines = first ++ (middle ++ last) → 5 ≤ first.length → 5 ≤ last.length →
      ∀ other, find? (first ++ (other ++ last)) = find? lines := by
  refine ⟨fun mode => find?_eq_some_iff, find?_eq_none_iff, ?_⟩
  rintro first middle last rfl hfirst hlast other
  rw [find?, find?, window_ends hfirst hlast, window_ends hfirst hlast]

/-- Both forms in one line at the end of a content, behind a modeline that is not searched and in front
of another one. -/
theorem first_modeline_c :
    let first := List.replicate 5 "x".toList
    let middle := ["# vim: ft=ruby".toList]
    let last := ["y".toList, "# -*- c -*- vim: ft=sh".toList, "# vim: ft=perl".toList, [], []]
    find? (first ++ (middle ++ last)) = some "c" ∧
    (∃ i line, SearchedAt (first ++ (middle ++ last)) i line ∧ ModeOf line "c".toList ∧
      ∀ j < i, ∀ other, SearchedAt (first ++ (middle ++ last)) j other → ¬HoldsModeline other) ∧
    (5 ≤ first.length ∧ 5 ≤ last.length ∧ find? (first ++ ([] ++ last)) = some "c" ∧
      find? (first ++ ((middle ++ middle) ++ last)) = some "c") ∧
    find? (first ++ middle) = some "ruby" := by
  intro first middle last
  have hmode : find? (first ++ (middle ++ last)) = some "c" := by decide +kernel
  have hfirst : 5 ≤ first.length := by decide
  have hlast : 5 ≤ last.length := by decide
  obtain ⟨hiff, -, hother⟩ := first_modeline (first ++ (middle ++ last))
  refine ⟨hmode, (hiff "c").1 hmode, ⟨hfirst, hlast, ?_, ?_⟩, by decide +kernel⟩
  · rw [hother first middle last rfl hfirst hlast, hmode]
  · rw [hother first middle last rfl hfirst hlast, hmode]

/-- The sixth of ten lines is searched, and the sixth of eleven lines is not. -/
example : find? (List.replicate 5 [] ++ "# vim: ft=c".toList :: List.replicate 4 []) = some "c" ∧
    find? (List.replicate 5 [] ++ "# vim: ft=c".toList :: List.replicate 5 []) = none := by
  decide +kernel

end LangId.Modeline
