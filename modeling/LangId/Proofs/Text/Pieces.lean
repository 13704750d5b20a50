import LangId.Text.Lines
import Mathlib.Data.List.Basic
import Mathlib.Data.List.TakeWhile

/-!
# Pieces of a text

The pieces of a text between separators are the parts of it that hold no separator and reach from one
separator, or an end of the text, to the next.

**Results.**
* `mem_splitOn_iff`: where the pieces of a text stand.
* `prefix_append_iff_of_not_mem`: what holds no separator and begins a text begins its first piece.
-/
namespace LangId.Text

variable {separator : Char} {s piece : List Char}

theorem splitOn_eq (separator : Char) (s : List Char) :
    splitOn separator s = s.splitOn separator := by
  induction s with
  | nil => rfl
  | cons c s ih =>
    rw [List.splitOn_cons_eq_if_modifyHead, ← ih]
    have hcons (pieces : List (List Char)) (h : pieces ≠ []) :
        consFirst c pieces = pieces.modifyHead (List.cons c) := by
      cases pieces with
      | nil => exact absurd rfl h
      | cons piece pieces => rfl
    rw [← hcons _ (splitOn_ne_nil separator s)]
    rfl

theorem splitOn_of_notMem (h : separator ∉ s) : splitOn separator s = [s] := by
  have hone : ∀ piece ∈ [s], separator ∉ piece := by simpa using h
  have hintercalate := List.splitOn_intercalate separator hone (List.cons_ne_nil s [])
  rw [List.intercalate_singleton] at hintercalate
  rw [splitOn_eq, hintercalate]

theorem splitOn_append_cons (s t : List Char) :
    splitOn separator (s ++ separator :: t) = splitOn separator s ++ splitOn separator t := by
  rw [splitOn_eq, splitOn_eq, splitOn_eq, List.splitOn_append_cons_self]

/-- What holds no separator and is written behind a text is a part of its last piece. -/
theorem exists_splitOn_append (separator : Char) (s : List Char) : ∃ front last,
    ∀ w, separator ∉ w → splitOn separator (s ++ w) = front ++ [last ++ w] := by
  induction s with
  | nil => exact ⟨[], [], fun w hw => splitOn_of_notMem hw⟩
  | cons c s ih =>
    obtain ⟨front, last, ih⟩ := ih
    have hcons (w : List Char) : splitOn separator (c :: s ++ w) =
        if c == separator then [] :: splitOn separator (s ++ w)
        else consFirst c (splitOn separator (s ++ w)) := rfl
    by_cases hc : (c == separator) = true
    · exact ⟨[] :: front, last, fun w hw => by rw [hcons, if_pos hc, ih w hw, List.cons_append]⟩
    · cases front with
      | nil => exact ⟨[], c :: last, fun w hw => by rw [hcons, if_neg hc, ih w hw]; rfl⟩
      | cons first front =>
        exact ⟨(c :: first) :: front, last, fun w hw => by rw [hcons, if_neg hc, ih w hw]; rfl⟩

/-- The first piece reaches up to the first separator. -/
theorem exists_splitOn_eq (separator : Char) (s : List Char) :
    ∃ more, splitOn separator s = upTo separator s :: more := by
  have hfree {piece : List Char} (h : separator ∉ piece) :
      ∀ c ∈ piece, (c != separator) = true := fun c hc => bne_iff_ne.2 fun heq => h (heq ▸ hc)
  by_cases hs : separator ∈ s
  · obtain ⟨first, rest, rfl, hfirst⟩ := List.eq_append_cons_of_mem hs
    refine ⟨splitOn separator rest, ?_⟩
    rw [splitOn_append_cons, splitOn_of_notMem hfirst, upTo,
      List.takeWhile_append_of_pos (hfree hfirst)]
    simp
  · exact ⟨[], by rw [splitOn_of_notMem hs, upTo, List.takeWhile_eq_self_iff.2 (hfree hs)]⟩

/-- What stands before the first separator is told by the text. -/
theorem eq_of_append_separator {w w' t t' : List Char} (hw : separator ∉ w) (hw' : separator ∉ w')
    (h : w ++ separator :: t = w' ++ separator :: t') : w = w' := by
  have hpieces := congrArg (splitOn separator) h
  rw [splitOn_append_cons, splitOn_append_cons, splitOn_of_notMem hw, splitOn_of_notMem hw']
    at hpieces
  exact (List.cons.inj hpieces).1

/-- A part of a text that reaches from separator to separator. -/
def Stands (separator : Char) (s piece : List Char) : Prop :=
  ∃ front back, front ++ (piece ++ back) = s ∧ (front = [] ∨ [separator] <:+ front) ∧
    (back = [] ∨ [separator] <+: back)

theorem stands_of_mem_splitOn (h : piece ∈ splitOn separator s) :
    separator ∉ piece ∧ Stands separator s piece := by
  -- on the length, since the text goes on behind its first separator
  induction hlength : s.length using Nat.strongRecOn generalizing s with
  | ind length ih =>
    subst hlength
    by_cases hs : separator ∈ s
    · obtain ⟨first, rest, rfl, hfirst⟩ := List.eq_append_cons_of_mem hs
      rw [splitOn_append_cons, splitOn_of_notMem hfirst, List.singleton_append] at h
      rcases List.mem_cons.1 h with rfl | hrest
      · exact ⟨hfirst, [], separator :: rest, rfl, .inl rfl, .inr (List.prefix_append _ _)⟩
      have hshorter : rest.length < (first ++ separator :: rest).length := by
        rw [List.length_append, List.length_cons]
        omega
      obtain ⟨hpiece, front, back, rfl, hfront, hback⟩ := ih _ hshorter hrest rfl
      refine ⟨hpiece, first ++ separator :: front, back, ?_, .inr ?_, hback⟩
      · rw [List.append_assoc, List.cons_append]
      · rcases hfront with rfl | hfront
        · exact List.suffix_append first [separator]
        · exact hfront.trans ((List.suffix_cons separator front).trans (List.suffix_append first _))
    · rw [splitOn_of_notMem hs, List.mem_singleton] at h
      subst h
      exact ⟨hs, [], [], List.append_nil piece, .inl rfl, .inl rfl⟩

/-- **Pieces.** Where they stand. -/
theorem mem_splitOn_iff :
    piece ∈ splitOn separator s ↔ separator ∉ piece ∧ Stands separator s piece := by
  refine ⟨stands_of_mem_splitOn, ?_⟩
  rintro ⟨hpiece, front, back, rfl, hfront, hback⟩
  have hfirst : piece ∈ splitOn separator (piece ++ back) := by
    rcases hback with rfl | ⟨back, rfl⟩
    · rw [List.append_nil, splitOn_of_notMem hpiece]
      exact List.mem_singleton_self piece
    · rw [List.singleton_append, splitOn_append_cons, splitOn_of_notMem hpiece]
      exact List.mem_cons_self
  rcases hfront with rfl | ⟨front, rfl⟩
  · exact hfirst
  · rw [List.append_assoc, List.singleton_append, splitOn_append_cons]
    exact List.mem_append_right _ hfirst

/-- Splitting a text adds no characters. -/
theorem mem_of_mem_splitOn {c : Char} (hpiece : piece ∈ splitOn separator s) (hc : c ∈ piece) :
    c ∈ s := by
  obtain ⟨-, front, back, rfl, -⟩ := mem_splitOn_iff.1 hpiece
  exact List.mem_append_right front (List.mem_append_left back hc)

theorem prefix_append_iff_of_not_mem {w t : List Char} (h : separator ∉ w) :
    w <+: s ++ separator :: t ↔ w <+: s := by
  refine ⟨fun hw => ?_, fun hw => hw.trans (List.prefix_append _ _)⟩
  have hcut : s ++ [separator] <+: s ++ separator :: t := ⟨t, by simp⟩
  rcases List.prefix_or_prefix_of_prefix hw hcut with hshort | hlong
  · rcases List.prefix_concat_iff.1 hshort with rfl | hshort
    · exact absurd (by simp) h
    · exact hshort
  · exact absurd (hlong.subset (by simp)) h

end LangId.Text
