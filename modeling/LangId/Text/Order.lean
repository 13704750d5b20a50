/-!
# Order of texts

Texts are ordered by code points. Sets of texts are kept as ascending lists without repetition, so
that equal sets are equal lists.
-/
namespace LangId.Text

/-- Whether a text comes no later than another one, in code-point order. -/
def notAfter (a b : String) : Bool := !decide (b < a)

/-- Puts texts in order. -/
def sorted (texts : List String) : List String := texts.mergeSort notAfter

/-- Puts a text in front of others, unless it is the first of them. -/
def consNew (t : String) : List String → List String
  | [] => [t]
  | u :: rest => if t == u then u :: rest else t :: u :: rest

/-- Puts texts in order, each once. -/
def sortedSet (texts : List String) : List String := (sorted texts).foldr consNew []

theorem notAfter_iff {a b : String} : notAfter a b = true ↔ ¬ b < a := by
  rw [notAfter, Bool.not_eq_true', decide_eq_false_iff_not]

theorem notAfter_trans (a b c : String) (hab : notAfter a b = true) (hbc : notAfter b c = true) :
    notAfter a c = true := by
  rw [notAfter_iff, String.not_lt] at *
  exact String.le_trans hab hbc

theorem notAfter_total (a b : String) : (notAfter a b || notAfter b a) = true := by
  rw [Bool.or_eq_true, notAfter_iff, notAfter_iff, String.not_lt, String.not_lt]
  exact String.le_total a b

theorem notAfter_antisymm {a b : String} (hab : notAfter a b = true) (hba : notAfter b a = true) :
    a = b := by
  rw [notAfter_iff, String.not_lt] at *
  exact String.le_antisymm hab hba

/-- A text that comes no later than another one, and is not it, comes before it. -/
theorem lt_of_notAfter {a b : String} (h : notAfter a b = true) (hne : a ≠ b) : a < b := by
  by_cases hlt : a < b
  · exact hlt
  · exact absurd (notAfter_antisymm h (notAfter_iff.2 hlt)) hne

/-- Texts that are in order already stay as they are. -/
theorem sorted_of_pairwise {texts : List String} (h : texts.Pairwise (· < ·)) :
    sorted texts = texts := by
  refine List.mergeSort_of_pairwise (h.imp fun {a b} hab => ?_)
  exact notAfter_iff.2 fun hba => String.lt_irrefl _ (String.lt_trans hab hba)

theorem mem_sorted {texts : List String} {t : String} : t ∈ sorted texts ↔ t ∈ texts := by
  simp [sorted]

theorem mem_consNew {t u : String} {l : List String} : t ∈ consNew u l ↔ t = u ∨ t ∈ l := by
  cases l with
  | nil => simp [consNew]
  | cons v rest =>
    rw [consNew]
    split
    · next h => simp_all
    · simp

theorem mem_sortedSet {texts : List String} {t : String} : t ∈ sortedSet texts ↔ t ∈ texts := by
  have drop (l : List String) : t ∈ l.foldr consNew [] ↔ t ∈ l := by
    induction l with
    | nil => simp
    | cons u rest ih => rw [List.foldr_cons, mem_consNew, ih, List.mem_cons]
  rw [sortedSet, drop, mem_sorted]

end LangId.Text
