/-!
# Sets of characters as intervals

A set of code points written as ascending closed intervals, searched by halving.
-/
namespace LangId.Text

/-- A set of code points: closed intervals in ascending order, none touching another. -/
structure Ranges where
  intervals : Array (Nat × Nat)
  deriving Repr

/-- Halves the stretch of indices from `low` to `high` until the interval that holds `n` is met.
The last argument bounds the number of halvings. -/
def Ranges.search (r : Ranges) (n : Nat) (low high : Nat) : Nat → Option (Nat × Nat)
  | 0 => none
  | rounds + 1 =>
    if low < high then
      let middle := (low + high) / 2
      match r.intervals[middle]? with
      | none => none
      | some (first, last) =>
        if n < first then r.search n low middle rounds
        else if last < n then r.search n (middle + 1) high rounds
        else some (first, last)
    else none

/-- The interval that holds a code point. -/
def Ranges.find? (r : Ranges) (n : Nat) : Option (Nat × Nat) :=
  r.search n 0 r.intervals.size (r.intervals.size.log2 + 1)

/-- Whether a code point is in the set. -/
def Ranges.contains (r : Ranges) (n : Nat) : Bool := (r.find? n).isSome

/-- Whether the set holds a code point between `low` and `high`, both included. -/
def Ranges.meets (r : Ranges) (low high : Nat) : Bool :=
  r.intervals.any fun (first, last) => first ≤ high && low ≤ last && low ≤ high

/-- What a search returns holds the code point that was looked for. -/
theorem Ranges.search_bounds {r : Ranges} {n low high rounds : Nat} {run : Nat × Nat}
    (h : r.search n low high rounds = some run) : run.1 ≤ n ∧ n ≤ run.2 := by
  induction rounds generalizing low high with
  | zero => simp [search] at h
  | succ rounds ih =>
    rw [search] at h
    dsimp only at h
    split at h
    · split at h
      · simp at h
      · split at h
        · exact ih h
        · split at h
          · exact ih h
          · simp only [Option.some.injEq] at h
            subst h
            omega
    · simp at h

end LangId.Text
