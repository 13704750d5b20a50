/-!
# Tallies

Counts per key, in the order in which the keys first came up.
-/
namespace LangId

/-- Counts per key, in order of first occurrence. -/
abbrev Tally (κ : Type) := List (κ × Int)

namespace Tally

variable {κ : Type} [BEq κ]

/-- The count of a key, zero if there is none. -/
def count (t : Tally κ) (key : κ) : Int := (t.lookup key).getD 0

/-- Adds to the count of a key. -/
def add (key : κ) (n : Int) : Tally κ → Tally κ
  | [] => [(key, n)]
  | (k, m) :: rest => if k == key then (k, m + n) :: rest else (k, m) :: add key n rest

/-- Adds all counts of another tally. -/
def addAll (t : Tally κ) (other : List (κ × Int)) : Tally κ :=
  other.foldl (fun t (key, n) => t.add key n) t

/-- Counts each of some keys once more. -/
def addEach (t : Tally κ) (keys : List κ) : Tally κ := keys.foldl (fun t key => t.add key 1) t

/-- The sum of all counts. -/
def total (t : Tally κ) : Int := (t.map (·.2)).foldl (· + ·) 0

/-- How often each key comes up in a list. -/
def ofKeys (keys : List κ) : Tally κ := addEach [] keys

/-- An empty tally counts nothing. -/
theorem count_nil (k : κ) : count ([] : Tally κ) k = 0 := rfl

/-- Only the first entry of a key counts. -/
theorem count_cons (key k : κ) (n : Int) (rest : Tally κ) :
    count ((key, n) :: rest) k = if k == key then n else rest.count k := by
  cases h : k == key <;> simp [count, List.lookup_cons, h]

variable [LawfulBEq κ]

/-- Adding to a key changes its count and no other. -/
theorem count_add (t : Tally κ) (key k : κ) (n : Int) :
    (t.add key n).count k = t.count k + if k == key then n else 0 := by
  induction t with
  | nil => by_cases h : k = key <;> simp [add, count_nil, count_cons, h]
  | cons entry rest ih =>
    obtain ⟨k', m⟩ := entry
    by_cases h : k' = key
    · subst h
      by_cases h' : k = k' <;> simp [add, count_cons, h']
    · by_cases h' : k = k'
      · subst h'
        simp [add, count_cons, h]
      · simp [add, count_cons, h, h', ih]

end Tally

end LangId
