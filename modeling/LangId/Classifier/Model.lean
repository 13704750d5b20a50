import LangId.Classifier.Tally
import LangId.Number.Double
import LangId.Text.Order
import LangId.Token

/-!
# Language models

How often each token comes up in the training data of a language, and how probable that makes a
content: a naive Bayes score with additive smoothing. The score is defined over any arithmetic
with a logarithm, so that it can be run on machine numbers and reasoned about on real ones.
-/
namespace LangId

/-- Token counts of a language. -/
structure Model where
  language : String
  counts : Tally String
  total : Int
  deriving Repr, DecidableEq

/-- Why a score cannot be computed. -/
inductive ScoreError where
  /-- A logarithm of a number that is not positive. -/
  | notPositive
  /-- A count beyond the range of the arithmetic. -/
  | tooLarge
  /-- No score is close to the best one, not even this one itself. -/
  | noneClose
  deriving Repr, DecidableEq

/-- An arithmetic for scores. -/
structure Scale (R : Type) where
  ofInt : Int → Except ScoreError R
  add : R → R → R
  sub : R → R → R
  mul : R → R → R
  log : R → Except ScoreError R
  zero : R
  /-- Whether a score is above another one. -/
  above : R → R → Bool
  /-- Whether two scores count as equal. -/
  close : R → R → Bool

namespace Model

/-- Why a table of counts is no model: some counts are negative. -/
structure NegativeCounts where
  language : String
  tokens : List String
  deriving Repr, DecidableEq

/-- The model of a table of counts, of which those that are zero are left out. -/
def ofCounts (language : String) (counts : Tally String) : Except NegativeCounts Model :=
  let kept := counts.filter fun entry => entry.2 != 0
  let negative := (kept.filter fun entry => decide (entry.2 < 0)).map (·.1)
  if negative.isEmpty then .ok ⟨language, kept, Tally.total kept⟩
  else .error ⟨language, Text.sorted negative⟩

/-- Adds the tokens of some samples to a tally, of each sample no more than a bound. -/
def train (bound : Nat) (counts : Tally String) (samples : List (List Char)) : Tally String :=
  samples.foldl (fun t sample => t.addEach (Token.tokenize sample bound)) counts

/-- How often a token came up in training. -/
def count (m : Model) (token : String) : Int := m.counts.count token

/-- The logarithm of the probability of some tokens. A token with count `c` has the probability
`(c + smoothing) / (total + smoothing * vocabulary)`. -/
def logProbability {R : Type} (s : Scale R) (m : Model) (tokens : List String) (smoothing : R)
    (vocabulary : Int) : Except ScoreError R := do
  let frequencies := Tally.ofKeys tokens
  if frequencies.isEmpty then return s.zero
  let size ← s.ofInt (max vocabulary 1)
  let total ← s.ofInt m.total
  let denominator ← s.log (s.add total (s.mul smoothing size))
  frequencies.foldlM (addToken denominator) s.zero
where
  /-- Adds what the occurrences of one token contribute. -/
  addToken (denominator score : R) (entry : String × Int) : Except ScoreError R := do
    let numerator ← s.log (s.add (← s.ofInt (m.count entry.1)) smoothing)
    return s.add score (s.mul (← s.ofInt entry.2) (s.sub numerator denominator))

end Model

/-- The integers whose nearest double would be infinite begin here. -/
def doubleLimit : Int := (Nat.pow 2 1024 : Int) - (Nat.pow 2 970 : Int)

/-- Scores as doubles. Two scores are close if they differ by no more than a part in a million
millions, or by no more than a millionth of a millionth. -/
def Scale.double : Scale Float where
  ofInt n :=
    if n ≥ doubleLimit || n ≤ -doubleLimit then .error .tooLarge else .ok (Number.ofInt n)
  add a b := a + b
  sub a b := a - b
  mul a b := a * b
  log a := if a ≤ 0.0 then .error .notPositive else .ok a.log
  zero := 0.0
  above a b := b < a
  close a b :=
    a == b || (!a.isInf && !b.isInf &&
      ((b - a).abs ≤ (1e-12 * b).abs || (b - a).abs ≤ (1e-12 * a).abs || (b - a).abs ≤ 1e-12))

end LangId
