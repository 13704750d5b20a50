import LangId.Candidates
import LangId.Classifier.Model

/-!
# Ranking

Candidates with a model, in order of their scores. Of equal scores the larger training data goes
first, then the smaller name. The winner is chosen among all candidates whose score is close to the
best one.
-/
namespace LangId

/-- A candidate with its score and the size of its training data. -/
structure Ranked (R : Type) where
  language : Language
  score : R
  training : Int

namespace Ranked

variable {R : Type}

/-- Whether an entry is not behind another one: by score, then training data, then name. -/
def notBehind (s : Scale R) (a b : Ranked R) : Bool :=
  if s.above a.score b.score then true
  else if s.above b.score a.score then false
  else if a.training != b.training then decide (b.training < a.training)
  else Text.notAfter a.language.name b.language.name

/-- Puts entries in order, the best first. -/
def order (s : Scale R) (entries : List (Ranked R)) : List (Ranked R) :=
  entries.mergeSort (notBehind s)

/-- Whether an entry wins over another one with a close score. -/
def winsTie (a b : Ranked R) : Bool :=
  if a.training != b.training then decide (b.training < a.training)
  else Text.notAfter a.language.name b.language.name

/-- The best of some entries with close scores. -/
def bestOfTied : List (Ranked R) → Option (Ranked R)
  | [] => none
  | e :: rest => some (rest.foldl (fun best e => if winsTie best e then best else e) e)

/-- The winner among entries in order. A best score that is no number is close to none, and then
nothing can be chosen. -/
def winner (s : Scale R) (ranked : List (Ranked R)) : Except ScoreError (Option Language) :=
  match ranked with
  | [] => .ok none
  | best :: _ =>
    match bestOfTied (ranked.filter fun e => s.close e.score best.score) with
    | some e => .ok (some e.language)
    | none => .error .noneClose

end Ranked

/-- A classifier: how much it smooths and how many tokens it reads. -/
structure Classifier (R : Type) where
  scale : Scale R
  smoothing : R
  bound : Nat

namespace Classifier

/-- Whether a classifier can be made that smooths by a number: not by nothing or less. -/
def canSmooth (smoothing : Float) : Bool := !decide (smoothing ≤ 0.0)

variable {R : Type}

/-- The entry of a language for some tokens; absent if the language has no model. -/
def entry? (c : Classifier R) (model? : String → Option Model) (vocabulary : Nat)
    (tokens : List String) (language : Language) : Except ScoreError (Option (Ranked R)) :=
  match model? language.name with
  | none => .ok none
  | some model =>
    (model.logProbability c.scale tokens c.smoothing vocabulary).map fun score =>
      some ⟨language, score, model.total⟩

/-- The candidates that have a model, with their scores, the best first. -/
def scores (c : Classifier R) (model? : String → Option Model) (vocabulary : Nat)
    (content : List Char) (candidates : Candidates) : Except ScoreError (List (Ranked R)) :=
  let tokens := Token.tokenize content c.bound
  (candidates.members.filterMapM (c.entry? model? vocabulary tokens)).map (Ranked.order c.scale)

/-- The most probable candidate; absent if no candidate has a model. -/
def classify (c : Classifier R) (model? : String → Option Model) (vocabulary : Nat)
    (content : List Char) (candidates : Candidates) : Except ScoreError (Option Language) := do
  Ranked.winner c.scale (← c.scores model? vocabulary content candidates)

end Classifier

end LangId
