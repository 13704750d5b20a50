import LangId.Classifier.Ranking
import LangId.Proofs.Steps

/-!
# What a classifier chooses

A classifier scores the candidates that have a model and chooses among these.

**Results.**
* `mem_scores`: the scored languages are the candidates with a model.
* `classify_eq_some`: what is chosen is a candidate with a model.
* `classify_eq_none`: nothing is chosen exactly if no candidate has a model. This holds of every
  arithmetic, also of one whose closeness is not reflexive: there the choice fails instead.
* `classify_eq_error`: when it fails.
-/
namespace LangId

namespace Ranked

variable {R : Type} {s : Scale R}

theorem mem_order {entries : List (Ranked R)} {e : Ranked R} :
    e ∈ order s entries ↔ e ∈ entries := (List.mergeSort_perm _ _).mem_iff

theorem order_eq_nil {entries : List (Ranked R)} : order s entries = [] ↔ entries = [] := by
  simp only [List.eq_nil_iff_forall_not_mem, mem_order]

theorem mem_of_bestOfTied {entries : List (Ranked R)} {e : Ranked R}
    (h : bestOfTied entries = some e) : e ∈ entries := by
  cases entries with
  | nil => cases h
  | cons first rest =>
    obtain rfl := Option.some.inj h
    -- the best so far is always one of the entries
    refine List.foldlRecOn (motive := fun e => e ∈ first :: rest) rest _ List.mem_cons_self ?_
    intro best hbest next hnext
    split
    · exact hbest
    · exact List.mem_cons_of_mem _ hnext

theorem bestOfTied_eq_none {entries : List (Ranked R)} :
    bestOfTied entries = none ↔ entries = [] := by
  cases entries <;> simp [bestOfTied]

theorem winner_eq_some {ranked : List (Ranked R)} {l : Language}
    (h : winner s ranked = .ok (some l)) : ∃ e ∈ ranked, e.language = l := by
  unfold winner at h
  split at h
  · cases h
  · split at h
    · rename_i e he
      cases h
      exact ⟨e, (List.mem_filter.1 (mem_of_bestOfTied he)).1, rfl⟩
    · cases h

theorem winner_eq_none {ranked : List (Ranked R)} : winner s ranked = .ok none ↔ ranked = [] := by
  unfold winner
  split
  · simp
  · split <;> simp

/-- Nothing can be chosen among entries none of which is close to the first one. -/
theorem winner_eq_error {ranked : List (Ranked R)} : (∃ e, winner s ranked = .error e) ↔
    ∃ best rest, ranked = best :: rest ∧
      ∀ e ∈ ranked, s.close e.score best.score = false := by
  cases ranked with
  | nil => simp [winner]
  | cons best rest =>
    have hnone : bestOfTied ((best :: rest).filter fun e => s.close e.score best.score) = none ↔
        ∀ e ∈ best :: rest, s.close e.score best.score = false := by
      rw [bestOfTied_eq_none, List.filter_eq_nil_iff]
      simp only [Bool.not_eq_true]
    simp only [List.cons.injEq]
    unfold winner
    dsimp only
    split <;> simp_all

end Ranked

namespace Classifier

variable {R : Type} {c : Classifier R} {model? : String → Option Model} {vocabulary : Nat}
  {content : List Char} {candidates : Candidates} {l : Language}

theorem entry?_eq_some {tokens : List String} {e : Ranked R} :
    c.entry? model? vocabulary tokens l = .ok (some e) ↔ ∃ m score, model? l.name = some m ∧
      m.logProbability c.scale tokens c.smoothing vocabulary = .ok score ∧
      e = ⟨l, score, m.total⟩ := by
  unfold entry?
  cases model? l.name with
  | none => simp
  | some m =>
    simp only [map_eq_ok, Option.some.injEq]
    constructor
    · rintro ⟨score, hscore, rfl⟩
      exact ⟨m, score, rfl, hscore, rfl⟩
    · rintro ⟨_, score, rfl, hscore, rfl⟩
      exact ⟨score, hscore, rfl⟩

theorem entry?_eq_none {tokens : List String} :
    c.entry? model? vocabulary tokens l = .ok none ↔ model? l.name = none := by
  unfold entry?
  cases model? l.name with
  | none => simp
  | some m => simp [map_eq_ok]

theorem scores_eq_ok {ranked : List (Ranked R)}
    (h : c.scores model? vocabulary content candidates = .ok ranked) :
    ∃ scored, candidates.members.filterMapM
        (c.entry? model? vocabulary (Token.tokenize content c.bound)) = .ok scored ∧
      ranked = Ranked.order c.scale scored := by
  obtain ⟨scored, hs, rfl⟩ := map_eq_ok.1 h
  exact ⟨scored, hs, rfl⟩

/-- The scored languages are the candidates that have a model. -/
theorem mem_scores {ranked : List (Ranked R)}
    (h : c.scores model? vocabulary content candidates = .ok ranked) :
    (∃ e ∈ ranked, e.language = l) ↔ l ∈ candidates.members ∧ model? l.name ≠ none := by
  obtain ⟨scored, hs, rfl⟩ := scores_eq_ok h
  obtain ⟨hok, hmem⟩ := mem_of_filterMapM hs
  simp only [Ranked.mem_order, hmem]
  constructor
  · rintro ⟨e, ⟨m, hm, he⟩, rfl⟩
    obtain ⟨model, score, hmodel, -, rfl⟩ := entry?_eq_some.1 he
    exact ⟨hm, by simp [hmodel]⟩
  · rintro ⟨hl, hne⟩
    obtain ⟨o, ho⟩ := hok l hl
    cases o with
    | none => exact absurd (entry?_eq_none.1 ho) hne
    | some e =>
      obtain ⟨model, score, -, -, rfl⟩ := entry?_eq_some.1 ho
      exact ⟨_, ⟨l, hl, ho⟩, rfl⟩

theorem classify_eq_ok {o : Option Language} :
    c.classify model? vocabulary content candidates = .ok o ↔
      ∃ ranked, c.scores model? vocabulary content candidates = .ok ranked ∧
        Ranked.winner c.scale ranked = .ok o := bind_eq_ok

/-- What is chosen is a candidate with a model. -/
theorem classify_eq_some (h : c.classify model? vocabulary content candidates = .ok (some l)) :
    l ∈ candidates.members ∧ model? l.name ≠ none := by
  obtain ⟨ranked, hr, hw⟩ := classify_eq_ok.1 h
  exact (mem_scores hr).1 (Ranked.winner_eq_some hw)

/-- Nothing is chosen exactly if no candidate has a model. -/
theorem classify_eq_none : c.classify model? vocabulary content candidates = .ok none ↔
    ∀ l ∈ candidates.members, model? l.name = none := by
  rw [classify_eq_ok]
  constructor
  · rintro ⟨ranked, hr, hw⟩ l hl
    obtain rfl := Ranked.winner_eq_none.1 hw
    by_cases hm : model? l.name = none
    · exact hm
    · obtain ⟨e, he, -⟩ := (mem_scores hr).2 ⟨hl, hm⟩
      cases he
  · intro hnone
    have hs : candidates.members.filterMapM
        (c.entry? model? vocabulary (Token.tokenize content c.bound)) = .ok [] :=
      filterMapM_eq_nil fun l hl => entry?_eq_none.2 (hnone l hl)
    exact ⟨_, map_eq_ok.2 ⟨[], hs, Ranked.order_eq_nil.2 rfl⟩, rfl⟩

/-! ## Failures -/

/-- A choice fails: the probability that some model gives to the tokens cannot be computed, or the
best score is close to none, not even to itself. -/
def Fails (c : Classifier R) (model? : String → Option Model) (vocabulary : Nat)
    (content : List Char) (candidates : Candidates) : Prop :=
  (∃ l ∈ candidates.members, ∃ m, model? l.name = some m ∧ ∃ e, m.logProbability c.scale
      (Token.tokenize content c.bound) c.smoothing vocabulary = .error e) ∨
  ∃ best rest, c.scores model? vocabulary content candidates = .ok (best :: rest) ∧
    ∀ e ∈ best :: rest, c.scale.close e.score best.score = false

theorem entry?_eq_error {tokens : List String} {e : ScoreError} :
    c.entry? model? vocabulary tokens l = .error e ↔ ∃ m, model? l.name = some m ∧
      m.logProbability c.scale tokens c.smoothing vocabulary = .error e := by
  unfold entry?
  cases model? l.name with
  | none => simp
  | some m => simp [map_eq_error]

theorem scores_eq_error : (∃ e, c.scores model? vocabulary content candidates = .error e) ↔
    ∃ l ∈ candidates.members, ∃ m, model? l.name = some m ∧ ∃ e, m.logProbability c.scale
      (Token.tokenize content c.bound) c.smoothing vocabulary = .error e := by
  simp only [scores, map_eq_error, filterMapM_eq_error, entry?_eq_error]
  constructor
  · rintro ⟨l, hl, e, m, hm, he⟩
    exact ⟨l, hl, m, hm, e, he⟩
  · rintro ⟨l, hl, m, hm, e, he⟩
    exact ⟨l, hl, e, m, hm, he⟩

theorem classify_eq_error : (∃ e, c.classify model? vocabulary content candidates = .error e) ↔
    c.Fails model? vocabulary content candidates := by
  simp only [Fails, ← scores_eq_error, classify, bind_eq_error, exists_or]
  refine or_congr_right ?_
  constructor
  · rintro ⟨e, ranked, hr, he⟩
    obtain ⟨best, rest, rfl, hclose⟩ := Ranked.winner_eq_error.1 ⟨e, he⟩
    exact ⟨best, rest, hr, hclose⟩
  · rintro ⟨best, rest, hr, hclose⟩
    obtain ⟨e, he⟩ := Ranked.winner_eq_error.2 ⟨best, rest, rfl, hclose⟩
    exact ⟨e, best :: rest, hr, he⟩

end Classifier

/-! ## Counts beyond the range of doubles -/

/-- Only integers beyond the largest double are refused. -/
theorem Scale.ofInt_double (n : Int) : Scale.double.ofInt n =
    if doubleLimit ≤ n ∨ n ≤ -doubleLimit then .error .tooLarge else .ok (Number.ofInt n) := by
  unfold Scale.double
  generalize doubleLimit = limit
  simp

/-- There is no upper bound on what is accepted as a count. -/
theorem Model.ofCounts_singleton (language token : String) {n : Int} (h : 0 < n) :
    Model.ofCounts language [(token, n)] = .ok ⟨language, [(token, n)], n⟩ := by
  have hzero : (n != 0) = true := bne_iff_ne.2 (by omega)
  have hsign : decide (n < 0) = false := decide_eq_false (by omega)
  simp [Model.ofCounts, Tally.total, hzero, hsign]

/-- A model whose counts add up to more than any double scores no tokens at all. -/
theorem Model.logProbability_tooLarge {m : Model} {tokens : List String} {smoothing : Float}
    {vocabulary : Int} (ht : Tally.ofKeys tokens ≠ []) (hm : doubleLimit ≤ m.total) :
    m.logProbability .double tokens smoothing vocabulary = .error .tooLarge := by
  have hempty : (Tally.ofKeys tokens).isEmpty = false := by simpa using ht
  have htotal : Scale.double.ofInt m.total = .error .tooLarge := by
    rw [Scale.ofInt_double, if_pos (.inl hm)]
  unfold logProbability
  simp only [hempty, htotal, Bool.false_eq_true, if_false]
  -- the size of the vocabulary comes first, but can be too large only in the same way
  rw [Scale.ofInt_double]
  split <;> rfl

end LangId
