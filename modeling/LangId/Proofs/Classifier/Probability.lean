import LangId.Proofs.Knowledge.Evidence
import Mathlib.Algebra.BigOperators.Group.List.Basic
import Mathlib.Algebra.BigOperators.Ring.List
import Mathlib.Analysis.SpecialFunctions.Log.Basic

/-!
# Models as distributions

In exact arithmetic (`Scale.exact`) a model of a base is a distribution over the tokens of the base:
each token has a positive probability, and all of them add up to one (`sum_probability`). That needs
the tokens of a model to be among those of the base, and its total to be the sum of its counts.

A score is computed from a tally of the tokens, with one logarithm of the total for all of them. It is
the sum of the logarithms over the tokens one by one all the same (`logProbability_exact`), since what
a tally weighs is a sum over what has been counted (`weighted_ofKeys`).

**Results.**
* `model_distributes`: probabilities and scores of every model of a base that can be built.
-/
namespace LangId

open Text

/-- Scores in exact arithmetic, with the natural logarithm. -/
noncomputable def Scale.exact : Scale ℝ where
  ofInt n := .ok n
  add a b := a + b
  sub a b := a - b
  mul a b := a * b
  log a := if a ≤ 0 then .error .notPositive else .ok (Real.log a)
  zero := 0
  above a b := decide (b < a)
  close a b := decide (|a - b| ≤ max (1e-12 * max |a| |b|) 1e-12)

theorem Scale.log_exact {a : ℝ} (h : 0 < a) : Scale.exact.log a = .ok (Real.log a) :=
  if_neg (not_le.2 h)

/-! ## Sums over tallies -/

namespace Tally

variable {t : Tally String} {tokens : List String}

/-- The counts of some tokens, among which are all that are counted, add up to the total. -/
theorem sum_counts (hkeys : (t.map (·.1)).Nodup) (htokens : tokens.Nodup)
    (hsub : ∀ k ∈ t.map (·.1), k ∈ tokens) : (tokens.map t.count).sum = t.total := by
  induction t with
  | nil =>
    have hzero : tokens.map (count []) = tokens.map fun _ => (0 : Int) :=
      List.map_congr_left fun k _ => count_nil k
    rw [hzero, List.map_const', List.sum_replicate, smul_zero]
    rfl
  | cons e rest ih =>
    obtain ⟨hnew, hrest⟩ := List.nodup_cons.1 hkeys
    obtain ⟨hmem, hsub⟩ := List.forall_mem_cons.1 hsub
    have hcount : tokens.map (count (e :: rest)) =
        tokens.map fun k => if k = e.1 then e.2 else count rest k :=
      List.map_congr_left fun k _ =>
        (count_cons e.1 k e.2 rest).trans (by simp only [beq_iff_eq, eq_comm (a := k)])
    rw [hcount, List.sum_map_ite_eq, ih hrest hsub, List.count_eq_one_of_mem htokens hmem, one_smul,
      count_of_notMem hnew, sub_zero, total_cons, Int.add_comm]

/-- What a function comes to over all that has been counted. -/
noncomputable def weighted (f : String → ℝ) (t : Tally String) : ℝ :=
  (t.map fun e => e.2 * f e.1).sum

variable {f : String → ℝ}

theorem weighted_cons (e : String × Int) (rest : Tally String) :
    weighted f (e :: rest) = e.2 * f e.1 + weighted f rest := List.sum_cons

theorem weighted_add (t : Tally String) (token : String) (n : Int) :
    (t.add token n).weighted f = t.weighted f + n * f token := by
  induction t with
  | nil => exact (weighted_cons _ _).trans (add_comm _ _)
  | cons e rest ih =>
    rw [add]
    split
    · rename_i h
      rw [weighted_cons, weighted_cons, ← eq_of_beq h]
      push_cast
      ring
    · rw [weighted_cons, weighted_cons, ih, add_assoc]

theorem weighted_addEach (t : Tally String) (tokens : List String) :
    (t.addEach tokens).weighted f = t.weighted f + (tokens.map f).sum := by
  induction tokens generalizing t with
  | nil => exact (add_zero _).symm
  | cons token rest ih =>
    have hstep : t.addEach (token :: rest) = (t.add token 1).addEach rest := rfl
    rw [hstep, ih, weighted_add, List.map_cons, List.sum_cons, Int.cast_one, one_mul, add_assoc]

/-- **Sums.** What a tally of tokens weighs is the sum over the tokens one by one. -/
theorem weighted_ofKeys (tokens : List String) :
    (ofKeys tokens).weighted f = (tokens.map f).sum := by
  rw [ofKeys, weighted_addEach]
  exact zero_add _

end Tally

/-! ## Scores -/

namespace Model

variable {m : Model} {a : ℚ} {size : Nat} {token : String}

/-- How probable a token is, where there are `size` tokens in all. -/
def probability (m : Model) (smoothing : ℚ) (size : Nat) (token : String) : ℚ :=
  (m.count token + smoothing) / (m.total + smoothing * size)

/-- What is counted is counted in full. -/
structure Sums (m : Model) : Prop where
  nodup : (m.counts.map (·.1)).Nodup
  positive : ∀ e ∈ m.counts, 0 < e.2
  total : m.total = m.counts.total

namespace Sums

theorem count_nonneg (h : m.Sums) (token : String) : 0 ≤ m.count token := by
  rw [count, Tally.count]
  cases hlookup : m.counts.lookup token with
  | none => exact Int.le_refl 0
  | some n =>
    have hmem : (token, n) ∈ m.counts := (Table.mem_iff_lookup h.nodup).2 hlookup
    exact Int.le_of_lt (h.positive _ hmem)

theorem count_pos_iff (h : m.Sums) : 0 < m.count token ↔ token ∈ m.counts.map (·.1) := by
  constructor
  · intro hpos
    by_contra hno
    rw [count, Tally.count_of_notMem hno] at hpos
    exact absurd hpos (Int.lt_irrefl 0)
  · intro hmem
    obtain ⟨e, he, rfl⟩ := List.mem_map.1 hmem
    rw [count, Tally.count_of_mem h.nodup he]
    exact h.positive e he

theorem total_nonneg (h : m.Sums) : 0 ≤ m.total := by
  rw [h.total]
  exact Tally.total_nonneg fun e he => Int.le_of_lt (h.positive e he)

theorem numerator_pos (h : m.Sums) (ha : 0 < a) (token : String) :
    0 < (m.count token : ℚ) + a :=
  add_pos_of_nonneg_of_pos (Int.cast_nonneg (h.count_nonneg token)) ha

theorem denominator_pos (h : m.Sums) (ha : 0 < a) (hsize : 0 < size) :
    0 < (m.total : ℚ) + a * size :=
  add_pos_of_nonneg_of_pos (Int.cast_nonneg h.total_nonneg) (mul_pos ha (Nat.cast_pos.2 hsize))

theorem probability_pos (h : m.Sums) (ha : 0 < a) (hsize : 0 < size) (token : String) :
    0 < m.probability a size token :=
  div_pos (h.numerator_pos ha token) (h.denominator_pos ha hsize)

/-- **Probabilities add up.** Over tokens among which are all that the model counts, the
probabilities add up to one. -/
theorem sum_probability (h : m.Sums) (ha : 0 < a) {tokens : List String} (hne : tokens ≠ [])
    (htokens : tokens.Nodup) (hsub : ∀ k ∈ m.counts.map (·.1), k ∈ tokens) :
    (tokens.map (m.probability a tokens.length)).sum = 1 := by
  have hcounts : (tokens.map fun token => (m.count token : ℚ)).sum = m.total := by
    rw [h.total, ← Tally.sum_counts h.nodup htokens hsub, Int.cast_list_sum, List.map_map]
    rfl
  have hpos := h.denominator_pos ha (List.length_pos_iff.2 hne)
  calc (tokens.map (m.probability a tokens.length)).sum
    _ = (tokens.map fun token => (m.count token : ℚ) + a).sum / (m.total + a * tokens.length) := by
      simp only [div_eq_mul_inv]
      rw [← List.sum_map_mul_right]
      rfl
    _ = (m.total + a * tokens.length) / (m.total + a * tokens.length) := by
      rw [List.sum_map_add, hcounts, List.map_const', List.sum_replicate, nsmul_eq_mul, mul_comm a]
    _ = 1 := div_self hpos.ne'

/-- The logarithm of a probability, in the two parts in which it is computed. -/
theorem log_probability (h : m.Sums) (ha : 0 < a) (hsize : 0 < size) (token : String) :
    Real.log (m.probability a size token) =
      Real.log (m.count token + a) - Real.log (m.total + a * size) := by
  have hnumerator : (m.count token + a : ℝ) ≠ 0 := by
    exact_mod_cast (h.numerator_pos ha token).ne'
  have hdenominator : (m.total + a * size : ℝ) ≠ 0 := by
    exact_mod_cast (h.denominator_pos ha hsize).ne'
  rw [← Real.log_div hnumerator hdenominator, probability]
  push_cast
  rfl

theorem addToken_exact (h : m.Sums) (ha : 0 < a) (denominator score : ℝ) (e : String × Int) :
    logProbability.addToken .exact m a denominator score e =
      .ok (score + e.2 * (Real.log (m.count e.1 + a) - denominator)) := by
  have hlog : Scale.exact.log (m.count e.1 + a) = .ok (Real.log (m.count e.1 + a)) :=
    Scale.log_exact (by exact_mod_cast h.numerator_pos ha e.1)
  have hrun : logProbability.addToken .exact m a denominator score e =
      Scale.exact.log (m.count e.1 + a) >>= fun numerator =>
        .ok (score + e.2 * (numerator - denominator)) := rfl
  rw [hrun, hlog]
  rfl

theorem foldlM_addToken (h : m.Sums) (ha : 0 < a) (denominator : ℝ) (entries : Tally String)
    (score : ℝ) : entries.foldlM (logProbability.addToken .exact m a denominator) score =
      .ok (score + entries.weighted fun token => Real.log (m.count token + a) - denominator) := by
  induction entries generalizing score with
  | nil => exact congrArg Except.ok (add_zero score).symm
  | cons e rest ih =>
    rw [List.foldlM_cons, h.addToken_exact ha]
    refine (ih _).trans ?_
    rw [Tally.weighted_cons, add_assoc]

/-- **Scores.** The score of some tokens is the sum of the logarithms of their probabilities. -/
theorem logProbability_exact (h : m.Sums) (ha : 0 < a) (hsize : 0 < size) (tokens : List String) :
    m.logProbability .exact tokens a size =
      .ok (tokens.map fun token => Real.log (m.probability a size token)).sum := by
  have hmax : max (size : Int) 1 = size := max_eq_left (by exact_mod_cast hsize)
  have hlog : Scale.exact.log (m.total + a * ((size : Int) : ℝ)) =
      .ok (Real.log (m.total + a * size)) := by
    rw [Int.cast_natCast]
    exact Scale.log_exact (by exact_mod_cast h.denominator_pos ha hsize)
  have hsum : (tokens.map fun token => Real.log (m.probability a size token)).sum =
      (Tally.ofKeys tokens).weighted fun token =>
        Real.log (m.count token + a) - Real.log (m.total + a * size) := by
    simp only [h.log_probability ha hsize, Tally.weighted_ofKeys]
  have hrun : m.logProbability .exact tokens a size =
      if (Tally.ofKeys tokens).isEmpty then .ok 0 else
        Scale.exact.log (m.total + a * ((max (size : Int) 1 : Int) : ℝ)) >>= fun denominator =>
          (Tally.ofKeys tokens).foldlM (logProbability.addToken .exact m a denominator) 0 := rfl
  rw [hrun, hmax, hlog, hsum]
  split
  · rename_i hempty
    rw [List.isEmpty_iff.1 hempty]
    rfl
  · refine (h.foldlM_addToken ha _ _ 0).trans ?_
    rw [zero_add]

end Sums

end Model

/-! ## The models of a base -/

/-- The different tokens of all models. -/
def KnowledgeBase.tokens (kb : KnowledgeBase) : List String :=
  sortedSet (kb.models.flatMap fun m => m.2.counts.map (·.1))

/-- The tokens are told apart, counted by some model, and counted all of them in the size of the
vocabulary. -/
structure KnowledgeBase.ListsTokens (kb : KnowledgeBase) : Prop where
  nodup : kb.tokens.Nodup
  length : kb.vocabulary = kb.tokens.length
  mem : ∀ token, token ∈ kb.tokens ↔ ∃ m ∈ kb.models, 0 < m.2.count token

/-- A model is a distribution over the tokens of a base, and scores are logarithms of
probabilities. -/
structure Model.Distributes (m : Model) (kb : KnowledgeBase) (a : ℚ) : Prop where
  positive : ∀ token, 0 < m.probability a kb.vocabulary token
  sum : (kb.tokens.map (m.probability a kb.vocabulary)).sum = 1
  score : ∀ tokens, m.logProbability .exact tokens a kb.vocabulary =
    .ok (tokens.map fun token => Real.log (m.probability a kb.vocabulary token)).sum
  reordered : ∀ {tokens tokens' : List String}, tokens.Perm tokens' →
    m.logProbability .exact tokens a kb.vocabulary = m.logProbability .exact tokens' a kb.vocabulary
  appended : ∀ tokens more, ∃ x y, m.logProbability .exact tokens a kb.vocabulary = .ok x ∧
    m.logProbability .exact more a kb.vocabulary = .ok y ∧
    m.logProbability .exact (tokens ++ more) a kb.vocabulary = .ok (x + y)

namespace Payload

variable {p : Payload} {bound : Nat} {kb : KnowledgeBase}

namespace Parts

variable (parts : p.Parts bound)

theorem sums_of_mem {m : String × Model} (hm : m ∈ parts.base.models) : m.2.Sums := by
  obtain ⟨name, hname⟩ := parts.exists_model?_of_mem hm
  have htable : parts.base.table name = m.2.counts := by
    rw [KnowledgeBase.table, hname]
    rfl
  have htotal : parts.base.totalOf name = m.2.total := by
    rw [KnowledgeBase.totalOf, hname]
    rfl
  refine ⟨htable ▸ parts.nodup_table name, fun e he => ?_, ?_⟩
  · exact parts.pos_of_mem_table (htable ▸ he)
  · rw [← htotal, parts.totalOf_eq, htable]

theorem mem_tokens_of_mem {m : String × Model} (hm : m ∈ parts.base.models) {token : String}
    (htoken : token ∈ m.2.counts.map (·.1)) : token ∈ parts.base.tokens :=
  mem_sortedSet.2 (List.mem_flatMap.2 ⟨m, hm, htoken⟩)

theorem listsTokens : parts.base.ListsTokens where
  nodup := nodup_sortedSet _
  length := rfl
  mem token := by
    rw [KnowledgeBase.tokens, mem_sortedSet, List.mem_flatMap]
    refine exists_congr fun m => and_congr_right fun hm => ?_
    exact (parts.sums_of_mem hm).count_pos_iff.symm

end Parts

/-- **Distributions.** In exact arithmetic every model of a base with any tokens is a distribution
over these, whatever positive number it smooths by, and scores tokens by the logarithms of their
probabilities. -/
theorem model_distributes (h : p.build bound = .ok kb) (hsize : 0 < kb.vocabulary)
    {m : String × Model} (hm : m ∈ kb.models) {a : ℚ} (ha : 0 < a) :
    kb.ListsTokens ∧ m.2.Distributes kb a := by
  obtain ⟨parts, -, rfl⟩ := build_eq_assemble h
  have hsums := parts.sums_of_mem hm
  have hscore := hsums.logProbability_exact ha hsize
  refine ⟨parts.listsTokens, hsums.probability_pos ha hsize, ?_, hscore, ?_, ?_⟩
  · exact hsums.sum_probability ha (List.length_pos_iff.1 hsize) parts.listsTokens.nodup
      fun token => parts.mem_tokens_of_mem hm
  · intro tokens tokens' hperm
    rw [hscore, hscore, (hperm.map _).sum_eq]
  · intro tokens more
    refine ⟨_, _, hscore tokens, hscore more, ?_⟩
    rw [hscore, List.map_append, List.sum_append]

/-- The language that is trained under two spellings, smoothed by a half. -/
theorem model_distributes_spellings : ∃ kb, spellings.build 10 = .ok kb ∧ 0 < kb.vocabulary ∧
    ∃ m ∈ kb.models, (0 : ℚ) < 1 / 2 ∧ kb.ListsTokens ∧ m.2.Distributes kb (1 / 2) ∧
      m.2.count "x" = 4 ∧ m.2.total = 5 := by
  have hread : (spellings.build 10).toOption.map
      (fun kb => kb.models.map fun m => (m.2.count "x", m.2.total)) = some [(4, 5), (0, 2)] := by
    decide +kernel
  obtain ⟨kb, hkb, hmodels⟩ := Option.map_eq_some_iff.1 hread
  have hbuild := toOption_eq_some.1 hkb
  have hmem : ((4, 5) : Int × Int) ∈ kb.models.map fun m => (m.2.count "x", m.2.total) := by
    rw [hmodels]
    exact List.mem_cons_self
  obtain ⟨m, hm, hcounts⟩ := List.mem_map.1 hmem
  obtain ⟨hcount, htotal⟩ := Prod.mk.inj hcounts
  have hpos : 0 < kb.vocabulary := by
    obtain ⟨parts, -, rfl⟩ := build_eq_assemble hbuild
    have hx := (parts.listsTokens.mem "x").2 ⟨m, hm, by omega⟩
    exact List.length_pos_of_mem hx
  have ha : (0 : ℚ) < 1 / 2 := by norm_num
  obtain ⟨hlists, hdistributes⟩ := model_distributes hbuild hpos hm ha
  exact ⟨kb, hbuild, hpos, m, hm, ha, hlists, hdistributes, hcount, htotal⟩

end Payload

end LangId
