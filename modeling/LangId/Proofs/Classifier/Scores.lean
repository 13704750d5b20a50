import LangId.Proofs.Classifier.Choice
import LangId.Proofs.Classifier.Tallies
import LangId.Proofs.Number.Integers

/-!
# When a score can be computed

The score of some tokens is a sum with one summand for each different token. Every sum of doubles
could become infinite or undefined; here it is followed through, with bounds on what the doubles
stand for.

**What is assumed.** The logarithm of doubles is given. All that is known of it is that it is finite
and of no great absolute value for finite positive doubles, and infinite for infinity (`Logarithm`).

**Results.**
* `logProbability_eq_error_iff`: whatever the logarithm, tokens cannot be scored exactly if a total
  or the vocabulary is beyond the range of doubles. The logarithm is never asked for that of a
  double that is not positive.
* `close_of_logProbability`: a score that can be computed is close to itself. The invariant of the
  sum is `IsScore`, and `isScore_addToken` is one step.
-/
namespace LangId

open Number

/-- Scores as doubles, with a function for the logarithm. -/
def Scale.withLog (log : Float → Float) : Scale Float :=
  { Scale.double with log := fun a => if a ≤ 0.0 then .error .notPositive else .ok (log a) }

/-- What is known of a logarithm of doubles. No double has a logarithm beyond 745. -/
structure Logarithm (log : Float → Float) : Prop where
  bounded : ∀ x, 0.0 < x → x.isInf = false → (log x).abs ≤ 1024.0
  infinite : ∀ x, 0.0 < x → x.isInf = true → log x = x

/-- A constant to smooth with. -/
structure Smoothing (x : Float) : Prop where
  positive : 0.0 < x
  atMost : x ≤ 10.0

/-- A model that counts no token less than never or more often than all of them. -/
def Model.Sound (m : Model) : Prop := ∀ token, 0 ≤ m.count token ∧ m.count token ≤ m.total

variable {log : Float → Float} {s x : Float} {v : ℚ} {n : Int}

/-! ## The tokens of a content -/

namespace Tally

variable {κ : Type} [BEq κ] {b : Int}

theorem length_add (t : Tally κ) (key : κ) (n : Int) : (t.add key n).length ≤ t.length + 1 := by
  induction t with
  | nil => exact Nat.le_refl _
  | cons entry rest ih =>
    rw [add]
    split
    · exact Nat.le_succ _
    · exact Nat.succ_le_succ ih

theorem counts_add {t : Tally κ} (key : κ) (hb : 0 ≤ b) (h : ∀ e ∈ t, 1 ≤ e.2 ∧ e.2 ≤ b) :
    ∀ e ∈ t.add key 1, 1 ≤ e.2 ∧ e.2 ≤ b + 1 := by
  induction t with
  | nil => exact List.forall_mem_singleton.2 ⟨Int.le_refl 1, by omega⟩
  | cons entry rest ih =>
    obtain ⟨⟨hlow, hhigh⟩, hrest⟩ := List.forall_mem_cons.1 h
    rw [add]
    split
    · refine List.forall_mem_cons.2 ⟨⟨by omega, by omega⟩, fun e he => ?_⟩
      obtain ⟨hl, hh⟩ := hrest e he
      exact ⟨hl, by omega⟩
    · exact List.forall_mem_cons.2 ⟨⟨hlow, by omega⟩, ih hrest⟩

theorem addEach_bounds {t : Tally κ} (keys : List κ) (hb : 0 ≤ b)
    (h : ∀ e ∈ t, 1 ≤ e.2 ∧ e.2 ≤ b) : (t.addEach keys).length ≤ t.length + keys.length ∧
      ∀ e ∈ t.addEach keys, 1 ≤ e.2 ∧ e.2 ≤ b + keys.length := by
  induction keys generalizing t b with
  | nil =>
    refine ⟨Nat.le_refl _, fun e he => ?_⟩
    obtain ⟨hl, hh⟩ := h e he
    exact ⟨hl, by simpa using hh⟩
  | cons key keys ih =>
    obtain ⟨hlength, hcounts⟩ := @ih (b + 1) (t.add key 1) (by omega) (counts_add key hb h)
    have hadd := length_add t key 1
    rw [List.length_cons]
    refine ⟨?_, fun e he => ?_⟩
    · refine Nat.le_trans hlength ?_
      omega
    · obtain ⟨hl, hh⟩ := hcounts e he
      exact ⟨hl, by omega⟩

/-- A content has no more different tokens than tokens, and none of them more often. -/
theorem ofKeys_bounds (keys : List κ) : (ofKeys keys).length ≤ keys.length ∧
    ∀ e ∈ ofKeys keys, 1 ≤ e.2 ∧ e.2 ≤ keys.length := by
  have h := addEach_bounds (t := ([] : Tally κ)) (b := 0) keys (Int.le_refl 0) nofun
  simpa [ofKeys] using h

theorem addEach_ne_nil {t : Tally κ} (h : t ≠ []) (keys : List κ) : t.addEach keys ≠ [] := by
  induction keys generalizing t with
  | nil => exact h
  | cons key keys ih => exact ih (add_ne_nil t key 1)

theorem ofKeys_eq_nil {keys : List κ} : ofKeys keys = [] ↔ keys = [] := by
  cases keys with
  | nil => exact iff_of_true rfl rfl
  | cons key keys => exact iff_of_false (addEach_ne_nil (add_ne_nil [] key 1) keys) nofun

end Tally

/-! ## Integers -/

theorem cast_pow {k : Nat} {e : Int} (h : k = e) :
    (((Nat.pow 2 k : Nat) : Int) : ℚ) = 2 ^ e := by
  change (((2 ^ k : Nat) : Int) : ℚ) = 2 ^ e
  rw [Int.cast_natCast, Nat.cast_pow, Nat.cast_ofNat, ← zpow_natCast, h]

theorem cast_doubleLimit : ((doubleLimit : Int) : ℚ) = limit :=
  (Int.cast_sub (Nat.pow 2 1024 : Int) (Nat.pow 2 970 : Int)).trans
    (congrArg₂ (· - ·) (@cast_pow 1024 1024 rfl) (@cast_pow 970 970 rfl))

theorem Scale.ofInt_within (h : 0 ≤ n) (hlt : n < doubleLimit) :
    (Scale.withLog log).ofInt n = .ok (Number.ofInt n) := by
  have hrange : ¬ (doubleLimit ≤ n ∨ n ≤ -doubleLimit) := by
    generalize doubleLimit = limit at hlt ⊢
    omega
  exact (Scale.ofInt_double n).trans (if_neg hrange)

theorem Scale.ofInt_beyond (h : doubleLimit ≤ n) :
    (Scale.withLog log).ofInt n = .error .tooLarge :=
  (Scale.ofInt_double n).trans (if_pos (.inl h))

theorem Scale.lt_of_ofInt (hx : (Scale.withLog log).ofInt n = .ok x) :
    n < doubleLimit := by
  rcases Int.lt_or_le n doubleLimit with hlt | hge
  · exact hlt
  · cases (ofInt_beyond hge).symm.trans hx

theorem Scale.ofInt_eq_error {e : ScoreError} (h : (Scale.withLog log).ofInt n = .error e) :
    e = .tooLarge := by
  have h := (Scale.ofInt_double n).symm.trans h
  split at h
  · exact (Except.error.inj h).symm
  · cases h

theorem lt_doubleLimit (h : n ≤ 2 ^ 20) : n < doubleLimit := by
  have hcast : (n : ℚ) ≤ 2 ^ 20 := by exact_mod_cast h
  have hlt : (n : ℚ) < limit := by
    refine @lt_limit (n : ℚ) 20 1 (by decide) (by decide) (le_trans hcast (Eq.le ?_))
    norm_num
  rw [← cast_doubleLimit] at hlt
  exact Int.cast_lt.1 hlt

theorem denotes_of_within (h : 0 ≤ n) (hlt : n < doubleLimit) :
    ∃ v, Denotes (ofInt n) v ∧ 0 ≤ v ∧ (1 ≤ n → 1 ≤ v) ∧ (n < 2 ^ 53 → v = n) := by
  refine denotes_ofInt h ?_
  rw [← cast_doubleLimit]
  exact Int.cast_lt.2 hlt

/-! ## Logarithms -/

/-- What a constant to smooth with stands for. -/
theorem Smoothing.denotes (hs : Smoothing s) : ∃ v, Denotes s v ∧ 0 < v ∧ v ≤ 2 ^ (4 : Int) := by
  have hten : parts 10.0 = .finite .positive 5629499534213120 (-49) (by decide) := rfl
  obtain ⟨v, hv, hpos, hle⟩ := denotes_of_le hs.positive hs.atMost
    ⟨by decide, by decide, .inl (by decide)⟩ hten
  refine ⟨v, hv, hpos, le_trans hle ?_⟩
  norm_num

/-- The numerator of a probability is a positive number. -/
theorem Smoothing.add_ofInt (hs : Smoothing s) (h : 0 ≤ n) (hlt : n < doubleLimit) :
    ∃ v, Denotes (ofInt n + s) v ∧ 0 < v := by
  obtain ⟨v, hv, hnonneg, -⟩ := denotes_of_within h hlt
  obtain ⟨w, hw, hpos, hle⟩ := hs.denotes
  have hsum : 0 < v + w := add_pos_of_nonneg_of_pos hnonneg hpos
  have hrange : |v + w| < limit := by
    have hlargest := hv.le_largest
    have hstep : (2 : ℚ) ^ (971 : Int) = 2 * 2 ^ (970 : Int) := by
      rw [← zpow_one_add₀ (by norm_num)]
      rfl
    have hsmall : (2 : ℚ) ^ (4 : Int) < 2 ^ (970 : Int) :=
      (zpow_lt_zpow_iff_right₀ (by norm_num)).2 (by decide)
    rw [abs_of_pos hsum, limit]
    generalize (2 : ℚ) ^ (1024 : Int) = top at *
    generalize (2 : ℚ) ^ (971 : Int) = step at *
    generalize (2 : ℚ) ^ (970 : Int) = half at *
    linarith
  obtain ⟨r, hr, hnear⟩ := denotes_add hv hw hrange
  exact ⟨r, hr, hnear.pos (le_trans (le_of_value hw hpos) (le_add_of_nonneg_left hnonneg))⟩

/-- The denominator of a probability is positive, but may be infinite. -/
theorem Smoothing.add_mul (hs : Smoothing s) {total size : Int} (ht : 0 ≤ total)
    (htl : total < doubleLimit) (hz : 1 ≤ size) (hzl : size < doubleLimit) :
    IsPositive (ofInt total + s * ofInt size) := by
  obtain ⟨v, hv, hnonneg, -⟩ := denotes_of_within ht htl
  obtain ⟨z, hzv, -, hone, -⟩ := denotes_of_within (by omega) hzl
  obtain ⟨w, hw, hpos, -⟩ := hs.denotes
  refine isPositive_add hv hnonneg (isPositive_mul hw hzv ?_)
  calc (2 : ℚ) ^ (-1074 : Int) ≤ w := le_of_value hw hpos
    _ = w * 1 := (mul_one w).symm
    _ ≤ w * z := mul_le_mul_of_nonneg_left (hone hz) hpos.le

theorem Scale.log_of_isPositive (h : IsPositive x) : (Scale.withLog log).log x = .ok (log x) :=
  if_neg h.not_le_zero

theorem Logarithm.bounded_of_denotes (hlog : Logarithm log) (hx : Denotes x v) (hv : 0 < v) :
    Bounded (log x) 1 10 := by
  have hlarge : parts 1024.0 = .finite .positive 4503599627370496 (-42) (by decide) := rfl
  have hinf : x.isInf = (parts x).isInf := rfl
  have hfinite : x.isInf = false := by
    obtain ⟨m, e, h, heq, -⟩ := hx.finite_of_pos hv
    rw [hinf, heq]
    rfl
  obtain ⟨w, hw, hle⟩ := denotes_of_abs_le (hlog.bounded x (IsPositive.zero_lt (.inl ⟨v, hx, hv⟩))
    hfinite) ⟨by decide, by decide, .inl (by decide)⟩ hlarge
  refine ⟨w, hw, le_trans hle ?_⟩
  norm_num

/-- The logarithm of a denominator. -/
theorem Logarithm.of_isPositive (hlog : Logarithm log) (h : IsPositive x) :
    Bounded (log x) 1 10 ∨ parts (log x) = .infinity .positive := by
  have hinf : x.isInf = (parts x).isInf := rfl
  rcases id h with ⟨v, hv, hpos⟩ | hx
  · exact .inl (hlog.bounded_of_denotes hv hpos)
  · right
    rw [hlog.infinite x h.zero_lt (by rw [hinf, hx]; rfl)]
    exact hx

/-! ## Which scores can be computed -/

namespace Model

theorem Sound.total_nonneg {m : Model} (hm : m.Sound) : 0 ≤ m.total :=
  Int.le_trans (hm "").1 (hm "").2

/-- The summand of a token. -/
theorem addToken_eq (hs : Smoothing s) {m : Model} (hm : m.Sound) (ht : m.total < doubleLimit)
    {denominator score : Float} {entry : String × Int} (hone : 1 ≤ entry.2)
    (hoften : entry.2 ≤ 2 ^ 20) :
    logProbability.addToken (.withLog log) m s denominator score entry =
      .ok (score + Number.ofInt entry.2 *
        (log (Number.ofInt (m.count entry.1) + s) - denominator)) := by
  obtain ⟨hnonneg, hle⟩ := hm entry.1
  have hlt : m.count entry.1 < doubleLimit := Int.lt_of_le_of_lt hle ht
  obtain ⟨v, hv, hpos⟩ := hs.add_ofInt hnonneg hlt
  exact bind_eq_ok.2 ⟨_, Scale.ofInt_within hnonneg hlt, bind_eq_ok.2
    ⟨_, Scale.log_of_isPositive (.inl ⟨v, hv, hpos⟩), bind_eq_ok.2
      ⟨_, Scale.ofInt_within (Int.le_trans (by decide) hone) (lt_doubleLimit hoften), rfl⟩⟩⟩

section

variable {R : Type} {c : Scale R} {m : Model} {tokens : List String} {vocabulary : Int}

theorem logProbability_of_ne_nil {smoothing : R} (h : tokens ≠ []) :
    m.logProbability c tokens smoothing vocabulary = (do
      let size ← c.ofInt (max vocabulary 1)
      let total ← c.ofInt m.total
      let denominator ← c.log (c.add total (c.mul smoothing size))
      (Tally.ofKeys tokens).foldlM (logProbability.addToken c m smoothing denominator) c.zero) := by
  have hne : (Tally.ofKeys tokens).isEmpty = false := by
    simpa using fun h' => h (Tally.ofKeys_eq_nil.1 h')
  exact if_neg (by rw [hne]; exact Bool.false_ne_true)

/-- Without tokens there is nothing to compute. -/
theorem logProbability_nil {smoothing : R} :
    m.logProbability c [] smoothing vocabulary = .ok c.zero := rfl

end

variable {m : Model} {tokens : List String} {vocabulary : Int} {e : ScoreError}

/-- Within the range of doubles a score is a sum over the tokens. -/
theorem logProbability_eq_sum (hs : Smoothing s) (hm : m.Sound) (ht : m.total < doubleLimit)
    (hz : vocabulary < doubleLimit) (hne : tokens ≠ []) :
    ∃ x, IsPositive x ∧ m.logProbability (.withLog log) tokens s vocabulary =
      (Tally.ofKeys tokens).foldlM (logProbability.addToken (.withLog log) m s (log x)) 0.0 := by
  have hone : 1 ≤ max vocabulary 1 := Int.le_max_right vocabulary 1
  have hsize : max vocabulary 1 < doubleLimit := max_lt hz (lt_doubleLimit (by decide))
  have hpositive := hs.add_mul hm.total_nonneg ht hone hsize
  refine ⟨_, hpositive, ?_⟩
  rw [logProbability_of_ne_nil hne, Scale.ofInt_within (Int.le_trans (by decide) hone) hsize,
    Scale.ofInt_within hm.total_nonneg ht]
  change (do
    let denominator ← (Scale.withLog log).log (Number.ofInt m.total +
      s * Number.ofInt (max vocabulary 1))
    (Tally.ofKeys tokens).foldlM (logProbability.addToken (.withLog log) m s denominator) 0.0) = _
  rw [Scale.log_of_isPositive hpositive]
  rfl

/-- The different tokens of a content, not too long, with how often they come up. -/
theorem ofKeys_within (htokens : tokens.length ≤ 2 ^ 20) :
    (Tally.ofKeys tokens).length ≤ 2 ^ 20 ∧
      ∀ e ∈ Tally.ofKeys tokens, 1 ≤ e.2 ∧ e.2 ≤ 2 ^ 20 := by
  obtain ⟨hlength, hcounts⟩ := Tally.ofKeys_bounds tokens
  refine ⟨Nat.le_trans hlength htokens, fun e he => ⟨(hcounts e he).1, ?_⟩⟩
  exact Int.le_trans (hcounts e he).2 (by exact_mod_cast htokens)

/-- Counts beyond the range of doubles make every score fail. -/
theorem logProbability_beyond (ht : tokens ≠ [])
    (h : doubleLimit ≤ m.total ∨ doubleLimit ≤ vocabulary) :
    m.logProbability (.withLog log) tokens s vocabulary = .error .tooLarge := by
  rw [logProbability_of_ne_nil ht]
  cases hz : (Scale.withLog log).ofInt (max vocabulary 1) with
  | error e =>
    rw [Scale.ofInt_eq_error hz]
    rfl
  | ok size =>
    have hlt := Scale.lt_of_ofInt hz
    have htotal : doubleLimit ≤ m.total := h.resolve_right fun hbeyond =>
      absurd (Int.lt_of_le_of_lt (Int.le_max_left vocabulary 1) hlt) (Int.not_lt.2 hbeyond)
    refine bind_eq_error.2 (.inr ⟨size, rfl, bind_eq_error.2 (.inl ?_)⟩)
    exact Scale.ofInt_beyond htotal

/-- **Failures.** A score fails exactly if there is something to score and a count beyond the range
of doubles. In particular no logarithm is taken of a double that is not positive. -/
theorem logProbability_eq_error_iff (hs : Smoothing s) (hm : m.Sound)
    (htokens : tokens.length ≤ 2 ^ 20) :
    m.logProbability (.withLog log) tokens s vocabulary = .error e ↔
      e = .tooLarge ∧ tokens ≠ [] ∧ (doubleLimit ≤ m.total ∨ doubleLimit ≤ vocabulary) := by
  by_cases hne : tokens = []
  · rw [hne, logProbability_nil]
    exact ⟨nofun, fun h => absurd rfl h.2.1⟩
  by_cases h : doubleLimit ≤ m.total ∨ doubleLimit ≤ vocabulary
  · rw [logProbability_beyond hne h, Except.error.injEq]
    exact ⟨fun he => ⟨he.symm, hne, h⟩, fun he => he.1.symm⟩
  · obtain ⟨ht, hz⟩ := not_or.1 h
    obtain ⟨x, -, heq⟩ := @logProbability_eq_sum log s m tokens vocabulary hs hm (Int.not_le.1 ht)
      (Int.not_le.1 hz) hne
    obtain ⟨r, hr⟩ := foldlM_total (fun score entry hentry =>
      ⟨_, addToken_eq hs hm (Int.not_le.1 ht) ((ofKeys_within htokens).2 entry hentry).1
        ((ofKeys_within htokens).2 entry hentry).2⟩) 0.0
    rw [heq, hr]
    exact ⟨nofun, fun he => absurd he.2.2 h⟩

/-! ## What scores stand for -/

/-- What the sum of `k` summands is: a number, or the negative infinity. -/
def IsScore (x : Float) (k : Nat) : Prop :=
  Bounded x (k * 2 ^ 21) 10 ∨ parts x = .infinity .negative

theorem IsScore.beq_self {k : Nat} (h : IsScore x k) : (x == x) = true := by
  refine Number.beq_self ?_
  rcases h with ⟨v, hv, -⟩ | hx
  · exact .inl ⟨v, hv⟩
  · exact .inr ⟨_, hx⟩

theorem isScore_zero : IsScore 0.0 0 :=
  .inl ⟨0, .zero .positive, by rw [abs_zero]; positivity⟩

/-- **One summand.** -/
theorem isScore_addToken (hlog : Logarithm log) (hs : Smoothing s) {count occurrences : Int}
    (hcount : 0 ≤ count) (hlt : count < doubleLimit) {denominator score : Float} {k : Nat}
    (hd : Bounded denominator 1 10 ∨ parts denominator = .infinity .positive)
    (hone : 1 ≤ occurrences) (hoften : occurrences ≤ 2 ^ 20) (hscore : IsScore score k)
    (hk : k < 2 ^ 20) :
    IsScore (score + Number.ofInt occurrences * (log (Number.ofInt count + s) - denominator))
      (k + 1) := by
  obtain ⟨v, hv, hpos⟩ := hs.add_ofInt hcount hlt
  have hnumerator := hlog.bounded_of_denotes hv hpos
  have hnonneg : 0 ≤ occurrences := Int.le_trans (by decide) hone
  obtain ⟨o, ho, -, -, hexact⟩ := denotes_of_within hnonneg (lt_doubleLimit hoften)
  obtain rfl := hexact (Int.lt_of_le_of_lt hoften (by decide))
  rcases hd with hd | hd
  · have hdifference := hnumerator.sub hd (by decide) (by decide) (by decide)
    have hoccurrences : Bounded (Number.ofInt occurrences) (2 ^ 20) 0 := by
      refine ⟨_, ho, ?_⟩
      rw [abs_of_nonneg (Int.cast_nonneg hnonneg), zpow_zero, mul_one]
      exact_mod_cast hoften
    have hbits : 2 ^ 20 * (1 + 1) = 2 ^ 21 := by norm_num
    have hproduct := hoccurrences.mul hdifference (by norm_num) (by decide) (by decide)
    rw [hbits, zero_add] at hproduct
    rcases hscore with hscore | hscore
    · left
      rw [Nat.succ_mul]
      exact hscore.add hproduct (by omega) (by decide) (by decide)
    · obtain ⟨w, hw, -⟩ := hproduct
      exact .inr (negInf_add hscore hw)
  · -- nothing is left of the score but that it is the least
    obtain ⟨w, hw, -⟩ := hnumerator
    have hproduct := mul_negInf ho (Int.cast_pos.2 hone) (sub_posInf hw hd)
    refine .inr (add_negInf ?_ hproduct)
    rcases hscore with ⟨r, hr, -⟩ | hscore
    · exact .inl ⟨r, hr⟩
    · exact .inr hscore

/-- **All summands.** -/
theorem isScore_addTokens (hlog : Logarithm log) (hs : Smoothing s) (hm : m.Sound)
    (ht : m.total < doubleLimit) {denominator : Float}
    (hd : Bounded denominator 1 10 ∨ parts denominator = .infinity .positive)
    {entries : List (String × Int)} (he : ∀ e ∈ entries, 1 ≤ e.2 ∧ e.2 ≤ 2 ^ 20) {score r : Float}
    {k : Nat} (hscore : IsScore score k) (hk : k + entries.length ≤ 2 ^ 20)
    (h : entries.foldlM (logProbability.addToken (.withLog log) m s denominator) score = .ok r) :
    IsScore r (k + entries.length) := by
  induction entries generalizing score k with
  | nil =>
    obtain rfl := pure_eq_ok.1 h
    exact hscore
  | cons entry entries ih =>
    obtain ⟨⟨hone, hoften⟩, hrest⟩ := List.forall_mem_cons.1 he
    obtain ⟨hnonneg, hle⟩ := hm entry.1
    rw [List.length_cons] at hk ⊢
    rw [List.foldlM_cons, addToken_eq hs hm ht hone hoften] at h
    have hnext := isScore_addToken hlog hs hnonneg (Int.lt_of_le_of_lt hle ht) hd hone hoften hscore
      (by omega)
    have hend := ih hrest hnext (by omega) h
    rw [Nat.add_right_comm] at hend
    exact hend

/-- **Scores.** A score that can be computed is close to itself. -/
theorem close_of_logProbability (hlog : Logarithm log) (hs : Smoothing s) (hm : m.Sound)
    (htokens : tokens.length ≤ 2 ^ 20) {r : Float}
    (h : m.logProbability (.withLog log) tokens s vocabulary = .ok r) :
    (Scale.withLog log).close r r = true := by
  have hself : (r == r) = true := by
    by_cases hne : tokens = []
    · rw [hne, logProbability_nil] at h
      obtain rfl := Except.ok.inj h
      exact isScore_zero.beq_self
    by_cases hbeyond : doubleLimit ≤ m.total ∨ doubleLimit ≤ vocabulary
    · cases (logProbability_beyond hne hbeyond).symm.trans h
    obtain ⟨ht, hz⟩ := not_or.1 hbeyond
    obtain ⟨x, hx, heq⟩ := @logProbability_eq_sum log s m tokens vocabulary hs hm
      (Int.not_le.1 ht) (Int.not_le.1 hz) hne
    rw [heq] at h
    obtain ⟨hlength, hcounts⟩ := ofKeys_within htokens
    exact (isScore_addTokens hlog hs hm (Int.not_le.1 ht) (hlog.of_isPositive hx) hcounts
      isScore_zero (by omega) h).beq_self
  unfold Scale.withLog Scale.double
  dsimp only
  rw [hself, Bool.true_or]

end Model

end LangId
