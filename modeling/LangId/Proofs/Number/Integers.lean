import LangId.Number.Double
import LangId.Proofs.Number.Values

/-!
# Integers as doubles

The double nearest to a natural number is put together from its bits. `denotes_ofInt` says what it
stands for: for any integer from zero on up to the range of doubles it stands for a number; for one
of at most 53 bits, for this integer itself.
-/
namespace LangId.Number

open Float.Model Float.Model.UnpackedFloat

theorem parts_ofBits (b : UInt64) :
    parts (Float.ofBits b) = (Float.Model.pack (UnpackedFloat.unpack .binary64 b.toBitVec)).unpack :=
  rfl

/-- Exponent and fraction side by side. -/
theorem packComponents_positive {x f : Nat} (hx : x < 2 ^ 11) (hf : f < 2 ^ 52) :
    packComponents .binary64 .positive (BitVec.ofNat 11 x) (BitVec.ofNat 52 f) =
      BitVec.ofNat 64 (x * 2 ^ 52 + f) := by
  have hbits : x * 2 ^ 52 + f < 2 ^ 64 := by omega
  refine BitVec.eq_of_toNat_eq ((BitVec.toNat_append _ _).trans ?_)
  have hhigh : (Sign.positive.toBitVec ++ BitVec.ofNat 11 x).toNat = x := by
    rw [BitVec.toNat_append, BitVec.toNat_ofNat, Nat.mod_eq_of_lt hx]
    exact (congrArg (· ||| x) (Nat.zero_shiftLeft 11)).trans (Nat.zero_or x)
  have hlow : (BitVec.ofNat 52 f).toNat = f := by rw [BitVec.toNat_ofNat, Nat.mod_eq_of_lt hf]
  refine (congrArg₂ (fun a b => a <<< 52 ||| b) hhigh hlow).trans ?_
  rw [← Nat.shiftLeft_add_eq_or_of_lt hf, Nat.shiftLeft_eq]
  exact ((BitVec.toNat_ofNat _ _).trans (Nat.mod_eq_of_lt hbits)).symm

/-- The bits of a positive number of full length, read. -/
theorem parts_floatOfBits {x f : Nat} (hx : 0 < x) (hx' : x < 2047) (hf : f < 2 ^ 52) :
    parts (floatOfBits false (x * 2 ^ 52 + f)) =
      .finite .positive (2 ^ 52 + f) (x - 1075) (by omega) := by
  have hexponent : (BitVec.ofNat 11 x).toNat = x := by
    rw [BitVec.toNat_ofNat, Nat.mod_eq_of_lt (by omega)]
  have hne (n : Nat) (hn : x ≠ n) (hlt : n < 2 ^ 11) : BitVec.ofNat 11 x ≠ BitVec.ofNat 11 n := by
    intro heq
    have heq := congrArg BitVec.toNat heq
    rw [hexponent, BitVec.toNat_ofNat, Nat.mod_eq_of_lt hlt] at heq
    exact hn heq
  have hmantissa : (BitVec.ofNat 52 f).toNat = f := by
    rw [BitVec.toNat_ofNat, Nat.mod_eq_of_lt hf]
  have hread : UnpackedFloat.unpack .binary64 (BitVec.ofNat 64 (x * 2 ^ 52 + f)) =
      .finite .positive (2 ^ 52 + f) (x - 1075) (by omega) := by
    rw [← packComponents_positive (by omega) hf, unpack_packComponents, ofComponents,
      if_neg (hne 2047 (by omega) (by decide)), if_neg (hne 0 (by omega) (by decide))]
    simp only [hexponent, hmantissa]
  have hbits : floatOfBits false (x * 2 ^ 52 + f) = Float.ofBits (x * 2 ^ 52 + f).toUInt64 := by
    rw [floatOfBits, if_neg Bool.false_ne_true, Nat.zero_add]
  rw [hbits, parts_ofBits]
  refine (congrArg (fun u => (Float.Model.pack u).unpack) hread).trans ?_
  exact unpack_pack ⟨by omega, by omega, .inl (Nat.le_add_right _ _)⟩ _ (by omega)

variable {k : Nat}

/-- The last place of a natural number is behind 53 bits. -/
theorem lastPlace_one (hk : 0 < k) : lastPlace k 1 = (k.log2 : Int) - 52 := by
  have hlow : 2 ^ k.log2 ≤ k := Nat.log2_self_le (Nat.ne_of_gt hk)
  have hone : Nat.log2 1 = 0 := by decide
  unfold lastPlace
  rw [hone]
  dsimp only
  split
  · rename_i hshort
    have hpow : 2 ^ 52 ≤ k * 2 ^ ((k.log2 : Int) - (0 : Nat) - 52).natAbs := by
      calc 2 ^ 52 = 2 ^ k.log2 * 2 ^ ((k.log2 : Int) - (0 : Nat) - 52).natAbs := by
            rw [← Nat.pow_add]
            congr 1
            omega
        _ ≤ k * 2 ^ ((k.log2 : Int) - (0 : Nat) - 52).natAbs := Nat.mul_le_mul_right _ hlow
    rw [if_neg]
    · omega
    · change ¬ k * 2 ^ ((k.log2 : Int) - (0 : Nat) - 52).natAbs < 1 * 2 ^ 52
      omega
  · rename_i hlong
    have hpow : 1 * 2 ^ ((k.log2 : Int) - (0 : Nat) - 52).natAbs * 2 ^ 52 = 2 ^ k.log2 := by
      rw [Nat.one_mul, ← Nat.pow_add]
      congr 1
      omega
    rw [if_neg]
    · omega
    · change ¬ k < 1 * 2 ^ ((k.log2 : Int) - (0 : Nat) - 52).natAbs * 2 ^ 52
      rw [hpow]
      omega

theorem roundRatio_one (n : Nat) : roundRatio n 1 = n := by
  unfold roundRatio
  rw [Nat.div_one, Nat.mod_one]
  rfl

/-- Rounding goes down, or up by no more than a half. -/
theorem roundRatio_bounds (n : Nat) {d : Nat} (hd : 0 < d) :
    n / d ≤ roundRatio n d ∧ 2 * (roundRatio n d * d) ≤ 2 * n + d := by
  have hdiv := Nat.div_add_mod n d
  have hlt := Nat.mod_lt n hd
  have hnext : (n / d + 1) * d = d * (n / d) + d := by ring
  have hsame : n / d * d = d * (n / d) := Nat.mul_comm _ _
  unfold roundRatio
  dsimp only
  split
  · rw [hnext]
    omega
  · split
    · rw [hsame]
      omega
    · rcases Nat.mod_two_eq_zero_or_one (n / d) with hm | hm <;> rw [hm]
      · rw [Nat.add_zero, hsame]
        omega
      · rw [hnext]
        omega

/-- The mantissa of a natural number. -/
def mantissaOf (k : Nat) : Nat :=
  if (k.log2 : Int) - 52 < 0 then k * 2 ^ ((k.log2 : Int) - 52).natAbs
  else roundRatio k (2 ^ ((k.log2 : Int) - 52).natAbs)

theorem ofRatio_one (hk : 0 < k) : ofRatio false k 1 = floatOfBits false
    (min (if mantissaOf k < 2 ^ 52 then mantissaOf k
      else ((k.log2 : Int) - 52 + 1075).toNat * 2 ^ 52 + (mantissaOf k - 2 ^ 52)) infinityBits) := by
  have hne : (k == 0) = false := beq_eq_false_iff_ne.2 (Nat.ne_of_gt hk)
  have hmantissa : (if (k.log2 : Int) - 52 < 0 then
      roundRatio (k * Nat.pow 2 ((k.log2 : Int) - 52).natAbs) 1
      else roundRatio k (1 * Nat.pow 2 ((k.log2 : Int) - 52).natAbs)) = mantissaOf k := by
    unfold mantissaOf
    rw [roundRatio_one, Nat.one_mul]
    rfl
  unfold ofRatio
  rw [hne, lastPlace_one hk, if_neg Bool.false_ne_true]
  dsimp only
  rw [hmantissa]
  rfl

/-- What the mantissa of a natural number is. -/
structure Mantissa (k m : Nat) (e : Int) : Prop where
  low : 2 ^ 52 ≤ m
  high : m ≤ 2 ^ 53
  near : 2 * ((m : ℚ) * 2 ^ e) ≤ 2 * k + 2 ^ e
  exact : k < 2 ^ 53 → (m : ℚ) * 2 ^ e = k

/-- A number of no more than 53 bits is moved up, which loses nothing. -/
theorem mantissa_short {n : Nat} (hk : 0 < k) (hn : k.log2 + n = 52) :
    Mantissa k (k * 2 ^ n) ((k.log2 : Int) - 52) := by
  have hexact : ((k * 2 ^ n : Nat) : ℚ) * 2 ^ ((k.log2 : Int) - 52) = k := by
    have hcancel : (2 : ℚ) ^ n * 2 ^ ((k.log2 : Int) - 52) = 1 := by
      rw [← zpow_natCast, ← two_zpow_add, ← zpow_zero (2 : ℚ)]
      congr 1
      omega
    rw [Nat.cast_mul, Nat.cast_pow, Nat.cast_ofNat, mul_assoc, hcancel, mul_one]
  refine ⟨?_, ?_, ?_, fun _ => hexact⟩
  · rw [← hn, Nat.pow_add]
    exact Nat.mul_le_mul_right _ (Nat.log2_self_le (Nat.ne_of_gt hk))
  · have hpow : 2 ^ 53 = 2 ^ (k.log2 + 1) * 2 ^ n := by
      rw [← Nat.pow_add]
      congr 1
      omega
    rw [hpow]
    exact Nat.mul_le_mul_right _ Nat.lt_log2_self.le
  · rw [hexact]
    exact le_add_of_nonneg_right (two_zpow_pos _).le

/-- A number of at least 53 bits is rounded to its first 53, or one more. -/
theorem mantissa_long {n : Nat} (hk : 0 < k) (hn : k.log2 = 52 + n) :
    Mantissa k (roundRatio k (2 ^ n)) n := by
  have hlow : 2 ^ (52 + n) ≤ k := hn ▸ Nat.log2_self_le (Nat.ne_of_gt hk)
  have hhigh : k < 2 ^ (52 + n + 1) := hn ▸ Nat.lt_log2_self
  obtain ⟨hdown, hup⟩ := roundRatio_bounds k (Nat.two_pow_pos n)
  refine ⟨?_, ?_, ?_, fun hfits => ?_⟩
  · refine Nat.le_trans ?_ hdown
    rw [Nat.le_div_iff_mul_le (Nat.two_pow_pos n), ← Nat.pow_add]
    exact hlow
  · have hpow : 2 ^ (52 + n + 1) = 2 ^ 53 * 2 ^ n := by
      rw [← Nat.pow_add]
      congr 1
      omega
    rw [hpow] at hhigh
    generalize roundRatio k (2 ^ n) = r at hup ⊢
    generalize 2 ^ n = step at hup hhigh
    by_contra hlt
    have hmul : (2 ^ 53 + 1) * step ≤ r * step := Nat.mul_le_mul_right step (by omega)
    omega
  · rw [zpow_natCast]
    exact_mod_cast hup
  · obtain rfl : n = 0 := by
      by_contra hpos
      have hlong : 2 ^ 53 ≤ 2 ^ (52 + n) := Nat.pow_le_pow_right (by decide) (by omega)
      omega
    rw [Nat.pow_zero, roundRatio_one, Nat.cast_zero, zpow_zero, mul_one]

theorem mantissa_mantissaOf (hk : 0 < k) : Mantissa k (mantissaOf k) ((k.log2 : Int) - 52) := by
  unfold mantissaOf
  by_cases hshort : (k.log2 : Int) - 52 < 0
  · obtain ⟨n, hn⟩ : ∃ n : Nat, k.log2 + n = 52 := ⟨52 - k.log2, by omega⟩
    have habs : ((k.log2 : Int) - 52).natAbs = n := by omega
    rw [if_pos hshort, habs]
    exact mantissa_short hk hn
  · obtain ⟨n, hn⟩ : ∃ n : Nat, k.log2 = 52 + n := ⟨k.log2 - 52, by omega⟩
    have hplace : (k.log2 : Int) - 52 = n := by omega
    rw [if_neg hshort, hplace, Int.natAbs_natCast]
    exact mantissa_long hk hn

/-- From the place of its last bit on, a mantissa is no less than one. -/
theorem Mantissa.one_le {m : Nat} {e : Int} (h : Mantissa k m e) (he : -52 ≤ e) :
    (1 : ℚ) ≤ m * 2 ^ e := by
  have hm : (2 : ℚ) ^ 52 ≤ m := by exact_mod_cast h.low
  calc (1 : ℚ) = 2 ^ (0 : Int) := (zpow_zero _).symm
    _ ≤ 2 ^ (((52 : Nat) : Int) + e) := two_zpow_le (by omega)
    _ = 2 ^ 52 * 2 ^ e := by rw [two_zpow_add, zpow_natCast]
    _ ≤ m * 2 ^ e := mul_le_mul_of_nonneg_right hm (two_zpow_pos _).le

theorem denotes_bits {x f : Nat} (hx : 0 < x) (hx' : x < 2047) (hf : f < 2 ^ 52) :
    Denotes (floatOfBits false (min (x * 2 ^ 52 + f) infinityBits))
      ((2 ^ 52 + f : Nat) * 2 ^ ((x : Int) - 1075)) := by
  have hmin : min (x * 2 ^ 52 + f) infinityBits = x * 2 ^ 52 + f := by
    refine Nat.min_eq_left ?_
    change x * 2 ^ 52 + f ≤ 2047 * 2 ^ 52
    omega
  have hpos : 0 < 2 ^ 52 + f := Nat.add_pos_left (Nat.two_pow_pos 52) f
  rw [Denotes, hmin, parts_floatOfBits hx hx' hf, ← apply_positive]
  exact .finite .positive hpos ⟨by omega, by omega, .inl (Nat.le_add_right _ _)⟩ (by omega)

/-- A mantissa of one bit too many is the least one with the next exponent. -/
theorem carry_value (x : Nat) : ((2 ^ 53 : Nat) : ℚ) * 2 ^ ((x : Int) - 1075) =
    (2 ^ 52 + 0 : Nat) * 2 ^ (((x + 1 : Nat) : Int) - 1075) := by
  have hnext : ((x + 1 : Nat) : Int) - 1075 = 1 + (x - 1075) := by
    push_cast
    ring
  rw [hnext, two_zpow_add]
  push_cast
  ring

/-- Below the limit the largest exponent is not left. -/
theorem lt_of_carry {x : Nat} (hlt : (k : ℚ) < limit)
    (hnear : 2 * (((2 ^ 53 : Nat) : ℚ) * 2 ^ ((x : Int) - 1075)) ≤ 2 * k + 2 ^ ((x : Int) - 1075))
    (hx : x < 2047) : x < 2046 := by
  by_contra hlast
  obtain rfl : x = 2046 := by omega
  have hfull : (2 : ℚ) ^ (1024 : Int) = 2 ^ 53 * 2 ^ (971 : Int) := by
    rw [← zpow_natCast, ← two_zpow_add]
    rfl
  have hstep : (2 : ℚ) ^ (971 : Int) = 2 * 2 ^ (970 : Int) := by
    rw [← zpow_one_add₀ (by norm_num)]
    rfl
  have hplace : ((2046 : Nat) : Int) - 1075 = 971 := rfl
  rw [hplace, Nat.cast_pow, Nat.cast_ofNat, ← hfull, hstep] at hnear
  rw [limit] at hlt
  linarith

/-- A natural number within the range of doubles stands for a number that is no less than one. -/
theorem denotes_ofRatio (hk : 0 < k) (hlt : (k : ℚ) < limit) :
    ∃ v, Denotes (ofRatio false k 1) v ∧ 1 ≤ v ∧ (k < 2 ^ 53 → v = k) := by
  have hmantissa := mantissa_mantissaOf hk
  have hlog : k.log2 < 1024 := by
    have hself : (2 : ℚ) ^ ((k.log2 : Int)) ≤ k := by
      rw [zpow_natCast]
      exact_mod_cast Nat.log2_self_le (Nat.ne_of_gt hk)
    have hbelow : (2 : ℚ) ^ ((k.log2 : Int)) < 2 ^ (1024 : Int) :=
      lt_of_le_of_lt hself (lt_of_lt_of_le hlt (sub_le_self _ (two_zpow_pos 970).le))
    have := le_of_two_zpow_lt hbelow
    omega
  obtain ⟨x, hx⟩ : ∃ x : Nat, (x : Int) = (k.log2 : Int) - 52 + 1075 :=
    ⟨k.log2 + 1023, by omega⟩
  have hplace : (k.log2 : Int) - 52 = x - 1075 := by omega
  have hexponent : ((x : Int) - 1075 + 1075).toNat = x := by omega
  rw [ofRatio_one hk, if_neg (Nat.not_lt.2 hmantissa.low), hplace, hexponent]
  rw [hplace] at hmantissa
  generalize mantissaOf k = m at *
  have hone := hmantissa.one_le (by omega)
  obtain ⟨hlow, hhigh, hnear, hexact⟩ := hmantissa
  refine ⟨m * 2 ^ ((x : Int) - 1075), ?_, hone, hexact⟩
  by_cases hcarry : m = 2 ^ 53
  · -- one bit more, so that the exponent goes up
    subst hcarry
    have hroom := lt_of_carry hlt hnear (by omega)
    have hbits : x * 2 ^ 52 + (2 ^ 53 - 2 ^ 52) = (x + 1) * 2 ^ 52 + 0 := by omega
    rw [carry_value, hbits]
    exact denotes_bits (by omega) (by omega) (by decide)
  · obtain ⟨f, rfl⟩ : ∃ f, m = 2 ^ 52 + f := ⟨m - 2 ^ 52, by omega⟩
    rw [Nat.add_sub_cancel_left]
    exact denotes_bits (by omega) (by omega) (by omega)

/-- **Integers as doubles.** -/
theorem denotes_ofInt {n : Int} (hn : 0 ≤ n) (hlt : (n : ℚ) < limit) :
    ∃ v, Denotes (ofInt n) v ∧ 0 ≤ v ∧ (1 ≤ n → 1 ≤ v) ∧ (n < 2 ^ 53 → v = n) := by
  obtain ⟨k, rfl⟩ := Int.eq_ofNat_of_zero_le hn
  have hsign : decide ((k : Int) < 0) = false := decide_eq_false (by omega)
  unfold ofInt
  rw [hsign, Int.natAbs_natCast]
  rcases Nat.eq_zero_or_pos k with rfl | hk
  · refine ⟨0, .zero .positive, le_refl 0, fun h => absurd h (by decide), fun _ => ?_⟩
    exact Nat.cast_zero.symm
  · obtain ⟨v, hv, hone, hexact⟩ := denotes_ofRatio hk (by exact_mod_cast hlt)
    refine ⟨v, hv, le_trans zero_le_one hone, fun _ => hone, fun hfits => ?_⟩
    exact hexact (by exact_mod_cast hfits)

end LangId.Number
