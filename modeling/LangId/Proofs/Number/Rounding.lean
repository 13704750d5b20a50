import Mathlib

/-!
# Rounding to doubles

A number `m * 2 ^ e` is rounded to a mantissa of 53 bits at the place `lastPlace m e`, which is at
least `-1074`. Mantissas are rounded by shifting them to the right, one bit at a time. The rounded
mantissa lies between the quotient (`div_le_rounded`) and half a step above the number
(`rounded_le`).

From these two bounds follows what is used of rounding (`Rounded`): a number that is no less than
the least double does not become zero; a number that does not exceed a double is not rounded to
more than this double; and a number below the middle between the largest double and the next power
of two is not rounded to the latter.
-/
namespace LangId.Number

open Float.Model Float.Model.UnpackedFloat

/-! ## Shifting mantissas -/

theorem mantissa_shift (em : ExtendedMantissa) (n : Nat) :
    (em >>> n).mantissa = em.mantissa / 2 ^ n := by
  induction n with
  | zero => exact (Nat.div_one _).symm
  | succ n ih =>
    have hstep : (em >>> (n + 1)).mantissa = (em >>> n).mantissa / 2 := rfl
    rw [hstep, ih, Nat.div_div_eq_div_mul, Nat.pow_succ]

theorem roundBit_shift (em : ExtendedMantissa) (n : Nat) :
    (em >>> (n + 1)).roundBit = (em.mantissa / 2 ^ n % 2 != 0) := by
  rw [← mantissa_shift]
  rfl

/-- A mantissa is rounded up only if the bit behind it is set. -/
theorem roundedMantissa_cases (em : ExtendedMantissa) :
    em.roundedMantissa = em.mantissa ∨
      em.roundBit = true ∧ em.roundedMantissa = em.mantissa + 1 := by
  obtain ⟨m, round, sticky⟩ := em
  cases round with
  | false => cases sticky <;> exact .inl rfl
  | true =>
    cases sticky with
    | true => exact .inr ⟨rfl, rfl⟩
    | false =>
      -- halfway, to the even one
      have heq : (ExtendedMantissa.mk m true false).roundedMantissa = m + m % 2 := rfl
      rw [heq]
      rcases Nat.mod_two_eq_zero_or_one m with h | h
      · exact .inl (by rw [h]; rfl)
      · exact .inr ⟨rfl, by rw [h]⟩

/-- A mantissa without its last bits, rounded. -/
def rounded (m n : Nat) : Nat := (ExtendedMantissa.mk m false false >>> n).roundedMantissa

theorem rounded_cases (m n : Nat) : rounded m n = m / 2 ^ n ∨
    (ExtendedMantissa.mk m false false >>> n).roundBit = true ∧ rounded m n = m / 2 ^ n + 1 := by
  have hm : (ExtendedMantissa.mk m false false >>> n).mantissa = m / 2 ^ n := mantissa_shift _ n
  rw [← hm]
  exact roundedMantissa_cases _

theorem div_le_rounded (m n : Nat) : m / 2 ^ n ≤ rounded m n := by
  rcases rounded_cases m n with h | ⟨-, h⟩
  · exact Nat.le_of_eq h.symm
  · rw [h]
    exact Nat.le_succ _

theorem rounded_le (m n : Nat) : 2 * (rounded m n * 2 ^ n) ≤ 2 * m + 2 ^ n := by
  have hle := Nat.div_mul_le_self m (2 ^ n)
  rcases rounded_cases m n with h | ⟨hbit, h⟩
  · rw [h]
    exact Nat.le_add_right_of_le (Nat.mul_le_mul_left 2 hle)
  cases n with
  | zero => cases hbit
  | succ n =>
    rw [h, Nat.pow_succ, ← Nat.div_div_eq_div_mul]
    rw [roundBit_shift, bne_iff_ne] at hbit
    -- the bits that are dropped are at least half a step
    have hdiv : 2 ^ n * (m / 2 ^ n) + m % 2 ^ n = m := Nat.div_add_mod m (2 ^ n)
    have hodd : m / 2 ^ n = 2 * (m / 2 ^ n / 2) + 1 := by
      dsimp only at hbit
      omega
    have hexpand : (m / 2 ^ n / 2 + 1) * (2 ^ n * 2) = 2 ^ n * (m / 2 ^ n) + 2 ^ n := by
      generalize m / 2 ^ n / 2 = q at hodd ⊢
      rw [hodd]
      ring
    rw [hexpand]
    omega

/-! ## The last place -/

/-- The place to which the mantissa of a number is rounded. -/
def lastPlaceOf (m : Nat) (e : Int) : Int := max (m.log2 + e - 52) (-1074)

theorem targetExponent_eq (m : Nat) (e : Int) :
    Format.binary64.targetExponent (totalExponent m e) = lastPlaceOf m e := by
  simp only [Format.targetExponent, totalExponent, Format.mantissaBits, Format.minExponent,
    lastPlaceOf]
  norm_num
  omega

theorem le_lastPlaceOf (m : Nat) (e : Int) : -1074 ≤ lastPlaceOf m e := le_max_right _ _

theorem shiftToTargetExponent_eq (m : Nat) (e : Int) :
    shiftToTargetExponent .binary64 m e .exact =
      (ExtendedMantissa.mk m false false >>> (lastPlaceOf m e - e).toNat,
        e + (lastPlaceOf m e - e).toNat) := by
  rw [shiftToTargetExponent, targetExponent_eq]
  rfl

/-- A mantissa that fits stays where it is. -/
theorem shift_of_fits {m : Nat} {e : Int} (hm : m < 2 ^ 53) (he : -1074 ≤ e) :
    shiftToTargetExponent .binary64 m e .exact = (⟨m, false, false⟩, e) := by
  have hlog : m.log2 < 53 := by
    by_cases h : m = 0
    · rw [h]
      decide
    · exact (Nat.log2_lt h).2 hm
  have hstay : (lastPlaceOf m e - e).toNat = 0 := by
    unfold lastPlaceOf
    omega
  rw [shiftToTargetExponent_eq, hstay]
  exact congrArg _ (Int.add_zero e)

/-- One with a bit too many moves by one place. -/
theorem shift_of_carry {e : Int} (he : -1074 ≤ e) :
    shiftToTargetExponent .binary64 (2 ^ 53) e .exact = (⟨2 ^ 52, false, false⟩, e + 1) := by
  have hmove : (lastPlaceOf (2 ^ 53) e - e).toNat = 1 := by
    have hlog : (2 ^ 53).log2 = 53 := Nat.log2_two_pow
    unfold lastPlaceOf
    rw [hlog]
    omega
  rw [shiftToTargetExponent_eq, hmove]
  rfl

theorem lt_two_pow_of_log2 {m n : Nat} (h : m.log2 < n) : m < 2 ^ n :=
  Nat.lt_of_lt_of_le Nat.lt_log2_self (Nat.pow_le_pow_right (by decide) h)

theorem log2_of_bounds {m : Nat} (hlow : 2 ^ 52 ≤ m) (hhigh : m < 2 ^ 53) : m.log2 = 52 :=
  (Nat.log2_eq_iff (by omega)).2 ⟨hlow, hhigh⟩

/-! ## Doubles with an exponent without upper bound -/

/-- A mantissa and an exponent as they stand in doubles: the mantissa has 53 bits, or fewer at the
lowest place. -/
structure InPlace (m : Nat) (e : Int) : Prop where
  mantissa : m < 2 ^ 53
  exponent : -1074 ≤ e
  normal : 2 ^ 52 ≤ m ∨ e = -1074

/-- The absolute value of a double that is a number. -/
def absValue : UnpackedFloat → ℚ
  | .finite _ m e _ => m * 2 ^ e
  | _ => 0

/-- The numbers that are rounded to no double begin here. -/
def limit : ℚ := 2 ^ (1024 : Int) - 2 ^ (970 : Int)

/-- What a positive number `v` can be rounded to under a sign. -/
structure Rounded (v : ℚ) (s : Sign) (u : UnpackedFloat) : Prop where
  shape : u = .zero s ∨ ∃ m e h, u = .finite s m e h ∧ InPlace m e
  pos : (2 : ℚ) ^ (-1074 : Int) ≤ v → 0 < absValue u
  le : ∀ (k : Nat) (x : Int), k < 2 ^ 53 → -1074 ≤ x → v ≤ k * 2 ^ x → absValue u ≤ k * 2 ^ x
  lt : v < limit → absValue u < 2 ^ (1024 : Int)

variable {m : Nat} {e : Int} {s : Sign}

theorem two_zpow_pos (x : Int) : (0 : ℚ) < 2 ^ x := zpow_pos (by norm_num) x

theorem two_zpow_add (x y : Int) : (2 : ℚ) ^ (x + y) = 2 ^ x * 2 ^ y := zpow_add₀ (by norm_num) x y

theorem two_zpow_le {x y : Int} (h : x ≤ y) : (2 : ℚ) ^ x ≤ 2 ^ y :=
  zpow_le_zpow_right₀ (by norm_num) h

theorem le_of_two_zpow_lt {x y : Int} (h : (2 : ℚ) ^ x < 2 ^ y) : x < y :=
  (zpow_lt_zpow_iff_right₀ (by norm_num)).1 h

theorem rounded_le_carry (m : Nat) (e : Int) :
    rounded m (lastPlaceOf m e - e).toNat ≤ 2 ^ 53 := by
  have hlog : (m.log2 : Int) + e - 52 ≤ lastPlaceOf m e := le_max_left _ _
  have hbits : m < 2 ^ 53 * 2 ^ (lastPlaceOf m e - e).toNat := by
    rw [← Nat.pow_add]
    exact lt_two_pow_of_log2 (by omega)
  have hle := rounded_le m (lastPlaceOf m e - e).toNat
  generalize rounded m (lastPlaceOf m e - e).toNat = R at hle ⊢
  generalize 2 ^ (lastPlaceOf m e - e).toNat = step at hbits hle
  by_contra hlt
  have hmul : (2 ^ 53 + 1) * step ≤ R * step := Nat.mul_le_mul_right step (by omega)
  omega

/-- What rounding does to a mantissa and an exponent. The mantissa is shifted a second time if the
first shift has carried it to a bit too many. -/
theorem roundWithAccuracy_eq (he : e ≤ lastPlaceOf m e) :
    let R := rounded m (lastPlaceOf m e - e).toNat
    roundWithAccuracy .binary64 s m e .exact =
      if h : R = 0 then .zero s
      else if R < 2 ^ 53 then .finite s R (lastPlaceOf m e) (Nat.pos_of_ne_zero h)
      else .finite s (2 ^ 52) (lastPlaceOf m e + 1) (by decide) := by
  intro R
  have hlow := le_lastPlaceOf m e
  have hplace : e + ((lastPlaceOf m e - e).toNat : Int) = lastPlaceOf m e := by omega
  have hround : (ExtendedMantissa.mk m false false >>>
      (lastPlaceOf m e - e).toNat).roundedMantissa = R := rfl
  have hR : R ≤ 2 ^ 53 := rounded_le_carry m e
  unfold roundWithAccuracy
  rw [shiftToTargetExponent_eq, hplace]
  dsimp only
  rw [hround]
  by_cases hfits : R < 2 ^ 53
  · rw [shift_of_fits hfits hlow]
    simp only [hfits, if_true]
  · have hcarry : R = 2 ^ 53 := by omega
    rw [hcarry, shift_of_carry hlow]
    rfl

/-- The first shift leaves all bits of a mantissa, unless it ends at the lowest place. -/
theorem normal_or_lowest (hm : 0 < m) (he : e ≤ lastPlaceOf m e) :
    2 ^ 52 ≤ rounded m (lastPlaceOf m e - e).toNat ∨ lastPlaceOf m e = -1074 := by
  by_cases hlowest : lastPlaceOf m e = -1074
  · exact .inr hlowest
  left
  have hlog : m.log2 = 52 + (lastPlaceOf m e - e).toNat := by
    unfold lastPlaceOf at he hlowest ⊢
    omega
  have hself : 2 ^ (52 + (lastPlaceOf m e - e).toNat) ≤ m := by
    rw [← hlog]
    exact Nat.log2_self_le (Nat.ne_of_gt hm)
  refine Nat.le_trans ?_ (div_le_rounded m _)
  rw [Nat.le_div_iff_mul_le (Nat.two_pow_pos _), ← Nat.pow_add]
  exact hself

/-- The places of a number, as a factor. -/
theorem two_zpow_lastPlaceOf (he : e ≤ lastPlaceOf m e) :
    (2 : ℚ) ^ lastPlaceOf m e = 2 ^ (lastPlaceOf m e - e).toNat * 2 ^ e := by
  rw [← zpow_natCast, ← two_zpow_add]
  congr 1
  omega

theorem two_zpow_log2_le (hm : 0 < m) (e : Int) :
    (2 : ℚ) ^ ((m.log2 : Int) + e) ≤ m * 2 ^ e := by
  have hself : (2 : ℚ) ^ m.log2 ≤ m := by exact_mod_cast Nat.log2_self_le (Nat.ne_of_gt hm)
  rw [two_zpow_add, zpow_natCast]
  exact mul_le_mul_of_nonneg_right hself (two_zpow_pos e).le

/-- A number has no more places than what it does not exceed. -/
theorem log2_lt_of_le {k : Nat} {x : Int} {b : Nat} (hm : 0 < m) (hk : k < 2 ^ b)
    (h : (m : ℚ) * 2 ^ e ≤ k * 2 ^ x) : (m.log2 : Int) + e < b + x := by
  have hk : (k : ℚ) < 2 ^ b := by exact_mod_cast hk
  refine le_of_two_zpow_lt ?_
  calc (2 : ℚ) ^ ((m.log2 : Int) + e) ≤ m * 2 ^ e := two_zpow_log2_le hm e
    _ ≤ k * 2 ^ x := h
    _ < 2 ^ b * 2 ^ x := mul_lt_mul_of_pos_right hk (two_zpow_pos x)
    _ = 2 ^ ((b : Int) + x) := by rw [two_zpow_add, zpow_natCast]

section

variable (hm : 0 < m) (he : e ≤ lastPlaceOf m e)
include hm he

theorem rounded_pos (h : (2 : ℚ) ^ (-1074 : Int) ≤ m * 2 ^ e) :
    0 < rounded m (lastPlaceOf m e - e).toNat := by
  rcases normal_or_lowest hm he with hnormal | hlowest
  · omega
  · refine Nat.lt_of_lt_of_le ?_ (div_le_rounded m _)
    have hplace := two_zpow_lastPlaceOf he
    rw [hlowest] at hplace ⊢
    rw [hplace] at h
    have hstep : (2 : ℚ) ^ (-1074 - e).toNat ≤ m := le_of_mul_le_mul_right h (two_zpow_pos e)
    exact Nat.div_pos (by exact_mod_cast hstep) (Nat.two_pow_pos _)

theorem rounded_mul_le {k : Nat} {x : Int} (hk : k < 2 ^ 53) (hx : -1074 ≤ x)
    (h : (m : ℚ) * 2 ^ e ≤ k * 2 ^ x) :
    (rounded m (lastPlaceOf m e - e).toNat : ℚ) * 2 ^ lastPlaceOf m e ≤ k * 2 ^ x := by
  have hlog : (m.log2 : Int) + e < 53 + x := log2_lt_of_le hm hk h
  have hplace : lastPlaceOf m e ≤ x := by
    unfold lastPlaceOf
    omega
  -- the bound is a number of steps of the last place
  obtain ⟨j, rfl⟩ : ∃ j : Nat, x = j + lastPlaceOf m e := ⟨(x - lastPlaceOf m e).toNat, by omega⟩
  have hstep := two_zpow_lastPlaceOf he
  have hnear := rounded_le m (lastPlaceOf m e - e).toNat
  generalize rounded m (lastPlaceOf m e - e).toNat = R at hnear ⊢
  rw [two_zpow_add, zpow_natCast, hstep, ← mul_assoc, ← mul_assoc] at h ⊢
  generalize (lastPlaceOf m e - e).toNat = n at hnear h ⊢
  have hbound : m ≤ k * 2 ^ j * 2 ^ n := by
    exact_mod_cast le_of_mul_le_mul_right h (two_zpow_pos e)
  have hR : R ≤ k * 2 ^ j := by
    have hpos := Nat.two_pow_pos n
    generalize 2 ^ n = step at *
    by_contra hlt
    have hmul : (k * 2 ^ j + 1) * step ≤ R * step := Nat.mul_le_mul_right step (by omega)
    rw [Nat.add_mul] at hmul
    omega
  have hR : (R : ℚ) ≤ k * 2 ^ j := by exact_mod_cast hR
  rw [mul_assoc, mul_assoc, ← mul_assoc (k : ℚ)]
  exact mul_le_mul_of_nonneg_right hR (by positivity)

theorem rounded_mul_lt (h : (m : ℚ) * 2 ^ e < limit) :
    (rounded m (lastPlaceOf m e - e).toNat : ℚ) * 2 ^ lastPlaceOf m e < 2 ^ (1024 : Int) := by
  rw [limit] at h
  have hlog : (m.log2 : Int) + e < 1024 := by
    refine le_of_two_zpow_lt (lt_of_le_of_lt (two_zpow_log2_le hm e) (lt_of_lt_of_le h ?_))
    exact sub_le_self _ (two_zpow_pos 970).le
  have hplace : lastPlaceOf m e ≤ 971 := by
    unfold lastPlaceOf
    omega
  have hhalf : (2 : ℚ) ^ lastPlaceOf m e ≤ 2 * 2 ^ (970 : Int) := by
    calc (2 : ℚ) ^ lastPlaceOf m e ≤ 2 ^ (1 + 970 : Int) := two_zpow_le hplace
      _ = 2 * 2 ^ (970 : Int) := by rw [two_zpow_add, zpow_one]
  have hstep := two_zpow_lastPlaceOf he
  have hnear : (2 : ℚ) * (rounded m (lastPlaceOf m e - e).toNat *
      2 ^ (lastPlaceOf m e - e).toNat) ≤ 2 * m + 2 ^ (lastPlaceOf m e - e).toNat := by
    exact_mod_cast rounded_le m _
  have hnear := mul_le_mul_of_nonneg_right hnear (two_zpow_pos e).le
  rw [add_mul, ← hstep, mul_assoc, mul_assoc, mul_assoc, ← hstep] at hnear
  linarith

end

/-- **Rounding** of a positive number, given so that none of its digits is to the right of its last
place only for want of others. -/
theorem rounded_of_le (hm : 0 < m) (he : e ≤ lastPlaceOf m e) (s : Sign) :
    Rounded (m * 2 ^ e) s (roundWithAccuracy .binary64 s m e .exact) := by
  have hcarry := rounded_le_carry m e
  have hpos := rounded_pos hm he
  have hle (k : Nat) (x : Int) := @rounded_mul_le m e hm he k x
  have hlt := rounded_mul_lt hm he
  have hnormal := normal_or_lowest hm he
  have hlow := le_lastPlaceOf m e
  have heq := @roundWithAccuracy_eq m e s he
  dsimp only at heq
  generalize rounded m (lastPlaceOf m e - e).toNat = R at *
  generalize lastPlaceOf m e = t at *
  have habsValue : absValue (roundWithAccuracy .binary64 s m e .exact) = R * 2 ^ t := by
    rw [heq]
    split
    · rename_i hzero
      rw [hzero, Nat.cast_zero, zero_mul]
      rfl
    · split
      · rfl
      · have hfull : R = 2 ^ 53 := by omega
        rw [hfull, absValue, add_comm, two_zpow_add]
        norm_num
        ring
  refine ⟨?_, fun h => ?_, fun k x hk hx h => ?_, fun h => ?_⟩
  · rw [heq]
    split
    · exact .inl rfl
    · rename_i hzero
      right
      split
      · rename_i hfits
        exact ⟨R, t, Nat.pos_of_ne_zero hzero, rfl, hfits, hlow, hnormal⟩
      · exact ⟨2 ^ 52, t + 1, by decide, rfl, by decide, by omega, .inl (Nat.le_refl _)⟩
  · rw [habsValue]
    exact mul_pos (Nat.cast_pos.2 (hpos h)) (two_zpow_pos t)
  · rw [habsValue]
    exact hle k x hk hx h
  · rw [habsValue]
    exact hlt h

/-- A lower exponent with a longer mantissa. -/
theorem decreaseExponent_value (m : Nat) (e t : Int) :
    ((decreaseExponent m e t).1 : ℚ) * 2 ^ (decreaseExponent m e t).2 = m * 2 ^ e := by
  unfold decreaseExponent
  dsimp only
  generalize (e - t).toNat = n
  have hcancel : (2 : ℚ) ^ n * 2 ^ (e - n) = 2 ^ e := by
    rw [← zpow_natCast, ← two_zpow_add]
    congr 1
    omega
  rw [Nat.shiftLeft_eq, Nat.cast_mul, Nat.cast_pow, Nat.cast_ofNat, mul_assoc, hcancel]

theorem decreaseExponent_pos {m : Nat} (hm : 0 < m) (e t : Int) :
    0 < (decreaseExponent m e t).1 := by
  rw [decreaseExponent, Nat.shiftLeft_eq]
  exact Nat.mul_pos hm (Nat.two_pow_pos _)

theorem log2_shiftLeft {m : Nat} (hm : 0 < m) (n : Nat) : (m <<< n).log2 = m.log2 + n := by
  rw [Nat.shiftLeft_eq]
  refine (Nat.log2_eq_iff (Nat.ne_of_gt (Nat.mul_pos hm (Nat.two_pow_pos n)))).2 ⟨?_, ?_⟩
  · rw [Nat.pow_add]
    exact Nat.mul_le_mul_right _ (Nat.log2_self_le (Nat.ne_of_gt hm))
  · rw [Nat.add_right_comm, Nat.pow_add]
    exact Nat.mul_lt_mul_of_pos_right Nat.lt_log2_self (Nat.two_pow_pos n)

/-- **Rounding** of a positive number, however it is given. -/
theorem rounded_round (hm : 0 < m) (e : Int) (s : Sign) :
    Rounded (m * 2 ^ e) s (UnpackedFloat.round .binary64 s m e) := by
  rw [UnpackedFloat.round, targetExponent_eq, ← decreaseExponent_value m e (lastPlaceOf m e)]
  refine rounded_of_le (decreaseExponent_pos hm _ _) ?_ s
  unfold decreaseExponent lastPlaceOf
  dsimp only
  rw [log2_shiftLeft hm]
  omega

end LangId.Number
