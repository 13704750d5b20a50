import LangId.Proofs.Number.Packing

/-!
# Arithmetic of doubles

Results of sums, differences and products are packed. What is packed stands for a number (`Value`) or
is an infinity; it stands for a number near the exact one (`Near`), unless this is beyond the range
of doubles.

**Results.**
* `value_add`, `value_sub`, `value_mul`: within the range of doubles a result is a number near the
  exact one.
* `above_add`, `above_mul`: a sum or product that is positive is so as a double too, even if infinite
  (`Above`).
* `add_infinity`, `infinity_add`, `mul_infinity`, `sub_infinity`: what infinities lead to.
-/
namespace LangId.Number

open Float.Model Float.Model.UnpackedFloat

/-! ## Numbers -/

/-- What stands for which number. -/
inductive Value : UnpackedFloat → ℚ → Prop
  | zero (s : Sign) : Value (.zero s) 0
  | finite (s : Sign) {m : Nat} {e : Int} (h : 0 < m) (hp : InPlace m e) (he : e ≤ 971) :
      Value (.finite s m e h) (s.apply m * 2 ^ e)

/-- A positive number, or the positive infinity. -/
def Above (u : UnpackedFloat) : Prop := (∃ v, Value u v ∧ 0 < v) ∨ u = .infinity .positive

/-- A number `v` is what a double can be that comes from the exact number `w`. -/
structure Near (w v : ℚ) : Prop where
  le : ∀ (k : Nat) (x : Int), k < 2 ^ 53 → -1074 ≤ x → |w| ≤ k * 2 ^ x → |v| ≤ k * 2 ^ x
  pos : (2 : ℚ) ^ (-1074 : Int) ≤ w → 0 < v

variable {a b u : UnpackedFloat} {v w : ℚ} {m : Nat} {e : Int} {s : Sign}

theorem apply_positive (m : Nat) : ((Sign.positive.apply m : Int) : ℚ) = m := Int.cast_natCast m

theorem apply_negative (m : Nat) : ((Sign.negative.apply m : Int) : ℚ) = -m := by
  rw [Sign.apply, Int.cast_neg, Int.cast_natCast]

theorem Near.refl (v : ℚ) : Near v v :=
  ⟨fun _ _ _ _ h => h, fun h => lt_of_lt_of_le (two_zpow_pos _) h⟩

theorem Value.finite_of_pos (h : Value u v) (hv : 0 < v) :
    ∃ m e h, u = .finite .positive m e h ∧ InPlace m e ∧ v = m * 2 ^ e := by
  cases h with
  | zero => exact absurd hv (lt_irrefl 0)
  | @finite s m e h hp he =>
    cases s with
    | positive => exact ⟨m, e, h, rfl, hp, by rw [apply_positive]⟩
    | negative =>
      rw [apply_negative, neg_mul, neg_pos] at hv
      exact absurd hv (not_lt_of_ge (mul_nonneg (Nat.cast_nonneg m) (two_zpow_pos e).le))

/-- The least positive double. -/
theorem le_of_value (h : Value u v) (hv : 0 < v) : (2 : ℚ) ^ (-1074 : Int) ≤ v := by
  obtain ⟨m, e, hm, -, hp, rfl⟩ := h.finite_of_pos hv
  have hm : (1 : ℚ) ≤ m := Nat.one_le_cast.2 hm
  calc (2 : ℚ) ^ (-1074 : Int) ≤ 2 ^ e := two_zpow_le hp.exponent
    _ = 1 * 2 ^ e := (one_mul _).symm
    _ ≤ m * 2 ^ e := mul_le_mul_of_nonneg_right hm (two_zpow_pos e).le

/-! ## Packing results -/

theorem abs_apply (s : Sign) (m : Nat) (e : Int) :
    |((s.apply m : Int) : ℚ) * 2 ^ e| = m * 2 ^ e := by
  rw [abs_mul, abs_of_pos (two_zpow_pos e)]
  cases s with
  | negative => rw [apply_negative, abs_neg, Nat.abs_cast]
  | positive => rw [apply_positive, Nat.abs_cast]

theorem exponent_le_of_lt (hp : InPlace m e) (h : (m : ℚ) * 2 ^ e < 2 ^ (1024 : Int)) :
    e ≤ 971 := by
  by_contra hlarge
  have hfull : (2 : ℚ) ^ 52 ≤ m := by
    exact_mod_cast hp.normal.resolve_right (by omega)
  refine absurd h (not_lt_of_ge ?_)
  calc (2 : ℚ) ^ (1024 : Int) ≤ 2 ^ (((52 : Nat) : Int) + e) := two_zpow_le (by omega)
    _ = 2 ^ 52 * 2 ^ e := by rw [two_zpow_add, zpow_natCast]
    _ ≤ m * 2 ^ e := mul_le_mul_of_nonneg_right hfull (two_zpow_pos e).le

/-- What has been rounded is packed as a number, within the range of doubles. -/
theorem value_pack (hr : Rounded |w| s u) (hs : s = .positive ∨ w ≤ 0) (hw : |w| < limit) :
    ∃ v, Value (Float.Model.pack u).unpack v ∧ Near w v := by
  have hlt := hr.lt hw
  rcases hr.shape with rfl | ⟨m, e, h, rfl, hp⟩
  · refine ⟨0, ?_, fun k x hk hx hle => ?_, fun hpos => ?_⟩
    · rw [unpack_pack_zero]
      exact .zero s
    · rw [abs_zero]
      exact mul_nonneg (Nat.cast_nonneg k) (two_zpow_pos x).le
    · exact absurd (hr.pos (le_trans hpos (le_abs_self w))) (lt_irrefl 0)
  · have he := exponent_le_of_lt hp hlt
    refine ⟨s.apply m * 2 ^ e, ?_, fun k x hk hx hle => ?_, fun hpos => ?_⟩
    · rw [unpack_pack hp h he]
      exact .finite s h hp he
    · rw [abs_apply]
      exact hr.le k x hk hx hle
    · have hpositive : s = .positive := hs.resolve_right
        (not_le_of_gt (lt_of_lt_of_le (two_zpow_pos _) hpos))
      rw [hpositive, apply_positive]
      exact mul_pos (Nat.cast_pos.2 h) (two_zpow_pos e)

/-- A positive result is packed as such, whatever its size. -/
theorem above_pack (hr : Rounded w .positive u) (hw : (2 : ℚ) ^ (-1074 : Int) ≤ w) :
    Above (Float.Model.pack u).unpack := by
  have hpos := hr.pos hw
  rcases hr.shape with rfl | ⟨m, e, h, rfl, hp⟩
  · exact absurd hpos (lt_irrefl 0)
  · by_cases he : e ≤ 971
    · refine .inl ⟨(Sign.positive.apply m : Int) * 2 ^ e, ?_, ?_⟩
      · rw [unpack_pack hp h he]
        exact .finite .positive h hp he
      · rw [apply_positive]
        exact mul_pos (Nat.cast_pos.2 h) (two_zpow_pos e)
    · exact .inr (unpack_pack_of_large h (by omega))

theorem value_pack_self (h : Value u v) : Value (Float.Model.pack u).unpack v := by
  cases h with
  | zero s =>
    rw [unpack_pack_zero]
    exact .zero s
  | finite s h hp he =>
    rw [unpack_pack hp h he]
    exact .finite s h hp he

/-- A signed mantissa, rounded. -/
theorem normalize_cases (n : Int) (e : Int) (z : Sign) :
    (n = 0 ∧ UnpackedFloat.normalize .binary64 n e z = .zero z) ∨
      ∃ s, (s = .positive ∧ 0 < n ∨ s = .negative ∧ n < 0) ∧
        Rounded |(n : ℚ) * 2 ^ e| s (UnpackedFloat.normalize .binary64 n e z) := by
  have habs : |(n : ℚ) * 2 ^ e| = n.natAbs * 2 ^ e := by
    rw [abs_mul, abs_of_pos (two_zpow_pos e), Nat.cast_natAbs, Int.cast_abs]
  unfold UnpackedFloat.normalize
  rw [habs]
  rcases Int.lt_trichotomy n 0 with hneg | rfl | hpos
  · right
    have hnat : (-n).toNat = n.natAbs := by omega
    rw [compare_lt_iff_lt.2 hneg]
    dsimp only
    rw [hnat]
    exact ⟨.negative, .inr ⟨rfl, hneg⟩, rounded_round (by omega) e .negative⟩
  · exact .inl ⟨rfl, rfl⟩
  · right
    have hnat : n.toNat = n.natAbs := by omega
    rw [compare_gt_iff_gt.2 hpos]
    dsimp only
    rw [hnat]
    exact ⟨.positive, .inl ⟨rfl, hpos⟩, rounded_round (by omega) e .positive⟩

/-- A signed mantissa is packed as a number, within the range of doubles. -/
theorem value_normalize (n : Int) (e : Int) (z : Sign) (hw : |(n : ℚ) * 2 ^ e| < limit) :
    ∃ v, Value (Float.Model.pack (UnpackedFloat.normalize .binary64 n e z)).unpack v ∧
      Near (n * 2 ^ e) v := by
  rcases normalize_cases n e z with ⟨rfl, heq⟩ | ⟨s, hs, hr⟩
  · refine ⟨0, ?_, ?_⟩
    · rw [heq, unpack_pack_zero]
      exact .zero z
    · rw [Int.cast_zero, zero_mul]
      exact .refl 0
  · refine value_pack hr ?_ hw
    rcases hs with ⟨rfl, -⟩ | ⟨-, hneg⟩
    · exact .inl rfl
    · right
      exact mul_nonpos_of_nonpos_of_nonneg (Int.cast_nonpos.2 hneg.le) (two_zpow_pos e).le

theorem above_normalize {n : Int} (z : Sign) (hw : (2 : ℚ) ^ (-1074 : Int) ≤ n * 2 ^ e) :
    Above (Float.Model.pack (UnpackedFloat.normalize .binary64 n e z)).unpack := by
  have hpos : (0 : ℚ) < n * 2 ^ e := lt_of_lt_of_le (two_zpow_pos _) hw
  have hn : 0 < n := Int.cast_pos.1 (pos_of_mul_pos_left hpos (two_zpow_pos e).le)
  rcases normalize_cases n e z with ⟨rfl, -⟩ | ⟨s, ⟨rfl, -⟩ | ⟨-, hneg⟩, hr⟩
  · exact absurd hn (Int.lt_irrefl 0)
  · rw [abs_of_pos hpos] at hr
    exact above_pack hr hw
  · omega

/-! ## Infinities -/

theorem add_infinity (ha : Value a v) (s : Sign) :
    UnpackedFloat.add .binary64 a (.infinity s) = .infinity s := by cases ha <;> rfl

theorem infinity_add (hb : Value b w) (s : Sign) :
    UnpackedFloat.add .binary64 (.infinity s) b = .infinity s := by cases hb <;> rfl

theorem mul_infinity (ha : Value a v) (hv : 0 < v) (s : Sign) :
    UnpackedFloat.mul .binary64 a (.infinity s) = .infinity s := by
  obtain ⟨m, e, h, rfl, -⟩ := ha.finite_of_pos hv
  cases s <;> rfl

theorem sub_infinity (ha : Value a v) (s : Sign) :
    UnpackedFloat.sub .binary64 a (.infinity s) = .infinity (-s) := by cases ha <;> rfl

/-! ## Sums -/

/-- Two mantissas at a common exponent. -/
theorem aligned (s : Sign) (m : Nat) {e t : Int} (ht : t ≤ e) :
    ((s.apply (decreaseExponent m e t).1 : Int) : ℚ) * 2 ^ t = s.apply m * 2 ^ e := by
  have hvalue := decreaseExponent_value m e t
  have hexponent : (decreaseExponent m e t).2 = t := by
    unfold decreaseExponent
    dsimp only
    omega
  rw [hexponent] at hvalue
  cases s with
  | negative => rw [apply_negative, apply_negative, neg_mul, neg_mul, hvalue]
  | positive => rw [apply_positive, apply_positive, hvalue]

/-- The sum of two numbers other than zero is their exact sum, rounded. -/
theorem add_finite (s₁ s₂ : Sign) {m₁ m₂ : Nat} {e₁ e₂ : Int} (h₁ : 0 < m₁) (h₂ : 0 < m₂) :
    ∃ (n : Int) (e : Int),
      (n : ℚ) * 2 ^ e = s₁.apply m₁ * 2 ^ e₁ + s₂.apply m₂ * 2 ^ e₂ ∧
      UnpackedFloat.add .binary64 (.finite s₁ m₁ e₁ h₁) (.finite s₂ m₂ e₂ h₂) =
        UnpackedFloat.normalize .binary64 n e .positive := by
  refine ⟨s₁.apply (decreaseExponent m₁ e₁ (min e₁ e₂)).1 +
    s₂.apply (decreaseExponent m₂ e₂ (min e₁ e₂)).1, min e₁ e₂, ?_, rfl⟩
  rw [Int.cast_add, add_mul, aligned s₁ m₁ (min_le_left _ _), aligned s₂ m₂ (min_le_right _ _)]

theorem value_add (ha : Value a v) (hb : Value b w) (h : |v + w| < limit) :
    ∃ r, Value (Float.Model.pack (UnpackedFloat.add .binary64 a b)).unpack r ∧ Near (v + w) r := by
  cases ha with
  | zero s =>
    cases hb with
    | zero s' =>
      refine ⟨0, ?_, ?_⟩
      · cases s <;> cases s' <;> exact .zero _
      · rw [add_zero]
        exact .refl 0
    | finite s' h' hp he =>
      refine ⟨_, value_pack_self (.finite s' h' hp he), ?_⟩
      rw [zero_add]
      exact .refl _
  | finite s h' hp he =>
    cases hb with
    | zero s' =>
      refine ⟨_, value_pack_self (.finite s h' hp he), ?_⟩
      rw [add_zero]
      exact .refl _
    | finite s' h'' hp' he' =>
      obtain ⟨n, e, hexact, heq⟩ := add_finite s s' h' h''
      rw [← hexact] at h ⊢
      rw [heq]
      exact value_normalize n e .positive h

/-- Whatever is added to something positive, if not negative, leaves it positive. -/
theorem above_add (ha : Value a v) (hv : 0 ≤ v) (hb : Above b) :
    Above (Float.Model.pack (UnpackedFloat.add .binary64 a b)).unpack := by
  rcases hb with ⟨w, hb, hw⟩ | rfl
  · have hleast : (2 : ℚ) ^ (-1074 : Int) ≤ v + w :=
      le_trans (le_of_value hb hw) (le_add_of_nonneg_left hv)
    cases ha with
    | zero s =>
      cases hb with
      | zero s' => exact absurd hw (lt_irrefl 0)
      | finite s' h' hp he => exact .inl ⟨_, value_pack_self (.finite s' h' hp he), hw⟩
    | finite s h' hp he =>
      cases hb with
      | zero s' => exact absurd hw (lt_irrefl 0)
      | finite s' h'' hp' he' =>
        obtain ⟨n, e, hexact, heq⟩ := add_finite s s' h' h''
        rw [← hexact] at hleast
        rw [heq]
        exact above_normalize .positive hleast
  · right
    rw [add_infinity ha]
    exact unpack_pack_infinity .positive

/-! ## Products -/

theorem mul_apply (s₁ s₂ : Sign) (m₁ m₂ : Nat) :
    (((s₁ * s₂).apply (m₁ * m₂ : Nat) : Int) : ℚ) = s₁.apply m₁ * s₂.apply m₂ := by
  cases s₁ <;> cases s₂
  · refine (apply_positive _).trans ?_
    rw [apply_negative, apply_negative, neg_mul_neg, Nat.cast_mul]
  · refine (apply_negative _).trans ?_
    rw [apply_negative, apply_positive, neg_mul, Nat.cast_mul]
  · refine (apply_negative _).trans ?_
    rw [apply_negative, apply_positive, mul_neg, Nat.cast_mul]
  · refine (apply_positive _).trans ?_
    rw [apply_positive, apply_positive, Nat.cast_mul]

/-- A product of mantissas has digits enough for its last place. -/
theorem exponent_le_lastPlaceOf {m₁ m₂ : Nat} {e₁ e₂ : Int} (h₁ : 0 < m₁) (h₂ : 0 < m₂)
    (hp₁ : InPlace m₁ e₁) (hp₂ : InPlace m₂ e₂) : e₁ + e₂ ≤ lastPlaceOf (m₁ * m₂) (e₁ + e₂) := by
  have hbits (hfull : 2 ^ 52 ≤ m₁ * m₂) : 52 ≤ (m₁ * m₂).log2 :=
    (Nat.le_log2 (Nat.ne_of_gt (Nat.mul_pos h₁ h₂))).2 hfull
  have hmax := le_max_left (((m₁ * m₂).log2 : Int) + (e₁ + e₂) - 52) (-1074)
  have hlow := le_lastPlaceOf (m₁ * m₂) (e₁ + e₂)
  rw [← lastPlaceOf] at hmax
  rcases hp₁.normal with hfull | hlowest
  · have := hbits (Nat.le_trans hfull (Nat.le_mul_of_pos_right m₁ h₂))
    omega
  rcases hp₂.normal with hfull | hlowest'
  · have := hbits (Nat.le_trans hfull (Nat.le_mul_of_pos_left m₂ h₁))
    omega
  · omega

/-- The product of two numbers other than zero is their exact product, rounded. -/
theorem mul_finite (s₁ s₂ : Sign) {m₁ m₂ : Nat} {e₁ e₂ : Int} (h₁ : 0 < m₁) (h₂ : 0 < m₂)
    (hp₁ : InPlace m₁ e₁) (hp₂ : InPlace m₂ e₂) :
    ∃ (m : Nat) (e : Int),
      ((s₁ * s₂).apply m : Int) * (2 : ℚ) ^ e = s₁.apply m₁ * 2 ^ e₁ * (s₂.apply m₂ * 2 ^ e₂) ∧
      Rounded (m * 2 ^ e) (s₁ * s₂)
        (UnpackedFloat.mul .binary64 (.finite s₁ m₁ e₁ h₁) (.finite s₂ m₂ e₂ h₂)) := by
  refine ⟨m₁ * m₂, e₁ + e₂, ?_, ?_⟩
  · rw [mul_apply, two_zpow_add]
    ring
  · exact rounded_of_le (Nat.mul_pos h₁ h₂) (exponent_le_lastPlaceOf h₁ h₂ hp₁ hp₂) (s₁ * s₂)

theorem value_mul (ha : Value a v) (hb : Value b w) (h : |v * w| < limit) :
    ∃ r, Value (Float.Model.pack (UnpackedFloat.mul .binary64 a b)).unpack r ∧ Near (v * w) r := by
  cases ha with
  | zero s =>
    refine ⟨0, ?_, ?_⟩
    · cases hb <;> exact value_pack_self (.zero _)
    · rw [zero_mul]
      exact .refl 0
  | finite s h' hp he =>
    cases hb with
    | zero s' =>
      refine ⟨0, value_pack_self (.zero _), ?_⟩
      rw [mul_zero]
      exact .refl 0
    | finite s' h'' hp' he' =>
      obtain ⟨m, e, hexact, hr⟩ := mul_finite s s' h' h'' hp hp'
      rw [← hexact] at h ⊢
      rw [← abs_apply (s * s')] at hr
      refine value_pack hr ?_ h
      cases s * s' with
      | positive => exact .inl rfl
      | negative =>
        right
        rw [apply_negative, neg_mul, neg_nonpos]
        exact mul_nonneg (Nat.cast_nonneg m) (two_zpow_pos e).le

/-- A product that is no less than the least positive double is positive, whatever its size. -/
theorem above_mul (ha : Value a v) (hb : Value b w) (h : (2 : ℚ) ^ (-1074 : Int) ≤ v * w) :
    Above (Float.Model.pack (UnpackedFloat.mul .binary64 a b)).unpack := by
  have hpos : 0 < v * w := lt_of_lt_of_le (two_zpow_pos _) h
  cases ha with
  | zero s =>
    rw [zero_mul] at hpos
    exact absurd hpos (lt_irrefl 0)
  | finite s h' hp he =>
    cases hb with
    | zero s' =>
      rw [mul_zero] at hpos
      exact absurd hpos (lt_irrefl 0)
    | finite s' h'' hp' he' =>
      obtain ⟨m, e, hexact, hr⟩ := mul_finite s s' h' h'' hp hp'
      rw [← hexact] at h hpos
      revert hr h hpos
      generalize UnpackedFloat.mul _ _ _ = u
      cases s * s' with
      | positive =>
        intro hpos h hr
        rw [apply_positive] at h
        exact above_pack hr h
      | negative =>
        intro hpos h hr
        rw [apply_negative, neg_mul, neg_pos] at hpos
        exact absurd hpos (not_lt_of_ge (mul_nonneg (Nat.cast_nonneg m) (two_zpow_pos e).le))

/-! ## Differences -/

/-- A difference is the sum with what is subtracted turned around. -/
theorem sub_eq_add (a b : UnpackedFloat) :
    UnpackedFloat.sub .binary64 a b = UnpackedFloat.add .binary64 a b.neg := by
  cases a with
  | notANumber => rfl
  | infinity s => cases b <;> rfl
  | zero s => cases b <;> rfl
  | finite s m e h =>
    cases b with
    | finite s' m' e' h' =>
      have happly (n : Int) : (-s').apply n = -s'.apply n := by
        cases s'
        · exact (neg_neg n).symm
        · rfl
      simp only [UnpackedFloat.sub, UnpackedFloat.add, UnpackedFloat.neg, happly, Int.sub_eq_add_neg]
    | _ => rfl

theorem value_neg (h : Value a v) : Value a.neg (-v) := by
  cases h with
  | zero s =>
    rw [neg_zero]
    exact .zero _
  | @finite s m e h hp he =>
    have happly : ((-s).apply m : Int) * (2 : ℚ) ^ e = -(s.apply m * 2 ^ e) := by
      cases s with
      | negative =>
        rw [apply_negative, neg_mul, neg_neg, ← apply_positive m]
        rfl
      | positive =>
        rw [apply_positive, ← neg_mul, ← apply_negative m]
        rfl
    rw [← happly]
    exact .finite (-s) h hp he

theorem value_sub (ha : Value a v) (hb : Value b w) (h : |v - w| < limit) :
    ∃ r, Value (Float.Model.pack (UnpackedFloat.sub .binary64 a b)).unpack r ∧ Near (v - w) r := by
  rw [sub_eq_add, sub_eq_add_neg]
  rw [sub_eq_add_neg] at h
  exact value_add ha (value_neg hb) h

end LangId.Number
