import LangId.Proofs.Number.Arithmetic

/-!
# Doubles as numbers

What `Arithmetic` says of signs, mantissas and exponents, said of doubles. Most doubles stand for a
number (`Denotes`); those that are positive may be infinite (`IsPositive`).

**Results.**
* `denotes_add`, `denotes_sub`, `denotes_mul`: within the range of doubles, results stand for numbers
  near the exact ones.
* `isPositive_add`, `isPositive_mul`: sums and products of positive doubles are positive.
* `denotes_of_le`, `denotes_of_abs_le`: a double that compares with bounds stands for a number.
* `add_negInf`, `mul_negInf`, `sub_posInf`: what the infinities lead to.
-/
namespace LangId.Number

open Float.Model Float.Model.UnpackedFloat

/-- Sign, mantissa and exponent of a double. -/
def parts (x : Float) : UnpackedFloat := x.toModel.unpack

/-- The number that a double stands for. -/
def Denotes (x : Float) (v : ℚ) : Prop := Value (parts x) v

/-- A double above zero. -/
def IsPositive (x : Float) : Prop := Above (parts x)

variable {x y : Float} {v w : ℚ} {m m' : Nat} {e e' : Int}

/-! ## Comparing -/

theorem le_iff (x y : Float) : x ≤ y ↔ (parts x).le (parts y) = true := by
  change decide (x.toModel ≤ y.toModel) = true ↔ _
  rw [decide_eq_true_iff]
  exact Iff.rfl

theorem lt_iff (x y : Float) : x < y ↔ (parts x).lt (parts y) = true := by
  change decide (x.toModel < y.toModel) = true ↔ _
  rw [decide_eq_true_iff]
  exact Iff.rfl

theorem parts_zero : parts 0.0 = .zero .positive := rfl

/-- What a double is made of. -/
theorem parts_cases (x : Float) : parts x = .notANumber ∨ (∃ s, parts x = .infinity s) ∨
    (∃ s, parts x = .zero s) ∨
    ∃ s m e h, parts x = .finite s m e h ∧ InPlace m e ∧ e ≤ 971 := by
  cases hx : parts x with
  | notANumber => exact .inl rfl
  | infinity s => exact .inr (.inl ⟨s, rfl⟩)
  | zero s => exact .inr (.inr (.inl ⟨s, rfl⟩))
  | finite s m e h => exact .inr (.inr (.inr ⟨s, m, e, h, rfl, inPlace_of_unpack hx⟩))

theorem isPositive_of_zero_lt (h : 0.0 < x) : IsPositive x := by
  rw [lt_iff, parts_zero] at h
  unfold IsPositive
  rcases parts_cases x with hx | ⟨s, hx⟩ | ⟨s, hx⟩ | ⟨s, m, e, hm, hx, hp, he⟩ <;> rw [hx] at h ⊢
  · cases h
  · cases s with
    | negative => cases h
    | positive => exact .inr rfl
  · cases h
  · cases s with
    | negative => cases h
    | positive =>
      refine .inl ⟨_, .finite .positive hm hp he, ?_⟩
      rw [apply_positive]
      exact mul_pos (Nat.cast_pos.2 hm) (two_zpow_pos e)

/-- A positive double is made of a positive sign. -/
theorem IsPositive.parts_eq (h : IsPositive x) :
    parts x = .infinity .positive ∨ ∃ m e h, parts x = .finite .positive m e h := by
  rcases h with ⟨v, hv, hpos⟩ | hx
  · obtain ⟨m, e, h, hx, -⟩ := hv.finite_of_pos hpos
    exact .inr ⟨m, e, h, hx⟩
  · exact .inl hx

theorem IsPositive.zero_lt (h : IsPositive x) : 0.0 < x := by
  rw [lt_iff, parts_zero]
  rcases h.parts_eq with hx | ⟨m, e, h, hx⟩ <;> rw [hx] <;> rfl

theorem IsPositive.not_le_zero (h : IsPositive x) : ¬ x ≤ 0.0 := by
  rw [le_iff, parts_zero]
  rcases h.parts_eq with hx | ⟨m, e, h, hx⟩ <;> rw [hx] <;> exact nofun

/-- Of mantissas and exponents in place the exponents count first. -/
theorem InPlace.mul_le (hp : InPlace m e) (hp' : InPlace m' e')
    (h : e < e' ∨ e = e' ∧ m ≤ m') : (m : ℚ) * 2 ^ e ≤ m' * 2 ^ e' := by
  rcases h with hlt | ⟨rfl, hle⟩
  · have hlow := hp.exponent
    have hm : (m : ℚ) ≤ 2 ^ 53 := by exact_mod_cast hp.mantissa.le
    have hm' : (2 : ℚ) ^ 52 ≤ m' := by
      exact_mod_cast hp'.normal.resolve_right (by omega)
    calc (m : ℚ) * 2 ^ e ≤ 2 ^ 53 * 2 ^ e := mul_le_mul_of_nonneg_right hm (two_zpow_pos e).le
      _ = 2 ^ (52 + (e + 1)) := by
        rw [← zpow_natCast, ← two_zpow_add]
        congr 1
        push_cast
        ring
      _ ≤ 2 ^ (52 + e') := two_zpow_le (by omega)
      _ = 2 ^ 52 * 2 ^ e' := by
        rw [two_zpow_add]
        rfl
      _ ≤ m' * 2 ^ e' := mul_le_mul_of_nonneg_right hm' (two_zpow_pos e').le
  · exact mul_le_mul_of_nonneg_right (Nat.cast_le.2 hle) (two_zpow_pos e).le

theorem le_finite {h : 0 < m} {h' : 0 < m'}
    (hle : (UnpackedFloat.finite .positive m e h).le (.finite .positive m' e' h') = true) :
    e < e' ∨ e = e' ∧ m ≤ m' := by
  change ((compare e e').then (compare m m')).isLE = true at hle
  rcases Int.lt_trichotomy e e' with hlt | rfl | hgt
  · exact .inl hlt
  · rw [compare_eq_iff_eq.2 rfl, Ordering.then] at hle
    exact .inr ⟨rfl, Nat.isLE_compare.1 hle⟩
  · rw [compare_gt_iff_gt.2 hgt] at hle
    cases hle

/-- A double up to a positive number stands for one that does not exceed it. -/
theorem denotes_of_le (h : 0.0 < x) (hle : x ≤ y) {hm : 0 < m} (hp : InPlace m e)
    (hy : parts y = .finite .positive m e hm) : ∃ v, Denotes x v ∧ 0 < v ∧ v ≤ m * 2 ^ e := by
  rw [le_iff, hy] at hle
  rcases isPositive_of_zero_lt h with ⟨v, hv, hpos⟩ | hx
  · refine ⟨v, hv, hpos, ?_⟩
    obtain ⟨m', e', h', hx, hp', rfl⟩ := hv.finite_of_pos hpos
    rw [hx] at hle
    exact hp'.mul_le hp (le_finite hle)
  · rw [hx] at hle
    cases hle

/-- A double between two opposite numbers stands for one between them. -/
theorem denotes_of_abs_le (hle : x.abs ≤ y) {hm : 0 < m} (hp : InPlace m e)
    (hy : parts y = .finite .positive m e hm) : ∃ v, Denotes x v ∧ |v| ≤ m * 2 ^ e := by
  have habs : parts x.abs = (Float.Model.pack (parts x).abs).unpack := rfl
  rw [le_iff, habs, hy] at hle
  unfold Denotes
  rcases parts_cases x with hx | ⟨s, hx⟩ | ⟨s, hx⟩ | ⟨s, m', e', hm', hx, hp', he'⟩ <;>
    rw [hx] at hle ⊢
  · cases hle
  · rw [UnpackedFloat.abs, unpack_pack_infinity] at hle
    cases hle
  · refine ⟨0, .zero s, ?_⟩
    rw [abs_zero]
    exact mul_nonneg (Nat.cast_nonneg m) (two_zpow_pos e).le
  · refine ⟨_, .finite s hm' hp' he', ?_⟩
    rw [UnpackedFloat.abs, unpack_pack hp' hm' he'] at hle
    rw [abs_apply]
    exact hp'.mul_le hp (le_finite hle)

/-- What stands for a number equals itself, and so does an infinity. -/
theorem beq_self (h : (∃ v, Denotes x v) ∨ ∃ s, parts x = .infinity s) : (x == x) = true := by
  have hne : parts x ≠ .notANumber := by
    intro hx
    unfold Denotes at h
    rw [hx] at h
    rcases h with ⟨v, hv⟩ | ⟨s, hs⟩
    · cases hv
    · cases hs
  exact (beq_iff_ne_notANumber_and_eq (parts x) (parts x)).2 ⟨hne, hne, .inl rfl⟩

/-! ## Calculating -/

theorem denotes_add (hx : Denotes x v) (hy : Denotes y w) (h : |v + w| < limit) :
    ∃ r, Denotes (x + y) r ∧ Near (v + w) r := value_add hx hy h

theorem denotes_sub (hx : Denotes x v) (hy : Denotes y w) (h : |v - w| < limit) :
    ∃ r, Denotes (x - y) r ∧ Near (v - w) r := value_sub hx hy h

theorem denotes_mul (hx : Denotes x v) (hy : Denotes y w) (h : |v * w| < limit) :
    ∃ r, Denotes (x * y) r ∧ Near (v * w) r := value_mul hx hy h

theorem isPositive_add (hx : Denotes x v) (hv : 0 ≤ v) (hy : IsPositive y) : IsPositive (x + y) :=
  above_add hx hv hy

theorem isPositive_mul (hx : Denotes x v) (hy : Denotes y w)
    (h : (2 : ℚ) ^ (-1074 : Int) ≤ v * w) : IsPositive (x * y) := above_mul hx hy h

/-! ## Bounds -/

/-- A double that stands for a number with a bounded absolute value. -/
def Bounded (x : Float) (k : Nat) (e : Int) : Prop := ∃ v, Denotes x v ∧ |v| ≤ k * 2 ^ e

theorem lt_limit {k : Nat} (hk : k < 2 ^ 53) (he : e ≤ 970) (h : v ≤ k * 2 ^ e) : v < limit := by
  have hk : (k : ℚ) < 2 ^ 53 := by exact_mod_cast hk
  have hlarge : (2 : ℚ) ^ (1024 : Int) = 2 ^ (1023 : Int) + 2 ^ (1023 : Int) := by
    rw [← two_mul, ← zpow_one_add₀ (by norm_num)]
    rfl
  have hstep : (2 : ℚ) ^ (970 : Int) ≤ 2 ^ (1023 : Int) := two_zpow_le (by decide)
  have hbelow : v < 2 ^ (1023 : Int) := by
    calc v ≤ k * 2 ^ e := h
      _ < 2 ^ 53 * 2 ^ e := mul_lt_mul_of_pos_right hk (two_zpow_pos e)
      _ = 2 ^ (((53 : Nat) : Int) + e) := by rw [two_zpow_add, zpow_natCast]
      _ ≤ 2 ^ (1023 : Int) := two_zpow_le (by omega)
  rw [limit, hlarge]
  generalize (2 : ℚ) ^ (1023 : Int) = half at hstep hbelow ⊢
  generalize (2 : ℚ) ^ (970 : Int) = step at hstep ⊢
  linarith

/-- No number that a double stands for is beyond the largest one. -/
theorem Denotes.le_largest (h : Denotes x v) : v ≤ 2 ^ (1024 : Int) - 2 ^ (971 : Int) := by
  have hlarge : (2 : ℚ) ^ (1024 : Int) = 2 ^ 53 * 2 ^ (971 : Int) := by
    rw [← zpow_natCast, ← two_zpow_add]
    rfl
  have hstep := two_zpow_pos 971
  rw [hlarge]
  by_cases hpos : 0 < v
  · obtain ⟨m, e, hm, hx, hp, rfl⟩ := h.finite_of_pos hpos
    have hplace := (inPlace_of_unpack hx).2
    have hm : (m : ℚ) ≤ 2 ^ 53 - 1 := by
      rw [le_sub_iff_add_le]
      exact_mod_cast hp.mantissa
    calc (m : ℚ) * 2 ^ e ≤ (2 ^ 53 - 1) * 2 ^ e :=
          mul_le_mul_of_nonneg_right hm (two_zpow_pos e).le
      _ ≤ (2 ^ 53 - 1) * 2 ^ (971 : Int) :=
          mul_le_mul_of_nonneg_left (two_zpow_le hplace) (by norm_num)
      _ = 2 ^ 53 * 2 ^ (971 : Int) - 2 ^ (971 : Int) := by ring
  · have hsmall : (1 : ℚ) * 2 ^ (971 : Int) ≤ 2 ^ 53 * 2 ^ (971 : Int) :=
      mul_le_mul_of_nonneg_right (by norm_num) hstep.le
    rw [one_mul] at hsmall
    exact le_trans (not_lt.1 hpos) (sub_nonneg.2 hsmall)

section

variable {k l : Nat} {f : Int}

theorem Bounded.add (hx : Bounded x k e) (hy : Bounded y l e) (hk : k + l < 2 ^ 53)
    (he : -1074 ≤ e) (he' : e ≤ 970) : Bounded (x + y) (k + l) e := by
  obtain ⟨v, hx, hv⟩ := hx
  obtain ⟨w, hy, hw⟩ := hy
  have hle : |v + w| ≤ (k + l : Nat) * 2 ^ e := by
    calc |v + w| ≤ |v| + |w| := abs_add_le v w
      _ ≤ k * 2 ^ e + l * 2 ^ e := add_le_add hv hw
      _ = (k + l : Nat) * 2 ^ e := by rw [Nat.cast_add, add_mul]
  obtain ⟨r, hr, hnear⟩ := denotes_add hx hy (lt_limit hk he' hle)
  exact ⟨r, hr, hnear.le _ _ hk he hle⟩

theorem Bounded.sub (hx : Bounded x k e) (hy : Bounded y l e) (hk : k + l < 2 ^ 53)
    (he : -1074 ≤ e) (he' : e ≤ 970) : Bounded (x - y) (k + l) e := by
  obtain ⟨v, hx, hv⟩ := hx
  obtain ⟨w, hy, hw⟩ := hy
  have hle : |v - w| ≤ (k + l : Nat) * 2 ^ e := by
    calc |v - w| ≤ |v| + |w| := abs_sub v w
      _ ≤ k * 2 ^ e + l * 2 ^ e := add_le_add hv hw
      _ = (k + l : Nat) * 2 ^ e := by rw [Nat.cast_add, add_mul]
  obtain ⟨r, hr, hnear⟩ := denotes_sub hx hy (lt_limit hk he' hle)
  exact ⟨r, hr, hnear.le _ _ hk he hle⟩

theorem Bounded.mul (hx : Bounded x k e) (hy : Bounded y l f) (hk : k * l < 2 ^ 53)
    (he : -1074 ≤ e + f) (he' : e + f ≤ 970) : Bounded (x * y) (k * l) (e + f) := by
  obtain ⟨v, hx, hv⟩ := hx
  obtain ⟨w, hy, hw⟩ := hy
  have hle : |v * w| ≤ (k * l : Nat) * 2 ^ (e + f) := by
    calc |v * w| = |v| * |w| := abs_mul v w
      _ ≤ k * 2 ^ e * (l * 2 ^ f) := mul_le_mul hv hw (abs_nonneg w)
          (mul_nonneg (Nat.cast_nonneg k) (two_zpow_pos e).le)
      _ = (k * l : Nat) * 2 ^ (e + f) := by
        rw [Nat.cast_mul, two_zpow_add]
        ring
  obtain ⟨r, hr, hnear⟩ := denotes_mul hx hy (lt_limit hk he' hle)
  exact ⟨r, hr, hnear.le _ _ hk he hle⟩

end

/-! ## Infinities -/

theorem add_negInf (hx : (∃ v, Denotes x v) ∨ parts x = .infinity .negative)
    (hy : parts y = .infinity .negative) : parts (x + y) = .infinity .negative := by
  have hsum : UnpackedFloat.add .binary64 (parts x) (parts y) = .infinity .negative := by
    rw [hy]
    rcases hx with ⟨v, hx⟩ | hx
    · exact add_infinity hx .negative
    · rw [hx]
      rfl
  exact (congrArg (fun u => (Float.Model.pack u).unpack) hsum).trans (unpack_pack_infinity _)

theorem negInf_add (hx : parts x = .infinity .negative) (hy : Denotes y w) :
    parts (x + y) = .infinity .negative := by
  have hsum : UnpackedFloat.add .binary64 (parts x) (parts y) = .infinity .negative := by
    rw [hx]
    exact infinity_add hy .negative
  exact (congrArg (fun u => (Float.Model.pack u).unpack) hsum).trans (unpack_pack_infinity _)

theorem mul_negInf (hx : Denotes x v) (hv : 0 < v) (hy : parts y = .infinity .negative) :
    parts (x * y) = .infinity .negative := by
  have hproduct : UnpackedFloat.mul .binary64 (parts x) (parts y) = .infinity .negative := by
    rw [hy]
    exact mul_infinity hx hv .negative
  exact (congrArg (fun u => (Float.Model.pack u).unpack) hproduct).trans (unpack_pack_infinity _)

theorem sub_posInf (hx : Denotes x v) (hy : parts y = .infinity .positive) :
    parts (x - y) = .infinity .negative := by
  have hdifference : UnpackedFloat.sub .binary64 (parts x) (parts y) = .infinity .negative := by
    rw [hy]
    exact sub_infinity hx .positive
  exact (congrArg (fun u => (Float.Model.pack u).unpack) hdifference).trans
    (unpack_pack_infinity _)

end LangId.Number
