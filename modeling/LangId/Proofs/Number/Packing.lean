import LangId.Proofs.Number.Rounding

/-!
# Doubles as bits

A double keeps a sign, eleven bits for the exponent and the lower 52 bits of the mantissa. What is in
place is the same after packing and unpacking (`unpack_pack`), and an exponent that is too large
makes it infinite (`unpack_pack_of_large`). The other way, what is unpacked is in place
(`inPlace_of_unpack`).
-/
namespace LangId.Number

open Float.Model Float.Model.UnpackedFloat

theorem toNat_implicit (f : BitVec 52) : (1#1 ++ f).toNat = 2 ^ 52 + f.toNat := by
  rw [BitVec.toNat_append, ← Nat.shiftLeft_add_eq_or_of_lt f.isLt]
  rfl

/-- What the three components of a double stand for. -/
def ofComponents (s : Sign) (x : BitVec 11) (f : BitVec 52) : UnpackedFloat :=
  if x = 2047#11 then if f = 0#52 then .infinity s else .notANumber
  else if x = 0#11 then
    if h : f = 0#52 then .zero s
    else .finite s f.toNat (-1074) (by simpa [BitVec.toNat_pos, BitVec.pos_iff_ne_zero])
  else .finite s (2 ^ 52 + f.toNat) (x.toNat - 1075) (by omega)

theorem unpack_eq (b : BitVec 64) : UnpackedFloat.unpack .binary64 b =
    ofComponents (Sign.ofBitVec (@unpackSign .binary64 b)) (@unpackExponent .binary64 b)
      (@unpackMantissa .binary64 b) := by
  have hbias (x : Int) : x - (Format.binary64.exponentBias + (52 : Nat)) = x - 1075 := rfl
  have hfull : -1#11 = 2047#11 := rfl
  unfold UnpackedFloat.unpack ofComponents
  simp only [toNat_implicit, hbias, hfull]
  split
  · rfl
  · split
    · rename_i hx
      rw [hx]
      rfl
    · rfl

theorem unpack_packComponents (s : Sign) (x : BitVec 11) (f : BitVec 52) :
    UnpackedFloat.unpack .binary64 (packComponents .binary64 s x f) = ofComponents s x f := by
  rw [unpack_eq, unpackSign_packComponents, Sign.ofBitVec_toBitVec, unpackExponent_packComponents,
    unpackMantissa_packComponents]

/-! ## Packing what is in place -/

variable {m : Nat} {e : Int} {s : Sign}

/-- Packing a number, with the components written out. -/
theorem pack_finite (s : Sign) (h : 0 < m) (e : Int) :
    UnpackedFloat.pack .binary64 (.finite s m e h) =
      if 2048 ≤ (e + 1075).toNat + 1 then packComponents .binary64 s 2047#11 0#52
      else if m.log2 = 52 then
        packComponents .binary64 s (BitVec.ofNat 11 (e + 1075).toNat) (BitVec.ofNat 52 m)
      else packComponents .binary64 s 0#_ (BitVec.ofNat 52 m) := by
  have hbias : e + (Format.binary64.exponentBias : Int) + (52 : Nat) = e + 1075 := by
    have hvalue : (Format.binary64.exponentBias : Int) = 1023 := rfl
    omega
  have hbits : m.log2 + 1 = Format.binary64.mantissaBits ↔ m.log2 = 52 := by
    have hvalue : Format.binary64.mantissaBits = 53 := rfl
    omega
  simp only [UnpackedFloat.pack, hbias, hbits, packedInfinity]
  rfl

theorem unpack_pack (hp : InPlace m e) (h : 0 < m) (he : e ≤ 971) :
    (Float.Model.pack (.finite s m e h)).unpack = .finite s m e h := by
  obtain ⟨hm, hlow, hnormal⟩ := hp
  change UnpackedFloat.unpack .binary64 (UnpackedFloat.pack .binary64 (.finite s m e h)) = _
  rw [pack_finite, if_neg (by omega)]
  by_cases hfull : 2 ^ 52 ≤ m
  · have hexponent : (BitVec.ofNat 11 (e + 1075).toNat).toNat = (e + 1075).toNat := by
      rw [BitVec.toNat_ofNat, Nat.mod_eq_of_lt (by omega)]
    have hmantissa : 2 ^ 52 + (BitVec.ofNat 52 m).toNat = m := by
      rw [BitVec.toNat_ofNat]
      omega
    have hne (n : Nat) (hn : (e + 1075).toNat ≠ n) (hlt : n < 2 ^ 11) :
        BitVec.ofNat 11 (e + 1075).toNat ≠ BitVec.ofNat 11 n := by
      intro heq
      have := congrArg BitVec.toNat heq
      rw [hexponent, BitVec.toNat_ofNat, Nat.mod_eq_of_lt hlt] at this
      exact hn this
    rw [if_pos (log2_of_bounds hfull hm), unpack_packComponents, ofComponents,
      if_neg (hne 2047 (by omega) (by decide)), if_neg (hne 0 (by omega) (by decide))]
    simp only [hexponent, hmantissa]
    congr 1
    omega
  · have hmantissa : (BitVec.ofNat 52 m).toNat = m := by
      rw [BitVec.toNat_ofNat, Nat.mod_eq_of_lt (by omega)]
    have hzero : BitVec.ofNat 52 m ≠ 0#52 := by
      intro heq
      have := congrArg BitVec.toNat heq
      rw [hmantissa] at this
      exact absurd this (Nat.ne_of_gt h)
    have hshort : m.log2 ≠ 52 := fun hlog => hfull (hlog ▸ Nat.log2_self_le (Nat.ne_of_gt h))
    obtain rfl : e = -1074 := hnormal.resolve_left hfull
    rw [if_neg hshort, unpack_packComponents, ofComponents, if_neg (by decide), if_pos rfl,
      dif_neg hzero]
    simp only [hmantissa]

theorem unpack_pack_of_large (h : 0 < m) (he : 972 ≤ e) :
    (Float.Model.pack (.finite s m e h)).unpack = .infinity s := by
  change UnpackedFloat.unpack .binary64 (UnpackedFloat.pack .binary64 (.finite s m e h)) = _
  rw [pack_finite, if_pos (by omega), unpack_packComponents, ofComponents, if_pos rfl, if_pos rfl]

theorem unpack_pack_zero (s : Sign) : (Float.Model.pack (.zero s)).unpack = .zero s := by
  cases s <;> rfl

theorem unpack_pack_infinity (s : Sign) : (Float.Model.pack (.infinity s)).unpack = .infinity s := by
  cases s <;> rfl

/-- What components stand for is in place. -/
theorem inPlace_ofComponents {x : BitVec 11} {f : BitVec 52} {h : 0 < m} {s' : Sign}
    (heq : ofComponents s' x f = .finite s m e h) : InPlace m e ∧ e ≤ 971 := by
  have hfraction : f.toNat < 2 ^ 52 := f.isLt
  unfold ofComponents at heq
  split at heq
  · split at heq <;> cases heq
  rename_i hfull
  split at heq
  · split at heq
    · cases heq
    · cases heq
      exact ⟨⟨by omega, Int.le_refl _, .inr rfl⟩, by decide⟩
  · rename_i hzero
    have hexponent : x.toNat < 2 ^ 11 := x.isLt
    have hne : x.toNat ≠ 2047 := fun heq => hfull (BitVec.eq_of_toNat_eq heq)
    have hpos : x.toNat ≠ 0 := fun heq => hzero (BitVec.eq_of_toNat_eq heq)
    cases heq
    exact ⟨⟨by omega, by omega, .inl (Nat.le_add_right _ _)⟩, by omega⟩

/-- What is unpacked is in place. -/
theorem inPlace_of_unpack {x : Float.Model} {h : 0 < m} (hx : x.unpack = .finite s m e h) :
    InPlace m e ∧ e ≤ 971 :=
  inPlace_ofComponents ((unpack_eq _).symm.trans hx)

end LangId.Number
