import Mathlib.Tactic.Ring
import AgentFlow.Json.Fields

/-!
# Integers as doubles

The literal of a 64-bit integer is read as a double by rounding, and up to three times: the conversion itself scales by
the zeroth power of ten, and so does the reader. `Normal` says of a double that its significand has 53 binary digits and
that its exponent lies in a range. Rounding puts a number into this form and never takes it below a power of two that
it reaches, so a double is known well enough to be compared without its exact value: what is not zero stays on its side
of zero, and what is 128 or more stays above 100.
-/

namespace AgentFlow.Double

open Float.Model Float.Model.UnpackedFloat

/-- A double in normal form, with its exponent in a range. -/
inductive Normal (sign : Sign) (low high : Int) : UnpackedFloat → Prop
  | finite {m : Nat} {e : Int} (hpos : 0 < m) (hm : m.log2 = 52) (hlow : low ≤ e) (hhigh : e ≤ high) :
    Normal sign low high (.finite sign m e hpos)

variable {sign : Sign} {low high : Int} {u : UnpackedFloat}

theorem Normal.mono {low' high' : Int} (h : Normal sign low high u) (hlow : low' ≤ low) (hhigh : high ≤ high') :
    Normal sign low' high' u := by
  obtain ⟨hpos, hm, hl, hh⟩ := h
  exact .finite hpos hm (by omega) (by omega)

/-! ### Shifting -/

/-- A shift to the right takes binary digits away. -/
theorem log2_shiftRight {n k a : Nat} (h : n.log2 = a + k) : (n >>> k).log2 = a := by
  induction k generalizing a with
  | zero => exact h
  | succ k ih =>
    have hk : (n >>> k).log2 = a + 1 := ih (by omega)
    have hne : n >>> k ≠ 0 := by
      intro hzero
      rw [hzero] at hk
      exact absurd hk (by simp)
    rw [Nat.log2_eq_iff hne] at hk
    rw [Nat.shiftRight_succ]
    refine (Nat.log2_eq_iff ?_).mpr ⟨?_, ?_⟩ <;> simp only [Nat.pow_succ] at hk ⊢ <;> omega

/-- A shift to the left adds binary digits. -/
theorem log2_shiftLeft {n : Nat} (hn : n ≠ 0) (k : Nat) : (n <<< k).log2 = n.log2 + k := by
  induction k with
  | zero => rfl
  | succ k ih =>
    have hne : n <<< k ≠ 0 := by simpa [Nat.shiftLeft_eq] using hn
    rw [Nat.shiftLeft_succ, Nat.log2_two_mul hne, ih]
    rfl

theorem mantissa_shiftRight (em : ExtendedMantissa) (k : Nat) : (em >>> k).mantissa = em.mantissa >>> k := by
  induction k with
  | zero => rfl
  | succ k ih =>
    show (em >>> k).mantissa / 2 = _
    rw [ih, Nat.shiftRight_succ]

/-- The exponent for 53 digits, unless it is below the least one. -/
theorem targetExponent_eq (m : Nat) (e : Int) :
    Format.binary64.targetExponent (totalExponent m e) = max (m.log2 + e - 52) (-1074) := by
  have hmin : Format.binary64.minExponent = -1074 := by decide
  have hbits : Format.binary64.mantissaBits = 53 := by decide
  rw [Format.targetExponent, totalExponent, hmin, hbits]
  omega

/-- A significand with too many digits is cut to 53. -/
theorem shiftToTargetExponent_of_log2 {m k : Nat} {e : Int} (hm : m.log2 = 52 + k) (he : -1074 ≤ e) :
    (shiftToTargetExponent Format.binary64 m e .exact).1.mantissa = m >>> k ∧
      (shiftToTargetExponent Format.binary64 m e .exact).2 = e + k := by
  have hshift : (max ((m.log2 : Int) + e - 52) (-1074) - e).toNat = k := by omega
  simp only [shiftToTargetExponent, targetExponent_eq, shiftToExponent, hshift]
  exact ⟨mantissa_shiftRight _ k, trivial⟩

/-! ### Rounding -/

theorem roundedMantissa_bounds (em : ExtendedMantissa) :
    em.mantissa ≤ em.roundedMantissa ∧ em.roundedMantissa ≤ em.mantissa + 1 := by
  unfold ExtendedMantissa.roundedMantissa
  cases em.accuracy with
  | exact => exact ⟨Nat.le_refl _, Nat.le_succ _⟩
  | inexact side => cases side <;> simp only [Accuracy.roundToNearestEven] <;> omega

/-- Rounding up may carry into a 54th digit, and then into no further one. -/
theorem log2_roundedMantissa {em : ExtendedMantissa} (h : em.mantissa.log2 = 52) :
    ∃ carry ≤ 1, em.roundedMantissa.log2 = 52 + carry := by
  obtain ⟨hlow, hhigh⟩ := roundedMantissa_bounds em
  have hne : em.mantissa ≠ 0 := by
    intro hzero
    rw [hzero] at h
    exact absurd h (by decide)
  rw [Nat.log2_eq_iff hne] at h
  -- all digits were ones, and rounding up made a power of two, or nothing was carried
  by_cases hlt : em.roundedMantissa < 2 ^ 53
  · exact ⟨0, by omega, (Nat.log2_eq_iff (by omega)).mpr ⟨by omega, hlt⟩⟩
  · have heq : em.roundedMantissa = 2 ^ 53 := by omega
    exact ⟨1, by omega, by rw [heq, Nat.log2_two_pow]⟩

/-- Rounding leaves a normal number, with a digit more before the point if it carried. -/
theorem normal_roundWithAccuracy (sign : Sign) {m k : Nat} {e : Int} (hm : m.log2 = 52 + k) (he : -1074 ≤ e) :
    Normal sign (e + k) (e + k + 1) (roundWithAccuracy Format.binary64 sign m e .exact) := by
  obtain ⟨hfirst, hexponent⟩ := shiftToTargetExponent_of_log2 hm he
  have hlog : (shiftToTargetExponent Format.binary64 m e .exact).1.mantissa.log2 = 52 := by
    rw [hfirst]
    exact log2_shiftRight hm
  obtain ⟨carry, hcarry, hrounded⟩ := log2_roundedMantissa hlog
  -- a carry is shifted out once more
  obtain ⟨hsecond, hfinal⟩ := shiftToTargetExponent_of_log2 hrounded (show -1074 ≤ e + k by omega)
  have hlast := log2_shiftRight hrounded
  rw [← hexponent] at hsecond hfinal
  rw [← hsecond] at hlast
  unfold roundWithAccuracy
  dsimp only
  rw [dif_neg]
  · exact .finite _ hlast (by omega) (by omega)
  · intro hzero
    rw [hzero] at hlast
    exact absurd hlast (by decide)

theorem normal_round (sign : Sign) {n : Nat} (hn : n ≠ 0) :
    Normal sign (n.log2 - 52) (n.log2 - 51) (UnpackedFloat.round Format.binary64 sign n 0) := by
  have hshift : (0 - max ((n.log2 : Int) + 0 - 52) (-1074)).toNat = 52 - n.log2 := by omega
  have hlog : (n <<< (52 - n.log2)).log2 = 52 + (n.log2 - 52) := by
    rw [log2_shiftLeft hn]
    omega
  unfold UnpackedFloat.round decreaseExponent
  dsimp only
  rw [targetExponent_eq, hshift]
  exact (normal_roundWithAccuracy sign hlog (by omega)).mono (by omega) (by omega)

/-! ### The stored form -/

theorem sign_packComponents (spec : Format) (sign : Sign) (e : BitVec spec.exponentBits)
    (m : BitVec spec.mantissaBitsWithoutImplicit) :
    Sign.ofBitVec (unpackSign (packComponents spec sign e m)) = sign := by
  have hbit : unpackSign (packComponents spec sign e m) = sign.toBitVec := by
    ext i hi
    have hfirst : i = 0 := Nat.lt_one_iff.mp hi
    delta unpackSign packComponents
    simp [hfirst, BitVec.getLsbD_append, BitVec.getElem_append]
  rw [hbit]
  cases sign <;> rfl

/-- The exponent is stored with 1075 added, and the first digit of the significand is not stored. -/
theorem pack_finite {m : Nat} {e : Int} (hpos : 0 < m) (hm : m.log2 = 52) {b : Nat} (hb : (b : Int) = e + 1075)
    (hhigh : e ≤ 970) : UnpackedFloat.pack Format.binary64 (.finite sign m e hpos) =
      packComponents Format.binary64 sign (BitVec.ofNat 11 b) (BitVec.ofNat 52 m) := by
  have hbias : Format.binary64.exponentBias = 1023 := by decide
  have hstored : (e + (Format.binary64.exponentBias : Int) +
      (Format.binary64.mantissaBitsWithoutImplicit : Int)).toNat = b := by
    rw [hbias]
    show (e + 1023 + 52).toNat = b
    omega
  unfold UnpackedFloat.pack
  dsimp only
  rw [hstored, if_neg (by show ¬ 2 ^ 11 ≤ b + 1; omega), if_pos (by rw [hm]; decide)]

theorem toNat_significand {m : Nat} (hm : m.log2 = 52) : (1#1 ++ BitVec.ofNat 52 m).toNat = m := by
  have hne : m ≠ 0 := by
    rintro rfl
    exact absurd hm (by decide)
  have hbits := (Nat.log2_eq_iff hne).mp hm
  rw [BitVec.toNat_append, ← Nat.shiftLeft_add_eq_or_of_lt (BitVec.isLt _)]
  simp only [Nat.shiftLeft_eq, BitVec.toNat_ofNat]
  omega

/-- A normal number is stored and read back. -/
theorem unpack_pack (h : Normal sign low high u) (hlow : -1074 ≤ low) (hhigh : high ≤ 970) :
    (Float.Model.pack u).unpack = u := by
  cases h with
  | @finite m e hpos hm hl hh =>
    obtain ⟨b, hb⟩ : ∃ b : Nat, (b : Int) = e + 1075 := ⟨(e + 1075).toNat, by omega⟩
    have hexponent : (BitVec.ofNat 11 b).toNat = b := by rw [BitVec.toNat_ofNat, Nat.mod_eq_of_lt (by omega)]
    have hne : ∀ v : BitVec 11, v.toNat ≠ b → BitVec.ofNat 11 b ≠ v := by
      rintro v hv rfl
      exact hv hexponent
    -- the exponent is stored neither as that of infinity nor as that of zero
    have hinf : BitVec.ofNat 11 b ≠ -1#11 := hne _ (by show 2047 ≠ b; omega)
    have hsub : BitVec.ofNat 11 b ≠ 0#11 := hne _ (by show 0 ≠ b; omega)
    have hbias : Format.binary64.exponentBias = 1023 := by decide
    show UnpackedFloat.unpack Format.binary64 (UnpackedFloat.pack Format.binary64 _) = _
    rw [pack_finite hpos hm hb (by omega)]
    unfold UnpackedFloat.unpack
    dsimp only
    rw [if_neg (by rw [unpackExponent_packComponents]; exact hinf),
      if_neg (by rw [unpackExponent_packComponents]; exact hsub)]
    congr 1
    · exact sign_packComponents _ _ _ _
    · rw [unpackMantissa_packComponents]
      exact toNat_significand hm
    · rw [unpackExponent_packComponents, hexponent, hbias]
      show (b : Int) - (1023 + 52) = e
      omega

/-! ### Scaling by one -/

theorem mul_finite (spec : Format) (sign sign' : Sign) {m m' : Nat} (e e' : Int) (hpos : 0 < m) (hpos' : 0 < m') :
    UnpackedFloat.mul spec (.finite sign m e hpos) (.finite sign' m' e' hpos') =
      roundWithAccuracy spec (sign * sign') (m * m') (e + e') .exact := rfl

/-- The double is one. -/
def IsOne (y : Float) : Prop := y.toModel.unpack = .finite .positive (Nat.pow 2 52) (-52) (by decide)

/-- Scaling by one leaves a normal number. -/
theorem normal_mul_one {x y : Float} (hx : Normal .positive low high x.toModel.unpack) (hy : IsOne y)
    (hlow : -1000 ≤ low) (hhigh : high ≤ 900) : Normal .positive low (high + 1) (x * y).toModel.unpack := by
  show Normal _ _ _ (Float.Model.pack (UnpackedFloat.mul Format.binary64 x.toModel.unpack y.toModel.unpack)).unpack
  rw [hy]
  generalize x.toModel.unpack = u at hx ⊢
  have hmul : Normal .positive low (high + 1)
      (UnpackedFloat.mul Format.binary64 u (.finite .positive (Nat.pow 2 52) (-52) (by decide))) := by
    cases hx with
    | @finite m e hpos hm hl hh =>
      have hlog : (m * Nat.pow 2 52).log2 = 52 + 52 := by
        have hbits := (Nat.log2_eq_iff (by omega)).mp hm
        have hone : Nat.pow 2 52 = 4503599627370496 := by decide
        rw [hone]
        exact (Nat.log2_eq_iff (by omega)).mpr ⟨by omega, by omega⟩
      have hround := normal_roundWithAccuracy (.positive * .positive) hlog (show -1074 ≤ e + -52 by omega)
      rw [mul_finite]
      exact hround.mono (by omega) (by omega)
  rwa [unpack_pack hmul (by omega) (by omega)]

/-! ### Natural numbers -/

variable {n : Nat}

theorem normal_toFloat (hn : n ≠ 0) (hhigh : n ≤ Json.Number.significandMax) :
    Normal .positive (n.log2 - 52) (n.log2 - 51) n.toUInt64.toFloat.toModel.unpack := by
  have hmax : Json.Number.significandMax = 18446744073709551615 := by decide
  have hlog : n.log2 < 64 := (Nat.log2_lt hn).mpr (by omega)
  have hround := normal_round .positive hn
  have hvalue : UnpackedFloat.ofUInt64 Format.binary64 n.toUInt64 =
      UnpackedFloat.round Format.binary64 .positive n 0 := by
    have hnat : n.toUInt64.toNat = n := UInt64.toNat_ofNat_of_lt' (show n < 18446744073709551616 by omega)
    have hcompare : compare (n : Int) 0 = .gt := Int.compare_eq_gt.mpr (by omega)
    rw [UnpackedFloat.ofUInt64, hnat, UnpackedFloat.ofNat, UnpackedFloat.ofInt, UnpackedFloat.normalize, hcompare]
    rfl
  show Normal _ _ _ (Float.Model.pack (UnpackedFloat.ofUInt64 Format.binary64 n.toUInt64)).unpack
  rw [hvalue, unpack_pack hround (by omega) (by omega)]
  exact hround

/-- From 54 binary digits on the conversion takes another way, with 53 zeros after the number. -/
theorem normal_ofScientific (hn : n ≠ 0) :
    Normal .positive (n.log2 - 52) (n.log2 - 51) (UnpackedFloat.ofScientific Format.binary64 n 0) := by
  have hlog : (n <<< 53 * 1).log2 = 52 + (n.log2 + 1) := by
    rw [Nat.mul_one, log2_shiftLeft hn]
    omega
  have hround := normal_roundWithAccuracy (.positive * .positive) hlog (show -1074 ≤ -53 + 0 by omega)
  have hvalue : UnpackedFloat.ofScientific Format.binary64 n 0 =
      roundWithAccuracy Format.binary64 (.positive * .positive) (n <<< 53 * 1) (-53 + 0) .exact := by
    unfold UnpackedFloat.ofScientific
    rw [dif_neg hn, if_neg (by decide), if_neg (by show ¬ (0 : Int) < -(2 ^ 11 + (n.log2 : Int)); omega),
      if_pos (by decide)]
    exact mul_finite _ _ _ _ _ _ _
  rw [hvalue]
  exact hround.mono (by omega) (by omega)

/-- A natural number that fits a significand becomes a normal double near to it. -/
theorem normal_ofNat (hn : n ≠ 0) (hhigh : n ≤ Json.Number.significandMax) :
    Normal .positive (n.log2 - 52) (n.log2 - 50) (Float.ofNat n).toModel.unpack := by
  have hmax : Json.Number.significandMax = 18446744073709551615 := by decide
  have hlog : n.log2 < 64 := (Nat.log2_lt hn).mpr (by omega)
  -- up to 53 binary digits the number is converted as a word, and otherwise like a decimal literal
  by_cases hsmall : n < 2 ^ 53
  · have hvalue : Float.ofNat n = n.toUInt64.toFloat * Float.exactlyRepresentablePowersOfTen[0] := by
      show Float.ofScientific n false 0 = _
      unfold Float.ofScientific
      rw [dif_pos ⟨hsmall, by omega⟩]
      rfl
    rw [hvalue]
    exact (normal_mul_one (normal_toFloat hn hhigh) (by rfl) (by omega) (by omega)).mono (by omega) (by omega)
  · have hvalue : Float.ofNat n = ⟨Float.Model.pack (UnpackedFloat.ofScientific Format.binary64 n 0)⟩ := by
      show Float.ofScientific n false 0 = _
      unfold Float.ofScientific
      rw [dif_neg (by omega)]
      rfl
    have hround := normal_ofScientific hn
    rw [hvalue]
    show Normal _ _ _ (Float.Model.pack _).unpack
    rw [unpack_pack hround (by omega) (by omega)]
    exact hround.mono (by omega) (by omega)

/-! ### Comparing -/

/-- A double whose exponent is large enough is above a hundred. -/
theorem hundred_lt {f : Float} (h : Normal .positive low high f.toModel.unpack) (hlow : -45 ≤ low) : 100.0 < f := by
  have hhundred : (100.0 : Float).toModel.unpack = .finite .positive (100 * Nat.pow 2 46) (-46) (by decide) := rfl
  show decide ((100.0 : Float).toModel.unpack.lt f.toModel.unpack = true) = true
  rw [hhundred, decide_eq_true_eq]
  generalize f.toModel.unpack = u at h ⊢
  cases h with
  | @finite m e hpos hm hl hh =>
    -- normal numbers compare by their exponents first
    have hcompare : compare (-46 : Int) e = .lt := Int.compare_eq_lt.mpr (by omega)
    show (some ((compare (-46 : Int) e).then (compare (100 * Nat.pow 2 46) m)) == some Ordering.lt) = true
    rw [hcompare]
    rfl

theorem not_lt_zero {f : Float} (h : Normal .positive low high f.toModel.unpack) : ¬ f < 0.0 := by
  have hzero : (0.0 : Float).toModel.unpack = .zero .positive := rfl
  show ¬ decide (f.toModel.unpack.lt (0.0 : Float).toModel.unpack = true) = true
  rw [hzero, decide_eq_true_eq]
  generalize f.toModel.unpack = u at h ⊢
  cases h with
  | finite => exact Bool.false_ne_true

theorem neg_lt_zero {f : Float} (h : Normal .positive low high f.toModel.unpack) (hlow : -1074 ≤ low)
    (hhigh : high ≤ 970) : -f < 0.0 := by
  have hzero : (0.0 : Float).toModel.unpack = .zero .positive := rfl
  have hneg : (-f).toModel.unpack = (Float.Model.pack f.toModel.unpack.neg).unpack := rfl
  show decide ((-f).toModel.unpack.lt (0.0 : Float).toModel.unpack = true) = true
  rw [hzero, hneg, decide_eq_true_eq]
  generalize f.toModel.unpack = u at h ⊢
  cases h with
  | @finite m e hpos hm hl hh =>
    have hnegative : Normal .negative low high (.finite .negative m e hpos) := .finite hpos hm hl hh
    have hsign : UnpackedFloat.neg (.finite .positive m e hpos) = .finite .negative m e hpos := rfl
    rw [hsign, unpack_pack hnegative hlow hhigh]
    rfl

theorem isInf_eq_false {f : Float} (h : Normal sign low high f.toModel.unpack) : f.isInf = false := by
  show f.toModel.unpack.isInf = false
  generalize f.toModel.unpack = u at h ⊢
  cases h with
  | finite => rfl

end AgentFlow.Double
