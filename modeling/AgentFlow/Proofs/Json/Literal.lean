import Mathlib.Data.List.TakeWhile
import AgentFlow.Proofs.Json.Reading
import AgentFlow.Proofs.Json.Rounding

/-!
# Literals of integers

The literal of an integer spells it: its digits have no leading zero and are read as one token. As a double it is read
without dropping a digit, so long as it fits 64 bits.
-/

namespace AgentFlow.Json.Number

/-! ### Digits -/

theorem digitsValue_toDigits (n : Nat) : digitsValue (Nat.toDigits 10 n) = n :=
  Nat.ofDigitChars_toDigits (by decide) (by decide)

theorem isDigit_of_mem_toDigits {n : Nat} {c : Char} (h : c ∈ Nat.toDigits 10 n) : c.isDigit = true :=
  Nat.isDigit_of_mem_toDigits (by decide) (by decide) h

/-- No number but zero is written with a leading zero. -/
theorem head?_toDigits_ne {n : Nat} (hn : n ≠ 0) : (Nat.toDigits 10 n).head? ≠ some '0' := by
  induction n using Nat.strongRecOn with
  | _ n ih =>
    -- one digit, or the digits of the tenth part and one more
    by_cases hsmall : n < 10
    · have hall : ∀ m < 10, m ≠ 0 → (Nat.toDigits 10 m).head? ≠ some '0' := by decide
      exact hall n hsmall hn
    · have hquotient : n / 10 ≠ 0 := by omega
      have hhead := ih (n / 10) (by omega) hquotient
      rw [Nat.toDigits_of_base_le (by decide) (by omega)]
      cases hds : Nat.toDigits 10 (n / 10) with
      | nil => exact absurd hds Nat.toDigits_ne_nil
      | cons d ds =>
        rw [hds] at hhead
        exact hhead

/-- The digits of a number are read up to their end. -/
theorem digits?_toDigits (n : Nat) : digits? (Nat.toDigits 10 n) = some (Nat.toDigits 10 n, []) := by
  have hall : ∀ c ∈ Nat.toDigits 10 n, c.isDigit = true := fun c hc => isDigit_of_mem_toDigits hc
  unfold digits?
  rw [List.takeWhile_eq_self_iff.mpr hall, List.dropWhile_eq_nil_iff.mpr hall]
  cases hds : Nat.toDigits 10 n with
  | nil => exact absurd hds Nat.toDigits_ne_nil
  | cons d ds => rfl

/-! ### The literal -/

theorem toChars_ofInt (i : Int) :
    (ofInt i).toChars = (if i < 0 then ['-'] else []) ++ Nat.toDigits 10 i.natAbs := by
  simp [toChars, ofInt]

/-- The literal of an integer has digits and perhaps a minus sign. -/
theorem mem_toChars_ofInt {i : Int} {c : Char} (h : c ∈ (ofInt i).toChars) : c = '-' ∨ c.isDigit = true := by
  rw [toChars_ofInt, List.mem_append] at h
  rcases h with hsign | hdigit
  · split_ifs at hsign
    · exact .inl (List.mem_singleton.mp hsign)
    · exact absurd hsign List.not_mem_nil
  · exact .inr (isDigit_of_mem_toDigits hdigit)

/-- The literal of an integer is read back as it. -/
theorem ofChars?_toChars_ofInt (i : Int) : ofChars? (ofInt i).toChars = some (ofInt i) := by
  -- a leading zero stands alone
  have hzero : ¬ ((Nat.toDigits 10 i.natAbs).head? = some '0' ∧ (Nat.toDigits 10 i.natAbs).length ≠ 1) := by
    rintro ⟨hhead, hlength⟩
    by_cases hi : i.natAbs = 0
    · rw [hi] at hlength
      exact hlength (by decide)
    · exact head?_toDigits_ne hi hhead
  -- the digits are not taken for a sign: `simp` looks this up where the reader splits off the sign
  have hsign : ∀ r, Nat.toDigits 10 i.natAbs ≠ '-' :: r := by
    intro r hr
    have hdigit : '-'.isDigit = true := isDigit_of_mem_toDigits (by rw [hr]; exact List.mem_cons_self)
    exact absurd hdigit (by decide)
  rw [toChars_ofInt]
  by_cases hneg : i < 0
  · simp [ofChars?, ofInt, hneg, digits?_toDigits, hzero, exponent?]
  · simp [ofChars?, ofInt, hneg, digits?_toDigits, hzero, exponent?]

/-- An integer is spelled by its literal. -/
theorem spelled_ofInt (i : Int) : (ofInt i).Spelled where
  starts c hc := by
    rcases mem_toChars_ofInt (List.mem_of_mem_head? hc) with rfl | hdigit
    · rfl
    · rw [hdigit, Bool.or_true]
  chars c hc := by
    rcases mem_toChars_ofInt hc with rfl | hdigit
    · rfl
    · simp [Lexer.isNumberChar, hdigit]
  reads := ofChars?_toChars_ofInt i

/-! ### Its double -/

/-- More digits never make a number smaller. -/
theorem le_foldl_digits (s : Nat) (ds : List Char) : s ≤ ds.foldl (fun n c => 10 * n + digitValue c) s := by
  induction ds generalizing s with
  | nil => exact Nat.le_refl s
  | cons d ds ih =>
    have hrest := ih (10 * s + digitValue d)
    rw [List.foldl_cons]
    omega

/-- Digits whose value fits are all taken. -/
theorem gather_eq {s : Nat} {ds : List Char}
    (h : ds.foldl (fun n c => 10 * n + digitValue c) s ≤ significandMax) :
    gather s ds = (ds.foldl (fun n c => 10 * n + digitValue c) s, ds.length) := by
  induction ds generalizing s with
  | nil => rfl
  | cons d ds ih =>
    have hfits : 10 * s + digitValue d ≤ significandMax := Nat.le_trans (le_foldl_digits _ ds) h
    rw [gather, if_pos hfits, ih h]
    rfl

/-- The double that the literal of a natural number is read as: converted, and then scaled by the zeroth power of
ten. -/
def asDouble (n : Nat) : Float := Float.ofNat n * Float.ofScientific 1 false 0

theorem normal_asDouble {n : Nat} (hn : n ≠ 0) (hmax : n ≤ significandMax) :
    Double.Normal .positive (n.log2 - 52) (n.log2 - 49) (asDouble n).toModel.unpack := by
  have hlog : n.log2 < 64 := (Nat.log2_lt hn).mpr (Nat.lt_succ_of_le hmax)
  have hscaled := Double.normal_mul_one (Double.normal_ofNat hn hmax)
    (show Double.IsOne (Float.ofScientific 1 false 0) by rfl) (by omega) (by omega)
  exact hscaled.mono (by omega) (by omega)

theorem isInf_asDouble {n : Nat} (hmax : n ≤ significandMax) : (asDouble n).isInf = false := by
  by_cases hn : n = 0
  · rw [hn]
    rfl
  · exact Double.isInf_eq_false (normal_asDouble hn hmax)

/-- An integer that fits a significand is read as its own double. -/
theorem float?_ofInt {i : Int} (hmax : i.natAbs ≤ significandMax) :
    (ofInt i).float? = some (if i < 0 then -asDouble i.natAbs else asDouble i.natAbs) := by
  have hvalue : (Nat.toDigits 10 i.natAbs).foldl (fun n c => 10 * n + digitValue c) 0 = i.natAbs :=
    digitsValue_toDigits i.natAbs
  -- all digits are taken, so nothing is left for the exponent
  have hgather : gather 0 (ofInt i).whole = (i.natAbs, (ofInt i).whole.length) := by
    show gather 0 (Nat.toDigits 10 i.natAbs) = _
    rw [gather_eq (by rw [hvalue]; exact hmax), hvalue]
    rfl
  have hscale : scale (Float.ofNat i.natAbs) 0 = some (asDouble i.natAbs) := by
    show (if (asDouble i.natAbs).isInf then none else some (asDouble i.natAbs)) = _
    rw [isInf_asDouble hmax, if_neg (by decide)]
  have hshift : ((ofInt i).whole.length : Int) - ((ofInt i).whole.length : Int) - ((0 : Nat) : Int) = 0 := by omega
  unfold float?
  rw [hgather]
  show (scale (Float.ofNat i.natAbs) (((ofInt i).whole.length : Int) - ((ofInt i).whole.length : Int) -
    ((0 : Nat) : Int))).map (fun f => if decide (i < 0) = true then -f else f) = _
  rw [hshift, hscale, Option.map_some]
  simp only [decide_eq_true_eq]

end AgentFlow.Json.Number
