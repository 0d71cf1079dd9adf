import AgentFlow.Text.Basic

/-!
# Basic Latin characters

The numbers of the letters and digits that identifiers are made of: they are below 128, and the ranges of capitals,
small letters and digits do not meet.
-/

namespace AgentFlow.Text

variable {c : Char}

theorem toNat_of_isDigit (h : c.isDigit = true) : 48 ≤ c.toNat ∧ c.toNat ≤ 57 := Char.isDigit_iff_toNat.mp h

theorem toNat_of_isLower (h : c.isLower = true) : 97 ≤ c.toNat ∧ c.toNat ≤ 122 := by
  obtain ⟨hlow, hhigh⟩ := Bool.and_eq_true_iff.mp h
  exact ⟨UInt32.le_iff_toNat_le.mp (of_decide_eq_true hlow), UInt32.le_iff_toNat_le.mp (of_decide_eq_true hhigh)⟩

theorem toNat_of_isUpper (h : c.isUpper = true) : 65 ≤ c.toNat ∧ c.toNat ≤ 90 := by
  have hrange : 'A'.val ≤ c.val ∧ c.val ≤ 'Z'.val := of_decide_eq_true h
  exact ⟨UInt32.le_iff_toNat_le.mp hrange.1, UInt32.le_iff_toNat_le.mp hrange.2⟩

/-- Basic letters and digits are below 128. -/
theorem toNat_of_isBasicAlnum (h : isBasicAlnum c = true) : c.toNat < 0x80 := by
  rcases Bool.or_eq_true_iff.mp h with hletter | hdigit
  · rcases Bool.or_eq_true_iff.mp hletter with hupper | hlower
    · exact Nat.lt_of_le_of_lt (toNat_of_isUpper hupper).2 (by decide)
    · exact Nat.lt_of_le_of_lt (toNat_of_isLower hlower).2 (by decide)
  · exact Nat.lt_of_le_of_lt (toNat_of_isDigit hdigit).2 (by decide)

/-- A digit is no letter. -/
theorem isLower_of_isDigit (h : c.isDigit = true) : c.isLower = false := by
  rw [← Bool.not_eq_true]
  intro hlower
  have hdigits := toNat_of_isDigit h
  have hletters := toNat_of_isLower hlower
  omega

end AgentFlow.Text
