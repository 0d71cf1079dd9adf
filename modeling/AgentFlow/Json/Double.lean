import AgentFlow.Decimal.Shortest
import AgentFlow.Json.Value

/-!
# Doubles in JSON

A double is written with the fewest digits that read back as it, and always with a point or an exponent, so that it
does not look like an integer.
-/

namespace AgentFlow.Json

/-- The literal of a finite double. -/
def Number.ofFloat (f : Float) : Number :=
  let bits := f.toBits
  let negative := bits >>> 63 = 1
  let (m, q) := Decimal.parts bits
  let (d, k) := Decimal.shortest m q
  let digits := Nat.toDigits 10 d
  if 0 ≤ k ∧ k ≤ 15 then ⟨negative, Nat.toDigits 10 (d * Nat.pow 10 k.toNat), some ['0'], none⟩
  else if k < 0 ∧ k.natAbs < digits.length then
    let cut := digits.length - k.natAbs
    ⟨negative, digits.take cut, some (digits.drop cut), none⟩
  else ⟨negative, digits, none, some (k < 0, Nat.toDigits 10 k.natAbs)⟩

def float (f : Float) : Json := .num (.ofFloat f)

end AgentFlow.Json
