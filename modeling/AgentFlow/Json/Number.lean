/-!
# Number literals

A JSON number is kept as it is written, since whether it is an integer is a matter of its spelling: `7` is
one, `7.0` and `7e0` are not, and neither is `-0`.

Reading a double takes the longest run of leading digits that fits 64 bits and scales it once by a power of
ten; a result beyond the doubles is refused.
-/

namespace AgentFlow.Json

/-- A literal `-12.5e+3` by its parts. -/
structure Number where
  negative : Bool
  /-- The digits before the point. -/
  whole : List Char
  /-- The digits after the point, if there is one. -/
  fraction : Option (List Char)
  /-- Sign (is it negative) and digits of the exponent, if there is one. -/
  exponent : Option (Bool × List Char)
  deriving DecidableEq, Repr

namespace Number

/-! ### Spelling -/

/-- A non-empty run of digits, and what follows it. -/
def digits? (cs : List Char) : Option (List Char × List Char) :=
  match cs.takeWhile Char.isDigit with
  | [] => none
  | ds => some (ds, cs.dropWhile Char.isDigit)

/-- The exponent that `cs` spells; no characters spell none. -/
def exponent? : List Char → Option (Option (Bool × List Char))
  | [] => some none
  | e :: cs =>
    if e = 'e' ∨ e = 'E' then
      let (negative, ds) :=
        match cs with
        | '-' :: r => (true, r)
        | '+' :: r => (false, r)
        | r => (false, r)
      match digits? ds with
      | some (ds, []) => some (some (negative, ds))
      | _ => none
    else none

/-- The number that all of `cs` spells: no leading zero, and digits on both sides of a point. -/
def ofChars? (cs : List Char) : Option Number :=
  let (negative, cs) :=
    match cs with
    | '-' :: r => (true, r)
    | r => (false, r)
  match digits? cs with
  | none => none
  | some (whole, rest) =>
    if whole.head? = some '0' ∧ whole.length ≠ 1 then none
    else
      match rest with
      | '.' :: r =>
        match digits? r with
        | none => none
        | some (fraction, r) => (exponent? r).map fun e => ⟨negative, whole, some fraction, e⟩
      | r => (exponent? r).map fun e => ⟨negative, whole, none, e⟩

/-- The literal as written, with a lower-case mark before the exponent. -/
def toChars (n : Number) : List Char :=
  (if n.negative then ['-'] else []) ++ n.whole
    ++ (match n.fraction with
        | none => []
        | some ds => '.' :: ds)
    ++ (match n.exponent with
        | none => []
        | some (negative, ds) => 'e' :: (if negative then ['-'] else []) ++ ds)

/-- The literal of a natural number. -/
def ofNat (n : Nat) : Number := ⟨false, Nat.toDigits 10 n, none, none⟩

/-- The literal of an integer. -/
def ofInt (i : Int) : Number := ⟨i < 0, Nat.toDigits 10 i.natAbs, none, none⟩

/-! ### Values -/

/-- The value of a digit. -/
def digitValue (c : Char) : Nat := c.toNat - '0'.toNat

/-- The value of a run of digits. -/
def digitsValue (ds : List Char) : Nat := ds.foldl (fun n c => 10 * n + digitValue c) 0

/-- The integer that the literal spells. A negative zero is no integer. -/
def int? (n : Number) : Option Int :=
  match n.fraction, n.exponent with
  | none, none =>
    let v := digitsValue n.whole
    if n.negative then if v = 0 then none else some (-(v : Int)) else some v
  | _, _ => none

/-- The natural number below `bound` that the literal spells. -/
def natBelow? (bound : Nat) (n : Number) : Option Nat :=
  match n.int? with
  | some (.ofNat v) => if v < bound then some v else none
  | _ => none

/-- The integer of `bits` bits, sign included, that the literal spells. -/
def signed? (bits : Nat) (n : Number) : Option Int :=
  n.int?.filter fun v => -Int.pow 2 (bits - 1) ≤ v && v < Int.pow 2 (bits - 1)

/-- The largest significand of a double that is read. -/
def significandMax : Nat := Nat.pow 2 64 - 1

/-- Appends digits to a significand while it fits, and counts the digits taken. -/
def gather : Nat → List Char → Nat × Nat
  | s, [] => (s, 0)
  | s, d :: ds =>
    if 10 * s + digitValue d ≤ significandMax then
      let (t, k) := gather (10 * s + digitValue d) ds
      (t, k + 1)
    else (s, 0)

/-- `s` times the power of ten `e`, if that is a double. One multiplication or division scales by up to
`10 ^ 308`; smaller powers divide by `10 ^ 308` first. -/
def scale (s : Float) (e : Int) : Option Float :=
  if 0 ≤ e then
    if 308 < e then if s == 0.0 then some s else none
    else
      let f := s * Float.ofScientific 1 false e.toNat
      if f.isInf then none else some f
  else if -308 ≤ e then some (s / Float.ofScientific 1 false e.natAbs)
  else
    -- below `10 ^ -616` every 64-bit significand vanishes
    if e < -(308 + 308 + 308) then some (s / 1e308 / 1e308 / 1e308)
    else if e < -(308 + 308) then
      some (s / 1e308 / 1e308 / Float.ofScientific 1 false (e.natAbs - 616))
    else some (s / 1e308 / Float.ofScientific 1 false (e.natAbs - 308))

/-- The double that the literal spells, unless it is too large. -/
def float? (n : Number) : Option Float :=
  let (s, taken) := gather 0 n.whole
  let dropped : Int := n.whole.length - taken
  let (s, after) :=
    match n.fraction with
    | none => (s, 0)
    | some ds => gather s ds
  let shift : Int := dropped - after
  let size :=
    match n.exponent with
    | none => scale (Float.ofNat s) shift
    | some (negative, ds) =>
      let e : Int := digitsValue ds
      if Int.pow 2 31 ≤ e then if s ≠ 0 ∧ !negative then none else some 0.0
      else scale (Float.ofNat s) (if negative then shift - e else shift + e)
  size.map fun f => if n.negative then -f else f

end Number

end AgentFlow.Json
