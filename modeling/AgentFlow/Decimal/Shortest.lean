/-!
# Shortest decimals of doubles

A finite double is `m * 2 ^ q`. Of all decimals that read back as this double, `shortest` finds one with the fewest
digits, and of those the nearest. All arithmetic is exact.
-/

namespace AgentFlow.Decimal

/-- The magnitude `m * 2 ^ q` of a finite double with its bits given, `m` a natural number. -/
def parts (bits : UInt64) : Nat × Int :=
  let exponent := ((bits >>> 52) &&& 0x7ff).toNat
  let mantissa := (bits &&& 0xfffffffffffff).toNat
  if exponent = 0 then (mantissa, -1074) else (mantissa + Nat.pow 2 52, (exponent : Int) - 1075)

/-- `n * 2 ^ q * 10 ^ (-k)` as a quotient of natural numbers. -/
def scaled (n : Nat) (q k : Int) : Nat × Nat :=
  let num := n * Nat.pow 2 q.toNat * Nat.pow 10 (-k).toNat
  let den := Nat.pow 2 (-q).toNat * Nat.pow 10 k.toNat
  (num, den)

/-- The decimal `d * 10 ^ k` rounds to the double `m * 2 ^ q`: it lies between the midpoints to the neighbors, which
belong to the double if `m` is even. -/
def readsBack (m : Nat) (q : Int) (d : Nat) (k : Int) : Bool :=
  -- in units of `2 ^ (q - 2)` the midpoints are `4 m ± 2`, and `4 m - 1` below a power of two
  let low := if m = Nat.pow 2 52 ∧ -1074 < q then 4 * m - 1 else 4 * m - 2
  let high := 4 * m + 2
  let (ln, ld) := scaled low (q - 2) k
  let (hn, hd) := scaled high (q - 2) k
  if m % 2 = 0 then decide (ln ≤ d * ld ∧ d * hd ≤ hn) else decide (ln < d * ld ∧ d * hd < hn)

/-- The multiple of `10 ^ k` next to the double that reads back as it, the nearer one if both do. -/
def candidate? (m : Nat) (q k : Int) : Option Nat :=
  let (n, d) := scaled m q k
  let below := n / d
  let r := n % d
  let nearer := if 2 * r < d then below else if d < 2 * r then below + 1 else if below % 2 = 0 then below else below + 1
  let other := if nearer = below then below + 1 else below
  if readsBack m q nearer k then some nearer
  else if readsBack m q other k then some other
  else none

/-- The first candidate on coarser to finer grids, from `10 ^ k` down. -/
def search (m : Nat) (q : Int) : Nat → Int → Nat × Int
  | 0, k => (m, k)
  | steps + 1, k =>
    match candidate? m q k with
    | some d => if d = 0 then search m q steps (k - 1) else (d, k)
    | none => search m q steps (k - 1)

/-- Digits `d` and exponent `k` of the shortest decimal `d * 10 ^ k` of the magnitude `m * 2 ^ q`. -/
def shortest (m : Nat) (q : Int) : Nat × Int :=
  if m = 0 then (0, 0)
  else
    -- the double lies below `10 ^ (top + 1)`, and seventeen digits always suffice
    let top : Int := ((m.log2 + 1 : Int) + q) * 30103 / 100000 + 1
    search m q 20 top

end AgentFlow.Decimal
