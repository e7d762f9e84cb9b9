import Handbook.Number.Binary64

namespace Handbook.Binary64

structure Decimal where
  digits : Nat
  exponent : Int
  deriving DecidableEq, Repr

/-- The reals between `low / den` and `high / den` that round to `mid / den`. -/
structure Interval where
  low : Nat
  mid : Nat
  high : Nat
  den : Nat
  /-- Whether both ends belong to it. -/
  closed : Bool

/-- The interval of `mantissa * 2 ^ exponent`, in quarters of the last binary place. Below a power of
two the neighbours are twice as dense. -/
def interval (mantissa : Nat) (exponent : Int) : Interval :=
  let dense := mantissa == Nat.pow 2 52 && leastExponent < exponent
  let scale := fun n => if exponent < 2 then n else n * Nat.pow 2 (exponent - 2).natAbs
  { low := scale (4 * mantissa - if dense then 1 else 2)
    mid := scale (4 * mantissa)
    high := scale (4 * mantissa + 2)
    den := if exponent < 2 then Nat.pow 2 (2 - exponent).natAbs else 1
    closed := mantissa % 2 == 0 }

def Interval.holds (i : Interval) (n : Nat) (k : Int) : Bool :=
  let p := if k < 0 then n else n * Nat.pow 10 k.natAbs
  let q := if k < 0 then Nat.pow 10 k.natAbs else 1
  if i.closed then i.low * q ≤ p * i.den && p * i.den ≤ i.high * q
  else i.low * q < p * i.den && p * i.den < i.high * q

/-- The point of the grid `10 ^ k` that lies in the interval nearest to its middle; of two equally
near points, the even one. -/
def Interval.nearest? (i : Interval) (k : Int) : Option Decimal :=
  let num := if k < 0 then i.mid * Nat.pow 10 k.natAbs else i.mid
  let den := if k < 0 then i.den else i.den * Nat.pow 10 k.natAbs
  let below := num / den
  let r := num % den
  match i.holds below k, i.holds (below + 1) k with
  | true, true =>
    if 2 * r < den ∨ (2 * r = den ∧ below % 2 = 0) then some ⟨below, k⟩ else some ⟨below + 1, k⟩
  | true, false => some ⟨below, k⟩
  | false, true => some ⟨below + 1, k⟩
  | false, false => none

def Interval.first (i : Interval) : Nat → Int → Decimal
  | 0, k => ⟨i.mid / i.den, k⟩
  | n + 1, k =>
    match i.nearest? k with
    | some d => d
    | none => i.first n (k - 1)

def Decimal.trimmed (d : Decimal) : Decimal :=
  if d.digits = 0 then ⟨0, 0⟩
  else if d.digits % 10 = 0 then trimmed ⟨d.digits / 10, d.exponent + 1⟩
  else d
termination_by d.digits
decreasing_by exact Nat.div_lt_self (by omega) (by omega)

/-- The exponent `k` with `10 ^ k ≤ num / den < 10 ^ (k + 1)`, or one above it. -/
def magnitude (num den : Nat) : Int :=
  (Nat.toDigits 10 num).length - (Nat.toDigits 10 den).length

def shortest (mantissa : Nat) (exponent : Int) : Decimal :=
  let i := interval mantissa exponent
  (i.first 20 (magnitude i.mid i.den)).trimmed

end Handbook.Binary64
