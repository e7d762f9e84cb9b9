
namespace Handbook

inductive Binary64
  | nan
  | infinite (negative : Bool)
  /-- The number `mantissa * 2 ^ exponent`, with its sign. -/
  | finite (negative : Bool) (mantissa : Nat) (exponent : Int)
  deriving DecidableEq, Repr

namespace Binary64

def mantissaLimit : Nat := Nat.pow 2 53

def leastExponent : Int := -1074

def greatestExponent : Int := 971

/-- The quotient as the nearest natural number, a half going to the even neighbour. -/
def roundHalfEven (num den : Nat) : Nat :=
  let q := num / den
  let r := num % den
  if 2 * r < den then q
  else if den < 2 * r then q + 1
  else if q % 2 = 0 then q else q + 1

def scaled (num den : Nat) (e : Int) : Nat × Nat :=
  if e < 0 then (num * Nat.pow 2 e.natAbs, den) else (num, den * Nat.pow 2 e.natAbs)

def ofFraction (negative : Bool) (num den : Nat) : Binary64 :=
  if num = 0 then finite negative 0 leastExponent
  else
    let e := max leastExponent ((num.log2 : Int) - den.log2 - 53)
    let s := scaled num den e
    let e := if mantissaLimit ≤ s.1 / s.2 then e + 1 else e
    let s := scaled num den e
    let m := roundHalfEven s.1 s.2
    if m < mantissaLimit then
      if e ≤ greatestExponent then finite negative m e else infinite negative
    else
      if e + 1 ≤ greatestExponent then finite negative (m / 2) (e + 1) else infinite negative

/-- The number nearest to `digits * 10 ^ exponent`. Beyond 310 places before the point it is
infinite, and with 330 zeros behind the point it is zero. -/
def ofDecimal (negative : Bool) (digits : Nat) (exponent : Int) : Binary64 :=
  if digits = 0 then finite negative 0 leastExponent
  else
    let places : Int := (Nat.toDigits 10 digits).length + exponent
    if 310 < places then infinite negative
    else if places < -330 then finite negative 0 leastExponent
    else if exponent < 0 then ofFraction negative digits (Nat.pow 10 exponent.natAbs)
    else ofFraction negative (digits * Nat.pow 10 exponent.natAbs) 1

/-- Numbers that compare as equal: a zero equals the other zero, and one undefined value equals
another. -/
def same : Binary64 → Binary64 → Bool
  | nan, nan => true
  | infinite a, infinite b => a == b
  | finite a m e, finite b n f => (m == n && e == f && a == b) || (m == 0 && n == 0)
  | _, _ => false

theorem same_self (x : Binary64) : x.same x := by
  cases x <;> simp [same]

theorem same_symm {x y : Binary64} (h : x.same y) : y.same x := by
  cases x <;> cases y <;> simp_all [same]
  rcases h with ⟨⟨rfl, rfl⟩, rfl⟩ | ⟨rfl, rfl⟩ <;> simp

end Binary64

end Handbook
