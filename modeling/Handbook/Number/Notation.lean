import Handbook.Number.Shortest
import Handbook.Text.Basic

namespace Handbook.Binary64

/-- Places of the first digit, as powers of ten, for which no exponent is written. -/
def positional (k : Int) : Bool := -5 ≤ k && k ≤ 15

def Decimal.positionalText (d : Decimal) : Text :=
  let ds := Text.ofNat d.digits
  if 0 ≤ d.exponent then ds ++ List.replicate d.exponent.natAbs '0' ++ ".0"
  else
    let behind := d.exponent.natAbs
    if behind < ds.length then ds.take (ds.length - behind) ++ "." ++ ds.drop (ds.length - behind)
    else "0." ++ List.replicate (behind - ds.length) '0' ++ ds

def Decimal.exponentText (d : Decimal) (k : Int) : Text :=
  match Text.ofNat d.digits with
  | [] => []
  | [c] => c :: 'e' :: Text.ofInt k
  | c :: cs => c :: '.' :: cs ++ 'e' :: Text.ofInt k

def Decimal.text (d : Decimal) : Text :=
  let k := (Text.ofNat d.digits).length + d.exponent - 1
  if positional k then d.positionalText else d.exponentText k

def signed (negative : Bool) (t : Text) : Text := if negative then '-' :: t else t

def text : Binary64 → Text
  | nan => ".nan"
  | infinite negative => signed negative ".inf"
  | finite negative m e =>
    signed negative (if m = 0 then "0.0" else (shortest m e).text)

def digitsValue (ds : Text) : Nat := ds.foldl (fun n c => 10 * n + (c.toNat - '0'.toNat)) 0

def exponent? (t : Text) : Option Int :=
  let value := fun ds : Text =>
    if ds ≠ [] ∧ ds.all Char.isDigit then some (digitsValue ds : Int) else none
  match t with
  | '-' :: ds => (value ds).map (- ·)
  | '+' :: ds => value ds
  | ds => value ds

/-- Digits with at most one point among them, at least one digit, and an optional exponent. -/
def magnitude? (t : Text) : Option (Nat × Int) :=
  let whole := t.takeWhile Char.isDigit
  let rest := t.dropWhile Char.isDigit
  let (fraction, rest) := match rest with
    | '.' :: r => (r.takeWhile Char.isDigit, r.dropWhile Char.isDigit)
    | r => ([], r)
  if whole = [] ∧ fraction = [] then none
  else
    let digits := digitsValue (whole ++ fraction)
    match rest with
    | [] => some (digits, -fraction.length)
    | c :: r =>
      if c = 'e' ∨ c = 'E' then (exponent? r).map fun e => (digits, e - fraction.length) else none

def ofText? (t : Text) : Option Binary64 :=
  let read := fun (negative : Bool) (r : Text) =>
    (magnitude? r).map fun p => ofDecimal negative p.1 p.2
  match t with
  | '-' :: r => read true r
  | '+' :: r => read false r
  | r => read false r

end Handbook.Binary64
