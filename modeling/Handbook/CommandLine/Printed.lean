import Handbook.Text.Basic

namespace Handbook.CommandLine

inductive Printed
  | null
  | bool (value : Bool)
  | nat (value : Nat)
  | text (value : Text)
  | list (items : List Printed)
  | record (fields : List (Text × Printed))

namespace Printed

def hex4 (n : Nat) : Text :=
  let ds := Nat.toDigits 16 n
  List.replicate (4 - ds.length) '0' ++ ds

/-- Quotation marks, backslashes and control characters are escaped, all else stands as it is. -/
def escaped (c : Char) : Text :=
  match c with
  | '"' => ['\\', '"']
  | '\\' => ['\\', '\\']
  | '\x08' => ['\\', 'b']
  | '\x0c' => ['\\', 'f']
  | '\n' => ['\\', 'n']
  | '\r' => ['\\', 'r']
  | '\t' => ['\\', 't']
  | _ => if c.toNat < 0x20 then '\\' :: 'u' :: hex4 c.toNat else [c]

def quoted (t : Text) : Text := ['"'] ++ t.flatMap escaped ++ ['"']

def newLine (depth : Nat) : Text := '\n' :: List.replicate (2 * depth) ' '

mutual

/-- The value with its further lines indented by two columns for each level of depth. -/
def lay (depth : Nat) : Printed → Text
  | null => "null"
  | bool b => if b then "true" else "false"
  | nat n => Text.ofNat n
  | text t => quoted t
  | list [] => "[]"
  | list (p :: ps) =>
    ['['] ++ newLine (depth + 1) ++ lay (depth + 1) p ++ layItems (depth + 1) ps ++ newLine depth
      ++ [']']
  | record [] => ['\x7b', '\x7d']
  | record ((name, p) :: fs) =>
    ['\x7b'] ++ newLine (depth + 1) ++ quoted name ++ ": " ++ lay (depth + 1) p
      ++ layFields (depth + 1) fs ++ newLine depth ++ ['\x7d']

def layItems (depth : Nat) : List Printed → Text
  | [] => []
  | p :: ps => [','] ++ newLine depth ++ lay depth p ++ layItems depth ps

def layFields (depth : Nat) : List (Text × Printed) → Text
  | [] => []
  | (name, p) :: fs =>
    [','] ++ newLine depth ++ quoted name ++ ": " ++ lay depth p ++ layFields depth fs

end

end Printed

end Handbook.CommandLine
