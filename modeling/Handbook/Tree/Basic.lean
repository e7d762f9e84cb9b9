import Handbook.Number.Notation

namespace Handbook

inductive Number
  | int (value : Int)
  | real (value : Binary64)
  deriving DecidableEq, Repr

namespace Number

def text : Number → Text
  | int n => Text.ofInt n
  | real x => x.text

/-- An integer is never the same as a number with a fraction. -/
def same : Number → Number → Bool
  | int m, int n => m == n
  | real x, real y => x.same y
  | _, _ => false

theorem same_self (n : Number) : n.same n := by
  cases n <;> simp [same, Binary64.same_self]

end Number

/-- Loosely typed trees, as definitions are written in. -/
inductive Tree
  | null
  | bool (value : Bool)
  | number (value : Number)
  | text (value : Text)
  | sequence (items : List Tree)
  /-- Entries in order. -/
  | mapping (entries : List (Tree × Tree))
  /-- A value under a tag; the name stands without its leading `!`. -/
  | tagged (name : Text) (inner : Tree)

inductive Shape
  | null
  | boolean
  | number
  | text
  | sequence
  | mapping
  deriving DecidableEq, Repr

def Shape.phrase : Shape → Text
  | null => "null"
  | boolean => "a boolean"
  | number => "a number"
  | text => "a string"
  | sequence => "a sequence"
  | mapping => "a mapping"

namespace Tree

def untagged : Tree → Tree
  | tagged _ t => t.untagged
  | t => t

def shape : Tree → Shape
  | null => .null
  | bool _ => .boolean
  | number _ => .number
  | text _ => .text
  | sequence _ => .sequence
  | mapping _ => .mapping
  | tagged _ t => t.shape

theorem shape_untagged (t : Tree) : t.untagged.shape = t.shape := by
  fun_induction untagged t with
  | case1 _ _ ih => simpa [shape] using ih
  | case2 => rfl

mutual

/-- A value written as plain text: scalars as they are, sequences with commas between their items,
mappings as nothing. -/
def plainText : Tree → Text
  | null => []
  | bool b => if b then "true" else "false"
  | number n => n.text
  | text t => t
  | sequence items => List.intercalate [','] (plainTexts items)
  | mapping _ => []
  | tagged _ t => t.plainText

def plainTexts : List Tree → List Text
  | [] => []
  | t :: ts => t.plainText :: plainTexts ts

end

end Tree

end Handbook
