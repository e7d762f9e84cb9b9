import Handbook.Tree.Basic
import Handbook.Yaml.Flow
import Handbook.Yaml.Token

namespace Handbook.Yaml

def isNull (t : Text) : Bool := [(['~'] : Text), "null", "Null", "NULL"].contains t

def bool? (t : Text) : Option Bool :=
  if [("true" : Text), "True", "TRUE"].contains t then some true
  else if [("false" : Text), "False", "FALSE"].contains t then some false
  else none

/-- A sign, an optional further zero and more digits: text, not a number. -/
def hasLeadingZero (t : Text) : Bool :=
  let r := match t with
    | '-' :: r => r
    | '+' :: r => r
    | r => r
  match r with
  | '0' :: d :: ds => (d :: ds).all Char.isDigit
  | _ => false

def digits? (base : Nat) (t : Text) : Option Nat :=
  if t = [] then none
  else t.foldlM (fun n c => ((hexDigit? c).filter (· < base)).map (base * n + ·)) 0

def magnitude? (t : Text) : Option Nat :=
  match t with
  | '0' :: 'x' :: r => digits? 16 r
  | '0' :: 'o' :: r => digits? 8 r
  | '0' :: 'b' :: r => digits? 2 r
  | r => if hasLeadingZero r then none else digits? 10 r

def int? (t : Text) : Option Int :=
  match t with
  | '-' :: r => (magnitude? r).map fun n => -(n : Int)
  | '+' :: r => (magnitude? r).map fun n => (n : Int)
  | r => (magnitude? r).map fun n => (n : Int)

def isHeld (n : Int) : Bool := -Int.pow 2 63 ≤ n && n < Int.pow 2 64

/-- The integers that are read as integers, whether or not a tree can hold them. -/
def isReadable (n : Int) : Bool := -Int.pow 2 127 ≤ n && n < Int.pow 2 128

def real? (t : Text) : Option Binary64 :=
  let unsigned := match t with
    | '+' :: r => r
    | r => r
  if [(".inf" : Text), ".Inf", ".INF"].contains unsigned then some (.infinite false)
  else if [("-.inf" : Text), "-.Inf", "-.INF"].contains t then some (.infinite true)
  else if [(".nan" : Text), ".NaN", ".NAN"].contains t then some .nan
  else if t.head? = some '+' ∧ (unsigned.head? = some '+' ∨ unsigned.head? = some '-') then none
  else match Binary64.ofText? unsigned with
    | some (.finite negative m e) => some (.finite negative m e)
    | _ => none

/-- The number that a plain scalar is. The inner value is missing where no tree can hold it. -/
def number? (t : Text) : Option (Option Number) :=
  match (int? t).filter isReadable with
  | some n => if isHeld n then some (some (.int n)) else some none
  | none => if hasLeadingZero t then none else (real? t).map fun x => some (.real x)

def plainValue? (t : Text) : Option Tree :=
  if t = [] ∨ isNull t then some .null
  else match bool? t with
    | some b => some (.bool b)
    | none =>
      match number? t with
      | some n => n.map .number
      | none => some (.text t)

def untaggedValue? (style : Style) (t : Text) : Option Tree :=
  if style = .plain then plainValue? t else some (.text t)

inductive TagKind
  | named (name : Text)
  | bool
  | int
  | float
  | null
  | other

def tagKind (tag : Text) : TagKind :=
  match tag with
  | ['!'] => .named ['!']
  | ['!', '!'] => .named ['!']
  | '!' :: '!' :: c :: r => .named (c :: r)
  | '!' :: r => .named r
  | _ =>
    if tag = "tag:yaml.org,2002:bool" then .bool
    else if tag = "tag:yaml.org,2002:int" then .int
    else if tag = "tag:yaml.org,2002:float" then .float
    else if tag = "tag:yaml.org,2002:null" then .null
    else .other

/-- The value of a scalar. A standard tag forces its type, and a text that does not fit it is
refused. -/
def scalarValue? (tag : Option Text) (style : Style) (t : Text) : Option Tree :=
  match tag.map tagKind with
  | none => untaggedValue? style t
  | some (.named name) => (untaggedValue? style t).map (.tagged name)
  | some .bool => (bool? t).map .bool
  | some .int => ((int? t).filter isHeld).map fun n => .number (.int n)
  | some .float => (real? t).map fun x => .number (.real x)
  | some .null => if isNull t then some .null else none
  | some .other => some (.text t)

end Handbook.Yaml
