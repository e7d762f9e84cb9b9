import Handbook.Markup

namespace Handbook

namespace Text

/-- Names of kinds and levels are compared without outer blanks, in upper case and with `_` for
`-`. Only ASCII letters have an upper case here. -/
def folded (t : Text) : Text :=
  (trim t).map fun c => if c = '-' then '_' else c.toUpper

end Text

inductive ParameterKind
  | unknown
  | any
  | rationalPattern
  | controlPattern
  | timePattern
  deriving DecidableEq, Repr

structure UnknownKind where
  text : Text
  deriving DecidableEq, Repr

def UnknownKind.message (e : UnknownKind) : Text := "unknown parameter type: " ++ e.text

namespace ParameterKind

def all : List ParameterKind := [unknown, any, rationalPattern, controlPattern, timePattern]

def name : ParameterKind → Text
  | unknown => "UNKNOWN"
  | any => "ANY"
  | rationalPattern => "RATIONAL_PATTERN"
  | controlPattern => "CONTROL_PATTERN"
  | timePattern => "TIME_PATTERN"

def label : ParameterKind → Text
  | unknown => "?"
  | any => "a"
  | rationalPattern => "Pattern Rational"
  | controlPattern => "ControlPattern"
  | timePattern => "Pattern Time"

def ofText (t : Text) : Except UnknownKind ParameterKind :=
  match all.find? (·.name = Text.folded t) with
  | some k => .ok k
  | none => .error ⟨t⟩

theorem ofText_name (k : ParameterKind) : ofText k.name = .ok k := by
  cases k <;> rfl

end ParameterKind

structure Parameter where
  name : Text
  help : Markup
  /-- Whether a completion leaves a place for it. -/
  editable : Bool
  kind : Option ParameterKind
  deriving DecidableEq, Repr

namespace Parameter

/-- A parameter of which only a name and a help text are known. -/
def plain (name help : Text) : Parameter := ⟨name, ⟨help⟩, false, none⟩

end Parameter

end Handbook
