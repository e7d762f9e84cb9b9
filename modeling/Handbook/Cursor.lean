import Handbook.Text.Blank
import Handbook.Text.Search

namespace Handbook

structure Span where
  start : Nat
  stop : Nat
  deriving DecidableEq, Repr

def Span.length (s : Span) : Nat := s.stop - s.start

def Span.isEmpty (s : Span) : Bool := s.start == s.stop

/-- A word and where it stands. The text is empty between two characters that belong to no word. -/
structure Word where
  text : Text
  span : Span
  deriving DecidableEq, Repr

namespace Cursor

def defaultMarker : Text := "--"

/-- The line up to its comment, without the blanks at the end. An empty marker starts no
comment. -/
def stripComment (marker line : Text) : Text :=
  if marker = [] then Text.trimEnd line
  else match Text.cut? marker line with
    | some (code, _) => Text.trimEnd code
    | none => Text.trimEnd line

def isWordChar (c : Char) : Bool := c.isAlphanum || c == '_'

/-- An apostrophe continues a word to the right and never to the left. -/
def isWordTail (c : Char) : Bool := isWordChar c || c == '\''

/-- The word touching the column, or nothing when the column lies beyond the stripped line. -/
def wordAt? (marker line : Text) (column : Nat) : Option Word :=
  let code := stripComment marker line
  if code.length < column then none
  else
    let left := ((code.take column).reverse.takeWhile isWordChar).reverse
    let right := (code.drop column).takeWhile isWordTail
    some ⟨left ++ right, ⟨column - left.length, column + right.length⟩⟩

end Cursor

end Handbook
