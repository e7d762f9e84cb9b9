import Handbook.Text.Blank
import Handbook.Text.Search

namespace Handbook.Text

def lineBreak : Text := ['\n']

def lines (t : Text) : List Text := t.splitOn '\n'

def ofLines (ls : List Text) : Text := lineBreak.intercalate ls

/-- A carriage return with its line feed, a carriage return alone and a line feed alone all become
`lineBreak`. -/
def unifyBreaks (t : Text) : Text :=
  ofLines (lines ((replace ['\r', '\n'] ['\n'] t).map fun c => if c = '\r' then '\n' else c))

def dropBlankTail (ls : List Text) : List Text := (ls.reverse.dropWhile allBlank).reverse

/-- The lines that a text file holds: a break at the very end opens no further line, and a carriage
return belongs to the line feed behind it. -/
def fileLines (t : Text) : List Text :=
  let all := lines t
  let ended := all.dropLast.map fun l => if l.getLast? = some '\r' then l.dropLast else l
  match all.getLast? with
  | none | some [] => ended
  | some last => ended ++ [last]

end Handbook.Text
