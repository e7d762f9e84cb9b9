import Handbook.Command.Layout
import Handbook.Cursor
import Handbook.Registry

namespace Handbook

structure Hover where
  contents : Markup
  line : Nat
  span : Span
  deriving DecidableEq, Repr

structure Suggestion where
  label : Text
  /-- The signature without the backticks of inline code. -/
  detail : Text
  documentation : Option Markup
  /-- The name with the names of the parameters to fill in. -/
  insertText : Text
  /-- What the suggestion stands in for. -/
  replace : Span
  deriving DecidableEq, Repr

namespace Suggestion

def of (level : Detail) (replace : Span) (d : Description) : Suggestion where
  label := d.name
  detail := d.plainSignature
  documentation := d.format level false
  insertText := List.intercalate [' '] (d.name :: d.editableNames)
  replace := replace

end Suggestion

namespace Registry

/-- What is shown for the word at a column; `line` is the number of the line. -/
def hover (r : Registry) (marker text : Text) (line column : Nat) (level : Detail) :
    Option Hover := do
  let w ← Cursor.wordAt? marker text column
  let d ← r.get? w.text
  let contents ← d.format level true
  return ⟨contents, line, w.span⟩

def complete (r : Registry) (marker text : Text) (column : Nat) (level : Detail) :
    List Suggestion :=
  match Cursor.wordAt? marker text column with
  | none => []
  | some w => (r.startingWith w.text).map (Suggestion.of level w.span)

end Registry

end Handbook
