import Handbook.Yaml.Glyph

namespace Handbook.Yaml

inductive Piece
  | solid (c : Char)
  | space (c : Char)
  | lineBreak (c : Char)
  /-- An escaped break: the lines are joined with nothing between them. -/
  | joint
  deriving DecidableEq, Repr

inductive Gap
  | spaces (t : Text)
  | breaks (first : Option Char) (more : Text)

namespace Gap

def none : Gap := spaces []

def push : Gap → Piece → Gap
  | spaces t, .space c => spaces (t ++ [c])
  | spaces _, .lineBreak c => breaks (some c) []
  | breaks first more, .lineBreak c => breaks first (more ++ [c])
  | gap, _ => gap

/-- Spaces stay as they are. A single line feed becomes a space; of several breaks the first is
dropped if it is a line feed. -/
def text : Gap → Text
  | spaces t => t
  | breaks (some '\n') [] => [' ']
  | breaks (some '\n') more => more
  | breaks (some c) more => c :: more
  | breaks Option.none more => more

end Gap

/-- The text of the pieces and the gap behind the last solid one. -/
def foldPieces : Gap → List Piece → Text × Gap
  | gap, [] => ([], gap)
  | gap, .solid c :: ps =>
    let rest := foldPieces Gap.none ps
    (gap.text ++ c :: rest.1, rest.2)
  | gap, .joint :: ps =>
    let rest := foldPieces (.breaks Option.none []) ps
    (gap.text ++ rest.1, rest.2)
  | gap, p :: ps => foldPieces (gap.push p) ps

def foldQuoted (ps : List Piece) : Text :=
  let folded := foldPieces Gap.none ps
  folded.1 ++ folded.2.text

def foldPlain (ps : List Piece) : Text := (foldPieces Gap.none ps).1

end Handbook.Yaml
