import Handbook.Text.Basic

namespace Handbook.Yaml

structure Glyph where
  char : Char
  line : Nat
  column : Nat
  deriving DecidableEq, Repr

abbrev Input := List Glyph

def isPermitted (c : Char) : Bool :=
  let n := c.toNat
  n == 0x09 || n == 0x0A || n == 0x0D || (0x20 ≤ n && n ≤ 0x7E) || n == 0x85
    || (0xA0 ≤ n && n ≤ 0xFFFD) || 0x10000 ≤ n

/-- Carriage returns, with their line feeds or alone, and next line characters become line feeds. -/
def unifyBreaks : Text → Text
  | '\r' :: '\n' :: r => '\n' :: unifyBreaks r
  | c :: r => (if c = '\r' ∨ c = '\u0085' then '\n' else c) :: unifyBreaks r
  | [] => []

def isBreak (c : Char) : Bool := c == '\n' || c == '\u2028' || c == '\u2029'

def isSpace (c : Char) : Bool := c == ' ' || c == '\t'

namespace Input

/-- The characters with their places, from the given place on. -/
def place : Nat → Nat → Text → Input
  | _, _, [] => []
  | line, column, c :: r =>
    ⟨c, line, column⟩ :: if isBreak c then place (line + 1) 0 r else place line (column + 1) r

/-- The stream of a text, if it holds permitted characters only. A byte order mark at the start is
passed over and still takes a column. -/
def ofText? (t : Text) : Option Input :=
  if t.all isPermitted then
    match place 0 0 (unifyBreaks t) with
    | ⟨'\uFEFF', _, _⟩ :: r => some r
    | input => some input
  else none

def atGap : Input → Bool
  | [] => true
  | g :: _ => isSpace g.char || isBreak g.char

def atTriple (c : Char) : Input → Bool
  | f :: g :: h :: r => f.column == 0 && f.char == c && g.char == c && h.char == c && atGap r
  | _ => false

def atMarker (input : Input) : Bool := atTriple '-' input || atTriple '.' input

def chars (input : Input) : Text := input.map (·.char)

def skipSpaces (input : Input) : Input := input.dropWhile fun g => isSpace g.char

def skipComment : Input → Input
  | [] => []
  | g :: r => if g.char = '#' then r.dropWhile fun h => !isBreak h.char else g :: r

/-- The start of the next line, if only spaces and a comment are left on this one. -/
def nextLine? (input : Input) : Option Input :=
  match skipComment (skipSpaces input) with
  | [] => some []
  | g :: r => if isBreak g.char then some r else none

end Input

end Handbook.Yaml
