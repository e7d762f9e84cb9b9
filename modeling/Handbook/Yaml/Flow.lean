import Handbook.Yaml.Folding

namespace Handbook.Yaml

def Piece.cons {α : Type} (p : Piece) (read : List Piece × α) : List Piece × α :=
  (p :: read.1, read.2)

def singleQuoted? : Input → Option (List Piece × Input)
  | [] => none
  | g :: r =>
    if g.char = '\'' then
      match r with
      | h :: s =>
        if h.char = '\'' then (singleQuoted? s).map (Piece.solid '\'').cons else some ([], r)
      | [] => some ([], [])
    else if isBreak g.char then
      if Input.atMarker r then none else (singleQuoted? r).map (Piece.lineBreak g.char).cons
    else if isSpace g.char then (singleQuoted? r).map (Piece.space g.char).cons
    else (singleQuoted? r).map (Piece.solid g.char).cons

/-- The character that stands for itself behind a backslash, or the number of hexadecimal digits that
follow. -/
inductive Escape
  | char (c : Char)
  | code (digits : Nat)

def escape? : Char → Option Escape
  | '0' => some (.char '\x00')
  | 'a' => some (.char '\x07')
  | 'b' => some (.char '\x08')
  | 't' => some (.char '\t')
  | '\t' => some (.char '\t')
  | 'n' => some (.char '\n')
  | 'v' => some (.char '\x0b')
  | 'f' => some (.char '\x0c')
  | 'r' => some (.char '\r')
  | 'e' => some (.char '\x1b')
  | ' ' => some (.char ' ')
  | '"' => some (.char '"')
  | '/' => some (.char '/')
  | '\\' => some (.char '\\')
  | 'N' => some (.char '\u0085')
  | '_' => some (.char '\u00a0')
  | 'L' => some (.char '\u2028')
  | 'P' => some (.char '\u2029')
  | 'x' => some (.code 2)
  | 'u' => some (.code 4)
  | 'U' => some (.code 8)
  | _ => none

def hexDigit? (c : Char) : Option Nat :=
  if c.isDigit then some (c.toNat - '0'.toNat)
  else if 'a' ≤ c ∧ c ≤ 'f' then some (c.toNat - 'a'.toNat + 10)
  else if 'A' ≤ c ∧ c ≤ 'F' then some (c.toNat - 'A'.toNat + 10)
  else none

def hexValue? (t : Text) : Option Nat :=
  t.foldlM (fun n c => (hexDigit? c).map (16 * n + ·)) 0

def charOfCode? (n : Nat) : Option Char := if n.isValidChar then some (Char.ofNat n) else none

def doubleQuoted? : Input → Option (List Piece × Input)
  | [] => none
  | g :: r =>
    if g.char = '"' then some ([], r)
    else if g.char = '\\' then
      match r with
      | [] => none
      | h :: s =>
        if isBreak h.char then
          if Input.atMarker s then none else (doubleQuoted? s).map Piece.joint.cons
        else
          match escape? h.char with
          | none => none
          | some (.char c) => (doubleQuoted? s).map (Piece.solid c).cons
          | some (.code n) =>
            match (hexValue? (Input.chars (s.take n))).bind charOfCode? with
            | none => none
            | some c =>
              if (s.take n).length < n then none
              else (doubleQuoted? (s.drop n)).map (Piece.solid c).cons
    else if isBreak g.char then
      if Input.atMarker r then none else (doubleQuoted? r).map (Piece.lineBreak g.char).cons
    else if isSpace g.char then (doubleQuoted? r).map (Piece.space g.char).cons
    else (doubleQuoted? r).map (Piece.solid g.char).cons
termination_by input => input.length
decreasing_by all_goals simp only [List.length_cons, List.length_drop]; omega

def isFlowIndicator (c : Char) : Bool :=
  c == ',' || c == '[' || c == ']' || c == '{' || c == '}'

/-- Whether a colon behind a plain scalar cannot be told from part of it. -/
def colonIsUnclear : Input → Bool
  | g :: h :: _ => g.char == ':' && (isFlowIndicator h.char || h.char == '?')
  | _ => false

/-- The pieces of a plain scalar in a flow collection or with at least `indent` columns in front of
its further lines; whether a break is in the gap behind it; what follows that gap. `inGap` and
`broken` say whether a gap is being read, and whether a break was in it. -/
def plain? (flow : Bool) (indent : Nat) :
    (inGap broken : Bool) → Input → Option (List Piece × Bool × Input)
  | _, broken, [] => some ([], broken, [])
  | inGap, broken, g :: r =>
    if isBreak g.char then (plain? flow indent true true r).map (Piece.lineBreak g.char).cons
    else if isSpace g.char then
      if broken && g.column < indent && g.char == '\t' then none
      else (plain? flow indent true broken r).map (Piece.space g.char).cons
    else if inGap && (g.char == '#' || (broken && !flow && g.column < indent)
        || Input.atMarker (g :: r)) then
      some ([], broken, g :: r)
    else if flow && colonIsUnclear (g :: r) then none
    else if (g.char == ':' && Input.atGap r) || (flow && isFlowIndicator g.char) then
      some ([], broken, g :: r)
    else (plain? flow indent false false r).map (Piece.solid g.char).cons

end Handbook.Yaml
