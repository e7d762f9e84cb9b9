import Handbook.Yaml.Flow

namespace Handbook.Yaml

inductive Chomping
  | strip
  | clip
  | keep
  deriving DecidableEq, Repr

def chomping? (g : Glyph) : Option Chomping :=
  if g.char = '+' then some .keep else if g.char = '-' then some .strip else none

def increment? (g : Glyph) : Option Nat :=
  if g.char.isDigit ∧ g.char ≠ '0' then some (g.char.toNat - '0'.toNat) else none

/-- The two indicators, in either order. The zero indentation is refused further on, as a character
that has no place there. -/
def blockHeader (input : Input) : Chomping × Option Nat × Input :=
  match input with
  | [] => (.clip, none, [])
  | g :: r =>
    match chomping? g, increment? g with
    | some c, _ =>
      match r with
      | h :: s => if (increment? h).isSome then (c, increment? h, s) else (c, none, r)
      | [] => (c, none, [])
    | none, some n =>
      match r with
      | h :: s =>
        match chomping? h with
        | some c => (c, some n, s)
        | none => (.clip, some n, r)
      | [] => (.clip, some n, [])
    | none, none => (.clip, none, input)

def widest? : Nat → Input → Option Nat
  | widest, [] => some widest
  | widest, g :: r =>
    if isBreak g.char then widest? (max widest g.column) r
    else if g.char = ' ' then widest? (max widest (g.column + 1)) r
    else if g.char = '\t' then none
    else some (max widest g.column)

def blockPieces? (indent : Nat) : (inLine : Bool) → Input → Option (List Piece × Input)
  | _, [] => some ([], [])
  | inLine, g :: r =>
    if isBreak g.char then (blockPieces? indent false r).map (Piece.lineBreak g.char).cons
    else if inLine || g.column == indent then
      (blockPieces? indent true r).map (Piece.solid g.char).cons
    else if g.char = ' ' then blockPieces? indent false r
    else if g.char = '\t' then none
    else some ([], g :: r)

/-- The breaks between a line and the next one. In folded scalars they fold as in flow scalars,
unless one of the lines starts with a space. -/
def blockGap (folded : Bool) (spaced : Option Bool) (next : Char) (breaks : Text) : Text :=
  match spaced, breaks with
  | some false, '\n' :: more =>
    if folded ∧ !isSpace next then if more = [] then [' '] else more else '\n' :: more
  | _, _ => breaks

/-- The text up to the last line and the breaks behind it. `spaced` tells of the last line whether it
starts with a space. -/
def blockText (folded : Bool) :
    (spaced : Option Bool) → (inLine : Bool) → (breaks : Text) → List Piece →
      Text × Option Bool × Text
  | spaced, _, breaks, [] => ([], spaced, breaks)
  | spaced, inLine, breaks, .solid c :: ps =>
    if inLine then
      let rest := blockText folded spaced true [] ps
      (c :: rest.1, rest.2)
    else
      let rest := blockText folded (some (isSpace c)) true [] ps
      (blockGap folded spaced c breaks ++ c :: rest.1, rest.2)
  | spaced, _, breaks, .lineBreak c :: ps => blockText folded spaced false (breaks ++ [c]) ps
  | spaced, inLine, breaks, _ :: ps => blockText folded spaced inLine breaks ps

/-- The breaks that stay at the end; before any line there is no break to clip to. -/
def Chomping.tail (chomping : Chomping) (anyLine : Bool) (breaks : Text) : Text :=
  match chomping with
  | .strip => []
  | .clip => if anyLine then breaks.take 1 else []
  | .keep => breaks

def block? (folded : Bool) (parent : Option Nat) (input : Input) : Option (Text × Input) := do
  let (chomping, increment, rest) := blockHeader input
  let rest ← Input.nextLine? rest
  let least := match parent with
    | some column => column + 1
    | none => 0
  let indent ← match increment with
    | some n => some (match parent with
        | some column => column + n
        | none => n)
    | none => (widest? 0 rest).map fun w => max (max w least) 1
  let (pieces, rest) ← blockPieces? indent false rest
  let (text, spaced, breaks) := blockText folded none false [] pieces
  return (text ++ chomping.tail spaced.isSome breaks, rest)

end Handbook.Yaml
