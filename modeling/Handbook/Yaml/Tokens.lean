import Handbook.Yaml.Block
import Handbook.Yaml.Property

namespace Handbook.Yaml

/-- A place where a key may turn out to have started. -/
structure KeyStart where
  /-- Nothing but a key can start here. -/
  required : Bool
  /-- The number of tokens before it. -/
  tokens : Nat
  line : Nat
  column : Nat
  deriving DecidableEq, Repr

structure Scan where
  input : Input
  tokens : Array Token
  /-- The columns of the open blocks, innermost first. -/
  blocks : List Nat
  keyStart : Option KeyStart
  /-- The key starts outside each open flow collection, innermost first. -/
  outer : List (Option KeyStart)
  /-- Whether a key may start at the next token. -/
  keyAllowed : Bool

namespace Scan

def start (input : Input) : Scan := ⟨input, #[], [], none, [], true⟩

def flow (s : Scan) : Bool := !s.outer.isEmpty

def emit (s : Scan) (t : Token) : Scan := { s with tokens := s.tokens.push t }

/-- Passes over spaces, comments and breaks. Tabs count as spaces where no key may start. A new line
outside flow collections may start with a key. -/
def skipGap (flow : Bool) : (inComment keyAllowed : Bool) → Input → Bool × Input
  | _, keyAllowed, [] => (keyAllowed, [])
  | inComment, keyAllowed, g :: r =>
    if isBreak g.char then skipGap flow false (keyAllowed || !flow) r
    else if inComment || g.char == '#' then skipGap flow true keyAllowed r
    else if g.char = ' ' || (g.char == '\t' && (flow || !keyAllowed)) then
      skipGap flow false keyAllowed r
    else (keyAllowed, g :: r)

/-- A key and its colon stand on one line, at most 1024 characters apart. -/
def KeyStart.isStale (k : KeyStart) (g : Glyph) : Bool :=
  k.line < g.line || k.column + 1024 < g.column

def freshen (g : Glyph) : Option KeyStart → Option (Option KeyStart)
  | none => some none
  | some k => if KeyStart.isStale k g then if k.required then none else some none else some (some k)

def dropKey (s : Scan) : Option Scan :=
  match s.keyStart with
  | some k => if k.required then none else some { s with keyStart := none }
  | none => some s

def markKey (s : Scan) (g : Glyph) : Option Scan :=
  if s.keyAllowed then
    (s.dropKey).map fun s =>
      { s with keyStart := some {
          required := !s.flow && s.blocks.head? == some g.column
          tokens := s.tokens.size
          line := g.line
          column := g.column } }
  else some s

def closeTo (s : Scan) (column : Nat) : Scan :=
  if s.flow then s
  else
    let closed := s.blocks.takeWhile (column < ·)
    { s with
      blocks := s.blocks.dropWhile (column < ·)
      tokens := s.tokens ++ closed.map fun _ => Token.blockEnd }

def closeAll (s : Scan) : Scan :=
  if s.flow then s
  else { s with blocks := [], tokens := s.tokens ++ s.blocks.map fun _ => Token.blockEnd }

/-- Opens a block at a column, before the token with the given number, if it is indented further than
the blocks around it. -/
def openAt (s : Scan) (column number : Nat) (t : Token) : Scan :=
  if s.flow || !(s.blocks.head?.all (· < column)) then s
  else
    { s with
      blocks := column :: s.blocks
      tokens := s.tokens.insertIdxIfInBounds number t }

def marker (s : Scan) (t : Token) (rest : Input) : Option Scan :=
  (s.closeAll.dropKey).map fun s => { s.emit t with input := rest, keyAllowed := false }

def openFlow (s : Scan) (g : Glyph) (t : Token) (rest : Input) : Option Scan :=
  (s.markKey g).map fun s =>
    { s.emit t with
      input := rest
      outer := s.keyStart :: s.outer
      keyStart := none
      keyAllowed := true }

def closeFlow (s : Scan) (t : Token) (rest : Input) : Option Scan :=
  (s.dropKey).map fun s =>
    match s.outer with
    | k :: ks => { s.emit t with input := rest, keyStart := k, outer := ks, keyAllowed := false }
    | [] => { s.emit t with input := rest, keyAllowed := false }

def flowEntry (s : Scan) (rest : Input) : Option Scan :=
  (s.dropKey).map fun s => { s.emit .flowEntry with input := rest, keyAllowed := true }

def blockIndicator (s : Scan) (g : Glyph) (opens t : Token) (keyAfter : Bool) (rest : Input) :
    Option Scan :=
  if !s.flow && !s.keyAllowed then none
  else
    ((s.openAt g.column s.tokens.size opens).dropKey).map fun s =>
      { s.emit t with input := rest, keyAllowed := keyAfter }

/-- A colon: the value of the key that started before it, or of an empty key. -/
def value (s : Scan) (g : Glyph) (rest : Input) : Option Scan :=
  match s.keyStart with
  | some k =>
    let s := { s with tokens := s.tokens.insertIdxIfInBounds k.tokens Token.key, keyStart := none }
    let s := s.openAt k.column k.tokens .blockMappingStart
    some { s.emit .value with input := rest, keyAllowed := false }
  | none =>
    if !s.flow && !s.keyAllowed then none
    else
      let s := s.openAt g.column s.tokens.size .blockMappingStart
      some { s.emit .value with input := rest, keyAllowed := !s.flow }

def inKey (s : Scan) (g : Glyph) (read : Option (Token × Input)) : Option Scan := do
  let s ← s.markKey g
  let (t, rest) ← read
  return { s.emit t with input := rest, keyAllowed := false }

def blockScalar (s : Scan) (folded : Bool) (rest : Input) : Option Scan := do
  let s ← s.dropKey
  let (t, rest) ← block? folded s.blocks.head? rest
  return { s.emit (.scalar (if folded then .folded else .literal) t) with
    input := rest, keyAllowed := true }

def plainScalar (s : Scan) (g : Glyph) (input : Input) : Option Scan := do
  let s ← s.markKey g
  let indent := match s.blocks with
    | column :: _ => column + 1
    | [] => 0
  let (pieces, broken, rest) ← plain? s.flow indent false false input
  return { s.emit (.scalar .plain (foldPlain pieces)) with input := rest, keyAllowed := broken }

def isIndicator (c : Char) : Bool :=
  isFlowIndicator c || ['-', '?', ':', '#', '&', '*', '!', '|', '>', '\'', '"', '%', '@',
    '\x60'].contains c

/-- Whether a plain scalar starts with this character, seeing what comes after it. -/
def startsPlain (flow : Bool) (c : Char) (rest : Input) : Bool :=
  !(isSpace c || isIndicator c) || (c == '-' && !Input.atGap rest)
    || (!flow && (c == '?' || c == ':') && !Input.atGap rest)

def token (s : Scan) (g : Glyph) (rest : Input) : Option Scan :=
  let input := g :: rest
  if g.column = 0 ∧ g.char = '%' then do
    let s ← s.closeAll.dropKey
    let (t, rest) ← directive? rest
    return { s.emit t with input := rest, keyAllowed := false }
  else if Input.atTriple '-' input then s.marker .documentStart (rest.drop 2)
  else if Input.atTriple '.' input then s.marker .documentEnd (rest.drop 2)
  else match g.char with
    | '[' => s.openFlow g .flowSequenceStart rest
    | '{' => s.openFlow g .flowMappingStart rest
    | ']' => s.closeFlow .flowSequenceEnd rest
    | '}' => s.closeFlow .flowMappingEnd rest
    | ',' => s.flowEntry rest
    | c =>
      if c = '-' ∧ Input.atGap rest then
        s.blockIndicator g .blockSequenceStart .blockEntry true rest
      else if c = '?' ∧ (s.flow || Input.atGap rest) then
        s.blockIndicator g .blockMappingStart .key (!s.flow) rest
      else if c = ':' ∧ (s.flow || Input.atGap rest) then s.value g rest
      else if c = '*' then s.inKey g ((anchorName? rest).map fun p => (.reference p.1, p.2))
      else if c = '&' then s.inKey g ((anchorName? rest).map fun p => (.anchor p.1, p.2))
      else if c = '!' then s.inKey g (tag? s.flow input)
      else if c = '|' ∧ !s.flow then s.blockScalar false rest
      else if c = '>' ∧ !s.flow then s.blockScalar true rest
      else if c = '\'' then
        s.inKey g ((singleQuoted? rest).map fun p => (.scalar .quoted (foldQuoted p.1), p.2))
      else if c = '"' then
        s.inKey g ((doubleQuoted? rest).map fun p => (.scalar .quoted (foldQuoted p.1), p.2))
      else if startsPlain s.flow c rest then s.plainScalar g input
      else none

/-- All tokens of at most `n` steps, each of which passes over a character at least. -/
def run : Nat → Scan → Option (List Token)
  | 0, _ => none
  | n + 1, s =>
    let (keyAllowed, input) := skipGap s.flow false s.keyAllowed s.input
    let s := { s with keyAllowed, input }
    match input with
    | [] => (s.closeAll.dropKey).map (·.tokens.toList)
    | g :: rest => do
      let keyStart ← freshen g s.keyStart
      let outer ← s.outer.mapM (freshen g)
      let s := closeTo { s with keyStart, outer } g.column
      let s ← s.token g rest
      run n s

end Scan

def tokens? (t : Text) : Option (List Token) := do
  let input ← Input.ofText? t
  Scan.run (t.length + 1) (Scan.start input)

end Handbook.Yaml
