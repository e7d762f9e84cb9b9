import Handbook.Yaml.Scalar

namespace Handbook.Yaml

/-- Characters that need no escape: no control characters, no byte order mark, and none outside the
basic plane. -/
def isPrintable (c : Char) : Bool :=
  let n := c.toNat
  n == 0x0A || (0x20 ≤ n && n ≤ 0x7E) || (0xA0 ≤ n && n ≤ 0xFFFD && n ≠ 0xFEFF)

def isWrittenBreak (c : Char) : Bool := isBreak c || c == '\r' || c == '\u0085'

def isGap (c : Char) : Bool := isSpace c || isWrittenBreak c

def hasPair (p q : Char → Bool) : Text → Bool
  | c :: d :: r => (p c && q d) || hasPair p q (d :: r)
  | _ => false

def endsIn (p : Char → Bool) (t : Text) : Bool := t.getLast?.any p

def startsIn (p : Char → Bool) (t : Text) : Bool := t.head?.any p

/-- Whether a colon ends a word, or a number sign starts one. -/
def hasInnerIndicator (t : Text) : Bool :=
  hasPair (· == ':') isGap t || endsIn (· == ':') t || hasPair isGap (· == '#') t

def startsAsIndicator : Text → Bool
  | [] => false
  | c :: r =>
    ['#', ',', '[', ']', '{', '}', '&', '*', '!', '|', '>', '\'', '"', '%', '@', '\x60'].contains c
      || (['?', ':', '-'].contains c && (r.isEmpty || startsIn isGap r))

def looksLikeMarker (t : Text) : Bool :=
  ['-', '-', '-'].isPrefixOf t || ['.', '.', '.'].isPrefixOf t

def allowsBlock (t : Text) : Bool :=
  t.all isPrintable && !endsIn (· == ' ') t && !hasPair (· == ' ') isWrittenBreak t

def allowsSingleQuotes (t : Text) : Bool :=
  t.all isPrintable && !hasPair (· == ' ') isWrittenBreak t && !hasPair isWrittenBreak (· == ' ') t

def allowsPlain (t : Text) : Bool :=
  allowsSingleQuotes t && !t.any isWrittenBreak && !startsIn (· == ' ') t && !endsIn (· == ' ') t
    && !looksLikeMarker t && !startsAsIndicator t && !hasInnerIndicator t

/-- Whether a plain scalar is read as something else than text, here or by older readers. -/
def readsOtherwise (t : Text) : Bool :=
  hasLeadingZero t || match plainValue? t with
    | some (.text _) => false
    | _ => true

def indentation : Text := [' ', ' ']

/-- Each character by `write`, the first one behind a break with the indentation in front. -/
def writeLines (write : Char → Text) : (afterBreak : Bool) → Text → Text
  | _, [] => []
  | afterBreak, c :: r =>
    if isWrittenBreak c then c :: writeLines write true r
    else (if afterBreak then indentation else []) ++ write c ++ writeLines write false r

def singleQuotedText (t : Text) : Text :=
  ['\''] ++ writeLines (fun c => if c = '\'' then ['\'', '\''] else [c]) false t
    ++ (if endsIn isWrittenBreak t then indentation else []) ++ ['\'']

def hexText (width n : Nat) : Text :=
  let ds := (Nat.toDigits 16 n).map Char.toUpper
  List.replicate (width - ds.length) '0' ++ ds

def escapeText (c : Char) : Text :=
  let n := c.toNat
  match c with
  | '\x00' => ['0']
  | '\x07' => ['a']
  | '\x08' => ['b']
  | '\t' => ['t']
  | '\n' => ['n']
  | '\x0b' => ['v']
  | '\x0c' => ['f']
  | '\r' => ['r']
  | '\x1b' => ['e']
  | '"' => ['"']
  | '\\' => ['\\']
  | '\u0085' => ['N']
  | '\u2028' => ['L']
  | '\u2029' => ['P']
  | _ =>
    if n ≤ 0xFF then 'x' :: hexText 2 n
    else if n ≤ 0xFFFF then 'u' :: hexText 4 n
    else 'U' :: hexText 8 n

def doubleQuotedText (t : Text) : Text :=
  ['"'] ++ t.flatMap (fun c =>
    if !isPrintable c || isWrittenBreak c || c == '"' || c == '\\' then '\\' :: escapeText c
    else [c]) ++ ['"']

/-- The indicators of a literal block: one for an indentation that cannot be seen, one for breaks at
the end other than a single one. -/
def blockIndicators (t : Text) : Text :=
  (if startsIn (fun c => c == ' ' || isWrittenBreak c) t then ['2'] else [])
    ++ (if !endsIn isWrittenBreak t then ['-']
        else if t.length = 1 ∨ endsIn isWrittenBreak t.dropLast then ['+'] else [])

def literalText (t : Text) : Text :=
  ['|'] ++ blockIndicators t ++ ['\n'] ++ writeLines (fun c => [c]) true t

/-- A text as a scalar. Texts of several lines are literal blocks if they can be. -/
def scalarText (t : Text) : Text :=
  if t.contains '\n' then if allowsBlock t then literalText t else doubleQuotedText t
  else if readsOtherwise t || !allowsPlain t then
    if allowsSingleQuotes t then singleQuotedText t else doubleQuotedText t
  else t

def scalarLine (start t : Text) : Text :=
  let line := start ++ ' ' :: scalarText t
  if endsIn isBreak line then line else line ++ ['\n']

end Handbook.Yaml
