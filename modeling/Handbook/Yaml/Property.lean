import Handbook.Yaml.Flow
import Handbook.Yaml.Token

namespace Handbook.Yaml

def isNameChar (c : Char) : Bool := c.isAlphanum || c == '_' || c == '-'

def name (input : Input) : Text × Input :=
  (Input.chars (input.takeWhile fun g => isNameChar g.char),
    input.dropWhile fun g => isNameChar g.char)

def endsAnchor : Input → Bool
  | [] => true
  | g :: r => Input.atGap (g :: r)
    || ['?', ':', ',', ']', '}', '%', '@', '\x60'].contains g.char

def anchorName? (input : Input) : Option (Text × Input) :=
  let (n, rest) := name input
  if n ≠ [] ∧ endsAnchor rest then some (n, rest) else none

/-- The handle of a tag: `!`, `!!` or a name between two of them. With no second `!` it is `!` and the
name behind it. -/
def handle? (input : Input) : Option (Text × Input) :=
  match input with
  | ⟨'!', _, _⟩ :: r =>
    let (n, rest) := name r
    match rest with
    | ⟨'!', _, _⟩ :: s => some ('!' :: n ++ ['!'], s)
    | _ => some ('!' :: n, rest)
  | _ => none

def isUriChar (verbatim : Bool) (c : Char) : Bool :=
  isNameChar c || [';', '/', '?', ':', '@', '&', '=', '+', '$', '.', '%', '!', '~', '*', '\'', '(',
    ')'].contains c || (verbatim && [',', '[', ']'].contains c)

def utf8Width? (byte : Nat) : Option Nat :=
  if byte < 0x80 then some 1
  else if 0xC0 ≤ byte ∧ byte < 0xE0 then some 2
  else if 0xE0 ≤ byte ∧ byte < 0xF0 then some 3
  else if 0xF0 ≤ byte ∧ byte < 0xF8 then some 4
  else none

def escapedByte? : Text → Option (Nat × Text)
  | '%' :: h :: l :: r => do
    let hi ← hexDigit? h
    let lo ← hexDigit? l
    return (16 * hi + lo, r)
  | _ => none

def escapedBytes? : Nat → Text → Option (List Nat × Text)
  | 0, t => some ([], t)
  | n + 1, t => do
    let (byte, r) ← escapedByte? t
    let (bytes, r) ← escapedBytes? n r
    return (byte :: bytes, r)

/-- The character encoded by escaped bytes at the start of the text, and the rest. -/
def escapedChars? (t : Text) : Option (Text × Text) := do
  let (byte, _) ← escapedByte? t
  let width ← utf8Width? byte
  let (bytes, r) ← escapedBytes? width t
  let s ← String.fromUTF8? ⟨(bytes.map UInt8.ofNat).toArray⟩
  return (s.toList, r)

def unescapeUri? (t : Text) : Option Text :=
  match t with
  | [] => some []
  | '%' :: r =>
    match escapedChars? ('%' :: r) with
    | some (cs, rest) =>
      if rest.length < r.length then (unescapeUri? rest).map (cs ++ ·) else none
    | none => none
  | c :: r => (unescapeUri? r).map (c :: ·)
termination_by t.length
decreasing_by all_goals simp_all; try omega

/-- A run of characters that a tag may have behind `start`; together they are not empty. An escaped
null character ends what the run means. -/
def uri? (verbatim : Bool) (start : Text) (input : Input) : Option (Text × Input) := do
  let run := Input.chars (input.takeWhile fun g => isUriChar verbatim g.char)
  let rest := input.dropWhile fun g => isUriChar verbatim g.char
  let t ← unescapeUri? run
  if start = [] ∧ run = [] then none else return (start ++ t.takeWhile (· ≠ '\x00'), rest)

/-- A tag may be followed by a gap and, in a flow collection, by a comma. -/
def endsTag (flow : Bool) : Input → Bool
  | g :: r => Input.atGap (g :: r) || (flow && g.char == ',')
  | [] => true

def verbatimTag? (input : Input) : Option (Token × Input) :=
  match uri? true [] input with
  | some (t, ⟨'>', _, _⟩ :: r) => some (.tag [] t, r)
  | _ => none

def handledTag? (input : Input) : Option (Token × Input) :=
  match handle? input with
  | none => none
  | some (h, r) =>
    if 1 < h.length ∧ h.getLast? = some '!' then (uri? false [] r).map fun p => (.tag h p.1, p.2)
    else if h.length = 1 ∧ !(r.head?.any fun g => isUriChar false g.char) then
      some (.tag [] ['!'], r)
    else (uri? false (h.drop 1) r).map fun p =>
      (if p.1 = [] then .tag [] ['!'] else .tag ['!'] p.1, p.2)

def tag? (flow : Bool) (input : Input) : Option (Token × Input) :=
  let read := match input with
    | _ :: ⟨'<', _, _⟩ :: r => verbatimTag? r
    | _ => handledTag? input
  read.filter fun p => endsTag flow p.2

/-- A decimal number of at most nine digits. -/
def versionNumber? (input : Input) : Option (Nat × Input) :=
  let ds := Input.chars (input.takeWhile fun g => g.char.isDigit)
  if ds = [] ∨ 9 < ds.length then none
  else some (ds.foldl (fun n c => 10 * n + (c.toNat - '0'.toNat)) 0,
    input.dropWhile fun g => g.char.isDigit)

def version? (input : Input) : Option (Token × Input) :=
  match versionNumber? (Input.skipSpaces input) with
  | some (major, ⟨'.', _, _⟩ :: r) =>
    (versionNumber? r).map fun minor => (.version major minor.1, minor.2)
  | _ => none

def handleDirective? (input : Input) : Option (Token × Input) :=
  match handle? (Input.skipSpaces input) with
  | some (h, g :: r) =>
    if isSpace g.char ∧ (h = ['!'] ∨ (1 < h.length ∧ h.getLast? = some '!')) then
      ((uri? true [] (Input.skipSpaces r)).filter fun p => Input.atGap p.2).map fun p =>
        (.handle h p.1, p.2)
    else none
  | _ => none

def directive? (input : Input) : Option (Token × Input) := do
  let (n, r) := name input
  let (token, rest) ←
    if !Input.atGap r then none
    else if n = "YAML" then version? r
    else if n = "TAG" then handleDirective? r
    else none
  let line ← Input.nextLine? rest
  return (token, line)

end Handbook.Yaml
