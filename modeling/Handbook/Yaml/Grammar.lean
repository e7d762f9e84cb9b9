import Handbook.Yaml.Node
import Handbook.Yaml.Tokens

namespace Handbook.Yaml

structure Parsing where
  tokens : List Token
  /-- Tag handles and what they stand for. -/
  handles : List (Text × Text)
  /-- Anchor names and their slots. -/
  anchors : List (Text × Nat)

abbrev Parser := StateT Parsing Option

namespace Parser

def peek : Parser (Option Token) := do return (← get).tokens.head?

def advance : Parser Unit := modify fun p => { p with tokens := p.tokens.drop 1 }

def accept (t : Token) : Parser Bool := do
  if (← peek) = some t then
    advance
    return true
  else return false

def expect (t : Token) : Parser Unit := do
  if !(← accept t) then failure

def nextIs (ts : List Token) : Parser Bool := do
  match ← peek with
  | some t => return ts.contains t
  | none => return false

/-- The slot for an anchor: the number of names so far. A name that comes again takes a new slot. -/
def newSlot (name : Text) : Parser Nat := do
  let p ← get
  let slot := p.anchors.length
  set { p with anchors := (name, slot) :: p.anchors.filter (·.1 ≠ name) }
  return slot

def slotOf (name : Text) : Parser Nat := do
  match (← get).anchors.lookup name with
  | some slot => return slot
  | none => failure

def fullTag (handle suffix : Text) : Parser Text := do
  if handle = [] then return suffix
  else match (← get).handles.lookup handle with
    | some expansion => return expansion ++ suffix
    | none => failure

def anchor : Parser (Option Text) := do
  match ← peek with
  | some (.anchor name) => do advance; return some name
  | _ => return none

def tag : Parser (Option Text) := do
  match ← peek with
  | some (.tag handle suffix) => do
    advance
    return some (← fullTag handle suffix)
  | _ => return none

def properties : Parser (Option Nat × Option Text) := do
  let first ← anchor
  let t ← tag
  let name ← match first with
    | some n => pure (some n)
    | none => if t.isSome then anchor else pure none
  match name with
  | some n => return (some (← newSlot n), t)
  | none => return (none, t)

/-- The tag `!` says no more of a scalar than its style does. -/
def scalarTag (t : Option Text) : Option Text := if t = some ['!'] then none else t

mutual

/-- A node. `block` says whether a block collection may start here, `indentless` whether the items of
a sequence may stand at the column of the keys around it. -/
def node : Nat → (block indentless : Bool) → Parser Node
  | 0, _, _ => failure
  | n + 1, block, indentless => do
    match ← peek with
    | some (.reference name) => do
      advance
      return .reference (← slotOf name)
    | _ => do
      let (slot, t) ← properties
      match ← peek with
      | some (.scalar style text) => do
        advance
        return .scalar slot (scalarTag t) style text
      | some .flowSequenceStart => do
        advance
        return .sequence slot t (← flowItems n true)
      | some .flowMappingStart => do
        advance
        return .mapping slot t (← flowEntries n true)
      | next =>
        if indentless ∧ next = some .blockEntry then
          return .sequence slot t (← indentlessItems n)
        else if block ∧ next = some .blockSequenceStart then do
          advance
          return .sequence slot t (← blockItems n)
        else if block ∧ next = some .blockMappingStart then do
          advance
          return .mapping slot t (← blockEntries n)
        else if slot.isSome ∨ t.isSome then return .scalar slot t .plain []
        else failure

def blockItems : Nat → Parser (List Node)
  | 0 => failure
  | n + 1 => do
    if ← accept .blockEntry then
      let item ← if ← nextIs [.blockEntry, .blockEnd] then pure Node.absent else node n true false
      return item :: (← blockItems n)
    else
      expect .blockEnd
      return []

def indentlessItems : Nat → Parser (List Node)
  | 0 => failure
  | n + 1 => do
    if ← accept .blockEntry then
      let item ← if ← nextIs [.blockEntry, .key, .value, .blockEnd] then pure Node.absent
        else node n true false
      return item :: (← indentlessItems n)
    else return []

def blockEntries : Nat → Parser (List (Node × Node))
  | 0 => failure
  | n + 1 => do
    if ← accept .key then
      let key ← if ← nextIs [.key, .value, .blockEnd] then pure Node.absent else node n true true
      let value ← if ← accept .value then
          if ← nextIs [.key, .value, .blockEnd] then pure Node.absent else node n true true
        else pure Node.absent
      return (key, value) :: (← blockEntries n)
    else
      expect .blockEnd
      return []

def flowItems : Nat → (first : Bool) → Parser (List Node)
  | 0, _ => failure
  | n + 1, first => do
    if ← accept .flowSequenceEnd then return []
    else
      if !first then expect .flowEntry
      if ← accept .flowSequenceEnd then return []
      else
        let item ← if ← accept .key then singlePair n else node n false false
        return item :: (← flowItems n false)

/-- A mapping of one entry, written as a pair in a flow sequence. Where its key is left out, the token
behind the question mark is passed over whatever it is. -/
def singlePair : Nat → Parser Node
  | 0 => failure
  | n + 1 => do
    let key ← if ← nextIs [.value, .flowEntry, .flowSequenceEnd] then
        advance
        pure Node.absent
      else node n false false
    let value ← if ← accept .value then
        if ← nextIs [.flowEntry, .flowSequenceEnd] then pure Node.absent else node n false false
      else pure Node.absent
    return .mapping none none [(key, value)]

def flowEntries : Nat → (first : Bool) → Parser (List (Node × Node))
  | 0, _ => failure
  | n + 1, first => do
    if ← accept .flowMappingEnd then return []
    else
      if !first then expect .flowEntry
      if ← accept .flowMappingEnd then return []
      else if ← accept .key then
        let key ← if ← nextIs [.value, .flowEntry, .flowMappingEnd] then pure Node.absent
          else node n false false
        let value ← if ← accept .value then
            if ← nextIs [.flowEntry, .flowMappingEnd] then pure Node.absent else node n false false
          else pure Node.absent
        return (key, value) :: (← flowEntries n false)
      else
        let key ← node n false false
        return (key, .absent) :: (← flowEntries n false)

end

/-- The directives before a document: a version at most once, and a handle at most once each. -/
def directives : Nat → (version : Bool) → Parser Unit
  | 0, _ => failure
  | n + 1, version => do
    match ← peek with
    | some (.version major minor) => do
      if version ∨ major ≠ 1 ∨ (minor ≠ 1 ∧ minor ≠ 2) then failure
      advance
      directives n true
    | some (.handle name expansion) => do
      let p ← get
      if (p.handles.lookup name).isSome then failure
      set { p with handles := (name, expansion) :: p.handles }
      advance
      directives n version
    | _ => return ()

def standardHandles : List (Text × Text) := [(['!'], ['!']), (['!', '!'], "tag:yaml.org,2002:")]

def content (n : Nat) : Parser Node := do
  match ← peek with
  | none => return .absent
  | some (.version _ _) => return .absent
  | some (.handle _ _) => return .absent
  | some .documentStart => return .absent
  | some .documentEnd => return .absent
  | some _ => node n true false

def endMarks : Nat → Parser Unit
  | 0 => failure
  | n + 1 => do
    if ← accept .documentEnd then endMarks n else return ()

def document (n : Nat) : Parser Document := do
  let addStandard : Parser Unit :=
    modify fun p => { p with handles := p.handles ++ standardHandles }
  match ← peek with
  | none => return ⟨none⟩
  | first => do
    let explicit := match first with
      | some (.version _ _) => true
      | some (.handle _ _) => true
      | some .documentStart => true
      | _ => false
    let root ← if explicit then do
        directives n false
        expect .documentStart
        addStandard
        content n
      else do
        addStandard
        node n true false
    endMarks n
    if (← peek).isSome then failure
    return ⟨some root⟩

end Parser

/-- The document in a text. Each step of the grammar passes over a token or ends a collection, so four
steps for each token are enough. -/
def Document.ofText? (t : Text) : Option Document := do
  let tokens ← tokens? t
  let (d, _) ← (Parser.document (4 * tokens.length + 4)).run ⟨tokens, [], []⟩
  return d

end Handbook.Yaml
