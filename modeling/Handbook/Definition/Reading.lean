import Handbook.Command.Description
import Handbook.Definition.Fault

namespace Handbook

inductive Property
  | signature
  | returns
  | help
  | parameters
  | examples
  deriving DecidableEq, Repr

namespace Property

def all : List Property := [signature, returns, help, parameters, examples]

def names : Property → List Text
  | signature => ["cmd", "formattedCommand"]
  | returns => ["return", "returns"]
  | help => ["help", "doc"]
  | parameters => ["parm", "param", "params", "parameters"]
  | examples => ["example", "examples"]

def ofName? (t : Text) : Option Property := all.find? (·.names.contains t)

end Property

namespace Reading

/-- A value together with what was discarded on the way to it. -/
abbrev Noted (α : Type) := α × List Discard

def textValue (property : Text) : Tree → Noted (Option Text)
  | .text t => (some t, [])
  | t => (none, [.notText property t.shape])

def textItems (property : Text) : Nat → List Tree → Noted (List Text)
  | _, [] => ([], [])
  | index, t :: ts =>
    let rest := textItems property (index + 1) ts
    match t.untagged with
    | .text s => (s :: rest.1, rest.2)
    | _ => (rest.1, .item property index t.shape :: rest.2)

def textList (property : Text) : Tree → Noted (Option (List Text))
  | .text t => (some [t], [])
  | .sequence items =>
    let read := textItems property 0 items
    (some read.1, read.2)
  | t => (none, [.notTextOrSequence property t.shape])

/-- One field of a parameter. A field that says nothing usable leaves the parameter as it is. -/
def field (read : Noted Parameter) (entry : Tree × Tree) : Noted Parameter :=
  let (p, notes) := read
  let value := entry.2.untagged
  match entry.1.untagged with
  | .text name =>
    let ignored : Noted Parameter := (p, notes ++ [.field p.name name value.shape])
    if name = "help" ∨ name = "doc" then
      match value with
      | .text t => ({ p with help := ⟨t⟩ }, notes)
      | _ => ignored
    else if name = "type" then
      match value with
      | .text t =>
        match ParameterKind.ofText t with
        | .ok k => ({ p with kind := some k }, notes)
        | .error e => (p, notes ++ [.kind p.name e])
      | _ => ignored
    else if name = "editable" then
      match value with
      | .bool b => ({ p with editable := b }, notes)
      | _ => ignored
    else ignored
  | _ => (p, notes ++ [.fieldName p.name])

def parameter (name : Text) (value : Tree) : Noted Parameter :=
  match value.untagged with
  | .mapping fields => fields.foldl field (Parameter.plain name [], [])
  | t => (Parameter.plain name t.plainText, [])

/-- A parameter takes the place of an earlier one of its name. -/
def place (p : Parameter) : List Parameter → List Parameter
  | [] => [p]
  | q :: qs => if q.name = p.name then p :: qs else q :: place p qs

def parameterEntry (command : Text) (read : Noted (List Parameter)) (entry : Tree × Tree) :
    Except Fault (Noted (List Parameter)) :=
  match entry.1.untagged with
  | .text name =>
    let p := parameter name entry.2
    .ok (place p.1 read.1, read.2 ++ p.2)
  | t => .error (.parameterName command t.shape)

def parameters (command property : Text) : Tree → Except Fault (Noted (Option (List Parameter)))
  | .mapping entries => do
    let read ← entries.foldlM (parameterEntry command) ([], [])
    return (some read.1, read.2)
  | t => .ok (none, [.notAMapping property t.shape])

/-- One property of a command. The last property with a meaning decides, and null says nothing. -/
def property (command : Text) (read : Noted Draft) (entry : Tree × Tree) :
    Except Fault (Noted Draft) :=
  let (draft, notes) := read
  match entry.1.untagged with
  | .text name =>
    match entry.2.untagged with
    | .null => .ok read
    | value =>
      match Property.ofName? name with
      | some .signature =>
        let v := textList name value
        .ok ({ draft with signature := v.1 }, notes ++ v.2)
      | some .returns =>
        let v := textValue name value
        .ok ({ draft with returns := v.1 }, notes ++ v.2)
      | some .help =>
        let v := textValue name value
        .ok ({ draft with help := v.1 }, notes ++ v.2)
      | some .parameters => do
        let v ← parameters command name value
        return ({ draft with parameters := v.1 }, notes ++ v.2)
      | some .examples =>
        let v := textList name value
        .ok ({ draft with examples := v.1.getD [] }, notes ++ v.2)
      | none => .ok (draft, notes ++ [.unknownProperty name])
  | t => .error (.propertyName command t.shape)

def draft (command : Text) (properties : List (Tree × Tree)) : Except Fault (Noted Draft) :=
  properties.foldlM (property command) (Draft.empty, [])

/-- One command. A text in place of a mapping names the command that is meant. -/
def command (language name : Text) (value : Tree) : Except Fault (Noted Description) :=
  let described := fun properties => do
    let read ← draft name properties
    return (read.1.describe language name, read.2)
  match value.untagged with
  | .text meant => .ok (Description.bare meant, [])
  | .null => described []
  | .mapping properties => described properties
  | t => .error (.commandValue name t.shape)

end Reading

structure Definitions where
  descriptions : List Description
  warnings : List Warning
  deriving DecidableEq, Repr

namespace Definitions

def empty : Definitions := ⟨[], []⟩

def entry (language label : Text) (read : Definitions) (e : Tree × Tree) :
    Except Fault Definitions :=
  match e.1.untagged with
  | .text name => do
    let c ← Reading.command language name e.2
    return ⟨read.descriptions ++ [c.1], read.warnings ++ c.2.map (Warning.mk label name)⟩
  | t => .error (.commandName t.shape)

/-- Reads the definitions of the source `label`, with examples in `language`. The first fault ends
the reading. -/
def ofTree (language label : Text) (tree : Tree) : Except Fault Definitions :=
  match tree.untagged with
  | .null => .ok empty
  | .mapping entries => entries.foldlM (entry language label) empty
  | t => .error (.notAMapping t.shape)

end Definitions

end Handbook
