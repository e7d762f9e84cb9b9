import Handbook.Settings.Basic

namespace Handbook.Settings

open Yaml

section

variable (anchored : List (Nat × Node))

def text? (node : Node) : Option Text :=
  match node.follow? anchored with
  | some (.scalar _ _ _ t) => some t
  | _ => none

/-- Quoted words are no truth values, unless a tag in front of a literal block says so. -/
def flag? (node : Node) : Option Bool :=
  match node.follow? anchored with
  | some (.scalar _ _ .plain t) => Yaml.bool? t
  | some (.scalar _ (some tag) .literal t) =>
    if tag = "tag:yaml.org,2002:bool" then Yaml.bool? t else none
  | _ => none

def texts? (node : Node) : Option (List Text) :=
  match node.follow? anchored with
  | some (.sequence _ _ items) => items.mapM (text? anchored)
  | some n => if n.isAbsent then some [] else none
  | none => none

/-- The name of a level, or nothing under a tag with its name. -/
def level? (node : Node) : Option Detail :=
  match node.follow? anchored with
  | some (.scalar _ tag style t) =>
    match tag.map tagKind with
    | some (.named name) =>
      if style = .plain ∧ (t = [] ∨ isNull t) then Detail.ofName? name else none
    | _ => Detail.ofName? t
  | _ => none

def fields? (node : Node) : Option (List (Text × Node)) :=
  match node.follow? anchored with
  | some (.mapping _ _ entries) =>
    entries.mapM fun e => (text? anchored e.1).map fun name => (name, e.2)
  | some n => if n.isAbsent then some [] else none
  | none => none

end

/-- The value of the only field with this name, if `read` takes it; `standard` if there is none. -/
def field? {α : Type} (fields : List (Text × Node)) (name : Text) (read : Node → Option α)
    (standard : α) : Option α :=
  match fields.filter (·.1 = name) with
  | [] => some standard
  | [f] => read f.2
  | _ => none

def levelIn? (anchored : List (Nat × Node)) (standard : Detail) (node : Node) : Option Detail := do
  field? (← fields? anchored node) "level" (level? anchored) standard

def ofDocument? (d : Document) : Option Settings := do
  let anchored := d.anchored
  let fields ← match d.root with
    | some root => fields? anchored root
    | none => some []
  return {
    version := ← field? fields "version" (text? anchored) standard.version
    bundled := ← field? fields "bundled" (flag? anchored) standard.bundled
    sources := ← field? fields "sources" (texts? anchored) standard.sources
    hoverLevel := ← field? fields "hover" (levelIn? anchored standard.hoverLevel) standard.hoverLevel
    completionLevel := ← field? fields "completion" (levelIn? anchored standard.completionLevel)
      standard.completionLevel
    marker := ← field? fields "comment_marker" (text? anchored) standard.marker
    language := ← field? fields "code_language" (text? anchored) standard.language }

def ofYaml? (t : Text) : Option Settings := (Document.ofText? t).bind ofDocument?

/-- The settings in a file, with relative sources as seen from its folder. A folder can be opened but
not read as settings. -/
def load [Yaml.Wording] (disk : Disk) (path : Text) : Except SettingsError Settings :=
  match disk path with
  | .error .isAFolder => .error (.yaml FileError.isAFolder.message)
  | .error e => .error (.unreadable e)
  | .ok bytes =>
    match (Disk.decode? bytes).bind ofYaml? with
    | none => .error (.yaml (Yaml.Wording.settings bytes))
    | some s =>
      let s := match Path.parent? path with
        | some base => s.basedAt base
        | none => s
      match s.flaw? with
      | some e => .error (.flaw e)
      | none => .ok s

end Handbook.Settings
