import Handbook.Tree.Mapping
import Handbook.Yaml.Grammar
import Handbook.Yaml.Scalar

namespace Handbook

namespace Yaml

def depthLimit : Nat := 128

/-- How often references may be followed, for each event of the document. -/
def referenceLimit : Nat := 100

def tagCollection (tag : Option Text) (t : Tree) : Tree :=
  match tag.map tagKind with
  | some (.named name) => .tagged name t
  | _ => t

def spend : StateT Nat Option Unit := do
  match ← get with
  | 0 => failure
  | n + 1 => set n

def follow (anchored : List (Nat × Node)) (node : Node) : StateT Nat Option Node := do
  match node with
  | .reference slot => do
    spend
    match anchored.lookup slot with
    | some target => return target
    | none => failure
  | target => return target

/-- A node as a tree, with collections at most `depth` deep and with repeated keys still in place. -/
def expand (anchored : List (Nat × Node)) : (depth : Nat) → Node → StateT Nat Option Tree
  | depth, node => do
    match ← follow anchored node, depth with
    | .scalar _ tag style text, _ => (scalarValue? tag style text : Option Tree)
    | .sequence _ tag items, depth + 1 => do
      return tagCollection tag (.sequence (← items.mapM (expand anchored depth)))
    | .mapping _ tag entries, depth + 1 => do
      return tagCollection tag (.mapping (← entries.mapM fun e => do
        return (← expand anchored depth e.1, ← expand anchored depth e.2)))
    | _, _ => failure

def Document.tree? (d : Document) : Option Tree :=
  match d.root with
  | none => some .null
  | some root => ((expand d.anchored depthLimit root).run (referenceLimit * d.size)).map (·.1)

end Yaml

/-- In what words a text is refused that holds no tree, and a file that holds no settings. They are those
of a library, and nothing but the messages depends on them. -/
class Yaml.Wording where
  tree : Text → Text
  settings : ByteArray → Text

abbrev Yaml.Wording.plain : Yaml.Wording where
  tree _ := "not valid YAML"
  settings _ := "not valid YAML"

def Tree.ofYaml? (t : Text) : Option Tree :=
  (Yaml.Document.ofText? t).bind fun d => d.tree?.map settled

end Handbook
