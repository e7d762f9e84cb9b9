import Handbook.Yaml.Token

namespace Handbook.Yaml

/-- Anchored nodes have a slot each, and a reference stands for the last node in its slot. -/
inductive Node
  | reference (slot : Nat)
  | scalar (slot : Option Nat) (tag : Option Text) (style : Style) (text : Text)
  | sequence (slot : Option Nat) (tag : Option Text) (items : List Node)
  | mapping (slot : Option Nat) (tag : Option Text) (entries : List (Node × Node))

namespace Node

def slot? : Node → Option Nat
  | reference _ => none
  | scalar slot _ _ _ => slot
  | sequence slot _ _ => slot
  | mapping slot _ _ => slot

def tag? : Node → Option Text
  | reference _ => none
  | scalar _ tag _ _ => tag
  | sequence _ tag _ => tag
  | mapping _ tag _ => tag

def absent : Node := scalar none none .plain []

def isAbsent : Node → Bool
  | scalar _ _ .plain [] => true
  | _ => false

mutual

def all : Node → List Node
  | sequence slot tag items => sequence slot tag items :: allItems items
  | mapping slot tag entries => mapping slot tag entries :: allEntries entries
  | node => [node]

def allItems : List Node → List Node
  | [] => []
  | n :: ns => n.all ++ allItems ns

def allEntries : List (Node × Node) → List Node
  | [] => []
  | (k, v) :: es => k.all ++ v.all ++ allEntries es

end

/-- Scalars and references count once, collections at their start and at their end. -/
def weight : Node → Nat
  | sequence _ _ _ => 2
  | mapping _ _ _ => 2
  | _ => 1

end Node

/-- A document: its nodes in order, the root first. Without nodes it is empty. -/
structure Document where
  root : Option Node

namespace Document

def nodes (d : Document) : List Node := (d.root.map Node.all).getD []

def size (d : Document) : Nat := d.nodes.foldl (fun n node => n + node.weight) 0

/-- The anchored nodes, the last one first. -/
def anchored (d : Document) : List (Nat × Node) :=
  (d.nodes.filterMap fun n => n.slot?.map fun slot => (slot, n)).reverse

end Document

/-- The node that is meant, in a document with these anchored nodes. -/
def Node.follow? (anchored : List (Nat × Node)) : Node → Option Node
  | .reference slot => anchored.lookup slot
  | node => some node

end Handbook.Yaml
