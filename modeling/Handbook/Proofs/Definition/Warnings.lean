import Handbook.Proofs.Definition.Pruning

namespace Handbook

def Tree.items (t : Tree) : List Tree :=
  match t.untagged with
  | .sequence items => items
  | _ => []

def Property.refusal (name : Text) (found : Shape) : Property → Discard
  | .signature | .examples => .notTextOrSequence name found
  | .returns | .help => .notText name found
  | .parameters => .notAMapping name found

namespace Reading

/-- A part of a command that can be left out by itself: a property, one item of a sequence, or one
field of a parameter. -/
inductive Part
  | property (name : Text) (value : Tree)
  | item (property : Text) (index : Nat) (value : Tree)
  | field (parameter : Text) (entry : Tree × Tree)

namespace Part

/-- Whether a part is left out and leaves a note. Null has nothing to leave out. -/
def isDiscarded : Part → Bool
  | .property name value =>
    value.shape ≠ .null && !(Property.called? name).any (·.accepts value.shape)
  | .item _ _ value => value.shape ≠ .text
  | .field _ entry => !isUsable entry

def discard : Part → Discard
  | .item name index value => .item name index value.shape
  | .field parameter entry => fieldDiscard parameter entry
  | .property name value =>
    match Property.called? name with
    | some g => g.refusal name value.shape
    | none => .unknownProperty name

def propertyNote (name : Text) (found : Shape) : Text :=
  match Property.called? name with
  | none => "ignored unknown property '" ++ name ++ "'"
  | some .signature | some .examples =>
    "discarded '" ++ name ++ "': expected a string or a sequence, found " ++ found.phrase
  | some .returns | some .help => "discarded '" ++ name ++ "': expected a string, found " ++ found.phrase
  | some .parameters => "discarded '" ++ name ++ "': expected a mapping, found " ++ found.phrase

/-- What is said of an item, which is counted from nought. -/
def itemNote (name : Text) (index : Nat) (found : Shape) : Text :=
  "dropped '" ++ name ++ "' item " ++ Text.ofNat index ++ ": expected a string, found " ++ found.phrase

/-- What is said of a field. A text in place of a kind is repeated, all else only by its shape. -/
def fieldNote (parameter : Text) (entry : Tree × Tree) : Text :=
  match entry.1.text?, entry.2.text? with
  | none, _ => "parameter '" ++ parameter ++ "': ignored non-string field"
  | some name, none =>
    "parameter '" ++ parameter ++ "': ignored field '" ++ name ++ "' (" ++ entry.2.shape.phrase ++ ")"
  | some name, some t =>
    if name = "type" then "parameter '" ++ parameter ++ "': " ++ ("unknown parameter type: " ++ t)
    else "parameter '" ++ parameter ++ "': ignored field '" ++ name ++ "' (" ++ "a string" ++ ")"

def note : Part → Text
  | .property name value => propertyNote name value.shape
  | .item name index value => itemNote name index value.shape
  | .field parameter entry => fieldNote parameter entry

theorem message_discard (part : Part) : part.discard.message = part.note := by
  cases part with
  | property name value =>
    rw [discard, note, propertyNote]
    cases Property.called? name with
    | none => rfl
    | some g => cases g <;> rfl
  | item name index value => rfl
  | field parameter entry =>
    rw [discard, note, fieldDiscard, fieldNote]
    cases entry.1.text? with
    | none => rfl
    | some name =>
      cases entry.2.text? with
      | none => rfl
      | some t =>
        dsimp only
        split_ifs <;> rfl

end Part

def innerParts (name : Text) (value : Tree) : Option Property → List Part
  | some .signature | some .examples => value.items.zipIdx.map fun i => .item name i.2 i.1
  | some .parameters => value.entries.flatMap fun p => p.2.entries.map (.field (entryName p))
  | _ => []

def propertyParts (e : Tree × Tree) : List Part :=
  .property (entryName e) e.2 :: innerParts (entryName e) e.2 (Property.called? (entryName e))

/-- The parts of a command as they are written. -/
def commandParts (value : Tree) : List Part := value.entries.flatMap propertyParts

def discards (parts : List Part) : List Discard := (parts.filter Part.isDiscarded).map Part.discard

variable {part : Part} {parts : List Part}

theorem discards_cons_of_pos (h : part.isDiscarded = true) :
    discards (part :: parts) = part.discard :: discards parts := by
  rw [discards, List.filter_cons_of_pos h, List.map_cons, discards]

theorem discards_cons_of_neg (h : part.isDiscarded = false) :
    discards (part :: parts) = discards parts := by
  rw [discards, List.filter_cons_of_neg (by rw [h]; decide), discards]

theorem discards_flatMap {α : Type} (parts : α → List Part) (as : List α) :
    discards (as.flatMap parts) = as.flatMap fun a => discards (parts a) := by
  unfold discards
  rw [List.filter_flatMap, List.map_flatMap]

theorem discards_field (parameter : Text) (fields : List (Tree × Tree)) :
    discards (fields.map (.field parameter)) = fieldDiscards parameter fields := by
  unfold discards fieldDiscards
  rw [List.filter_map, List.map_map]
  rfl

theorem textItems_snd (property : Text) (index : Nat) (items : List Tree) :
    (textItems property index items).2 =
      discards ((items.zipIdx index).map fun i => .item property i.2 i.1) := by
  induction items generalizing index with
  | nil => rfl
  | cons t ts ih =>
    rw [textItems, List.zipIdx_cons, List.map_cons]
    split
    · next s hs =>
      have htext : t.shape = .text := Tree.shape_eq_text_iff.2 ⟨s, hs⟩
      rw [discards_cons_of_neg (by simp [Part.isDiscarded, htext])]
      exact ih (index + 1)
    · next hother =>
      have hno : t.shape ≠ .text := by
        intro h
        obtain ⟨s, hs⟩ := Tree.shape_eq_text_iff.1 h
        exact hother s hs
      rw [discards_cons_of_pos (by simp [Part.isDiscarded, hno]), ← ih (index + 1)]
      rfl

variable (name : Text) (value : Tree)

theorem valueDiscards_eq (g : Property) :
    valueDiscards name value (some g) =
      (if g.accepts value.shape then [] else [g.refusal name value.shape]) ++
      discards (innerParts name value (some g)) := by
  have hne := value.untagged_ne_tagged
  have hparameters (es : List (Tree × Tree)) : es.flatMap parameterDiscards =
      discards (es.flatMap fun p => p.2.entries.map (.field (entryName p))) := by
    rw [discards_flatMap]
    congr
    funext p
    rw [discards_field, parameterDiscards_eq]
  unfold valueDiscards innerParts Tree.items Tree.entries
  rw [← Tree.shape_untagged value]
  cases hv : value.untagged with
  | tagged tag inner => exact absurd hv (hne tag inner)
  | sequence items => cases g <;> first | rfl | exact textItems_snd name 0 items
  | mapping es => cases g <;> first | rfl | exact hparameters es
  | _ => cases g <;> rfl

theorem innerParts_of_null {value : Tree} (h : value.shape = .null) (g? : Option Property) :
    innerParts name value g? = [] := by
  unfold innerParts Tree.items Tree.entries
  rw [Tree.shape_eq_null_iff.1 h]
  cases g? with
  | none => rfl
  | some g => cases g <;> rfl

theorem propertyDiscards_eq (e : Tree × Tree) :
    propertyDiscards e = discards (propertyParts e) := by
  unfold propertyDiscards propertyParts
  by_cases hnull : e.2.shape = .null
  · rw [if_pos hnull, innerParts_of_null _ hnull,
      discards_cons_of_neg (by simp [Part.isDiscarded, hnull])]
    rfl
  rw [if_neg hnull]
  cases hg : Property.called? (entryName e) with
  | none =>
    rw [discards_cons_of_pos (by simp [Part.isDiscarded, hnull, hg]), Part.discard, hg]
    rfl
  | some g =>
    rw [valueDiscards_eq]
    cases haccepts : g.accepts e.2.shape with
    | true =>
      rw [discards_cons_of_neg (by simp [Part.isDiscarded, hg, haccepts])]
      rfl
    | false =>
      rw [discards_cons_of_pos (by simp [Part.isDiscarded, hnull, hg, haccepts]), Part.discard, hg]
      rfl

theorem discards_commandParts (value : Tree) :
    discards (commandParts value) = value.entries.flatMap propertyDiscards := by
  rw [commandParts, discards_flatMap]
  congr
  funext e
  rw [propertyDiscards_eq]

end Reading

namespace Definitions

open Reading

variable (language label : Text)

/-- The warnings of a source that can be read are the notes on the discarded parts of its commands in
the order in which they are written, and each names the source and the command. -/
theorem warnings_in_order {tree : Tree} {read : Definitions}
    (h : ofTree language label tree = .ok read) :
    read.warnings.map Warning.message = tree.entries.flatMap (fun e =>
      ((commandParts e.2).filter Part.isDiscarded).map fun part =>
        label ++ ": command '" ++ entryName e ++ "': " ++ part.note) ∧
    ∀ m ∈ read.warnings.map Warning.message, ∃ e ∈ tree.entries, ∃ name, e.1.text? = some name ∧
      (label ++ ": command '" ++ name ++ "'" : Text) <+: m := by
  obtain ⟨hfaults, rfl⟩ := (ofTree_eq_ok_iff language label).1 h
  have hmessages : (ofEntries language label tree.entries).warnings.map Warning.message =
      tree.entries.flatMap fun e => ((commandParts e.2).filter Part.isDiscarded).map fun part =>
        label ++ ": command '" ++ entryName e ++ "': " ++ part.note := by
    unfold ofEntries entryWarnings
    simp only [← Part.message_discard]
    rw [List.map_flatMap]
    congr
    funext e
    rw [← discards_commandParts, discards, List.map_map, List.map_map]
    rfl
  refine ⟨hmessages, fun m hm => ?_⟩
  rw [hmessages] at hm
  obtain ⟨e, he, hm⟩ := List.mem_flatMap.1 hm
  obtain ⟨part, -, rfl⟩ := List.mem_map.1 hm
  -- an entry of a tree that can be read has a name
  obtain ⟨name, hname, -⟩ := entryFaults_eq_nil_iff.1 ((Tree.faults_eq_nil_iff.1 hfaults).2 e he)
  refine ⟨e, he, name, hname, ": " ++ part.note, ?_⟩
  have hquote : ("': " : Text) = "'" ++ ": " := rfl
  rw [entryName, hname, Option.getD_some, hquote]
  simp only [List.append_assoc]

/-- Two commands. Of the second one part of each kind is left out, some of them from a property and
from a parameter in whose place another comes. -/
def flawed : Tree :=
  .mapping [(.text "rest", .null), (.tagged "cmd" (.text "every"), .mapping [
    (.text "volume", .number (.int 3)), (.text "help", .bool true), (.text "parm", .sequence []),
    (.text "formattedCommand", .number (.int 7)), (.text "cmd", .sequence [.text "every n f", .null]),
    (.text "params", .mapping [
      (.text "n", .mapping [(.text "type", .text "string"), (.null, .text "cycles")]),
      (.tagged "name" (.text "n"), .mapping [(.text "editable", .text "yes"), (.text "doc", .null)]),
      (.text "f", .null)]),
    (.text "doc", .text "Applies f."), (.text "returns", .null)])]

def flawedRead : Definitions where
  descriptions := [⟨"rest", [⟨"rest ?"⟩], [], none, none, []⟩,
    ⟨"every", [⟨"every n f"⟩], [.plain "n" "", .plain "f" ""], none, some ⟨"Applies f."⟩, []⟩]
  warnings := [.unknownProperty "volume", .notText "help" .boolean, .notAMapping "parm" .sequence,
    .notTextOrSequence "formattedCommand" .number, .item "cmd" 1 .null, .kind "n" ⟨"string"⟩,
    .fieldName "n", .field "n" "editable" .text, .field "n" "doc" .null].map
    (Warning.mk "defs" "every")

def flawedMessages : List Text :=
  ["defs: command 'every': ignored unknown property 'volume'",
    "defs: command 'every': discarded 'help': expected a string, found a boolean",
    "defs: command 'every': discarded 'parm': expected a mapping, found a sequence",
    "defs: command 'every': discarded 'formattedCommand': expected a string or a sequence, " ++
      "found a number",
    "defs: command 'every': dropped 'cmd' item 1: expected a string, found null",
    "defs: command 'every': parameter 'n': unknown parameter type: string",
    "defs: command 'every': parameter 'n': ignored non-string field",
    "defs: command 'every': parameter 'n': ignored field 'editable' (a string)",
    "defs: command 'every': parameter 'n': ignored field 'doc' (null)"]

theorem warnings_flawed :
    ofTree "haskell" "defs" flawed = .ok flawedRead ∧
    flawedRead.warnings.map Warning.message = flawedMessages ∧
    flawedMessages = flawed.entries.flatMap (fun e =>
      ((commandParts e.2).filter Part.isDiscarded).map fun part =>
        "defs" ++ ": command '" ++ entryName e ++ "': " ++ part.note) ∧
    ∀ m ∈ flawedMessages, ∃ e ∈ flawed.entries, ∃ name,
      e.1.text? = some name ∧ ("defs" ++ ": command '" ++ name ++ "'" : Text) <+: m := by
  have hread : ofTree "haskell" "defs" flawed = .ok flawedRead := rfl
  have hmessages : flawedRead.warnings.map Warning.message = flawedMessages := by decide +kernel
  have hordered := warnings_in_order "haskell" "defs" hread
  rw [hmessages] at hordered
  exact ⟨hread, hmessages, hordered⟩

end Definitions

end Handbook
