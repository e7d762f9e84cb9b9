import Handbook.Definition.Reading
import Handbook.Proofs.Tree.Stripping

namespace Handbook

open Handbook.Tree

namespace Reading

theorem textValue_stripped (property : Text) (t : Tree) :
    textValue property t.untagged.stripped = textValue property t.untagged := by
  obtain h | ⟨items, h⟩ | ⟨es, h⟩ := t.stripped_cases <;> rw [h] <;> rfl

theorem textItems_stripped (property : Text) (index : Nat) (items : List Tree) :
    textItems property index (strippedItems items) = textItems property index items := by
  induction items generalizing index with
  | nil => rfl
  | cons t ts ih =>
    rw [strippedItems, textItems, textItems, ih, untagged_stripped, shape_stripped]
    obtain h | ⟨items, h⟩ | ⟨es, h⟩ := t.stripped_cases <;> rw [h] <;> rfl

theorem textList_stripped (property : Text) (t : Tree) :
    textList property t.untagged.stripped = textList property t.untagged := by
  obtain h | ⟨items, h⟩ | ⟨es, h⟩ := t.stripped_cases
  · rw [h]
  · rw [h, stripped, textList, textList, textItems_stripped]
  · rw [h]
    rfl

theorem field_stripped (read : Noted Parameter) (e : Tree × Tree) :
    field read (strippedEntry e) = field read e := by
  unfold field
  rw [untagged_stripped, untagged_stripped]
  obtain hkey | ⟨items, hkey⟩ | ⟨es, hkey⟩ := e.1.stripped_cases
  · obtain h | ⟨items, h⟩ | ⟨es, h⟩ := e.2.stripped_cases
    · rw [hkey, h]
    · rw [hkey, h]
      rfl
    · rw [hkey, h]
      rfl
  · rw [hkey]
    rfl
  · rw [hkey]
    rfl

theorem parameter_stripped (name : Text) (value : Tree) :
    parameter name value.stripped = parameter name value := by
  unfold parameter
  rw [untagged_stripped]
  obtain h | ⟨items, h⟩ | ⟨fields, h⟩ := value.stripped_cases
  · rw [h]
  · rw [h]
    exact congrArg (Parameter.plain name ·, []) (plainText_stripped (sequence items))
  · rw [h, stripped, strippedEntries_eq_map]
    simp only [List.foldl_map, field_stripped]

theorem parameterEntry_stripped (command : Text) (read : Noted (List Parameter))
    (e : Tree × Tree) :
    parameterEntry command read (strippedEntry e) = parameterEntry command read e := by
  unfold parameterEntry
  simp only [untagged_stripped, parameter_stripped]
  obtain h | ⟨items, h⟩ | ⟨es, h⟩ := e.1.stripped_cases <;> rw [h] <;> rfl

theorem parameters_stripped (command property : Text) (t : Tree) :
    parameters command property t.untagged.stripped = parameters command property t.untagged := by
  obtain h | ⟨items, h⟩ | ⟨es, h⟩ := t.stripped_cases
  · rw [h]
  · rw [h]
    rfl
  · rw [h, stripped, strippedEntries_eq_map, parameters, parameters]
    simp only [List.foldlM_map, parameterEntry_stripped]

theorem property_stripped (command : Text) (read : Noted Draft) (e : Tree × Tree) :
    property command read (strippedEntry e) = property command read e := by
  unfold property
  rw [untagged_stripped, untagged_stripped]
  obtain hkey | ⟨items, hkey⟩ | ⟨es, hkey⟩ := e.1.stripped_cases
  · rw [hkey]
    cases e.1.untagged with
    | text name =>
      have hlist := textList_stripped name e.2
      have htext := textValue_stripped name e.2
      have hparameters := parameters_stripped command name e.2
      obtain h | ⟨items, h⟩ | ⟨es, h⟩ := e.2.stripped_cases
      · rw [h]
      · rw [h, stripped] at hlist htext hparameters ⊢
        simp only [hlist, htext, hparameters]
      · rw [h, stripped] at hlist htext hparameters ⊢
        simp only [hlist, htext, hparameters]
    | _ => rfl
  · rw [hkey]
    rfl
  · rw [hkey]
    rfl

theorem draft_stripped (command : Text) (ps : List (Tree × Tree)) :
    draft command (strippedEntries ps) = draft command ps := by
  rw [draft, draft, strippedEntries_eq_map]
  simp only [List.foldlM_map, property_stripped]

theorem command_stripped (language name : Text) (value : Tree) :
    command language name value.stripped = command language name value := by
  unfold command
  rw [untagged_stripped]
  obtain h | ⟨items, h⟩ | ⟨ps, h⟩ := value.stripped_cases
  · rw [h]
  · rw [h]
    rfl
  · rw [h, stripped]
    simp only [draft_stripped]

end Reading

namespace Definitions

open Reading

variable (language label : Text)

theorem entry_stripped (read : Definitions) (e : Tree × Tree) :
    entry language label read (strippedEntry e) = entry language label read e := by
  unfold entry
  simp only [untagged_stripped, command_stripped]
  obtain h | ⟨items, h⟩ | ⟨es, h⟩ := e.1.stripped_cases <;> rw [h] <;> rfl

/-- A tree is read as if it had no tags. -/
theorem ofTree_stripped (tree : Tree) :
    ofTree language label tree.stripped = ofTree language label tree := by
  unfold ofTree
  rw [untagged_stripped]
  obtain h | ⟨items, h⟩ | ⟨es, h⟩ := tree.stripped_cases
  · rw [h]
  · rw [h]
    rfl
  · rw [h, stripped, strippedEntries_eq_map]
    simp only [List.foldlM_map, entry_stripped]

/-- Trees that differ in their tags only are read alike, with the same warnings or the same fault. -/
theorem ofTree_eq_of_stripped_eq {s t : Tree} (h : s.stripped = t.stripped) :
    ofTree language label s = ofTree language label t := by
  rw [← ofTree_stripped language label s, h, ofTree_stripped]

/-- A command with tags on keys and values, whose parameter `n` comes again under a tag. -/
def everyTagged : Tree :=
  .mapping [(.text "every", .tagged "v1" (.mapping [
    (.text "params", .mapping [(.text "n", .text "cycles"),
      (.tagged "name" (.text "n"), .tagged "new" (.mapping [(.text "editable", .bool true),
        (.tagged "key" (.text "type"), .text "ratio")]))]),
    (.text "examples", .sequence [.tagged "a" (.tagged "b" (.text "d1")), .number (.int 3)])]))]

def everyTaggedElsewhere : Tree :=
  .tagged "defs" (.mapping [(.tagged "command" (.text "every"), .mapping [
    (.tagged "key" (.text "params"), .tagged "map" (.mapping [
      (.tagged "old" (.text "n"), .tagged "help" (.text "cycles")),
      (.text "n", .mapping [(.text "editable", .tagged "flag" (.bool true)),
        (.text "type", .tagged "kind" (.text "ratio"))])])),
    (.text "examples", .tagged "code" (.sequence [.text "d1", .tagged "c" (.number (.int 3))]))])])

def everyRead : Definitions where
  descriptions := [⟨"every", [⟨"every n"⟩], [⟨"n", ⟨[]⟩, true, none⟩], none, none,
    [Markup.codeBlock "haskell" "d1"]⟩]
  warnings := [.kind "n" ⟨"ratio"⟩, .item "examples" 1 .number].map (Warning.mk "defs" "every")

theorem ofTree_everyTagged :
    everyTagged.stripped = everyTaggedElsewhere.stripped ∧
    ofTree "haskell" "defs" everyTagged = ofTree "haskell" "defs" everyTaggedElsewhere ∧
    ofTree "haskell" "defs" everyTagged = .ok everyRead :=
  have hsame : everyTagged.stripped = everyTaggedElsewhere.stripped := rfl
  ⟨hsame, ofTree_eq_of_stripped_eq "haskell" "defs" hsame, rfl⟩

end Definitions

end Handbook
