import Handbook.Proofs.Definition.Outcome
import Handbook.Proofs.Tree.Editing

namespace Handbook

namespace Reading

def prunedParameter (value : Tree) : Tree := value.withEntries (·.filter isUsable)

def prunedValue (value : Tree) : Property → Tree
  | .signature | .examples => value.withItems (·.filter (·.shape = .text))
  | .parameters => value.withEntries (·.map fun e => (e.1, prunedParameter e.2))
  | .returns | .help => value

end Reading

def Property.accepts : Property → Shape → Bool
  | .signature, found | .examples, found => found = .text || found = .sequence
  | .returns, found | .help, found => found = .text
  | .parameters, found => found = .mapping

namespace Reading

/-- A property without the parts that are left out, or nothing if all of it is. -/
def prunedProperty? (e : Tree × Tree) : Option (Tree × Tree) :=
  if e.2.shape = .null then some e
  else match Property.called? (entryName e) with
    | some g => if g.accepts e.2.shape then some (e.1, prunedValue e.2 g) else none
    | none => none

def prunedCommand (value : Tree) : Tree := value.withEntries (·.filterMap prunedProperty?)

end Reading

/-- A tree of definitions without the properties, items and fields that are left out. -/
def Tree.pruned (tree : Tree) : Tree :=
  tree.withEntries (·.map fun e => (e.1, Reading.prunedCommand e.2))

namespace Reading

theorem parameter_pruned (name : Text) (value : Tree) :
    parameter name (prunedParameter value) = ((parameter name value).1, []) := by
  unfold parameter prunedParameter
  rw [Tree.untagged_withEntries]
  have hne := value.untagged_ne_tagged
  cases h : value.untagged with
  | tagged tag inner => exact absurd h (hne tag inner)
  | mapping fields =>
    have hkept : fieldDiscards name (fields.filter isUsable) = [] :=
      fieldDiscards_eq_nil_iff.2 fun e he => List.of_mem_filter he
    change (fields.filter isUsable).foldl field _ = ((fields.foldl field _).1, [])
    rw [foldl_field, foldl_field, ofFields_filter, hkept]
  | _ => rfl

theorem parameterList_pruned (es : List (Tree × Tree)) :
    parameterList (es.map fun e => (e.1, prunedParameter e.2)) = parameterList es := by
  unfold parameterList
  rw [List.foldl_map]
  simp only [entryName, parameter_pruned]

theorem textItems_pruned (property : Text) (index : Nat) (items : List Tree) :
    (textItems property index (items.filter (·.shape = .text))).2 = [] := by
  induction items generalizing index with
  | nil => rfl
  | cons t ts ih =>
    by_cases h : t.shape = .text
    · obtain ⟨s, hs⟩ := Tree.shape_eq_text_iff.1 h
      rw [List.filter_cons_of_pos (by simpa using h), textItems, hs]
      exact ih (index + 1)
    · rw [List.filter_cons_of_neg (by simpa using h)]
      exact ih index

theorem texts?_pruned (t : Tree) :
    (t.withItems (·.filter (·.shape = .text))).texts? = t.texts? := by
  fun_induction t.withItems (·.filter (·.shape = .text)) with
  | case1 items =>
    have htexts : (items.filter (·.shape = .text)).filterMap Tree.text? =
        items.filterMap Tree.text? := by
      rw [List.filterMap_filter]
      apply List.filterMap_congr
      intro item _
      by_cases hitem : item.shape = .text
      · simp [hitem]
      · have hnone : item.text? = none := Tree.text?_eq_none_iff.2 hitem
        simp [hitem, hnone]
    exact congrArg some htexts
  | case2 tag t ih => exact ih
  | case3 => rfl

theorem parameters?_pruned (t : Tree) :
    (prunedValue t .parameters).parameters? = t.parameters? := by
  change (t.withEntries (·.map fun e => (e.1, prunedParameter e.2))).parameters? = t.parameters?
  fun_induction t.withEntries (·.map fun e => (e.1, prunedParameter e.2)) with
  | case1 es => exact congrArg some (parameterList_pruned es)
  | case2 tag t ih => exact ih
  | case3 => rfl

theorem shape_prunedValue (value : Tree) (g : Property) :
    (prunedValue value g).shape = value.shape := by
  cases g with
  | signature => exact value.shape_withItems _
  | examples => exact value.shape_withItems _
  | parameters => exact value.shape_withEntries _
  | returns => rfl
  | help => rfl

theorem textList_pruned {value : Tree} (h : value.shape = .text ∨ value.shape = .sequence)
    (name : Text) :
    (textList name (value.withItems (·.filter (·.shape = .text))).untagged).2 = [] := by
  rw [Tree.untagged_withItems]
  obtain htext | hsequence := h
  · obtain ⟨s, hs⟩ := Tree.shape_eq_text_iff.1 htext
    rw [hs]
    rfl
  · obtain ⟨items, hitems⟩ := Tree.shape_eq_sequence_iff.1 hsequence
    rw [hitems]
    exact textItems_pruned name 0 items

theorem parameterDiscards_pruned (e : Tree × Tree) :
    parameterDiscards (e.1, prunedParameter e.2) = [] := by
  rw [parameterDiscards, parameter_pruned]

/-- Nothing is left out of what stays of a value. -/
theorem valueDiscards_pruned {g : Property} {value : Tree} (h : g.accepts value.shape = true)
    (name : Text) : valueDiscards name (prunedValue value g) (some g) = [] := by
  have htext (hshape : value.shape = .text) : (textValue name value.untagged).2 = [] := by
    obtain ⟨s, hs⟩ := Tree.shape_eq_text_iff.1 hshape
    rw [hs]
    rfl
  cases g with
  | signature => exact textList_pruned (by simpa [Property.accepts] using h) name
  | examples => exact textList_pruned (by simpa [Property.accepts] using h) name
  | returns => exact htext (by simpa [Property.accepts] using h)
  | help => exact htext (by simpa [Property.accepts] using h)
  | parameters =>
    have hshape : value.shape = .mapping := by simpa [Property.accepts] using h
    obtain ⟨es, hes⟩ := Tree.shape_eq_mapping_iff.1 hshape
    unfold valueDiscards prunedValue
    rw [Tree.untagged_withEntries, hes]
    apply List.flatMap_eq_nil_iff.2
    intro p hp
    obtain ⟨e, -, rfl⟩ := List.mem_map.1 hp
    exact parameterDiscards_pruned e

/-- A property stays as it is, stays in part or does not stay. -/
theorem prunedProperty?_eq_some_iff {e p : Tree × Tree} :
    prunedProperty? e = some p ↔ (e.2.shape = .null ∧ p = e) ∨
      (e.2.shape ≠ .null ∧ ∃ g, Property.called? (entryName e) = some g ∧
        g.accepts e.2.shape = true ∧ p = (e.1, prunedValue e.2 g)) := by
  unfold prunedProperty?
  by_cases hnull : e.2.shape = .null
  · simp [hnull, eq_comm (a := p)]
  · cases Property.called? (entryName e) with
    | none => simp [hnull]
    | some g => simp [hnull, eq_comm (a := p)]

theorem propertyDiscards_pruned {e p : Tree × Tree} (h : prunedProperty? e = some p) :
    propertyDiscards p = [] := by
  obtain ⟨hnull, rfl⟩ | ⟨hvalue, g, hg, haccepts, rfl⟩ := prunedProperty?_eq_some_iff.1 h
  · exact if_pos hnull
  · have hname : entryName (e.1, prunedValue e.2 g) = entryName e := rfl
    unfold propertyDiscards
    rw [shape_prunedValue, if_neg hvalue, hname, hg]
    exact valueDiscards_pruned haccepts (entryName e)

theorem prunedParameter_eq_self {e : Tree × Tree} (h : parameterDiscards e = []) :
    prunedParameter e.2 = e.2 := by
  apply Tree.withEntries_eq_self
  rw [parameterDiscards_eq] at h
  exact List.filter_eq_self.2 (fieldDiscards_eq_nil_iff.1 h)

theorem shape_of_textItems {property : Text} {index : Nat} {items : List Tree}
    (h : (textItems property index items).2 = []) : ∀ t ∈ items, t.shape = .text := by
  induction items generalizing index with
  | nil => simp
  | cons t ts ih =>
    rw [textItems] at h
    cases hv : t.untagged with
    | text s =>
      rw [hv] at h
      exact List.forall_mem_cons.2 ⟨Tree.shape_eq_text_iff.2 ⟨s, hv⟩, ih h⟩
    | _ =>
      rw [hv] at h
      exact absurd h (by simp)

theorem prunedTexts_eq_self {name : Text} {value : Tree}
    (h : (textList name value.untagged).2 = []) :
    value.withItems (·.filter (·.shape = .text)) = value := by
  fun_induction value.withItems (·.filter (·.shape = .text)) with
  | case1 items =>
    have hnotes : (textItems name 0 items).2 = [] := h
    have hall := shape_of_textItems hnotes
    exact congrArg Tree.sequence (List.filter_eq_self.2 (by simpa using hall))
  | case2 tag t ih => exact congrArg (Tree.tagged tag) (ih h)
  | case3 => rfl

theorem prunedValue_eq_self {g : Property} {name : Text} {value : Tree}
    (h : valueDiscards name value (some g) = []) :
    g.accepts value.shape = true ∧ prunedValue value g = value := by
  -- a value that leaves no note has a shape that the field takes
  have htexts (hnone : (textList name value.untagged).2 = []) :
      value.shape = .text ∨ value.shape = .sequence := by
    rw [← Tree.shape_untagged]
    cases hv : value.untagged with
    | text s => exact .inl rfl
    | sequence items => exact .inr rfl
    | _ =>
      rw [hv] at hnone
      exact absurd hnone (by simp [textList])
  have htext (hnone : (textValue name value.untagged).2 = []) : value.shape = .text := by
    rw [← Tree.shape_untagged]
    cases hv : value.untagged with
    | text s => rfl
    | _ =>
      rw [hv] at hnone
      exact absurd hnone (by simp [textValue])
  cases g with
  | signature => exact ⟨by simpa [Property.accepts] using htexts h, prunedTexts_eq_self h⟩
  | examples => exact ⟨by simpa [Property.accepts] using htexts h, prunedTexts_eq_self h⟩
  | returns => exact ⟨by simpa [Property.accepts] using htext h, rfl⟩
  | help => exact ⟨by simpa [Property.accepts] using htext h, rfl⟩
  | parameters =>
    simp only [valueDiscards] at h
    split at h
    · next es hes =>
      rw [List.flatMap_eq_nil_iff] at h
      refine ⟨by simpa [Property.accepts] using Tree.shape_eq_mapping_iff.2 ⟨es, hes⟩, ?_⟩
      apply Tree.withEntries_eq_self
      rw [Tree.entries_of_mapping hes]
      exact Tree.map_values_eq_self fun e he => prunedParameter_eq_self (h e he)
    · exact absurd h (by simp)

theorem prunedProperty?_eq_self {e : Tree × Tree} (h : propertyDiscards e = []) :
    prunedProperty? e = some e := by
  unfold propertyDiscards at h
  by_cases hnull : e.2.shape = .null
  · exact if_pos hnull
  · rw [if_neg hnull] at h
    cases hg : Property.called? (entryName e) with
    | none =>
      rw [hg] at h
      exact absurd h (by simp [valueDiscards])
    | some g =>
      rw [hg] at h
      obtain ⟨haccepts, hvalue⟩ := prunedValue_eq_self h
      exact prunedProperty?_eq_some_iff.2 (.inr ⟨hnull, g, hg, haccepts, by rw [hvalue]⟩)

theorem prunedCommand_eq_self {value : Tree} (h : value.entries.flatMap propertyDiscards = []) :
    prunedCommand value = value := by
  rw [List.flatMap_eq_nil_iff] at h
  apply Tree.withEntries_eq_self
  rw [List.filterMap_congr fun e he => prunedProperty?_eq_self (h e he), List.filterMap_some]

end Reading

end Handbook
