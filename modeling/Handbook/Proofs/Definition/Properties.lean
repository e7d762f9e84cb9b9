import Handbook.Proofs.Definition.Parameters

namespace Handbook

def Tree.texts? (t : Tree) : Option (List Text) :=
  match t.untagged with
  | .text s => some [s]
  | .sequence items => some (items.filterMap Tree.text?)
  | _ => none

theorem Tree.texts?_eq_none {t : Tree} (htext : t.shape ≠ .text) (hsequence : t.shape ≠ .sequence) :
    t.texts? = none := by
  unfold texts?
  split
  · next s hs => exact absurd (shape_eq_text_iff.2 ⟨s, hs⟩) htext
  · next items hitems => exact absurd (shape_eq_sequence_iff.2 ⟨items, hitems⟩) hsequence
  · rfl

namespace Property

/-- Whether an entry is a property of this group. Null says nothing. -/
def concerns (g : Property) (e : Tree × Tree) : Bool :=
  e.1.text?.bind called? = some g && e.2.shape != .null

def last? (g : Property) (ps : List (Tree × Tree)) : Option Tree :=
  (ps.filter g.concerns).getLast?.map Prod.snd

theorem last?_concat (g : Property) (ps : List (Tree × Tree)) (e : Tree × Tree) :
    g.last? (ps ++ [e]) = if g.concerns e then some e.2 else g.last? ps := by
  unfold last?
  rw [List.filter_append]
  cases h : g.concerns e with
  | true => simp [h]
  | false => simp [h]

theorem concerns_eq_decide {e : Tree × Tree} (hvalue : e.2.shape ≠ .null) (g : Property) :
    g.concerns e = decide (called? (Reading.entryName e) = some g) := by
  unfold concerns Reading.entryName
  cases e.1.text? with
  | some name => simp [hvalue]
  | none => cases g <;> rfl

theorem concerns_of_null {e : Tree × Tree} (hvalue : e.2.shape = .null) (g : Property) :
    g.concerns e = false := by
  unfold concerns
  simp [hvalue]

end Property

/-- What the properties of a command say, group by group. -/
def Draft.ofProperties (ps : List (Tree × Tree)) : Draft where
  signature := (Property.signature.last? ps).bind Tree.texts?
  parameters := (Property.parameters.last? ps).bind Tree.parameters?
  returns := (Property.returns.last? ps).bind Tree.text?
  help := (Property.help.last? ps).bind Tree.text?
  examples := ((Property.examples.last? ps).bind Tree.texts?).getD []

theorem Draft.ofProperties_concat (ps : List (Tree × Tree)) (e : Tree × Tree) :
    let d := ofProperties ps
    ofProperties (ps ++ [e]) =
      ⟨if Property.signature.concerns e then e.2.texts? else d.signature,
        if Property.parameters.concerns e then e.2.parameters? else d.parameters,
        if Property.returns.concerns e then e.2.text? else d.returns,
        if Property.help.concerns e then e.2.text? else d.help,
        if Property.examples.concerns e then e.2.texts?.getD [] else d.examples⟩ := by
  simp only [ofProperties, Property.last?_concat]
  split_ifs <;> rfl

namespace Reading

theorem textValue_fst (property : Text) (t : Tree) :
    (textValue property t.untagged).1 = t.text? := by
  unfold Tree.text?
  cases t.untagged <;> rfl

theorem textItems_fst (property : Text) (index : Nat) (items : List Tree) :
    (textItems property index items).1 = items.filterMap Tree.text? := by
  induction items generalizing index with
  | nil => rfl
  | cons t ts ih =>
    rw [textItems, List.filterMap_cons, Tree.text?, ← ih (index + 1)]
    cases t.untagged <;> rfl

theorem textList_fst (property : Text) (t : Tree) :
    (textList property t.untagged).1 = t.texts? := by
  unfold Tree.texts?
  cases t.untagged with
  | sequence items => exact congrArg some (textItems_fst property 0 items)
  | _ => rfl

def valueDiscards (name : Text) (t : Tree) : Option Property → List Discard
  | some .signature | some .examples => (textList name t.untagged).2
  | some .returns | some .help => (textValue name t.untagged).2
  | some .parameters =>
    match t.untagged with
    | .mapping es => es.flatMap parameterDiscards
    | _ => [.notAMapping name t.shape]
  | none => [.unknownProperty name]

/-- What is left out of a property, which may be the whole of it. -/
def propertyDiscards (e : Tree × Tree) : List Discard :=
  if e.2.shape = .null then []
  else valueDiscards (entryName e) e.2 (Property.called? (entryName e))

theorem parameters_eq (command name : Text) (t : Tree) :
    parameters command name t.untagged =
      okUnless (t.entries.flatMap (parameterFaults command))
        (t.parameters?, valueDiscards name t (some .parameters)) := by
  unfold Tree.entries Tree.parameters? valueDiscards
  rw [← Tree.shape_untagged t]
  cases t.untagged with
  | mapping es => exact parameters_of_mapping command name es
  | _ => rfl

theorem property_eq (command : Text) (before : List (Tree × Tree)) (e : Tree × Tree) :
    property command (Draft.ofProperties before, before.flatMap propertyDiscards) e =
      okUnless (propertyFaults command e)
        (Draft.ofProperties (before ++ [e]), (before ++ [e]).flatMap propertyDiscards) := by
  rw [List.flatMap_append, List.flatMap_singleton, Draft.ofProperties_concat]
  generalize Draft.ofProperties before = draft
  generalize before.flatMap propertyDiscards = notes
  cases hkey : e.1.untagged with
  | text name =>
    have htext : e.1.text? = some name := Tree.text?_eq_some_iff.2 hkey
    have hname : entryName e = name := by rw [entryName, htext]; rfl
    have hfaults : propertyFaults command e = if Property.called? name = some .parameters
        then e.2.entries.flatMap (parameterFaults command) else [] := by
      simp only [propertyFaults, htext, Property.called?_eq_parameters_iff]
    rw [hfaults, property, propertyDiscards, hname]
    simp only [hkey, Property.ofName?_eq_called?]
    split
    · next hnull =>
      have hshape : e.2.shape = .null := Tree.shape_eq_null_iff.2 hnull
      have hentries : e.2.entries = [] := by rw [Tree.entries, hnull]
      simp [hshape, hentries, Property.concerns_of_null]
    · next hvalue =>
      have hshape : e.2.shape ≠ .null := fun h => hvalue (Tree.shape_eq_null_iff.1 h)
      simp only [Property.concerns_eq_decide hshape, hname, if_neg hshape]
      -- the group of the name decides which field is set, and whether there can be a fault
      cases Property.called? name with
      | none => simp [valueDiscards]
      | some g =>
        cases g with
        | parameters => simp [parameters_eq]
        | _ => simp [valueDiscards, textValue_fst, textList_fst]
  | _ =>
    unfold property propertyFaults Tree.text?
    rw [← Tree.shape_untagged e.1, hkey]
    rfl

theorem draft_eq (command : Text) (ps : List (Tree × Tree)) :
    draft command ps = okUnless (ps.flatMap (propertyFaults command))
      (Draft.ofProperties ps, ps.flatMap propertyDiscards) :=
  foldlM_eq_okUnless (property_eq command) ps

end Reading

end Handbook
