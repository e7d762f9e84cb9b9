import Handbook.Proofs.Definition.Outcome

namespace Handbook

/-- A description of `command` by these properties. Each field has its own group of names, and the
last property of the group decides: if its value has a shape that the field takes, it is the field,
and else there is none. -/
structure Description.Reflects (d : Description) (language command : Text)
    (ps : List (Tree × Tree)) : Prop where
  name : d.name = command
  returns : d.returns = ((Property.returns.last? ps).bind Tree.text?).map Markup.mk
  help : d.help = ((Property.help.last? ps).bind Tree.text?).map Markup.mk
  parameters : d.parameters = ((Property.parameters.last? ps).bind Tree.parameters?).getD []
  examples : d.examples =
    (((Property.examples.last? ps).bind Tree.texts?).getD []).map (Markup.codeBlock language)
  /-- Lines that the source gives. -/
  given : ∀ l ls, (Property.signature.last? ps).bind Tree.texts? = some (l :: ls) →
    d.signature = (l :: ls).map Markup.mk
  /-- A line made from the names of the parameters, if only there is a list of them. -/
  listed : ((Property.signature.last? ps).bind Tree.texts?).getD [] = [] →
    ((Property.parameters.last? ps).bind Tree.parameters?).isSome →
    d.signature = [⟨command ++ " " ++ List.intercalate [' '] (d.parameters.map (·.name))⟩]
  unlisted : ((Property.signature.last? ps).bind Tree.texts?).getD [] = [] →
    (Property.parameters.last? ps).bind Tree.parameters? = none →
    d.signature = [⟨command ++ " ?"⟩]

/-- What an entry with a name says: another command by a text, the command of its name by properties
or by nothing at all. -/
def Definitions.Describes (language : Text) (e : Tree × Tree) (d : Description) : Prop :=
  ∃ name, e.1.untagged = .text name ∧
    match e.2.untagged with
    | .text meant => d = .bare meant
    | .null => d.Reflects language name []
    | .mapping ps => d.Reflects language name ps
    | _ => False

namespace Draft

theorem signatureLines_of_eq_cons {d : Draft} {l : Text} {ls : List Text}
    (h : d.signature = some (l :: ls)) (name : Text) : d.signatureLines name = l :: ls := by
  rw [signatureLines, h]

theorem signatureLines_of_eq_nil {d : Draft} (h : d.signature.getD [] = []) (name : Text) :
    d.signatureLines name = [signatureFrom name d.parameters] := by
  unfold signatureLines
  split
  · next l ls hlines =>
    rw [hlines] at h
    exact absurd h (by simp)
  · rfl

theorem reflects_ofProperties (language name : Text) (ps : List (Tree × Tree)) :
    ((ofProperties ps).describe language name).Reflects language name ps where
  name := rfl
  returns := rfl
  help := rfl
  parameters := rfl
  examples := rfl
  given := by
    intro l ls h
    exact congrArg (List.map Markup.mk) (signatureLines_of_eq_cons h name)
  listed := by
    intro hnone hlist
    obtain ⟨list, hlist⟩ := Option.isSome_iff_exists.1 hlist
    have hparameters : (ofProperties ps).parameters = some list := hlist
    change ((ofProperties ps).signatureLines name).map Markup.mk = [⟨name ++ " " ++
      List.intercalate [' '] (((ofProperties ps).parameters.getD []).map (·.name))⟩]
    rw [signatureLines_of_eq_nil hnone, hparameters]
    rfl
  unlisted := by
    intro hnone hno
    have hparameters : (ofProperties ps).parameters = none := hno
    change ((ofProperties ps).signatureLines name).map Markup.mk = [⟨name ++ " ?"⟩]
    rw [signatureLines_of_eq_nil hnone, hparameters]
    rfl

end Draft

namespace Definitions

open Reading

variable (language label : Text)

theorem describes_entryDescription {e : Tree × Tree} (h : entryFaults e = []) :
    Describes language e (entryDescription language e) := by
  obtain ⟨name, hkey, hcommand⟩ := entryFaults_eq_nil_iff.1 h
  obtain ⟨hshape, -⟩ := commandFaults_eq_nil_iff.1 hcommand
  have hname : entryName e = name := by rw [entryName, hkey]; rfl
  refine ⟨name, Tree.text?_eq_some_iff.1 hkey, ?_⟩
  unfold entryDescription describedAs Tree.text? Tree.entries
  rw [hname]
  obtain hnull | htext | hmapping := hshape
  · rw [Tree.shape_eq_null_iff.1 hnull]
    exact Draft.reflects_ofProperties language name []
  · obtain ⟨meant, hmeant⟩ := Tree.shape_eq_text_iff.1 htext
    rw [hmeant]
  · obtain ⟨ps, hps⟩ := Tree.shape_eq_mapping_iff.1 hmapping
    rw [hps]
    exact Draft.reflects_ofProperties language name ps

/-- A tree that can be read gives one description for each of its entries, in their order. -/
theorem ofTree_describes {tree : Tree} {read : Definitions}
    (h : ofTree language label tree = .ok read) :
    List.Forall₂ (Describes language) tree.entries read.descriptions := by
  obtain ⟨hfaults, rfl⟩ := (ofTree_eq_ok_iff language label).1 h
  obtain ⟨-, hentries⟩ := Tree.faults_eq_nil_iff.1 hfaults
  change List.Forall₂ _ tree.entries (tree.entries.map (entryDescription language))
  rw [List.forall₂_map_right_iff, List.forall₂_same]
  intro e he
  exact describes_entryDescription language (hentries e he)

def rhythms : Tree :=
  .mapping [(.text "s", .text "sound"), (.tagged "cmd" (.text "hush"), .null),
    (.text "every", .mapping [(.text "cmd", .sequence []), (.text "help", .text "Old words."),
      (.text "params", .mapping [(.text "n", .text "cycles"), (.text "f", .number (.int 3))]),
      (.text "doc", .tagged "prose" (.text "Applies f.")), (.text "help", .null)])]

def rhythmsRead : List Description :=
  [.bare "sound", ⟨"hush", [⟨"hush ?"⟩], [], none, none, []⟩,
    ⟨"every", [⟨"every n f"⟩], [.plain "n" "cycles", .plain "f" "3"], none,
      some ⟨"Applies f."⟩, []⟩]

theorem ofTree_describes_rhythms :
    ofTree "haskell" "defs" rhythms = .ok ⟨rhythmsRead, []⟩ ∧
    List.Forall₂ (Describes "haskell") rhythms.entries rhythmsRead :=
  have hread : ofTree "haskell" "defs" rhythms = .ok ⟨rhythmsRead, []⟩ := rfl
  ⟨hread, ofTree_describes "haskell" "defs" hread⟩

end Definitions

end Handbook
