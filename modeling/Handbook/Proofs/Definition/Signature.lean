import Handbook.Proofs.Command.Layout
import Handbook.Proofs.Definition.Meaning

namespace Handbook

theorem Draft.signatureFrom_ne_nil (name : Text) (ps : Option (List Parameter)) :
    signatureFrom name ps ≠ [] := by
  cases ps <;> simp [signatureFrom]

/-- Two lines have a break between them, so only one empty line leaves nothing. -/
theorem Draft.signatureText_eq_nil_iff (d : Draft) (language name : Text) :
    (d.describe language name).signatureText = [] ↔ d.signature = some [[]] := by
  have htext : (d.describe language name).signatureText = Text.ofLines (d.signatureLines name) := by
    simp [Description.signatureText, describe, Function.comp_def]
  rw [htext, Text.ofLines_eq_nil_iff]
  unfold signatureLines
  split
  · next l ls hlines => simp [hlines]
  · next hnone =>
    have hmade := signatureFrom_ne_nil name d.parameters
    have hgiven : d.signature ≠ some [[]] := hnone [] []
    simp [hmade, hgiven]

namespace Description

/-- Whatever is shown of the command, its signature comes first, and it is not empty. -/
def ShowsSignature (d : Description) : Prop :=
  d.signatureText ≠ [] ∧ ∀ level, level ≠ .off →
    ∃ text, d.format level true = some ⟨text⟩ ∧ text ≠ [] ∧ d.signatureText <+: text

theorem showsSignature_of_ne_nil {d : Description} (h : d.signatureText ≠ []) :
    d.ShowsSignature := by
  refine ⟨h, fun level hlevel => ?_⟩
  obtain ⟨rest, -, hformat⟩ := d.format_with_signature level hlevel
  exact ⟨_, hformat, fun hnone => h (joined_eq_nil_iff.1 hnone).1, prefix_joined _ rest⟩

theorem format_of_signatureText_eq_nil {d : Description} (h : d.signatureText = [])
    (level : Detail) : d.format level true = d.format level false := by
  by_cases hlevel : level = .off
  · rw [hlevel]
    rfl
  · obtain ⟨rest, hwithout, hwith⟩ := d.format_with_signature level hlevel
    rw [hwith, hwithout, h, nil_joined]

end Description

namespace Definitions

open Reading

variable (language label : Text)

def GivesEmptyLine (e : Tree × Tree) : Prop :=
  (Property.signature.last? e.2.entries).bind Tree.texts? = some [[]]

instance : DecidablePred GivesEmptyLine := fun _ => inferInstanceAs (Decidable (_ = _))

theorem signatureText_entryDescription (e : Tree × Tree) :
    (entryDescription language e).signatureText = [] ↔ GivesEmptyLine e := by
  unfold entryDescription describedAs
  cases hvalue : e.2.text? with
  | none => exact Draft.signatureText_eq_nil_iff _ language (entryName e)
  | some meant =>
    have hentries : e.2.entries = [] := by
      rw [Tree.entries, Tree.text?_eq_some_iff.1 hvalue]
    have hno : ¬ GivesEmptyLine e := by
      rw [GivesEmptyLine, hentries]
      simp [Property.last?]
    rw [iff_false_right hno]
    exact fun h => absurd ((Draft.signatureText_eq_nil_iff _ _ meant).1 h) (by simp [Draft.empty])

/-- Every command that a tree describes shows its signature, unless the entry gives an empty line for
it: then the command is shown as it is without a signature. -/
theorem ofTree_shows_signature {tree : Tree} {read : Definitions}
    (h : ofTree language label tree = .ok read) :
    List.Forall₂ (fun e d =>
      if GivesEmptyLine e then
        d.signatureText = [] ∧ ∀ level, d.format level true = d.format level false
      else d.ShowsSignature) tree.entries read.descriptions := by
  obtain ⟨-, rfl⟩ := (ofTree_eq_ok_iff language label).1 h
  change List.Forall₂ _ tree.entries (tree.entries.map (entryDescription language))
  rw [List.forall₂_map_right_iff, List.forall₂_same]
  intro e _
  have hempty := signatureText_entryDescription language e
  by_cases hline : GivesEmptyLine e
  · rw [if_pos hline]
    have hnone := hempty.2 hline
    exact ⟨hnone, Description.format_of_signatureText_eq_nil hnone⟩
  · rw [if_neg hline]
    exact Description.showsSignature_of_ne_nil (mt hempty.1 hline)

def unsigned : Tree :=
  .mapping [(.text "hush", .mapping [(.text "cmd", .text [])]),
    (.text "sound", .mapping [(.text "cmd", .sequence [.text [], .text "s"])])]

def hushUnsigned : Description := ⟨"hush", [⟨[]⟩], [], none, none, []⟩

def soundUnsigned : Description := ⟨"sound", [⟨[]⟩, ⟨"s"⟩], [], none, none, []⟩

theorem ofTree_shows_signature_unsigned :
    ofTree "haskell" "defs" unsigned = .ok ⟨[hushUnsigned, soundUnsigned], []⟩ ∧
    (hushUnsigned.signatureText = [] ∧
      ∀ level, hushUnsigned.format level true = hushUnsigned.format level false) ∧
    soundUnsigned.ShowsSignature := by
  have hread : ofTree "haskell" "defs" unsigned = .ok ⟨[hushUnsigned, soundUnsigned], []⟩ := rfl
  have hshown := ofTree_shows_signature "haskell" "defs" hread
  obtain ⟨hhush, hsound, -⟩ : _ ∧ _ ∧ _ := by
    simpa only [unsigned, Tree.entries, Tree.untagged, List.forall₂_cons] using hshown
  rw [if_pos (by decide)] at hhush
  rw [if_neg (by decide)] at hsound
  exact ⟨hread, hhush, hsound⟩

/-- So there are commands of which no signature shows. -/
theorem not_showsSignature :
    ¬ ∀ (language label : Text) (tree : Tree) (read : Definitions),
      ofTree language label tree = .ok read → ∀ d ∈ read.descriptions, d.ShowsSignature := by
  intro h
  have hshown : hushUnsigned.ShowsSignature :=
    h "haskell" "defs" unsigned ⟨[hushUnsigned, soundUnsigned], []⟩ rfl _ List.mem_cons_self
  exact absurd rfl hshown.1

end Definitions

end Handbook
