import Handbook.Proofs.Definition.Alias
import Handbook.Proofs.Definition.Outcome

namespace Handbook

namespace Tree

variable {R : List (Tree × Tree) → List (Tree × Tree) → Prop} {t t' : Tree}

/-- A mapping whose entries are replaced by related ones, under the same tags. -/
inductive Rearranged (R : List (Tree × Tree) → List (Tree × Tree) → Prop) : Tree → Tree → Prop
  | mapping {es es' : List (Tree × Tree)} (h : R es es') : Rearranged R (.mapping es) (.mapping es')
  | tagged (name : Text) {t t' : Tree} (h : Rearranged R t t') :
      Rearranged R (.tagged name t) (.tagged name t')
  | same (t : Tree) : Rearranged R t t

namespace Rearranged

theorem shape_eq (h : Rearranged R t t') : t'.shape = t.shape := by
  induction h with
  | mapping _ => rfl
  | tagged name _ ih => exact ih
  | same t => rfl

theorem text?_eq (h : Rearranged R t t') : t'.text? = t.text? := by
  induction h with
  | mapping _ => rfl
  | tagged name _ ih => exact ih
  | same t => rfl

theorem entries (hR : ∀ es, R es es) (h : Rearranged R t t') : R t.entries t'.entries := by
  induction h with
  | mapping h => exact h
  | tagged name _ ih => exact ih
  | same t => exact hR _

end Rearranged

end Tree

theorem Property.last?_perm (g : Property) {ps ps' : List (Tree × Tree)} (h : ps.Perm ps')
    (hone : ps.countP g.concerns ≤ 1) : g.last? ps' = g.last? ps := by
  have hfilter : (ps.filter g.concerns).Perm (ps'.filter g.concerns) := h.filter _
  rw [List.countP_eq_length_filter] at hone
  -- a list with one element at most has no other order
  have hsame : ps'.filter g.concerns = ps.filter g.concerns := by
    cases hps : ps.filter g.concerns with
    | nil =>
      rw [hps] at hfilter
      exact hfilter.symm.eq_nil
    | cons p rest =>
      rw [hps, List.length_cons] at hone
      have hrest : rest = [] := List.length_eq_zero_iff.1 (by omega)
      rw [hps, hrest] at hfilter
      rw [hrest]
      exact hfilter.symm.eq_singleton
  rw [last?, last?, hsame]

theorem Draft.ofProperties_perm {ps ps' : List (Tree × Tree)} (h : ps.Perm ps')
    (hone : ∀ g : Property, ps.countP g.concerns ≤ 1) : ofProperties ps' = ofProperties ps := by
  unfold ofProperties
  rw [Property.last?_perm .signature h (hone _), Property.last?_perm .parameters h (hone _),
    Property.last?_perm .returns h (hone _), Property.last?_perm .help h (hone _),
    Property.last?_perm .examples h (hone _)]

namespace Definitions

open Reading

/-- The same entry, with its properties in any order. -/
def SameProperties (e e' : Tree × Tree) : Prop := e'.1 = e.1 ∧ e.2.Rearranged List.Perm e'.2

def SameEntries (es es' : List (Tree × Tree)) : Prop :=
  ∃ ms, List.Forall₂ SameProperties es ms ∧ ms.Perm es'

theorem sameEntries_self (es : List (Tree × Tree)) : SameEntries es es :=
  ⟨es, List.forall₂_same.2 fun e _ => ⟨rfl, .same e.2⟩, .refl es⟩

variable (language label : Text) {e e' : Tree × Tree}

theorem name_entryDescription (h : entryFaults e = []) :
    subject? e = some (entryDescription language e).name := by
  obtain ⟨name, hkey, -⟩ := entryFaults_eq_nil_iff.1 h
  unfold subject? entryDescription describedAs entryName
  rw [hkey]
  cases e.2.text? <;> rfl

theorem map_name_ofEntries {es : List (Tree × Tree)} (h : ∀ e ∈ es, entryFaults e = []) :
    ((ofEntries language label es).descriptions.map (·.name)).map some = es.map subject? := by
  unfold ofEntries
  rw [List.map_map, List.map_map]
  apply List.map_congr_left
  intro e he
  exact (name_entryDescription language (h e he)).symm

namespace SameProperties

theorem properties_perm (h : SameProperties e e') : e.2.entries.Perm e'.2.entries :=
  h.2.entries List.Perm.refl

theorem entryName_eq (h : SameProperties e e') : entryName e' = entryName e := by
  rw [entryName, h.1, entryName]

theorem entryFaults_eq_nil (h : SameProperties e e') (hfaults : entryFaults e = []) :
    entryFaults e' = [] := by
  obtain ⟨name, hkey, hcommand⟩ := entryFaults_eq_nil_iff.1 hfaults
  obtain ⟨hshape, hproperties⟩ := commandFaults_eq_nil_iff.1 hcommand
  rw [entryFaults_eq_nil_iff, h.1]
  refine ⟨name, hkey, commandFaults_eq_nil_iff.2 ⟨?_, fun p hp => ?_⟩⟩
  · rw [h.2.shape_eq]
    exact hshape
  · exact hproperties p (h.properties_perm.mem_iff.2 hp)

theorem entryDescription_eq (h : SameProperties e e')
    (hone : ∀ g : Property, e.2.entries.countP g.concerns ≤ 1) :
    entryDescription language e' = entryDescription language e := by
  unfold entryDescription describedAs
  rw [h.entryName_eq, h.2.text?_eq, Draft.ofProperties_perm h.properties_perm hone]

theorem entryWarnings_perm (h : SameProperties e e') :
    (entryWarnings label e').Perm (entryWarnings label e) := by
  unfold entryWarnings
  rw [h.entryName_eq]
  exact (h.properties_perm.symm.flatMap_right _).map _

end SameProperties

/-- All entries of a list with their properties in another order, where no two properties of one
entry mean the same: no faults come up, and the entries say what they said. -/
theorem ofEntries_sameProperties {es ms : List (Tree × Tree)}
    (h : List.Forall₂ SameProperties es ms) (hfaults : ∀ e ∈ es, entryFaults e = [])
    (hone : ∀ e ∈ es, ∀ g : Property, e.2.entries.countP g.concerns ≤ 1) :
    (∀ e ∈ ms, entryFaults e = []) ∧
    (ofEntries language label ms).descriptions = (ofEntries language label es).descriptions ∧
    (ofEntries language label ms).warnings.Perm (ofEntries language label es).warnings := by
  unfold ofEntries
  induction h with
  | nil => exact ⟨hfaults, rfl, .refl _⟩
  | @cons e e' es ms he _ ih =>
    rw [List.forall_mem_cons] at hfaults hone
    obtain ⟨ihfaults, ihdescriptions, ihwarnings⟩ := ih hfaults.2 hone.2
    refine ⟨?_, ?_, ?_⟩
    · rw [List.forall_mem_cons]
      exact ⟨he.entryFaults_eq_nil hfaults.1, ihfaults⟩
    · exact congrArg₂ List.cons (he.entryDescription_eq language hone.1) ihdescriptions
    · exact (he.entryWarnings_perm label).append ihwarnings

theorem ofEntries_perm {es es' : List (Tree × Tree)} (h : es.Perm es') :
    (ofEntries language label es).descriptions.Perm (ofEntries language label es').descriptions ∧
    (ofEntries language label es).warnings.Perm (ofEntries language label es').warnings :=
  ⟨h.map _, h.flatMap_right _⟩

/-- Where no two entries are about the same command and no two properties of a command mean the same,
their order says nothing: in any other order they can be read as well, give the same registry and the
same warnings up to their order. -/
theorem ofTree_rearranged {tree tree' : Tree} {read : Definitions}
    (h : ofTree language label tree = .ok read) (hsubjects : (tree.entries.map subject?).Nodup)
    (hone : ∀ e ∈ tree.entries, ∀ g : Property, e.2.entries.countP g.concerns ≤ 1)
    (hsame : tree.Rearranged SameEntries tree') :
    ∃ read', ofTree language label tree' = .ok read' ∧
      (∀ r : Registry, r.load read'.descriptions = r.load read.descriptions) ∧
      read'.warnings.Perm read.warnings := by
  obtain ⟨hfaults, rfl⟩ := (ofTree_eq_ok_iff language label).1 h
  obtain ⟨hshape, hentries⟩ := Tree.faults_eq_nil_iff.1 hfaults
  obtain ⟨ms, hms, hperm⟩ := hsame.entries sameEntries_self
  obtain ⟨hmsFaults, hmsDescriptions, hmsWarnings⟩ :=
    ofEntries_sameProperties language label hms hentries hone
  obtain ⟨hdescriptions, hwarnings⟩ := ofEntries_perm language label hperm
  refine ⟨ofEntries language label tree'.entries, ?_, fun r => ?_, hwarnings.symm.trans hmsWarnings⟩
  · have hfaults' : tree'.faults = [] := by
      rw [Tree.faults_eq_nil_iff, hsame.shape_eq]
      exact ⟨hshape, fun e he => hmsFaults e (hperm.mem_iff.2 he)⟩
    exact (ofTree_eq_ok_iff language label).2 ⟨hfaults', rfl⟩
  · rw [hmsDescriptions] at hdescriptions
    have hnames : ((ofEntries language label tree.entries).descriptions.map (·.name)).Nodup := by
      rw [← map_name_ofEntries language label hentries] at hsubjects
      exact hsubjects.of_map
    unfold Registry.load
    rw [Registry.ofList_perm hdescriptions hnames]

/-- Properties of which two are discarded. Of the two with one meaning the second is null. -/
def everyProperties : List (Tree × Tree) :=
  [(.text "volume", .number (.int 3)), (.text "params", .mapping [(.text "n", .text "cycles")]),
    (.text "help", .text "Applies f."), (.text "doc", .null), (.text "returns", .bool true)]

def scattered : Tree :=
  .tagged "defs" (.mapping [(.text "s", .text "sound"),
    (.tagged "cmd" (.text "every"), .tagged "v1" (.mapping everyProperties))])

def scatteredElsewhere : Tree :=
  .tagged "defs" (.mapping [
    (.tagged "cmd" (.text "every"), .tagged "v1" (.mapping everyProperties.reverse)),
    (.text "s", .text "sound")])

def scatteredRead : Definitions where
  descriptions := [.bare "sound", ⟨"every", [⟨"every n"⟩], [.plain "n" "cycles"], none,
    some ⟨"Applies f."⟩, []⟩]
  warnings := [.unknownProperty "volume", .notText "returns" .boolean].map
    (Warning.mk "defs" "every")

theorem ofTree_scattered :
    ofTree "haskell" "defs" scattered = .ok scatteredRead ∧
    (scattered.entries.map subject?).Nodup ∧
    (∀ e ∈ scattered.entries, ∀ g : Property, e.2.entries.countP g.concerns ≤ 1) ∧
    scattered.Rearranged SameEntries scatteredElsewhere ∧
    ∃ read', ofTree "haskell" "defs" scatteredElsewhere = .ok read' ∧
      (∀ r : Registry, r.load read'.descriptions = r.load scatteredRead.descriptions) ∧
      read'.warnings.Perm scatteredRead.warnings :=
  have hread : ofTree "haskell" "defs" scattered = .ok scatteredRead := rfl
  have hsubjects : (scattered.entries.map subject?).Nodup := by decide
  have hone : ∀ e ∈ scattered.entries, ∀ g : Property, e.2.entries.countP g.concerns ≤ 1 := by
    intro e he g
    revert e
    cases g <;> decide
  have hsame : scattered.Rearranged SameEntries scatteredElsewhere := by
    have hproperties : everyProperties.Perm everyProperties.reverse :=
      (List.reverse_perm everyProperties).symm
    -- the properties are turned around first, and then the entries
    exact .tagged _ (.mapping ⟨[_, (_, .tagged _ (.mapping everyProperties.reverse))],
      .cons ⟨rfl, .same _⟩ (.cons ⟨rfl, .tagged _ (.mapping hproperties)⟩ .nil), .swap _ _ _⟩)
  ⟨hread, hsubjects, hone, hsame,
    ofTree_rearranged "haskell" "defs" hread hsubjects hone hsame⟩

end Definitions

end Handbook
