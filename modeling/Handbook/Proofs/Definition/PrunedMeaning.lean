import Handbook.Proofs.Definition.Pruning

namespace Handbook

namespace Property

def lastTaken? (g : Property) (ps : List (Tree × Tree)) : Option Tree :=
  (ps.filter fun e => g.concerns e && g.accepts e.2.shape).getLast?.map Prod.snd

/-- Whether the field takes a value of this group, but not the last one. -/
def lost (g : Property) (ps : List (Tree × Tree)) : Bool :=
  (g.lastTaken? ps).isSome && (g.last? ps).any fun v => !g.accepts v.shape

theorem lastTaken?_concat (g : Property) (ps : List (Tree × Tree)) (e : Tree × Tree) :
    g.lastTaken? (ps ++ [e]) =
      if g.concerns e && g.accepts e.2.shape then some e.2 else g.lastTaken? ps := by
  unfold lastTaken?
  rw [List.filter_append]
  cases h : g.concerns e && g.accepts e.2.shape with
  | true => simp [h]
  | false => simp [h]

theorem concerns_of_prunedProperty? {g : Property} {e p : Tree × Tree}
    (h : Reading.prunedProperty? e = some p) : g.concerns p = g.concerns e := by
  obtain ⟨-, rfl⟩ | ⟨-, g', -, -, rfl⟩ := Reading.prunedProperty?_eq_some_iff.1 h
  · rfl
  · unfold concerns
    rw [Reading.shape_prunedValue]

theorem prunedProperty?_of_concerns {g : Property} {e : Tree × Tree} (h : g.concerns e = true) :
    Reading.prunedProperty? e =
      if g.accepts e.2.shape then some (e.1, Reading.prunedValue e.2 g) else none := by
  have hvalue : e.2.shape ≠ .null := fun hnull => by
    rw [concerns_of_null hnull] at h
    exact absurd h (by decide)
  rw [concerns_eq_decide hvalue, decide_eq_true_eq] at h
  unfold Reading.prunedProperty?
  rw [if_neg hvalue, h]

theorem last?_append_pruned (g : Property) (ps : List (Tree × Tree)) (e : Tree × Tree) :
    g.last? (ps ++ [e].filterMap Reading.prunedProperty?) =
      if g.concerns e && g.accepts e.2.shape then some (Reading.prunedValue e.2 g)
      else g.last? ps := by
  cases hconcerns : g.concerns e with
  | true =>
    have hp := prunedProperty?_of_concerns hconcerns
    cases haccepts : g.accepts e.2.shape with
    | true =>
      rw [haccepts, if_pos rfl] at hp
      have hstays : g.concerns (e.1, Reading.prunedValue e.2 g) = true := by
        rw [concerns_of_prunedProperty? hp, hconcerns]
      simp [hp, last?_concat, hstays]
    | false => simp [hp, haccepts]
  | false =>
    -- whether it stays or not, the group does not see it
    cases hp : Reading.prunedProperty? e with
    | none => simp [hp]
    | some p =>
      have hno : g.concerns p = false := by rw [concerns_of_prunedProperty? hp, hconcerns]
      simp [hp, last?_concat, hno]

/-- Among the properties that stay, the last one is the last that the field takes. -/
theorem last?_pruned (g : Property) (ps : List (Tree × Tree)) :
    g.last? (ps.filterMap Reading.prunedProperty?) =
      (g.lastTaken? ps).map (Reading.prunedValue · g) := by
  induction ps using List.reverseRecOn with
  | nil => rfl
  | append_singleton ps e ih =>
    rw [List.filterMap_append, last?_append_pruned, lastTaken?_concat, ih]
    split <;> rfl

theorem lastTaken?_of_last? {g : Property} {ps : List (Tree × Tree)} {v : Tree}
    (h : g.last? ps = some v) (haccepts : g.accepts v.shape = true) :
    g.lastTaken? ps = some v := by
  induction ps using List.reverseRecOn with
  | nil => exact absurd h (by simp [last?])
  | append_singleton ps e ih =>
    rw [last?_concat] at h
    rw [lastTaken?_concat]
    cases hconcerns : g.concerns e with
    | true =>
      rw [hconcerns, if_pos rfl] at h
      rw [← Option.some.inj h] at haccepts
      rw [haccepts]
      exact h
    | false =>
      rw [hconcerns] at h
      exact ih h

theorem lastTaken?_of_last?_eq_none {g : Property} {ps : List (Tree × Tree)}
    (h : g.last? ps = none) : g.lastTaken? ps = none := by
  have hno : ps.filter g.concerns = [] := by simpa [last?] using h
  have htaken : ps.filter (fun e => g.concerns e && g.accepts e.2.shape) = [] := by
    rw [List.filter_eq_nil_iff] at hno ⊢
    intro e he htaken
    exact hno e he (Bool.and_eq_true_iff.1 htaken).1
  rw [lastTaken?, htaken]
  rfl

/-- What a group says is not changed by the pruning, unless it is lost. -/
theorem bind_last?_pruned {α : Type} (g : Property) (read : Tree → Option α)
    (hshape : ∀ v, g.accepts v.shape = false → read v = none)
    (hpruned : ∀ v, read (Reading.prunedValue v g) = read v) {ps : List (Tree × Tree)}
    (hlost : g.lost ps = false) :
    (g.last? (ps.filterMap Reading.prunedProperty?)).bind read = (g.last? ps).bind read := by
  have hread : (g.lastTaken? ps).bind read = (g.last? ps).bind read := by
    cases hlast : g.last? ps with
    | none => rw [lastTaken?_of_last?_eq_none hlast]
    | some v =>
      cases haccepts : g.accepts v.shape with
      | true => rw [lastTaken?_of_last? hlast haccepts]
      | false =>
        have hnone : g.lastTaken? ps = none := by
          simpa [lost, hlast, haccepts] using hlost
        rw [hnone, Option.bind_some, hshape v haccepts]
        rfl
  rw [last?_pruned, Option.bind_map, ← hread]
  congr 1
  funext v
  exact hpruned v

end Property

namespace Draft

/-- The draft `kept` has each field of `d` whose group is not lost among the properties. -/
structure KeptOf (kept d : Draft) (ps : List (Tree × Tree)) : Prop where
  signature : Property.signature.lost ps = false → kept.signature = d.signature
  parameters : Property.parameters.lost ps = false → kept.parameters = d.parameters
  returns : Property.returns.lost ps = false → kept.returns = d.returns
  help : Property.help.lost ps = false → kept.help = d.help
  examples : Property.examples.lost ps = false → kept.examples = d.examples

theorem keptOf_pruned (ps : List (Tree × Tree)) :
    (ofProperties (ps.filterMap Reading.prunedProperty?)).KeptOf (ofProperties ps) ps := by
  have htexts : ∀ v : Tree, (v.shape = .text || v.shape = .sequence) = false → v.texts? = none := by
    intro v h
    rw [Bool.or_eq_false_iff, decide_eq_false_iff_not, decide_eq_false_iff_not] at h
    exact Tree.texts?_eq_none h.1 h.2
  have htext : ∀ v : Tree, decide (v.shape = .text) = false → v.text? = none := by
    intro v h
    exact Tree.text?_eq_none_iff.2 (of_decide_eq_false h)
  have hmapping : ∀ v : Tree, decide (v.shape = .mapping) = false → v.parameters? = none := by
    intro v h
    exact Tree.parameters?_eq_none (of_decide_eq_false h)
  have hsame : ∀ v : Tree, v.text? = v.text? := fun _ => rfl
  exact {
    signature := Property.bind_last?_pruned .signature Tree.texts? htexts Reading.texts?_pruned
    parameters :=
      Property.bind_last?_pruned .parameters Tree.parameters? hmapping Reading.parameters?_pruned
    returns := Property.bind_last?_pruned .returns Tree.text? htext hsame
    help := Property.bind_last?_pruned .help Tree.text? htext hsame
    examples := fun h => congrArg (·.getD [])
      (Property.bind_last?_pruned .examples Tree.texts? htexts Reading.texts?_pruned h) }

theorem ofProperties_pruned {ps : List (Tree × Tree)} (hlost : ∀ g : Property, g.lost ps = false) :
    ofProperties (ps.filterMap Reading.prunedProperty?) = ofProperties ps := by
  have hkept := keptOf_pruned ps
  have hfields : ∀ d d' : Draft, d'.signature = d.signature → d'.parameters = d.parameters →
      d'.returns = d.returns → d'.help = d.help → d'.examples = d.examples → d' = d := by
    rintro ⟨⟩ ⟨⟩ rfl rfl rfl rfl rfl
    rfl
  exact hfields _ _ (hkept.signature (hlost _)) (hkept.parameters (hlost _))
    (hkept.returns (hlost _)) (hkept.help (hlost _)) (hkept.examples (hlost _))

end Draft

/-- The same of a description, where the signature may come from the parameters. -/
structure Description.KeptOf (kept d : Description) (ps : List (Tree × Tree)) : Prop where
  name : kept.name = d.name
  returns : Property.returns.lost ps = false → kept.returns = d.returns
  help : Property.help.lost ps = false → kept.help = d.help
  parameters : Property.parameters.lost ps = false → kept.parameters = d.parameters
  examples : Property.examples.lost ps = false → kept.examples = d.examples
  signature : Property.signature.lost ps = false → (Property.parameters.lost ps = false ∨
    ((Property.signature.last? ps).bind Tree.texts?).getD [] ≠ []) → kept.signature = d.signature

theorem Description.keptOf_pruned (language name : Text) (ps : List (Tree × Tree)) :
    ((Draft.ofProperties (ps.filterMap Reading.prunedProperty?)).describe language name).KeptOf
      ((Draft.ofProperties ps).describe language name) ps where
  name := rfl
  returns h := congrArg (·.map Markup.mk) ((Draft.keptOf_pruned ps).returns h)
  help h := congrArg (·.map Markup.mk) ((Draft.keptOf_pruned ps).help h)
  parameters h := congrArg (·.getD []) ((Draft.keptOf_pruned ps).parameters h)
  examples h := congrArg (·.map (Markup.codeBlock language)) ((Draft.keptOf_pruned ps).examples h)
  signature := by
    intro hsignature hor
    have hlines := (Draft.keptOf_pruned ps).signature hsignature
    have hsame : (Draft.ofProperties (ps.filterMap Reading.prunedProperty?)).signatureLines name =
        (Draft.ofProperties ps).signatureLines name := by
      unfold Draft.signatureLines
      rw [hlines]
      obtain hparameters | hgiven := hor
      · rw [(Draft.keptOf_pruned ps).parameters hparameters]
      · -- given lines need no parameters
        have hgiven : (Draft.ofProperties ps).signature.getD [] ≠ [] := hgiven
        obtain ⟨l, ls, hcons⟩ := List.exists_cons_of_ne_nil hgiven
        cases hline : (Draft.ofProperties ps).signature with
        | none => simp [hline] at hcons
        | some given =>
          rw [hline, Option.getD_some] at hcons
          rw [hcons]
    exact congrArg (·.map Markup.mk) hsame

namespace Reading

theorem propertyFaults_pruned {command : Text} {e p : Tree × Tree} (hp : prunedProperty? e = some p)
    (h : propertyFaults command e = []) : propertyFaults command p = [] := by
  obtain ⟨-, rfl⟩ | ⟨-, g, hg, -, rfl⟩ := prunedProperty?_eq_some_iff.1 hp
  · exact h
  · obtain ⟨name, hkey, hparameters⟩ := propertyFaults_eq_nil_iff.1 h
    refine propertyFaults_eq_nil_iff.2 ⟨name, hkey, fun hname q hq => ?_⟩
    have hgroup : Property.parameters = g := by
      rw [entryName, hkey, Option.getD_some, hname] at hg
      exact Option.some.inj hg
    subst hgroup
    have hentries : (prunedValue e.2 .parameters).entries =
        e.2.entries.map fun e => (e.1, prunedParameter e.2) := Tree.entries_withEntries _ e.2 rfl
    rw [hentries] at hq
    obtain ⟨q', hq', rfl⟩ := List.mem_map.1 hq
    exact hparameters hname q' hq'

theorem entries_prunedCommand (value : Tree) :
    (prunedCommand value).entries = value.entries.filterMap prunedProperty? :=
  Tree.entries_withEntries _ value rfl

theorem commandFaults_pruned {name : Text} {value : Tree} (h : commandFaults name value = []) :
    commandFaults name (prunedCommand value) = [] := by
  obtain ⟨hshape, hproperties⟩ := commandFaults_eq_nil_iff.1 h
  refine commandFaults_eq_nil_iff.2 ⟨?_, fun p hp => ?_⟩
  · rw [prunedCommand, Tree.shape_withEntries]
    exact hshape
  · rw [entries_prunedCommand] at hp
    obtain ⟨e, he, hpruned⟩ := List.mem_filterMap.1 hp
    exact propertyFaults_pruned hpruned (hproperties e he)

theorem describedAs_pruned {value : Tree} (hlost : ∀ g : Property, g.lost value.entries = false)
    (language name : Text) :
    describedAs language name (prunedCommand value) = describedAs language name value := by
  have htext : (prunedCommand value).text? = value.text? := Tree.text?_withEntries _ value
  unfold describedAs
  rw [htext, entries_prunedCommand, Draft.ofProperties_pruned hlost]

end Reading

namespace Definitions

open Reading

theorem entries_pruned (tree : Tree) :
    tree.pruned.entries = tree.entries.map fun e => (e.1, prunedCommand e.2) :=
  Tree.entries_withEntries _ tree rfl

theorem faults_pruned {tree : Tree} (h : tree.faults = []) : tree.pruned.faults = [] := by
  obtain ⟨hshape, hentries⟩ := Tree.faults_eq_nil_iff.1 h
  refine Tree.faults_eq_nil_iff.2 ⟨?_, fun p hp => ?_⟩
  · rw [Tree.pruned, Tree.shape_withEntries]
    exact hshape
  · rw [entries_pruned] at hp
    obtain ⟨e, he, rfl⟩ := List.mem_map.1 hp
    obtain ⟨name, hkey, hcommand⟩ := entryFaults_eq_nil_iff.1 (hentries e he)
    exact entryFaults_eq_nil_iff.2 ⟨name, hkey, commandFaults_pruned hcommand⟩

theorem entryWarnings_pruned (label : Text) (e : Tree × Tree) :
    entryWarnings label (e.1, prunedCommand e.2) = [] := by
  have hnotes : (prunedCommand e.2).entries.flatMap propertyDiscards = [] := by
    rw [entries_prunedCommand, List.flatMap_eq_nil_iff]
    intro p hp
    obtain ⟨q, -, hpruned⟩ := List.mem_filterMap.1 hp
    exact propertyDiscards_pruned hpruned
  rw [entryWarnings, hnotes]
  rfl

variable (language label : Text)

theorem pruned_eq_self {tree : Tree} {ds : List Description}
    (h : ofTree language label tree = .ok ⟨ds, []⟩) : tree.pruned = tree := by
  obtain ⟨-, hread⟩ := (ofTree_eq_ok_iff language label).1 h
  have hwarnings : tree.entries.flatMap (entryWarnings label) = [] := congrArg warnings hread
  rw [List.flatMap_eq_nil_iff] at hwarnings
  apply Tree.withEntries_eq_self
  apply Tree.map_values_eq_self
  intro e he
  exact prunedCommand_eq_self (List.map_eq_nil_iff.1 (hwarnings e he))

theorem keptOf_entryDescription (e : Tree × Tree) :
    (entryDescription language (e.1, prunedCommand e.2)).KeptOf (entryDescription language e)
      e.2.entries := by
  have htext : (prunedCommand e.2).text? = e.2.text? := Tree.text?_withEntries _ e.2
  unfold entryDescription describedAs
  rw [htext, entries_prunedCommand]
  cases e.2.text? with
  | some meant => exact ⟨rfl, fun _ => rfl, fun _ => rfl, fun _ => rfl, fun _ => rfl, fun _ _ => rfl⟩
  | none => exact Description.keptOf_pruned language (entryName e) e.2.entries

/-- A tree that can be read can be read without a warning once all that is left out of it is gone.
Its entries have the same descriptions, except those in which a group of properties is lost. There the
fields of the other groups are the same. -/
theorem ofTree_pruned {tree : Tree} {read : Definitions}
    (h : ofTree language label tree = .ok read) :
    ∃ kept, ofTree language label tree.pruned = .ok ⟨kept, []⟩ ∧
      kept.length = read.descriptions.length ∧
      (∀ (i : Nat) (e : Tree × Tree), tree.entries[i]? = some e →
        (∀ g : Property, g.lost e.2.entries = false) → kept[i]? = read.descriptions[i]?) ∧
      ∀ (i : Nat) (e : Tree × Tree), tree.entries[i]? = some e →
        ∃ k d, kept[i]? = some k ∧ read.descriptions[i]? = some d ∧ k.KeptOf d e.2.entries := by
  obtain ⟨hfaults, rfl⟩ := (ofTree_eq_ok_iff language label).1 h
  refine ⟨tree.pruned.entries.map (entryDescription language), ?_, ?_, fun i e he hlost => ?_,
    fun i e he => ?_⟩
  · refine (ofTree_eq_ok_iff language label).2 ⟨faults_pruned hfaults, ?_⟩
    have hwarnings : tree.pruned.entries.flatMap (entryWarnings label) = [] := by
      rw [entries_pruned, List.flatMap_eq_nil_iff]
      intro p hp
      obtain ⟨e, -, rfl⟩ := List.mem_map.1 hp
      exact entryWarnings_pruned label e
    rw [ofEntries, hwarnings]
  · simp [entries_pruned, ofEntries]
  · have hentry :
        entryDescription language (e.1, prunedCommand e.2) = entryDescription language e :=
      describedAs_pruned hlost language (entryName e)
    simp [entries_pruned, ofEntries, he, hentry]
  · exact ⟨_, _, by simp [entries_pruned, he], by simp [ofEntries, he],
      keptOf_entryDescription language e⟩

/-- A command with something to leave out at every depth, where a good value follows the bad one. -/
def untidy : Tree :=
  .mapping [(.text "fast", .tagged "v1" (.mapping [(.text "color", .text "red"),
    (.text "return", .number (.int 7)), (.text "returns", .text "a pattern"),
    (.text "cmd", .sequence [.text "fast n", .null]),
    (.text "params", .mapping [(.text "n", .mapping [(.text "help", .text "factor"),
      (.text "size", .null), (.text "type", .text "ratio")])])]))]

def untidyRead : Definitions where
  descriptions :=
    [⟨"fast", [⟨"fast n"⟩], [.plain "n" "factor"], some ⟨"a pattern"⟩, none, []⟩]
  warnings := [.unknownProperty "color", .notText "return" .number, .item "cmd" 1 .null,
    .field "n" "size" .null, .kind "n" ⟨"ratio"⟩].map (Warning.mk "defs" "fast")

theorem ofTree_pruned_untidy :
    ofTree "haskell" "defs" untidy = .ok untidyRead ∧
    ∃ kept, ofTree "haskell" "defs" untidy.pruned = .ok ⟨kept, []⟩ ∧ kept.length = 1 ∧
      kept[0]? = untidyRead.descriptions[0]? := by
  have hread : ofTree "haskell" "defs" untidy = .ok untidyRead := rfl
  obtain ⟨kept, hkept, hlength, hsame, -⟩ := ofTree_pruned "haskell" "defs" hread
  refine ⟨hread, kept, hkept, hlength, hsame 0 _ rfl fun g => ?_⟩
  cases g <;> rfl

def helpThenNumber : Tree :=
  .mapping [(.text "sound", .mapping [(.text "help", .text "Plays a sample."),
    (.text "doc", .number (.int 3))])]

/-- The number is left out, and yet the help text is gone with it. -/
theorem not_descriptions_pruned :
    ¬ ∀ (language label : Text) (tree : Tree) (read kept : Definitions),
      ofTree language label tree = .ok read → ofTree language label tree.pruned = .ok kept →
      kept.descriptions = read.descriptions := by
  intro h
  have hsame := h "haskell" "defs" helpThenNumber
    ⟨[.bare "sound"], [⟨"defs", "sound", .notText "doc" .number⟩]⟩
    ⟨[{ Draft.empty with help := some "Plays a sample." }.describe "haskell" "sound"], []⟩ rfl rfl
  exact absurd hsame (by decide)

end Definitions

end Handbook
