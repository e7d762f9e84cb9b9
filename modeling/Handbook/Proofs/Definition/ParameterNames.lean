import Handbook.Proofs.Definition.Parameters
import Handbook.Proofs.Keyed

namespace Handbook

namespace Reading

def named (p : Parameter) : Text × Parameter := (p.name, p)

theorem named_place (p : Parameter) (ps : List Parameter) :
    (place p ps).map named = Keyed.put (· == ·) p.name p (ps.map named) := by
  induction ps with
  | nil => rfl
  | cons q qs ih =>
    by_cases h : q.name = p.name
    · simp [place, Keyed.put, named, h]
    · simpa [place, Keyed.put, named, h] using ih

def namedValue (e : Tree × Tree) : Text × Parameter :=
  (entryName e, Parameter.ofValue (entryName e) e.2)

theorem name_ofValue (name : Text) (value : Tree) : (Parameter.ofValue name value).name = name := by
  unfold Parameter.ofValue
  split <;> rfl

theorem named_parameterList (es : List (Tree × Tree)) :
    (parameterList es).map named = Keyed.putAll (· == ·) (es.map namedValue) := by
  induction es using List.reverseRecOn with
  | nil => rfl
  | append_singleton es e ih =>
    have hlist : parameterList (es ++ [e]) =
        place (parameter (entryName e) e.2).1 (parameterList es) := List.foldl_concat ..
    rw [hlist, parameter_eq, named_place, name_ofValue, ih, List.map_append, List.map_singleton,
      Keyed.putAll_concat, namedValue]

theorem names_parameterList (es : List (Tree × Tree)) :
    (parameterList es).map (·.name) = (es.map entryName).eraseDups := by
  have hkeys := (Keyed.lastValues_putAll (es.map namedValue)).keys
  rw [← named_parameterList, Keyed.firsts_beq, List.map_map, List.map_map] at hkeys
  exact hkeys

theorem nodup_parameterList (es : List (Tree × Tree)) :
    ((parameterList es).map (·.name)).Nodup := by
  have hapart := Keyed.pairwise_firsts (· == ·) (es.map entryName)
  rw [Keyed.firsts_beq] at hapart
  rw [names_parameterList]
  exact hapart.imp fun h => beq_eq_false_iff_ne.1 h

/-- The parameter of a name is read from the last entry of that name. -/
theorem last_of_mem_parameterList {es : List (Tree × Tree)} {p : Parameter}
    (hp : p ∈ parameterList es) : ∃ e, (es.filter (entryName · == p.name)).getLast? = some e ∧
      p = Parameter.ofValue p.name e.2 := by
  have hvalues := (Keyed.lastValues_putAll (es.map namedValue)).values
  rw [← named_parameterList] at hvalues
  have hlast := hvalues (named p) (List.mem_map_of_mem hp)
  rw [Keyed.last?_beq, List.filter_map, List.getLast?_map, Option.map_map] at hlast
  obtain ⟨e, he, hvalue⟩ := Option.map_eq_some_iff.1 hlast
  have hread : Parameter.ofValue (entryName e) e.2 = p := hvalue
  have hname : p.name = entryName e := by rw [← hread, name_ofValue]
  refine ⟨e, ?_, ?_⟩
  · rw [← he]
    rfl
  · rw [hname, hread]

/-- A mapping whose keys are texts gives parameters with different names, in the order in which the
names first come, each read from the last entry of its name alone. -/
theorem parameters_last_values (command property : Text) {t : Tree} (hshape : t.shape = .mapping)
    (hnames : ∀ e ∈ t.entries, e.1.shape = .text) :
    ∃ ps notes, parameters command property t.untagged = .ok (some ps, notes) ∧
      (ps.map (·.name)).Nodup ∧ ps.map (·.name) = (t.entries.map entryName).eraseDups ∧
      ∀ p ∈ ps, ∃ e, (t.entries.filter (entryName · == p.name)).getLast? = some e ∧
        p = Parameter.ofValue p.name e.2 := by
  obtain ⟨es, hes⟩ := Tree.shape_eq_mapping_iff.1 hshape
  rw [Tree.entries_of_mapping hes] at hnames ⊢
  have hfaults : es.flatMap (parameterFaults command) = [] := by
    rw [List.flatMap_eq_nil_iff]
    intro e he
    obtain ⟨name, hname⟩ := Tree.shape_eq_text_iff.1 (hnames e he)
    rw [parameterFaults, Tree.text?_eq_some_iff.2 hname]
  refine ⟨parameterList es, es.flatMap parameterDiscards, ?_, nodup_parameterList es,
    names_parameterList es, fun p hp => last_of_mem_parameterList hp⟩
  rw [hes, parameters_of_mapping, hfaults, okUnless_nil]

/-- Two entries of one name. Of the fields of the second only the help text can be used. -/
def twins : Tree :=
  .tagged "v1" (.mapping [
    (.text "n", .mapping [(.text "help", .text "cycles"), (.text "type", .text "any"),
      (.text "editable", .bool true)]),
    (.text "f", .text "what is applied"),
    (.tagged "name" (.text "n"), .mapping [(.text "doc", .text "how often"),
      (.text "help", .number (.int 3)), (.text "type", .text "string")])])

theorem parameters_twins :
    (parameters "every" "params" twins.untagged).map (·.1) =
      .ok (some [.plain "n" "how often", .plain "f" "what is applied"]) ∧
    twins.shape = .mapping ∧ (∀ e ∈ twins.entries, e.1.shape = .text) ∧
    ∃ ps notes, parameters "every" "params" twins.untagged = .ok (some ps, notes) ∧
      (ps.map (·.name)).Nodup ∧ ps.map (·.name) = (twins.entries.map entryName).eraseDups ∧
      ∀ p ∈ ps, ∃ e, (twins.entries.filter (entryName · == p.name)).getLast? = some e ∧
        p = Parameter.ofValue p.name e.2 :=
  have hnames : ∀ e ∈ twins.entries, e.1.shape = .text := by decide
  ⟨rfl, rfl, hnames, parameters_last_values "every" "params" rfl hnames⟩

end Reading

end Handbook
