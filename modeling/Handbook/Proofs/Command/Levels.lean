import Handbook.Proofs.Command.Layout

namespace Handbook

theorem Parameter.line_ne_nil (p : Parameter) : p.line ≠ [] := by
  simp [line]

namespace Description

variable (d : Description) (withSignature : Bool)

def proseTexts : List Text := (d.help.map (·.source)).toList ++ [d.usageText]

def exampleTexts : List Text := if d.examples = [] then [] else [d.examplesText]

theorem parts_noExamplesNoLinks :
    d.parts .noExamplesNoLinks withSignature = d.parts .minimum withSignature ++ d.proseTexts := by
  simp +decide [parts, proseTexts]

theorem parts_full :
    d.parts .full withSignature = d.parts .noExamplesNoLinks withSignature ++ d.exampleTexts := by
  by_cases h : d.examples = [] <;> simp +decide [parts, exampleTexts, h]

/-- Each line has some text, so a single line makes a text. -/
theorem usageText_eq_nil_iff : d.usageText = [] ↔ d.parameters = [] ∧ d.returns = none := by
  have hline : d.parameters.map Parameter.line ++
      (d.returns.map fun r => "Returns: ".toList ++ r.source).toList ≠ [[]] := by
    intro h
    have hmem := List.mem_singleton_self ([] : Text)
    rw [← h, List.mem_append, List.mem_map, Option.mem_toList, Option.map_eq_some_iff] at hmem
    obtain ⟨p, -, hp⟩ | ⟨r, -, hr⟩ := hmem
    · exact p.line_ne_nil hp
    · exact absurd hr (by simp)
  rw [usageText, Text.ofLines_eq_nil_iff, or_iff_left hline]
  simp

theorem proseTexts_eq_nil_iff : (∀ t ∈ d.proseTexts, t = []) ↔
    (d.help = none ∨ d.help = some ⟨[]⟩) ∧ d.parameters = [] ∧ d.returns = none := by
  rw [proseTexts, List.forall_mem_append, List.forall_mem_singleton, usageText_eq_nil_iff]
  cases d.help with
  | none => simp
  | some m => cases m; simp

theorem examplesText_ne_nil : d.examplesText ≠ [] := by
  rw [examplesText, ne_eq, Text.ofLines_eq_nil_iff]
  simp

theorem exampleTexts_eq_nil_iff : (∀ t ∈ d.exampleTexts, t = []) ↔ d.examples = [] := by
  by_cases h : d.examples = [] <;> simp [exampleTexts, h, d.examplesText_ne_nil]

/-- Each level begins with all that the one below it shows. It shows more unless there is nothing to
add: no help text, parameters or result, or no examples. -/
theorem format_levels :
    ∃ minimum middle full : Text,
      d.format .minimum withSignature = some ⟨minimum⟩ ∧
      d.format .noExamplesNoLinks withSignature = some ⟨middle⟩ ∧
      d.format .full withSignature = some ⟨full⟩ ∧
      minimum <+: middle ∧ middle <+: full ∧
      (minimum = middle ↔
        (d.help = none ∨ d.help = some ⟨[]⟩) ∧ d.parameters = [] ∧ d.returns = none) ∧
      (middle = full ↔ d.examples = []) := by
  refine ⟨_, _, _, d.format_of_ne_off (by decide) withSignature,
    d.format_of_ne_off (by decide) withSignature, d.format_of_ne_off (by decide) withSignature, ?_⟩
  rw [parts_full, ruled_append, parts_noExamplesNoLinks, ruled_append]
  refine ⟨prefix_joined _ _, prefix_joined _ _, ?_, ?_⟩
  · rw [eq_joined_iff, ruled_eq_nil_iff, proseTexts_eq_nil_iff]
  · rw [eq_joined_iff, ruled_eq_nil_iff, exampleTexts_eq_nil_iff]

end Description

end Handbook
