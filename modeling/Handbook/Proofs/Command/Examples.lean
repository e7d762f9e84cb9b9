import Handbook.Proofs.Command.Levels
import Handbook.Proofs.Markup.Fence
import Handbook.Settings.Basic

namespace Handbook

theorem Settings.not_isBlank_of_mem_language {s : Settings} (hs : s.flaw? = none) :
    ∀ c ∈ s.language, Text.isBlank c = false := by
  unfold flaw? at hs
  split at hs
  · exact absurd hs (by simp)
  · split at hs
    · exact absurd hs (by simp)
    · next hlanguage => simpa using hlanguage

namespace Description

variable (d : Description) (withSignature : Bool)

theorem exists_format_full (h : d.examples ≠ []) :
    ∃ before, d.format .full withSignature = some ⟨before ++ d.examplesText⟩ := by
  have hruled : ruled d.exampleTexts = d.examplesText := by
    rw [exampleTexts, if_neg h, ruled_cons, ruled_nil, joined_nil]
  rw [d.format_of_ne_off (by decide), parts_full, ruled_append, hruled]
  by_cases hbefore : ruled (d.parts .noExamplesNoLinks withSignature) = []
  · exact ⟨[], by rw [hbefore, nil_joined, List.nil_append]⟩
  · exact ⟨_, by rw [joined_of_ne_nil hbefore d.examplesText_ne_nil]⟩

/-- The examples come last, each in lines of its own. -/
theorem exists_lines_format_full (h : ∀ e ∈ d.examples, e.source.getLast? ≠ some '\r') :
    ∃ text front, d.format .full withSignature = some ⟨text⟩ ∧
      Text.unifiedLines text = front ++ d.examples.flatMap fun e => Text.unifiedLines e.source := by
  by_cases hexamples : d.examples = []
  · refine ⟨_, Text.unifiedLines (ruled (d.parts .full withSignature)),
      d.format_of_ne_off (by decide) withSignature, ?_⟩
    rw [hexamples, List.flatMap_nil, List.append_nil]
  · obtain ⟨before, hformat⟩ := d.exists_format_full withSignature hexamples
    have hsources : d.examples.map (·.source) ≠ [] := by simpa using hexamples
    have htext : before ++ d.examplesText =
        before ++ "Examples:".toList ++ Text.lineBreak ++ Text.ofLines (d.examples.map (·.source)) := by
      obtain ⟨e, es, hes⟩ := List.exists_cons_of_ne_nil hsources
      rw [examplesText, hes, Text.ofLines, List.intercalate_cons_cons]
      simp only [Text.ofLines, List.append_assoc]
    have hcolon : (before ++ "Examples:".toList).getLast? ≠ some '\r' := by simp
    refine ⟨_, Text.unifiedLines (before ++ "Examples:".toList), hformat, ?_⟩
    rw [htext, Text.unifiedLines_append_lineBreak hcolon, Text.unifiedLines_ofLines hsources,
      List.flatMap_map]
    simpa using h

end Description

namespace Settings

open Markup

/-- Accepted settings give each example a block: an opening fence, the body of its code and a closing
fence. A display reads it as one block just if no line of the code closes it and the language has no
backtick. The same goes for all the examples in what is shown of a description, unless a block is left
open in front of them. -/
theorem examples_contained_iff {s : Settings} (hs : s.flaw? = none) :
    (∀ code,
      Text.unifiedLines (codeBlock s.language code).source =
        (fence ++ s.language) :: (Text.lines (blockBody code) ++ [fence]) ∧
      ((∀ l ∈ Text.lines (blockBody code), ¬ Closes 3 l) ↔
        ∀ l ∈ Text.unifiedLines code, ¬ Closes 3 l) ∧
      (roles none (Text.unifiedLines (codeBlock s.language code).source) =
        blockRoles (Text.lines (blockBody code)) ↔ IsContained s.language code)) ∧
    ∀ (draft : Draft) (name : Text) (withSignature : Bool), ∃ text front,
      (draft.describe s.language name).format .full withSignature = some ⟨text⟩ ∧
      Text.unifiedLines text =
        front ++ (draft.examples.flatMap fun code =>
          Text.unifiedLines (codeBlock s.language code).source) ∧
      (openAfter none front = none →
        (roles none (Text.unifiedLines text) =
          roles none front ++ (draft.examples.flatMap fun code =>
            blockRoles (Text.lines (blockBody code))) ↔
          ∀ code ∈ draft.examples, IsContained s.language code)) := by
  have hlanguage := not_isBlank_of_mem_language hs
  refine ⟨fun code => ⟨unifiedLines_codeBlock hlanguage code, forall_not_closes_iff code,
    roles_codeBlock_iff hlanguage code⟩, fun draft name withSignature => ?_⟩
  have hend : ∀ e ∈ (draft.describe s.language name).examples, e.source.getLast? ≠ some '\r' := by
    intro e he
    obtain ⟨code, -, rfl⟩ := List.mem_map.1 he
    rw [codeBlock, List.getLast?_append_of_ne_nil _ (by decide)]
    decide
  obtain ⟨text, front, hformat, hlines⟩ :=
    (draft.describe s.language name).exists_lines_format_full withSignature hend
  rw [Draft.describe, List.flatMap_map] at hlines
  refine ⟨text, front, hformat, hlines, fun hfront => ?_⟩
  rw [hlines, roles_append, hfront, List.append_right_inj]
  exact roles_codeBlocks_iff hlanguage draft.examples

def tidal : Settings := { standard with language := "tidal" }

def fencedSound : Draft :=
  { Draft.empty with
    help := some "Like so:\n```\nhush\n```"
    examples := ["d1 $ s bd\r\n\r\n", "``\n    ```\n-- ```\n```hs\n  "] }

def fencedSoundFront : List Text :=
  ["sound ?", "", "---", "", "Like so:", "```", "hush", "```", "", "---", "", "Examples:"]

theorem examples_contained_tidal : tidal.flaw? = none ∧
    ∃ text, (fencedSound.describe tidal.language "sound").format .full true = some ⟨text⟩ ∧
      roles none (Text.unifiedLines text) =
        [.live, .live, .live, .live, .live, .opening, .code, .closing, .live, .live, .live, .live,
          .opening, .code, .closing, .opening, .code, .code, .code, .code, .closing] := by
  have hs : tidal.flaw? = none := by decide
  have hlines : ((fencedSound.describe tidal.language "sound").format .full true).map
      (fun m => Text.unifiedLines m.source) =
      some (fencedSoundFront ++ fencedSound.examples.flatMap fun code =>
        Text.unifiedLines (codeBlock tidal.language code).source) := by
    decide +kernel
  obtain ⟨text, front, hformat, hshown, hroles⟩ :=
    (examples_contained_iff hs).2 fencedSound "sound" true
  rw [hformat, Option.map_some, Option.some.injEq] at hlines
  have hfront : front = fencedSoundFront := List.append_cancel_right (hshown.symm.trans hlines)
  refine ⟨hs, text, hformat, ?_⟩
  rw [(hroles (by rw [hfront]; decide)).2 (by decide +kernel), hfront]
  decide +kernel

def escaping : Text := "a\n```\n*b*"

/-- The line behind the fence is shown live, and the fence that should close the block opens one. -/
theorem not_examples_contained :
    (standard.flaw? = none ∧
      roles none (Text.unifiedLines (codeBlock standard.language escaping).source) =
        [.opening, .code, .closing, .live, .opening]) ∧
    ¬ ∀ (s : Settings) (code : Text), s.flaw? = none → ∃ content,
      Text.unifiedLines (codeBlock s.language code).source =
        (fence ++ s.language) :: (content ++ [fence]) ∧ ∀ l ∈ content, ¬ Closes 3 l := by
  have hs : standard.flaw? = none := by decide
  have hlines : Text.unifiedLines (codeBlock standard.language escaping).source =
      (fence ++ standard.language) :: ([("a" : Text), "```", "*b*"] ++ [fence]) := by
    decide +kernel
  refine ⟨⟨hs, by rw [hlines]; decide⟩, fun h => ?_⟩
  obtain ⟨content, hcontent, hcloses⟩ := h standard escaping hs
  rw [hlines] at hcontent
  rw [← List.append_cancel_right (List.cons.inj hcontent).2] at hcloses
  exact absurd (hcloses "```" (by decide)) (by decide)

end Settings

end Handbook
