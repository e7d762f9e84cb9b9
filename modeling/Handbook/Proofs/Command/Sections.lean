import Handbook.Proofs.Command.Levels
import Handbook.Proofs.Text.Pieces

namespace Handbook

inductive Section
  | signature
  | help
  | usage
  | examples
  deriving DecidableEq, Repr

namespace Section

def all : List Section := [signature, help, usage, examples]

def isSelected (level : Detail) (withSignature : Bool) : Section → Bool
  | signature => withSignature
  | help | usage => .noExamplesNoLinks ≤ level
  | examples => .full ≤ level

end Section

/-- A rule without the breaks behind its dashes. -/
def ruleFront : Text := Text.lineBreak ++ Text.lineBreak ++ "---"

theorem sectionRule_eq : sectionRule = ruleFront ++ (Text.lineBreak ++ Text.lineBreak) := rfl

namespace Description

variable (d : Description)

def sectionText : Section → Text
  | .signature => d.signatureText
  | .help => (d.help.map (·.source)).getD []
  | .usage => d.usageText
  | .examples => if d.examples = [] then [] else d.examplesText

def sectionTexts (level : Detail) (withSignature : Bool) : List Text :=
  ((Section.all.filter (·.isSelected level withSignature)).map d.sectionText).filter (!·.isEmpty)

theorem selected_eq (level : Detail) (withSignature : Bool) :
    (Section.all.filter (·.isSelected level withSignature)).map d.sectionText =
      (if withSignature then [d.sectionText .signature] else [])
        ++ (if .noExamplesNoLinks ≤ level then [d.sectionText .help, d.sectionText .usage] else [])
        ++ (if .full ≤ level then [d.sectionText .examples] else []) := by
  cases withSignature <;> cases level <;> rfl

/-- Where there is no help or example, the section has an empty text, which is left out. -/
theorem sections_eq_sectionTexts (level : Detail) (withSignature : Bool) :
    d.sections level withSignature = d.sectionTexts level withSignature := by
  have hprose : (if .noExamplesNoLinks ≤ level then d.proseTexts else []).filter (!·.isEmpty) =
      (if .noExamplesNoLinks ≤ level then [d.sectionText .help, d.sectionText .usage] else []).filter
        (!·.isEmpty) := by
    unfold proseTexts sectionText
    split
    · cases d.help <;> rfl
    · rfl
  have hexamples : (if .full ≤ level ∧ d.examples ≠ [] then [d.examplesText] else []).filter
      (!·.isEmpty) =
      (if .full ≤ level then [d.sectionText .examples] else []).filter (!·.isEmpty) := by
    rw [sectionText]
    by_cases hlevel : .full ≤ level <;> by_cases he : d.examples = [] <;> simp [hlevel, he]
  rw [proseTexts] at hprose
  unfold sections parts sectionTexts
  rw [selected_eq, List.filter_append, List.filter_append, List.filter_append, List.filter_append,
    hprose, hexamples]
  rfl

/-- What is shown of a description, cut at each rule, gives back the selected sections that have a
text, and it is empty if none has. -/
theorem pieces_format {level : Detail} (hlevel : level ≠ .off) (withSignature : Bool)
    (hfront : ∀ t ∈ d.sectionTexts level withSignature, ¬ ruleFront <:+: t) :
    ∃ text, d.format level withSignature = some ⟨text⟩ ∧
      (d.sectionTexts level withSignature = [] → text = []) ∧
      (d.sectionTexts level withSignature ≠ [] →
        Text.pieces sectionRule text = d.sectionTexts level withSignature) := by
  refine ⟨sectionRule.intercalate (d.sectionTexts level withSignature), ?_, ?_, ?_⟩
  · rw [← sections_eq_sectionTexts]
    exact if_neg hlevel
  · intro hnone
    rw [hnone, List.intercalate_nil]
  · intro hsome
    rw [sectionRule_eq]
    exact Text.pieces_intercalate (by decide) _ hsome hfront

def dashed : Description :=
  ⟨"sound", [⟨"sound n"⟩, ⟨[]⟩], [.plain "n" "a sample\n\n--"], some ⟨"a pattern\n"⟩, some ⟨"---\n\n"⟩,
    [⟨"---"⟩]⟩

theorem pieces_format_dashed :
    (∀ t ∈ dashed.sectionTexts .full true, ¬ ruleFront <:+: t) ∧
    ∃ text, dashed.format .full true = some ⟨text⟩ ∧
      Text.pieces sectionRule text =
        [("sound n\n" : Text), "---\n\n", "`n` a sample\n\n--\nReturns: a pattern\n", "Examples:\n---"] := by
  have hfront : ∀ t ∈ dashed.sectionTexts .full true, ¬ ruleFront <:+: t := by decide
  obtain ⟨text, hformat, -, hpieces⟩ := dashed.pieces_format (by decide) true hfront
  exact ⟨hfront, text, hformat, hpieces (by decide)⟩

end Description

end Handbook
