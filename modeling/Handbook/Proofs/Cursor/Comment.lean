import Handbook.Cursor
import Handbook.Proofs.Text.Blank
import Handbook.Proofs.Text.Search

namespace Handbook.Cursor

open Text

/-- The line up to its comment, with the blanks before the comment. -/
def uncommented (marker line : Text) : Text :=
  if marker = [] then line else ((cut? marker line).map Prod.fst).getD line

theorem stripComment_eq (marker line : Text) :
    stripComment marker line = trimEnd (uncommented marker line) := by
  unfold stripComment uncommented
  split
  · rfl
  · cases cut? marker line <;> rfl

theorem exists_eq_uncommented_append (marker line : Text) :
    ∃ comment, line = uncommented marker line ++ comment ∧
      (comment = [] ∧ (marker ≠ [] → ¬ marker <:+: line) ∨
        marker ≠ [] ∧ marker <+: comment ∧
          ∀ x y, line = x ++ marker ++ y → (uncommented marker line).length ≤ x.length) := by
  unfold uncommented
  split
  · next hm => exact ⟨[], by simp, .inl ⟨rfl, absurd hm⟩⟩
  · next hm =>
    cases h : cut? marker line with
    | none => exact ⟨[], by simp, .inl ⟨rfl, fun _ => cut?_eq_none_iff.1 h⟩⟩
    | some p =>
      have hline : line = p.1 ++ (marker ++ p.2) := by
        rw [← List.append_assoc]
        exact eq_append_of_cut? h
      exact ⟨marker ++ p.2, hline,
        .inr ⟨hm, List.prefix_append marker p.2, fun x y => length_le_of_cut? h⟩⟩

/-- A line is its code, some blanks and then its comment, from the first marker on. -/
theorem exists_first_comment (marker line : Text) :
    ∃ blanks comment, line = stripComment marker line ++ blanks ++ comment ∧
      (∀ c ∈ blanks, isBlank c) ∧
      (comment = [] ∧ (marker ≠ [] → ¬ marker <:+: line) ∨
        marker ≠ [] ∧ marker <+: comment ∧
          ∀ x y, line = x ++ marker ++ y → (stripComment marker line ++ blanks).length ≤ x.length) := by
  rw [stripComment_eq]
  obtain ⟨blanks, hcode, hblanks⟩ := exists_blanks (uncommented marker line)
  obtain ⟨comment, hline, hcomment⟩ := exists_eq_uncommented_append marker line
  refine ⟨blanks, comment, ?_, hblanks, ?_⟩
  · rw [← hcode]
    exact hline
  · rw [← hcode]
    exact hcomment

theorem exists_comment (marker line : Text) :
    ∃ blanks comment, line = stripComment marker line ++ blanks ++ comment ∧
      (∀ c ∈ blanks, isBlank c) ∧ (comment = [] ∨ marker ≠ [] ∧ marker <+: comment) := by
  obtain ⟨blanks, comment, hline, hblanks, hcomment⟩ := exists_first_comment marker line
  exact ⟨blanks, comment, hline, hblanks, hcomment.imp And.left fun h => ⟨h.1, h.2.1⟩⟩

theorem not_infix_uncommented {marker : Text} (hm : marker ≠ []) (line : Text) :
    ¬ marker <:+: uncommented marker line := by
  rw [uncommented, if_neg hm]
  cases h : cut? marker line with
  | none => exact cut?_eq_none_iff.1 h
  | some p => exact not_infix_of_cut? hm h

theorem not_infix_stripComment {marker : Text} (hm : marker ≠ []) (line : Text) :
    ¬ marker <:+: stripComment marker line := by
  intro h
  rw [stripComment_eq] at h
  apply not_infix_uncommented hm line
  exact h.trans (List.rdropWhile_prefix isBlank (uncommented marker line)).isInfix

theorem not_isBlank_of_mem_getLast? {marker line : Text} :
    ∀ c ∈ (stripComment marker line).getLast?, isBlank c = false := by
  intro c hc
  rw [stripComment_eq] at hc
  exact not_of_mem_getLast?_rdropWhile hc

theorem stripComment_eq_self {marker code : Text} (hm : marker ≠ [] → ¬ marker <:+: code)
    (hlast : ∀ c ∈ code.getLast?, isBlank c = false) : stripComment marker code = code := by
  have hcode : uncommented marker code = code := by
    unfold uncommented
    split
    · rfl
    · next hne =>
      rw [cut?_eq_none_iff.2 (hm hne)]
      rfl
  rw [stripComment_eq, hcode, trimEnd_eq_self hlast]

theorem stripComment_append_marker {marker : Text} (hm : marker ≠ []) (text x : Text) :
    stripComment marker (text ++ marker ++ x) = stripComment marker (text ++ marker) := by
  have hin : marker <:+: text ++ marker := (List.suffix_append text marker).isInfix
  obtain ⟨p, hp⟩ : ∃ p, cut? marker (text ++ marker) = some p := by
    rw [← Option.ne_none_iff_exists', ne_eq, cut?_eq_none_iff]
    exact not_not_intro hin
  have hcode : uncommented marker (text ++ marker ++ x) = uncommented marker (text ++ marker) := by
    rw [uncommented, if_neg hm, uncommented, if_neg hm, hp, cut?_append hm hp]
    rfl
  rw [stripComment_eq, stripComment_eq, hcode]

/-- A word with no character of the marker stays, whatever comes behind it, when there is no
comment before it. -/
theorem stripComment_append {marker x l : Text} (hx : marker ≠ [] → ¬ marker <:+: x) (hne : l ≠ [])
    (hl : ∀ c ∈ l, c ∉ marker ∧ isBlank c = false) (y : Text) :
    ∃ z, z <+: y ∧ stripComment marker (x ++ l ++ y) = x ++ l ++ z := by
  have hne' : x ++ l ≠ [] := by simp [hne]
  have hlast : isBlank ((x ++ l).getLast hne') = false := by
    rw [List.getLast_append_of_ne_nil hne' hne]
    exact (hl _ (List.getLast_mem hne)).2
  have hcode : ∃ y', y' <+: y ∧ uncommented marker (x ++ l ++ y) = x ++ l ++ y' := by
    unfold uncommented
    split
    · exact ⟨y, List.prefix_refl y, rfl⟩
    · next hm =>
      rw [cut?_append_append hm (hx hm) hne fun c hc => (hl c hc).1]
      cases h : cut? marker y with
      | none => exact ⟨y, List.prefix_refl y, rfl⟩
      | some p =>
        refine ⟨p.1, ?_, rfl⟩
        rw [eq_append_of_cut? h, List.append_assoc]
        exact List.prefix_append p.1 _
  obtain ⟨y', hy', hcode⟩ := hcode
  obtain ⟨z, hz, htrim⟩ := trimEnd_append hne' hlast y'
  exact ⟨z, hz.trans hy', by rw [stripComment_eq, hcode, htrim]⟩

end Handbook.Cursor
