import Handbook.Lookup
import Handbook.Proofs.Cursor.Word

namespace Handbook

namespace Registry

variable (r : Registry) {marker text text' : Text}

theorem hover_congr (h : Cursor.stripComment marker text = Cursor.stripComment marker text')
    (line column : Nat) (level : Detail) :
    r.hover marker text line column level = r.hover marker text' line column level := by
  rw [hover, hover, Cursor.wordAt?_congr h]

theorem complete_congr (h : Cursor.stripComment marker text = Cursor.stripComment marker text')
    (column : Nat) (level : Detail) :
    r.complete marker text column level = r.complete marker text' column level := by
  rw [complete, complete, Cursor.wordAt?_congr h]

end Registry

namespace Cursor

open Text

/-- The code of a line ends without blanks and holds no marker. Behind it on the line come blanks, and
then the comment with the first marker, if there is a marker at all. Code is its own code, and lines
that are equal up to a marker are treated alike. -/
theorem stripComment_cuts_first (marker line : Text) :
    let code := stripComment marker line
    (∃ blanks comment, line = code ++ blanks ++ comment ∧ (∀ c ∈ blanks, isBlank c) ∧
      (comment = [] ∧ (marker ≠ [] → ¬ marker <:+: line) ∨
        marker ≠ [] ∧ marker <+: comment ∧
          ∀ x y, line = x ++ marker ++ y → (code ++ blanks).length ≤ x.length)) ∧
    (∀ c ∈ code.getLast?, isBlank c = false) ∧
    (marker ≠ [] → ¬ marker <:+: code) ∧
    stripComment marker code = code ∧
    (marker ≠ [] → ∀ text x y,
      stripComment marker (text ++ marker ++ x) = stripComment marker (text ++ marker ++ y) ∧
      ∀ (r : Registry) (number column : Nat) (level : Detail),
        r.hover marker (text ++ marker ++ x) number column level =
          r.hover marker (text ++ marker ++ y) number column level ∧
        r.complete marker (text ++ marker ++ x) column level =
          r.complete marker (text ++ marker ++ y) column level) := by
  intro code
  have hfree : marker ≠ [] → ¬ marker <:+: code := fun hm => not_infix_stripComment hm line
  have hlast : ∀ c ∈ code.getLast?, isBlank c = false := not_isBlank_of_mem_getLast?
  refine ⟨exists_first_comment marker line, hlast, hfree, stripComment_eq_self hfree hlast,
    fun hm text x y => ?_⟩
  have hsame : stripComment marker (text ++ marker ++ x) =
      stripComment marker (text ++ marker ++ y) := by
    rw [stripComment_append_marker hm, stripComment_append_marker hm]
  exact ⟨hsame, fun r number column level =>
    ⟨r.hover_congr hsame number column level, r.complete_congr hsame column level⟩⟩

-- a marker that overlaps itself, and one made of blanks
example : stripComment "--" "a---b" = "a" ∧ stripComment "  " "d1 $   x" = "d1 $" := by
  decide

end Cursor

end Handbook
