import Handbook.Text.Basic

namespace Handbook.Text

/-- The text before the leftmost occurrence of `mark` and the text after it. -/
def cut? (mark : Text) : Text → Option (Text × Text)
  | [] => if mark.isEmpty then some ([], []) else none
  | c :: r =>
    match after? mark (c :: r) with
    | some rest => some ([], rest)
    | none => (cut? mark r).map fun p => (c :: p.1, p.2)

theorem eq_append_of_cut? {mark t a b : Text} (h : cut? mark t = some (a, b)) :
    t = a ++ mark ++ b := by
  induction t generalizing a with
  | nil => cases mark <;> simp_all [cut?]
  | cons c r ih =>
    rw [cut?] at h
    split at h
    · next rest hr =>
      obtain ⟨rfl, rfl⟩ := by simpa using h
      simpa using eq_append_of_after? hr
    · obtain ⟨⟨x, y⟩, hxy, hp⟩ := Option.map_eq_some_iff.1 h
      obtain ⟨rfl, rfl⟩ := by simpa using hp
      simp [ih hxy]

theorem length_lt_of_cut? {mark t a b : Text} (h : cut? mark t = some (a, b)) (hm : mark ≠ []) :
    b.length < t.length := by
  have := List.length_pos_iff.2 hm
  rw [eq_append_of_cut? h]
  simp
  omega

/-- The pieces between the occurrences of `mark`, taken leftmost first and without overlap. An
empty mark cuts nothing. -/
def pieces (mark : Text) (t : Text) : List Text :=
  if _hm : mark = [] then [t]
  else
    match _h : cut? mark t with
    | none => [t]
    | some (a, b) => a :: pieces mark b
termination_by t.length
decreasing_by exact length_lt_of_cut? _h _hm

def replace (old new : Text) (t : Text) : Text := new.intercalate (pieces old t)

end Handbook.Text
