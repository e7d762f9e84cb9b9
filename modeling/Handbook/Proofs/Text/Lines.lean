import Handbook.Text.Lines
import Mathlib.Data.List.Basic

namespace Handbook.Text

theorem not_mem_of_mem_splitOn {c : Char} {t piece : Text} (h : piece ∈ t.splitOn c) : c ∉ piece := by
  by_cases hc : c ∈ t
  · -- the first piece ends at the first occurrence, and the others are those of the rest
    obtain ⟨first, rest, ht, hfirst⟩ := List.eq_append_cons_of_mem hc
    rw [ht, List.splitOn_append_cons_self_of_not_mem hfirst] at h
    obtain rfl | h := List.mem_cons.1 h
    · exact hfirst
    · exact not_mem_of_mem_splitOn h
  · rw [List.splitOn_eq_singleton hc, List.mem_singleton] at h
    rw [h]
    exact hc
termination_by t.length
decreasing_by
  rw [ht]
  simp only [List.length_append, List.length_cons]
  omega

theorem lines_flatMap {ls : List Text} (h : ∀ l ∈ ls, '\n' ∉ l) :
    lines (ls.flatMap fun l => l ++ ['\n']) = ls ++ [[]] := by
  induction ls with
  | nil => rfl
  | cons l ls ih =>
    have hl : '\n' ∉ l := h l List.mem_cons_self
    rw [List.flatMap_cons, List.append_assoc, List.singleton_append, lines,
      List.splitOn_append_cons_self_of_not_mem hl]
    change l :: lines _ = _
    rw [ih fun l' hl' => h l' (List.mem_cons_of_mem l hl'), List.cons_append]

theorem not_mem_of_mem_fileLines {t line : Text} (h : line ∈ fileLines t) : '\n' ∉ line := by
  have hlines : ∀ l ∈ lines t, '\n' ∉ l := fun l hl => not_mem_of_mem_splitOn hl
  have hended : ∀ l ∈ (lines t).dropLast.map fun l => if l.getLast? = some '\r' then l.dropLast else l,
      '\n' ∉ l := by
    intro l hl
    obtain ⟨l', hl', rfl⟩ := List.mem_map.1 hl
    have hno := hlines l' (List.dropLast_subset _ hl')
    split
    · exact fun hmem => hno (List.dropLast_subset _ hmem)
    · exact hno
  unfold fileLines at h
  simp only at h
  split at h
  · exact hended line h
  · exact hended line h
  · next last _ hlast =>
    obtain h | h := List.mem_append.1 h
    · exact hended line h
    · rw [List.mem_singleton.1 h]
      exact hlines last (List.mem_of_getLast? hlast)

theorem not_mem_intercalate {c : Char} {sep : Text} (hsep : c ∉ sep) {ts : List Text}
    (h : ∀ t ∈ ts, c ∉ t) : c ∉ List.intercalate sep ts := by
  induction ts with
  | nil => simp
  | cons t ts ih =>
    have ht : c ∉ t := h t List.mem_cons_self
    have hrest := ih fun t' ht' => h t' (List.mem_cons_of_mem t ht')
    cases ts with
    | nil => simpa using ht
    | cons t' ts =>
      rw [List.intercalate_cons_cons, List.mem_append, List.mem_append]
      exact fun hmem => hmem.elim (fun hmem => hmem.elim ht hsep) hrest

theorem ofLines_lines (t : Text) : ofLines (lines t) = t := List.intercalate_splitOn '\n'

theorem lines_ofLines {ls : List Text} (hne : ls ≠ []) (h : ∀ l ∈ ls, '\n' ∉ l) :
    lines (ofLines ls) = ls := List.splitOn_intercalate '\n' h hne

/-- A break between two texts is a break between their lines. -/
theorem lines_append_lineBreak (a b : Text) : lines (a ++ lineBreak ++ b) = lines a ++ lines b := by
  rw [List.append_assoc]
  exact List.splitOn_append_cons_self a b

theorem lines_eq_singleton {t : Text} (h : '\n' ∉ t) : lines t = [t] := List.splitOn_eq_singleton h

theorem mem_intercalate {c : Char} {t : Text} {ts : List Text} (ht : t ∈ ts) (hc : c ∈ t) (sep : Text) :
    c ∈ List.intercalate sep ts := by
  induction ts with
  | nil => exact absurd ht List.not_mem_nil
  | cons u us ih =>
    cases us with
    | nil => simpa [List.mem_singleton.1 ht] using hc
    | cons u' us =>
      rw [List.intercalate_cons_cons, List.mem_append]
      obtain rfl | ht := List.mem_cons.1 ht
      · exact .inl (List.mem_append_left sep hc)
      · exact .inr (ih ht)

theorem mem_of_mem_lines {c : Char} {l t : Text} (hl : l ∈ lines t) (hc : c ∈ l) : c ∈ t := by
  rw [← ofLines_lines t]
  exact mem_intercalate hl hc lineBreak

end Handbook.Text
