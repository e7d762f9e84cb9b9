import Handbook.Text.Blank
import Mathlib.Data.List.DropRight

namespace Handbook.Text

theorem takeWhile_eq_nil {p : Char → Bool} {t : Text} (h : ∀ c ∈ t.head?, p c = false) :
    t.takeWhile p = [] := by
  cases t with
  | nil => rfl
  | cons c t =>
    rw [List.takeWhile_cons, h c rfl]
    rfl

/-- A run of one character, cut off where another one follows. -/
theorem span_replicate_append {c : Char} {t : Text} (h : ∀ d ∈ t.head?, decide (d = c) = false)
    (n : Nat) : (List.replicate n c ++ t).takeWhile (· = c) = List.replicate n c ∧
      (List.replicate n c ++ t).dropWhile (· = c) = t := by
  have hrun : ∀ d ∈ List.replicate n c, decide (d = c) = true := by simp
  have hnone : t.takeWhile (· = c) = [] := takeWhile_eq_nil h
  have hall := List.takeWhile_append_dropWhile (p := (· = c)) (l := t)
  rw [hnone, List.nil_append] at hall
  rw [List.takeWhile_append_of_pos hrun, List.dropWhile_append_of_pos hrun, hnone, hall, List.append_nil]
  exact ⟨rfl, rfl⟩

theorem takeWhile_eq_replicate (c : Char) (t : Text) :
    t.takeWhile (· = c) = List.replicate (t.takeWhile (· = c)).length c :=
  List.eq_replicate_of_mem fun d hd => by simpa using List.mem_takeWhile_imp hd

theorem not_of_mem_head?_dropWhile {α : Type} {p : α → Bool} {l : List α} {a : α}
    (h : a ∈ (l.dropWhile p).head?) : p a = false := by
  have hno := List.head?_dropWhile_not p l
  rw [Option.mem_def.1 h] at hno
  exact hno

theorem not_of_mem_getLast?_rdropWhile {α : Type} {p : α → Bool} {l : List α} {a : α}
    (h : a ∈ (l.rdropWhile p).getLast?) : p a = false := by
  rw [List.rdropWhile, List.getLast?_reverse] at h
  exact not_of_mem_head?_dropWhile h

theorem trimEnd_eq_rdropWhile (t : Text) : trimEnd t = t.rdropWhile isBlank := rfl

theorem trimEnd_eq_self {t : Text} (h : ∀ c ∈ t.getLast?, isBlank c = false) : trimEnd t = t := by
  rw [trimEnd_eq_rdropWhile, List.rdropWhile_eq_self_iff]
  intro hne
  rw [h _ (List.getLast?_eq_some_getLast hne)]
  decide

theorem exists_blanks (t : Text) : ∃ blanks, t = trimEnd t ++ blanks ∧ ∀ c ∈ blanks, isBlank c := by
  refine ⟨t.rtakeWhile isBlank, List.rdropWhile_append_rtakeWhile.symm, fun c hc => ?_⟩
  exact List.mem_rtakeWhile_imp hc

theorem trimEnd_append {t : Text} (hne : t ≠ []) (h : isBlank (t.getLast hne) = false) (y : Text) :
    ∃ z, z <+: y ∧ trimEnd (t ++ y) = t ++ z := by
  refine ⟨trimEnd y, List.rdropWhile_prefix isBlank y, ?_⟩
  -- blanks go from the end, and so does the induction
  induction y using List.reverseRecOn with
  | nil =>
    have hself : trimEnd t = t := List.rdropWhile_eq_self_iff.2 fun _ => by simp [h]
    simpa [trimEnd] using hself
  | append_singleton y c ih =>
    rw [← List.append_assoc]
    simp only [trimEnd_eq_rdropWhile, List.rdropWhile_concat] at ih ⊢
    split
    · exact ih
    · rw [List.append_assoc]

end Handbook.Text
