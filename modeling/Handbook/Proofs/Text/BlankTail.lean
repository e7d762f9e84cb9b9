import Handbook.Proofs.Text.Blank
import Handbook.Proofs.Text.Lines
import Handbook.Proofs.Text.Search

namespace Handbook.Text

def IsWritten (l : Text) : Prop := ∃ c ∈ l, isBlank c = false

/-- The longest run of leading lines of which the last is written; it is empty if no line is. -/
structure LongestRun (ls run : List Text) : Prop where
  leads : run <+: ls
  ends : (run = [] ∧ ∀ l ∈ ls, ¬ IsWritten l) ∨ ∃ l ∈ run.getLast?, IsWritten l
  longest : ∀ other, other <+: ls → (∃ l ∈ other.getLast?, IsWritten l) → other <+: run

/-- The same lines except for those at the end in which nothing is written. -/
def SameUpToBlankTail (ls ls' : List Text) : Prop :=
  ∃ run tail tail', ls = run ++ tail ∧ ls' = run ++ tail' ∧
    (∀ l ∈ tail, ¬ IsWritten l) ∧ ∀ l ∈ tail', ¬ IsWritten l

theorem not_isWritten_iff {l : Text} : ¬ IsWritten l ↔ allBlank l := by
  simp [IsWritten, allBlank]

theorem dropBlankTail_eq_rdropWhile (ls : List Text) : dropBlankTail ls = ls.rdropWhile allBlank := rfl

theorem exists_blankTail (ls : List Text) :
    ∃ tail, ls = dropBlankTail ls ++ tail ∧ ∀ l ∈ tail, ¬ IsWritten l := by
  refine ⟨ls.rtakeWhile allBlank, List.rdropWhile_append_rtakeWhile.symm, fun l hl => ?_⟩
  exact not_isWritten_iff.2 (List.mem_rtakeWhile_imp hl)

theorem dropBlankTail_append {tail : List Text} (h : ∀ l ∈ tail, ¬ IsWritten l) (ls : List Text) :
    dropBlankTail (ls ++ tail) = dropBlankTail ls := by
  -- blank lines go from the end, and so does the induction
  induction tail using List.reverseRecOn with
  | nil => rw [List.append_nil]
  | append_singleton tail l ih =>
    have hl : allBlank l := not_isWritten_iff.1 (h l (by simp))
    rw [← List.append_assoc, dropBlankTail_eq_rdropWhile, List.rdropWhile_concat_pos _ _ _ hl,
      ← dropBlankTail_eq_rdropWhile, ih fun l' hl' => h l' (List.mem_append_left _ hl')]

theorem dropBlankTail_eq_iff {ls ls' : List Text} :
    dropBlankTail ls = dropBlankTail ls' ↔ SameUpToBlankTail ls ls' := by
  constructor
  · intro heq
    obtain ⟨tail, hls, htail⟩ := exists_blankTail ls
    obtain ⟨tail', hls', htail'⟩ := exists_blankTail ls'
    rw [← heq] at hls'
    exact ⟨dropBlankTail ls, tail, tail', hls, hls', htail, htail'⟩
  · rintro ⟨run, tail, tail', rfl, rfl, htail, htail'⟩
    rw [dropBlankTail_append htail, dropBlankTail_append htail']

theorem isWritten_of_mem_getLast? {ls : List Text} {l : Text} (h : l ∈ (dropBlankTail ls).getLast?) :
    IsWritten l := by
  by_contra hnot
  have hblank : allBlank l = false := not_of_mem_getLast?_rdropWhile h
  exact absurd (not_isWritten_iff.1 hnot) (by simp [hblank])

theorem longestRun_dropBlankTail (ls : List Text) : LongestRun ls (dropBlankTail ls) where
  leads := List.rdropWhile_prefix allBlank ls
  ends := by
    by_cases hrun : dropBlankTail ls = []
    · have hblank := hrun
      rw [dropBlankTail_eq_rdropWhile, List.rdropWhile_eq_nil_iff] at hblank
      exact .inl ⟨hrun, fun l hl => not_isWritten_iff.2 (hblank l hl)⟩
    · have hlast := List.getLast?_eq_some_getLast hrun
      exact .inr ⟨_, hlast, isWritten_of_mem_getLast? hlast⟩
  longest := by
    rintro other hother ⟨l, hl, hwritten⟩
    obtain ⟨tail, hls, htail⟩ := exists_blankTail ls
    rw [hls] at hother
    obtain hrun | ⟨more, hmore, rfl⟩ := prefix_append_cases hother
    · exact hrun
    · -- what goes beyond the run lies in the blank tail, and so would its last line
      cases more with
      | nil => exact ⟨[], by rw [List.append_nil, List.append_nil]⟩
      | cons l' more =>
        rw [List.getLast?_append_of_ne_nil _ (List.cons_ne_nil l' more)] at hl
        exact absurd hwritten (htail l (hmore.subset (List.mem_of_getLast? hl)))

end Handbook.Text
