import Handbook.Tree.Basic

namespace Handbook.Tree

mutual

/-- Each tagged value is replaced by the value under its tag, at every depth, in keys as in values. -/
def stripped : Tree → Tree
  | sequence items => sequence (strippedItems items)
  | mapping es => mapping (strippedEntries es)
  | tagged _ t => t.stripped
  | t => t

def strippedItems : List Tree → List Tree
  | [] => []
  | t :: ts => t.stripped :: strippedItems ts

def strippedEntries : List (Tree × Tree) → List (Tree × Tree)
  | [] => []
  | (k, v) :: es => (k.stripped, v.stripped) :: strippedEntries es

end

abbrev strippedEntry (e : Tree × Tree) : Tree × Tree := (e.1.stripped, e.2.stripped)

theorem strippedEntries_eq_map (es : List (Tree × Tree)) :
    strippedEntries es = es.map strippedEntry := by
  induction es with
  | nil => rfl
  | cons e es ih => simp [strippedEntries, ih]

theorem untagged_stripped (t : Tree) : t.stripped.untagged = t.untagged.stripped := by
  fun_induction untagged t with
  | case1 name t ih => exact ih
  | case2 t h =>
    cases t with
    | tagged name inner => exact absurd rfl (h name inner)
    | _ => rfl

theorem shape_stripped (t : Tree) : t.stripped.shape = t.shape := by
  fun_induction shape t with
  | case7 name t ih => exact ih
  | _ => rfl

mutual

theorem plainText_stripped : (t : Tree) → t.stripped.plainText = t.plainText
  | null => rfl
  | bool _ => rfl
  | number _ => rfl
  | text _ => rfl
  | sequence items => congrArg (List.intercalate [',']) (plainTexts_stripped items)
  | mapping _ => rfl
  | tagged _ t => plainText_stripped t

theorem plainTexts_stripped : (ts : List Tree) → plainTexts (strippedItems ts) = plainTexts ts
  | [] => rfl
  | t :: ts => by
    rw [strippedItems, plainTexts, plainTexts, plainText_stripped t, plainTexts_stripped ts]

end

/-- All that can happen to a value: it stays, or it changes inside. -/
theorem stripped_cases (t : Tree) : t.untagged.stripped = t.untagged ∨
    (∃ items, t.untagged = sequence items) ∨ ∃ es, t.untagged = mapping es := by
  fun_induction untagged t with
  | case1 name t ih => exact ih
  | case2 t h =>
    cases t with
    | tagged name inner => exact absurd rfl (h name inner)
    | sequence items => exact .inr (.inl ⟨items, rfl⟩)
    | mapping es => exact .inr (.inr ⟨es, rfl⟩)
    | _ => exact .inl rfl

end Handbook.Tree
