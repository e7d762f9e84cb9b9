import Handbook.Proofs.Definition.Entries

namespace Handbook.Tree

/-- Other entries in a mapping, under the same tags. -/
def withEntries (f : List (Tree × Tree) → List (Tree × Tree)) : Tree → Tree
  | mapping es => mapping (f es)
  | tagged name t => tagged name (t.withEntries f)
  | t => t

def withItems (f : List Tree → List Tree) : Tree → Tree
  | sequence items => sequence (f items)
  | tagged name t => tagged name (t.withItems f)
  | t => t

section

variable (f : List (Tree × Tree) → List (Tree × Tree)) (t : Tree)

theorem untagged_withEntries : (t.withEntries f).untagged = t.untagged.withEntries f := by
  fun_induction untagged t with
  | case1 name t ih => exact ih
  | case2 t h =>
    cases t with
    | tagged name inner => exact absurd rfl (h name inner)
    | _ => rfl

theorem shape_withEntries : (t.withEntries f).shape = t.shape := by
  fun_induction withEntries f t with
  | case2 name t ih => exact ih
  | _ => rfl

theorem text?_withEntries : (t.withEntries f).text? = t.text? := by
  fun_induction withEntries f t with
  | case2 name t ih => exact ih
  | _ => rfl

theorem entries_withEntries (hf : f [] = []) : (t.withEntries f).entries = f t.entries := by
  unfold entries
  rw [untagged_withEntries]
  have hne := t.untagged_ne_tagged
  cases h : t.untagged with
  | tagged name inner => exact absurd h (hne name inner)
  | mapping es => rfl
  | _ => exact hf.symm

end

theorem withEntries_eq_self {f : List (Tree × Tree) → List (Tree × Tree)} {t : Tree}
    (h : f t.entries = t.entries) : t.withEntries f = t := by
  fun_induction withEntries f t with
  | case1 es => exact congrArg mapping h
  | case2 name t ih => exact congrArg (tagged name) (ih h)
  | case3 => rfl

theorem map_values_eq_self {f : Tree → Tree} {es : List (Tree × Tree)}
    (h : ∀ e ∈ es, f e.2 = e.2) : (es.map fun e => (e.1, f e.2)) = es := by
  have hid : (es.map fun e => (e.1, f e.2)) = es.map id := by
    apply List.map_congr_left
    intro e he
    rw [h e he]
    rfl
  rw [hid, List.map_id]

theorem untagged_withItems (f : List Tree → List Tree) (t : Tree) :
    (t.withItems f).untagged = t.untagged.withItems f := by
  fun_induction untagged t with
  | case1 name t ih => exact ih
  | case2 t h =>
    cases t with
    | tagged name inner => exact absurd rfl (h name inner)
    | _ => rfl

theorem shape_withItems (f : List Tree → List Tree) (t : Tree) :
    (t.withItems f).shape = t.shape := by
  fun_induction withItems f t with
  | case2 name t ih => exact ih
  | _ => rfl

end Handbook.Tree
