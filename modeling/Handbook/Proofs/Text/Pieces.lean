import Handbook.Proofs.Text.Search

namespace Handbook.Text

/-- No end of the text is also a beginning of it, so its occurrences keep apart. -/
def Unbordered (p : Text) : Prop := ∀ k < p.length, 0 < k → ¬ p.drop k <+: p

instance : DecidablePred Unbordered := fun p =>
  inferInstanceAs (Decidable (∀ k < p.length, 0 < k → ¬ p.drop k <+: p))

/-- An occurrence does not begin in a text and end in the occurrence behind it. -/
theorem not_prefix_append {p a : Text} (hp : Unbordered p) (hne : a ≠ []) (ha : ¬ p <+: a) (b : Text) :
    ¬ p <+: a ++ (p ++ b) := by
  intro h
  obtain hpa | ⟨s, hrest, hs⟩ := prefix_append_cases h
  · exact ha hpa
  · -- the end `s` of the occurrence is a beginning of the next one
    have hs0 : s ≠ [] := by
      rintro rfl
      exact ha ⟨[], by rw [List.append_nil, hs, List.append_nil]⟩
    have hpos := List.length_pos_iff.2 hs0
    have hlength := congrArg List.length hs
    rw [List.length_append] at hlength
    have hnext : s <+: p := by
      apply List.prefix_of_prefix_length_le hrest (List.prefix_append p b)
      omega
    have hdrop : p.drop a.length = s := by rw [hs, List.drop_left]
    exact hp a.length (by omega) (List.length_pos_iff.2 hne) (hdrop ▸ hnext)

theorem cut?_append_mark {p a : Text} (hp : Unbordered p) (ha : ¬ p <:+: a) (q b : Text) :
    cut? (p ++ q) (a ++ (p ++ q) ++ b) = some (a, b) := by
  induction a with
  | nil =>
    have hmark : p ++ q ≠ [] := fun h => ha (by simp [List.append_eq_nil_iff.1 h])
    rw [List.nil_append, cut?_self_append hmark]
  | cons c a ih =>
    have hnone : after? (p ++ q) (c :: (a ++ (p ++ q) ++ b)) = none := by
      rw [after?_eq_none_iff]
      intro h
      have hfront : p <+: (c :: a) ++ (p ++ (q ++ b)) := by
        simpa using (List.prefix_append p q).trans h
      exact not_prefix_append hp (List.cons_ne_nil c a) (fun hpre => ha hpre.isInfix) _ hfront
    have ha' : ¬ p <:+: a := fun h => ha (h.trans (List.suffix_cons c a).isInfix)
    rw [List.cons_append, List.cons_append, cut?, hnone, ih ha']
    rfl

theorem pieces_of_cut?_eq_none {mark t : Text} (h : cut? mark t = none) : pieces mark t = [t] := by
  rw [pieces]
  split
  · rfl
  · split
    · rfl
    · next hsome => rw [h] at hsome; exact absurd hsome (by simp)

theorem pieces_of_cut? {mark t a b : Text} (hm : mark ≠ []) (h : cut? mark t = some (a, b)) :
    pieces mark t = a :: pieces mark b := by
  rw [pieces, dif_neg hm]
  split
  · next hnone => rw [h] at hnone; exact absurd hnone (by simp)
  · next hsome =>
    rw [h] at hsome
    obtain ⟨rfl, rfl⟩ := by simpa using hsome
    rfl

theorem pieces_intercalate {p : Text} (hp : Unbordered p) (q : Text) {ts : List Text} (hne : ts ≠ [])
    (hts : ∀ t ∈ ts, ¬ p <:+: t) : pieces (p ++ q) (List.intercalate (p ++ q) ts) = ts := by
  induction ts with
  | nil => exact absurd rfl hne
  | cons t us ih =>
    have ht : ¬ p <:+: t := hts t List.mem_cons_self
    cases us with
    | nil =>
      rw [List.intercalate_singleton]
      apply pieces_of_cut?_eq_none
      rw [cut?_eq_none_iff]
      exact fun h => ht ((List.prefix_append p q).isInfix.trans h)
    | cons u us =>
      have hmark : p ++ q ≠ [] := fun h => ht (by simp [List.append_eq_nil_iff.1 h])
      rw [List.intercalate_cons_cons, pieces_of_cut? hmark (cut?_append_mark hp ht q _),
        ih (List.cons_ne_nil u us) fun t' ht' => hts t' (List.mem_cons_of_mem t ht')]

theorem pieces_ne_nil (mark t : Text) : pieces mark t ≠ [] := by
  rw [pieces]
  split
  · exact List.cons_ne_nil t []
  · split <;> exact List.cons_ne_nil _ _

theorem replace_nil {old : Text} (hold : old ≠ []) (new : Text) : replace old new [] = [] := by
  have hnone : cut? old [] = none := by
    rw [cut?_eq_none_iff, List.infix_nil]
    exact hold
  rw [replace, pieces_of_cut?_eq_none hnone, List.intercalate_singleton]

theorem replace_append {old : Text} (hold : old ≠ []) (new t : Text) :
    replace old new (old ++ t) = new ++ replace old new t := by
  rw [replace, pieces_of_cut? hold (cut?_self_append hold t),
    List.intercalate_cons_of_ne_nil (pieces_ne_nil old t), List.nil_append, replace]

theorem replace_cons {old : Text} {c : Char} {t : Text} (h : ¬ old <+: c :: t) (new : Text) :
    replace old new (c :: t) = c :: replace old new t := by
  have hold : old ≠ [] := fun hnil => h (hnil ▸ List.nil_prefix)
  have hcut : cut? old (c :: t) = (cut? old t).map fun p => (c :: p.1, p.2) := by
    rw [cut?, after?_eq_none_iff.2 h]
  cases hrest : cut? old t with
  | none =>
    rw [hrest] at hcut
    rw [replace, replace, pieces_of_cut?_eq_none hcut, pieces_of_cut?_eq_none hrest,
      List.intercalate_singleton, List.intercalate_singleton]
  | some p =>
    rw [hrest] at hcut
    rw [replace, replace, pieces_of_cut? hold hcut, pieces_of_cut? hold hrest,
      List.intercalate_cons_of_ne_nil (pieces_ne_nil old _),
      List.intercalate_cons_of_ne_nil (pieces_ne_nil old _)]
    rfl

end Handbook.Text
