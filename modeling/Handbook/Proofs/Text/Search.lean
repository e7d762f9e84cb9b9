import Handbook.Text.Search
import Mathlib.Data.List.Infix

namespace Handbook.Text

theorem after?_eq_none_iff {start t : Text} : after? start t = none ↔ ¬ start <+: t := by
  unfold after?
  rw [← List.isPrefixOf_iff_prefix]
  split <;> simp_all

theorem cut?_eq_none_iff {mark t : Text} : cut? mark t = none ↔ ¬ mark <:+: t := by
  induction t with
  | nil => cases mark <;> simp [cut?]
  | cons c r ih =>
    rw [cut?, List.infix_cons_iff, not_or]
    cases h : after? mark (c :: r) with
    | none =>
      rw [after?_eq_none_iff] at h
      simp only [Option.map_eq_none_iff, ih, h, not_false_eq_true, true_and]
    | some rest =>
      have hp : mark <+: c :: r := ⟨rest, (eq_append_of_after? h).symm⟩
      simp [hp]

/-- Of all occurrences the one that is cut at begins first. -/
theorem length_le_of_cut? {mark t a b : Text} (h : cut? mark t = some (a, b)) {x y : Text}
    (ht : t = x ++ mark ++ y) : a.length ≤ x.length := by
  -- along the search: each step passes one character, of the text and of `x`
  induction t generalizing a x with
  | nil =>
    obtain ⟨ha, -⟩ := List.append_eq_nil_iff.1 (eq_append_of_cut? h).symm
    rw [(List.append_eq_nil_iff.1 ha).1]
    exact Nat.zero_le _
  | cons c r ih =>
    rw [cut?] at h
    split at h
    · obtain ⟨rfl, -⟩ := by simpa using h
      exact Nat.zero_le _
    · next hnone =>
      obtain ⟨⟨a', b'⟩, hr, hp⟩ := Option.map_eq_some_iff.1 h
      obtain ⟨rfl, rfl⟩ := by simpa using hp
      cases x with
      | nil => exact absurd ⟨y, ht.symm⟩ (after?_eq_none_iff.1 hnone)
      | cons d x =>
        have hr' : r = x ++ mark ++ y := (List.cons.inj ht).2
        exact Nat.succ_le_succ (ih hr hr')

theorem not_infix_of_cut? {mark t a b : Text} (hm : mark ≠ []) (h : cut? mark t = some (a, b)) :
    ¬ mark <:+: a := by
  rintro ⟨x, y, ha⟩
  have ht : t = x ++ mark ++ (y ++ mark ++ b) := by
    rw [eq_append_of_cut? h, ← ha]
    simp
  have hle := length_le_of_cut? h ht
  have hlen := congrArg List.length ha
  have hpos := List.length_pos_iff.2 hm
  simp only [List.length_append] at hlen
  omega

theorem cut?_self_append {mark : Text} (hm : mark ≠ []) (t : Text) :
    cut? mark (mark ++ t) = some ([], t) := by
  obtain ⟨c, m, rfl⟩ := List.exists_cons_of_ne_nil hm
  rw [List.cons_append, cut?, ← List.cons_append, after?_append]

/-- An occurrence that is found stays the first one, whatever text comes behind. -/
theorem cut?_append {mark t a b : Text} (hm : mark ≠ []) (h : cut? mark t = some (a, b)) (x : Text) :
    cut? mark (t ++ x) = some (a, b ++ x) := by
  induction t generalizing a with
  | nil =>
    have hnil := eq_append_of_cut? h
    simp [hm] at hnil
  | cons c r ih =>
    rw [cut?] at h
    split at h
    · next rest hrest =>
      obtain ⟨rfl, rfl⟩ := by simpa using h
      rw [eq_append_of_after? hrest, List.append_assoc, cut?_self_append hm]
    · next hnone =>
      obtain ⟨⟨a', b'⟩, hr, hp⟩ := Option.map_eq_some_iff.1 h
      obtain ⟨rfl, rfl⟩ := by simpa using hp
      -- the mark fits into the text, so what comes behind cannot complete it
      have hnone' : after? mark (c :: (r ++ x)) = none := by
        have hlen := congrArg List.length (eq_append_of_cut? hr)
        simp only [List.length_append] at hlen
        rw [after?_eq_none_iff] at hnone ⊢
        intro hprefix
        apply hnone
        apply List.prefix_of_prefix_length_le hprefix (List.prefix_append (c :: r) x)
        rw [List.length_cons]
        omega
      rw [List.cons_append, cut?, hnone', ih hr]
      rfl

/-- A beginning of two texts joined ends within the first of them or behind it. -/
theorem prefix_append_cases {α : Type} {p a b : List α} (h : p <+: a ++ b) :
    p <+: a ∨ ∃ q, q <+: b ∧ p = a ++ q := by
  obtain ha | ⟨q, rfl⟩ := List.prefix_or_prefix_of_prefix h (List.prefix_append a b)
  · exact .inl ha
  · exact .inr ⟨q, (List.prefix_append_right_inj a).1 h, rfl⟩

theorem prefix_of_prefix_append {mark x y : Text} {c : Char} (hc : c ∉ mark)
    (h : mark <+: x ++ c :: y) : mark <+: x := by
  obtain hx | ⟨w, hw, rfl⟩ := prefix_append_cases h
  · exact hx
  · cases w with
    | nil => simp
    | cons d w =>
      have hd : d = c := (List.cons_prefix_cons.1 hw).1
      exact absurd (by simp [hd]) hc

theorem cut?_append_cons {mark x : Text} {c : Char} (hm : mark ≠ []) (hx : ¬ mark <:+: x)
    (hc : c ∉ mark) (y : Text) :
    cut? mark (x ++ c :: y) = (cut? mark y).map fun p => (x ++ c :: p.1, p.2) := by
  induction x with
  | nil =>
    have hnone : after? mark (c :: y) = none := by
      rw [after?_eq_none_iff]
      intro h
      have hnil : mark <+: ([] : Text) := prefix_of_prefix_append hc h
      exact hm (List.prefix_nil.1 hnil)
    rw [List.nil_append, cut?, hnone]
    rfl
  | cons d x ih =>
    have hnone : after? mark (d :: (x ++ c :: y)) = none := by
      rw [after?_eq_none_iff]
      intro h
      have hd : mark <+: d :: x := prefix_of_prefix_append hc h
      exact hx hd.isInfix
    have hx' : ¬ mark <:+: x := fun h => hx (h.trans (List.suffix_cons d x).isInfix)
    rw [List.cons_append, cut?, hnone]
    simp only [ih hx', Option.map_map]
    rfl

theorem cut?_append_of_not_mem {mark l : Text} (hm : mark ≠ []) (hl : ∀ c ∈ l, c ∉ mark) (y : Text) :
    cut? mark (l ++ y) = (cut? mark y).map fun p => (l ++ p.1, p.2) := by
  induction l with
  | nil => simp
  | cons c l ih =>
    have hnil : ¬ mark <:+: ([] : Text) := fun h => hm (List.infix_nil.1 h)
    have hc : c ∉ mark := hl c (by simp)
    have hrest := ih fun d hd => hl d (by simp [hd])
    have hhead := cut?_append_cons hm hnil hc (l ++ y)
    rw [List.nil_append] at hhead
    rw [List.cons_append, hhead, hrest, Option.map_map]
    rfl

theorem cut?_append_append {mark x l : Text} (hm : mark ≠ []) (hx : ¬ mark <:+: x) (hne : l ≠ [])
    (hl : ∀ c ∈ l, c ∉ mark) (y : Text) :
    cut? mark (x ++ l ++ y) = (cut? mark y).map fun p => (x ++ l ++ p.1, p.2) := by
  obtain ⟨c, l, rfl⟩ := List.exists_cons_of_ne_nil hne
  have hrest := cut?_append_of_not_mem hm (fun d hd => hl d (by simp [hd])) y (l := l)
  have hhead := cut?_append_cons hm hx (hl c (by simp)) (l ++ y)
  rw [List.append_assoc, List.cons_append, hhead, hrest, Option.map_map]
  simp [Function.comp_def]

end Handbook.Text
