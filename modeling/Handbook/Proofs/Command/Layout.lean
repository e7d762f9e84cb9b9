import Handbook.Command.Layout

namespace Handbook

/-- Two texts with the rule between them; an empty one is left out. -/
def joined (a b : Text) : Text :=
  if a = [] then b else if b = [] then a else a ++ sectionRule ++ b

def ruled (ts : List Text) : Text := sectionRule.intercalate (ts.filter fun t => !t.isEmpty)

@[simp] theorem joined_nil (a : Text) : joined a [] = a := by
  cases a <;> rfl

@[simp] theorem nil_joined (b : Text) : joined [] b = b := rfl

theorem joined_of_ne_nil {a b : Text} (ha : a ≠ []) (hb : b ≠ []) :
    joined a b = a ++ sectionRule ++ b := by
  rw [joined, if_neg ha, if_neg hb]

theorem joined_eq_nil_iff {a b : Text} : joined a b = [] ↔ a = [] ∧ b = [] := by
  by_cases ha : a = []
  · simp [ha]
  · by_cases hb : b = []
    · simp [hb]
    · simp [joined_of_ne_nil ha hb, ha]

theorem joined_assoc (a b c : Text) : joined (joined a b) c = joined a (joined b c) := by
  by_cases ha : a = []
  · rw [ha, nil_joined, nil_joined]
  by_cases hb : b = []
  · rw [hb, joined_nil, nil_joined]
  by_cases hc : c = []
  · rw [hc, joined_nil, joined_nil]
  have hab : joined a b ≠ [] := fun h => ha (joined_eq_nil_iff.1 h).1
  have hbc : joined b c ≠ [] := fun h => hb (joined_eq_nil_iff.1 h).1
  rw [joined_of_ne_nil hab hc, joined_of_ne_nil ha hb, joined_of_ne_nil ha hbc,
    joined_of_ne_nil hb hc]
  simp only [List.append_assoc]

theorem prefix_joined (a b : Text) : a <+: joined a b := by
  by_cases ha : a = []
  · rw [ha]
    exact List.nil_prefix
  by_cases hb : b = []
  · exact ⟨[], by rw [hb, joined_nil, List.append_nil]⟩
  rw [joined_of_ne_nil ha hb, List.append_assoc]
  exact List.prefix_append a _

/-- Only an empty text adds nothing, since a rule would come with any other. -/
theorem eq_joined_iff {a b : Text} : a = joined a b ↔ b = [] := by
  constructor
  · intro h
    by_cases ha : a = []
    · rw [ha, nil_joined] at h
      exact h.symm
    by_cases hb : b = []
    · exact hb
    rw [joined_of_ne_nil ha hb, List.append_assoc, List.self_eq_append_right] at h
    exact (List.append_eq_nil_iff.1 h).2
  · intro h
    rw [h, joined_nil]

@[simp] theorem ruled_nil : ruled [] = [] := rfl

theorem ruled_cons (t : Text) (ts : List Text) : ruled (t :: ts) = joined t (ruled ts) := by
  induction ts generalizing t with
  | nil => cases t <;> simp [ruled]
  | cons u us ih =>
    cases t with
    | nil => rfl
    | cons c t =>
      cases u with
      | nil => exact ih (c :: t)
      | cons d u =>
        -- two texts that stay: the rule is between them
        have hrest : ruled ((d :: u) :: us) ≠ [] := by
          rw [ih]
          exact fun h => List.cons_ne_nil d u (joined_eq_nil_iff.1 h).1
        rw [joined_of_ne_nil (List.cons_ne_nil c t) hrest]
        exact List.intercalate_cons_cons ..

theorem ruled_append (ts us : List Text) : ruled (ts ++ us) = joined (ruled ts) (ruled us) := by
  induction ts with
  | nil => rfl
  | cons t ts ih => rw [List.cons_append, ruled_cons, ruled_cons, ih, joined_assoc]

theorem ruled_eq_nil_iff {ts : List Text} : ruled ts = [] ↔ ∀ t ∈ ts, t = [] := by
  induction ts with
  | nil => simp
  | cons t ts ih => rw [ruled_cons, joined_eq_nil_iff, ih, List.forall_mem_cons]

theorem Text.ofLines_eq_nil_iff {ls : List Text} : ofLines ls = [] ↔ ls = [] ∨ ls = [[]] := by
  unfold ofLines lineBreak
  cases ls with
  | nil => simp
  | cons l ls =>
    cases ls with
    | nil => simp
    | cons k ks => simp [List.intercalate_cons_cons]

namespace Description

variable (d : Description) (level : Detail)

theorem format_of_ne_off {level : Detail} (h : level ≠ .off) (withSignature : Bool) :
    d.format level withSignature = some ⟨ruled (d.parts level withSignature)⟩ := if_neg h

theorem parts_with_signature : d.parts level true = d.signatureText :: d.parts level false := by
  simp [parts]

/-- With its signature a description is shown as the signature and, behind a rule, all that is shown
without it. -/
theorem format_with_signature (h : level ≠ .off) :
    ∃ rest, d.format level false = some ⟨rest⟩ ∧
      d.format level true = some ⟨joined d.signatureText rest⟩ := by
  refine ⟨ruled (d.parts level false), d.format_of_ne_off h false, ?_⟩
  rw [d.format_of_ne_off h, parts_with_signature, ruled_cons]

end Description

end Handbook
