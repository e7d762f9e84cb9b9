import Handbook.Proofs.Command.Layout
import Handbook.Proofs.Lookup.Completion
import Handbook.Proofs.Registry.Prefix

namespace Handbook.Registry

variable (r : Registry) (marker text : Text) (line column : Nat)

/-- What hovering and completing at a position have in common, once the word there is known. -/
structure Agrees (w : Word) : Prop where
  /-- Suggested are the names that start with the word. -/
  mem_labels : ∀ level n, n ∈ (r.complete marker text column level).map (·.label) ↔
    n ∈ r.names ∧ w.text <+: n
  sorted_labels : ∀ level, ((r.complete marker text column level).map (·.label)).Pairwise (· < ·)
  nodup_labels : ∀ level, ((r.complete marker text column level).map (·.label)).Nodup
  replace_eq : ∀ level, ∀ s ∈ r.complete marker text column level, s.replace = w.span
  /-- The word is shown when it is the first suggestion, at every level but `off`. -/
  isSome_hover : ∀ shown level, (r.hover marker text line column shown).isSome ↔
    shown ≠ .off ∧ (r.complete marker text column level).head?.map (·.label) = some w.text
  hover_eq : ∀ level h, r.hover marker text line column level = some h →
    ∃ s d documentation, (r.complete marker text column level).head? = some s ∧
      r.get? w.text = some d ∧ s.documentation = some ⟨documentation⟩ ∧
      h = ⟨⟨joined d.signatureText documentation⟩, line, s.replace⟩

variable {r marker text column}

theorem complete_of_wordAt? {w : Word} (hw : Cursor.wordAt? marker text column = some w)
    (level : Detail) : r.complete marker text column level =
      (r.startingWith w.text).map (Suggestion.of level w.span) := by
  rw [complete, hw]

theorem labels_complete {w : Word} (hw : Cursor.wordAt? marker text column = some w)
    (level : Detail) : (r.complete marker text column level).map (·.label) =
      (r.startingWith w.text).map (·.name) := by
  rw [complete_of_wordAt? hw, List.map_map]
  rfl

theorem hover_eq_some_iff {w : Word} (hw : Cursor.wordAt? marker text column = some w)
    {level : Detail} {h : Hover} : r.hover marker text line column level = some h ↔
      ∃ d contents, r.get? w.text = some d ∧ d.format level true = some contents ∧
        h = ⟨contents, line, w.span⟩ := by
  constructor
  · intro hh
    unfold hover at hh
    simp only [hw, Option.bind_eq_bind, Option.bind_some, Option.bind_eq_some_iff, Option.pure_def,
      Option.some.injEq] at hh
    obtain ⟨d, hd, contents, hf, rfl⟩ := hh
    exact ⟨d, contents, hd, hf, rfl⟩
  · rintro ⟨d, contents, hd, hf, rfl⟩
    exact hover_eq_some hw hd hf

theorem exists_get?_iff_head?_label {w : Word} (hw : Cursor.wordAt? marker text column = some w)
    (level : Detail) : (∃ d, r.get? w.text = some d) ↔
      (r.complete marker text column level).head?.map (·.label) = some w.text := by
  rw [← List.head?_map, labels_complete hw, List.head?_map, Option.map_eq_some_iff]
  simp only [get?_eq_some_iff]

theorem isSome_hover_iff {w : Word} (hw : Cursor.wordAt? marker text column = some w)
    (shown level : Detail) : (r.hover marker text line column shown).isSome ↔
      shown ≠ .off ∧ (r.complete marker text column level).head?.map (·.label) = some w.text := by
  rw [← exists_get?_iff_head?_label hw, Option.isSome_iff_exists]
  constructor
  · rintro ⟨h, hh⟩
    obtain ⟨d, contents, hd, hf, -⟩ := (hover_eq_some_iff line hw).1 hh
    refine ⟨?_, d, hd⟩
    rintro rfl
    exact absurd hf (by simp [Description.format])
  · rintro ⟨hshown, d, hd⟩
    obtain ⟨documentation, -, hf⟩ := d.format_with_signature shown hshown
    exact ⟨_, (hover_eq_some_iff line hw).2 ⟨d, _, hd, hf, rfl⟩⟩

/-- What is shown for a word comes from the first suggestion, with the signature put in front. -/
theorem hover_eq_first {w : Word} (hw : Cursor.wordAt? marker text column = some w)
    {level : Detail} {h : Hover} (hh : r.hover marker text line column level = some h) :
    ∃ s d documentation, (r.complete marker text column level).head? = some s ∧
      r.get? w.text = some d ∧ s.documentation = some ⟨documentation⟩ ∧
      h = ⟨⟨joined d.signatureText documentation⟩, line, s.replace⟩ := by
  have hlevel : level ≠ .off :=
    ((isSome_hover_iff line hw level level).1 (Option.isSome_of_eq_some hh)).1
  obtain ⟨d, contents, hd, hf, rfl⟩ := (hover_eq_some_iff line hw).1 hh
  obtain ⟨documentation, hwithout, hwith⟩ := d.format_with_signature level hlevel
  obtain rfl : contents = ⟨joined d.signatureText documentation⟩ :=
    Option.some.inj (hf.symm.trans hwith)
  have hfirst : (r.complete marker text column level).head? =
      some (Suggestion.of level w.span d) := by
    rw [complete_of_wordAt? hw, List.head?_map, (get?_eq_some_iff.1 hd).1]
    rfl
  exact ⟨_, d, documentation, hfirst, hd, hwithout, rfl⟩

variable (r marker text column)

/-- Where there is no word nothing is shown and nothing suggested; where there is one, what is shown
and what is suggested agree. -/
theorem hover_agrees_with_complete :
    match Cursor.wordAt? marker text column with
    | none => ∀ level, r.hover marker text line column level = none ∧
        r.complete marker text column level = []
    | some w => r.Agrees marker text line column w := by
  cases hw : Cursor.wordAt? marker text column with
  | none =>
    intro level
    constructor
    · rw [hover, hw]
      rfl
    · rw [complete, hw]
  | some w =>
    refine {
      mem_labels := ?_
      sorted_labels := ?_
      nodup_labels := ?_
      replace_eq := ?_
      isSome_hover := isSome_hover_iff line hw
      hover_eq := fun level h => hover_eq_first line hw }
    · intro level n
      rw [labels_complete hw, names, List.mem_map, List.mem_map]
      simp only [mem_startingWith]
      grind
    · intro level
      rw [labels_complete hw]
      exact sorted_startingWith r w.text
    · intro level
      rw [labels_complete hw]
      exact r.nodup_names.sublist ((startingWith_sublist r w.text).map _)
    · intro level s hs
      rw [complete_of_wordAt? hw] at hs
      obtain ⟨d, -, rfl⟩ := List.mem_map.1 hs
      rfl

-- a name that another one starts with
example :
    let r := ofList [.bare "every'", .bare "every"]
    (r.complete "--" "every 2" 3 .minimum).map (·.label) = ["every", "every'"] ∧
    r.hover "--" "every 2" 0 3 .minimum = some ⟨⟨"every ?"⟩, 0, ⟨0, 5⟩⟩ := by
  decide

end Handbook.Registry
