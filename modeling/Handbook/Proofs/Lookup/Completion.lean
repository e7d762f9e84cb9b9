import Handbook.Lookup
import Handbook.Proofs.Cursor.Word
import Handbook.Proofs.Registry.Contents

namespace Handbook

namespace Suggestion

/-- The line once its columns in `replace` are exchanged for the inserted text. -/
def accept (s : Suggestion) (line : Text) : Text :=
  line.take s.replace.start ++ s.insertText ++ line.drop s.replace.stop

theorem accept_of_eq_append {s : Suggestion} {line before old rest : Text}
    (hline : line = before ++ old ++ rest) (hstart : before.length = s.replace.start)
    (hstop : s.replace.stop = s.replace.start + old.length) :
    s.accept line = before ++ s.insertText ++ rest := by
  have htake : line.take s.replace.start = before := by
    rw [hline, ← hstart, List.append_assoc, List.take_left]
  have hdrop : line.drop s.replace.stop = rest := by
    rw [hline, hstop, ← hstart, ← List.length_append, List.drop_left]
  rw [accept, htake, hdrop]

theorem insertText_of (level : Detail) (span : Span) (d : Description) :
    ∃ places, (Suggestion.of level span d).insertText = d.name ++ places ∧
      ∀ c ∈ places.head?, c = ' ' := by
  change ∃ places, List.intercalate [' '] (d.name :: d.editableNames) = d.name ++ places ∧ _
  cases d.editableNames with
  | nil => exact ⟨[], by simp, by simp⟩
  | cons n ns =>
    refine ⟨' ' :: List.intercalate [' '] (n :: ns), ?_, by simp⟩
    rw [List.intercalate_cons_cons]
    simp

end Suggestion

namespace Registry

open Cursor

theorem mem_entries_of_mem_startingWith {r : Registry} {start : Text} {d : Description}
    (h : d ∈ r.startingWith start) : d ∈ r.entries :=
  (List.dropWhile_sublist _).subset ((List.takeWhile_sublist _).subset h)

theorem exists_of_mem_complete {r : Registry} {marker line : Text} {column : Nat} {level : Detail}
    {s : Suggestion} (h : s ∈ r.complete marker line column level) :
    ∃ w d, wordAt? marker line column = some w ∧ d ∈ r.entries ∧ s = .of level w.span d := by
  unfold complete at h
  cases hw : wordAt? marker line column with
  | none =>
    rw [hw] at h
    exact absurd h (by simp)
  | some w =>
    rw [hw] at h
    obtain ⟨d, hd, rfl⟩ := List.mem_map.1 h
    exact ⟨w, d, rfl, mem_entries_of_mem_startingWith hd, rfl⟩

theorem hover_eq_some {r : Registry} {marker text : Text} {line column : Nat} {level : Detail}
    {w : Word} {d : Description} {contents : Markup} (hw : wordAt? marker text column = some w)
    (hd : r.get? w.text = some d) (hf : d.format level true = some contents) :
    r.hover marker text line column level = some ⟨contents, line, w.span⟩ := by
  unfold hover
  rw [hw, Option.bind_eq_bind, Option.bind_some, hd, Option.bind_eq_bind, Option.bind_some, hf]
  rfl

/-- Taking a suggestion makes its command the word at the column where the suggestion stands, and
hovering there shows the description of that command, whatever else is on the line. -/
theorem hover_accept (r : Registry) {marker line : Text} {column : Nat} {level : Detail}
    {s : Suggestion} (hmarker : ∀ c ∈ marker, isWordTail c = false)
    (hs : s ∈ r.complete marker line column level) (hne : s.label ≠ [])
    (hlabel : ∀ c ∈ s.label, isWordTail c) (number : Nat) {shown : Detail} (hshown : shown ≠ .off) :
    ∃ d contents, r.get? s.label = some d ∧ d.format shown true = some contents ∧
      r.hover marker (s.accept line) number s.replace.start shown =
        some ⟨contents, number, ⟨s.replace.start, s.replace.start + s.label.length⟩⟩ := by
  obtain ⟨w, d, hw, hd, rfl⟩ := exists_of_mem_complete hs
  obtain ⟨before, rest, hline, hstart, hstop, hfree, hbefore, hrest⟩ :=
    exists_rest_of_wordAt? hmarker hw
  obtain ⟨places, hinsert, hplaces⟩ := Suggestion.insertText_of level w.span d
  have hnew : (Suggestion.of level w.span d).accept line =
      before ++ d.name ++ (places ++ rest) := by
    rw [Suggestion.accept_of_eq_append hline hstart hstop, hinsert]
    simp only [List.append_assoc]
  -- the name ends where the blank before the places stands, or where the old word ended
  have hend : ∀ c ∈ (places ++ rest).head?, isWordTail c = false := by
    intro c hc
    cases places with
    | nil => exact hrest c hc
    | cons a places =>
      rw [hplaces c hc]
      decide
  have hword := wordAt?_append hmarker hfree hbefore hne hlabel hend
  have hget : r.get? d.name = some d := get?_of_mem hd
  have hformat : d.format shown true =
      some ⟨sectionRule.intercalate (d.sections shown true)⟩ := if_neg hshown
  refine ⟨d, _, hget, hformat, ?_⟩
  rw [hnew]
  change r.hover marker _ number w.span.start shown =
    some ⟨_, number, ⟨w.span.start, w.span.start + d.name.length⟩⟩
  rw [← hstart]
  exact hover_eq_some hword hget hformat

theorem hover_accept_apostrophe :
    let every : Description := ⟨"every'", [⟨"every' *n*"⟩], [⟨"-- n", ⟨[]⟩, true, none⟩], none, none, []⟩
    let r := ofList [every]
    let s := Suggestion.of .full ⟨2, 4⟩ every
    (∀ c ∈ ("--" : Text), isWordTail c = false) ∧ s ∈ r.complete "--" "é ev -- ever" 3 .full ∧
    s.label ≠ [] ∧ (∀ c ∈ s.label, isWordTail c) ∧ Detail.minimum ≠ .off ∧
    s.accept "é ev -- ever" = "é every' -- n -- ever" ∧
    ∃ d contents, r.get? "every'" = some d ∧ d.format .minimum true = some contents ∧
      r.hover "--" "é every' -- n -- ever" 7 2 .minimum = some ⟨contents, 7, ⟨2, 8⟩⟩ := by
  intro every r s
  have hmarker : ∀ c ∈ ("--" : Text), isWordTail c = false := by
    have hall : ("--" : Text).all (!isWordTail ·) = true := by decide
    simpa using hall
  have hs : s ∈ r.complete "--" "é ev -- ever" 3 .full := by decide
  have hne : s.label ≠ [] := by decide
  have hlabel : ∀ c ∈ s.label, isWordTail c := List.all_eq_true.1 (by decide)
  have hshown : Detail.minimum ≠ .off := by decide
  have hline : s.accept "é ev -- ever" = "é every' -- n -- ever" := by decide
  refine ⟨hmarker, hs, hne, hlabel, hshown, hline, ?_⟩
  have h := hover_accept r hmarker hs hne hlabel 7 hshown
  rw [hline] at h
  exact h

end Registry

end Handbook
