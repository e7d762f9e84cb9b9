import Handbook.Proofs.Registry.Contents
import Mathlib.Data.List.TakeWhile

namespace Handbook

namespace Text

theorem prefix_not_lt {start t : Text} (h : start <+: t) : ¬ t < start := by
  induction start generalizing t with
  | nil => exact List.not_lt_nil t
  | cons c start ih =>
    obtain ⟨rest, rfl⟩ := h
    rw [List.cons_append, List.cons_lt_cons_iff]
    rintro (hlt | ⟨-, hlt⟩)
    · exact Char.lt_irrefl c hlt
    · exact ih (List.prefix_append start rest) hlt

/-- Between a text and one that starts with it, all start with it. -/
theorem prefix_of_prefix_of_lt {start a b : Text} (ha : ¬ a < start) (hab : a < b)
    (hb : start <+: b) : start <+: a := by
  induction start generalizing a b with
  | nil => exact List.nil_prefix
  | cons c start ih =>
    obtain ⟨rest, rfl⟩ := hb
    cases a with
    | nil => exact absurd (List.nil_lt_cons c start) ha
    | cons d a =>
      rw [List.cons_append, List.cons_lt_cons_iff] at hab
      rw [List.cons_lt_cons_iff, not_or, not_and] at ha
      obtain hlt | ⟨rfl, hlt⟩ := hab
      · exact absurd hlt ha.1
      · exact List.cons_prefix_cons.2 ⟨rfl, ih (ha.2 rfl) hlt (List.prefix_append start rest)⟩

end Text

namespace Registry

open Text

theorem takeWhile_eq_filter {start : Text} {ds : List Description}
    (hsorted : (ds.map (·.name)).Pairwise (· < ·)) (hstart : ∀ d ∈ ds, ¬ d.name < start) :
    (ds.takeWhile fun d => start.isPrefixOf d.name) =
      ds.filter fun d => start.isPrefixOf d.name := by
  induction ds with
  | nil => rfl
  | cons d ds ih =>
    rw [List.map_cons, List.pairwise_cons] at hsorted
    rw [List.forall_mem_cons] at hstart
    cases hd : start.isPrefixOf d.name with
    | true =>
      simp only [List.takeWhile_cons, List.filter_cons, hd, ih hsorted.2 hstart.2, if_pos]
    | false =>
      -- this name comes behind the text and all that begins with it, and later names do too
      have hno : ∀ e ∈ d :: ds, ¬ start.isPrefixOf e.name = true := by
        intro e he hname
        have hprefix : start <+: e.name := List.isPrefixOf_iff_prefix.1 hname
        have hd' : ¬ start <+: d.name := by
          rw [← List.isPrefixOf_iff_prefix, hd]
          decide
        obtain rfl | he := List.mem_cons.1 he
        · exact hd' hprefix
        · have hlt := hsorted.1 e.name (List.mem_map_of_mem he)
          exact hd' (prefix_of_prefix_of_lt hstart.1 hlt hprefix)
      rw [List.filter_eq_nil_iff.2 hno, List.takeWhile_cons, hd]
      rfl

theorem not_lt_of_mem_dropWhile {start : Text} {ds : List Description}
    (hsorted : (ds.map (·.name)).Pairwise (· < ·)) :
    ∀ d ∈ ds.dropWhile fun d => d.name < start, ¬ d.name < start := by
  induction ds with
  | nil => simp
  | cons d ds ih =>
    rw [List.map_cons, List.pairwise_cons] at hsorted
    by_cases hd : d.name < start
    · rw [List.dropWhile_cons, decide_eq_true hd]
      exact ih hsorted.2
    · rw [List.dropWhile_cons, decide_eq_false hd]
      intro e he hlt
      obtain rfl | he := List.mem_cons.1 he
      · exact hd hlt
      · exact hd (List.lt_trans (hsorted.1 e.name (List.mem_map_of_mem he)) hlt)

theorem takeWhile_dropWhile_eq_filter (start : Text) {ds : List Description}
    (hsorted : (ds.map (·.name)).Pairwise (· < ·)) :
    ((ds.dropWhile fun d => d.name < start).takeWhile fun d => start.isPrefixOf d.name) =
      ds.filter fun d => start.isPrefixOf d.name := by
  have hbefore : ∀ d ∈ ds.takeWhile fun d => d.name < start, ¬ start.isPrefixOf d.name = true := by
    intro d hd
    have hlt : d.name < start := by simpa using List.mem_takeWhile_imp hd
    exact fun h => prefix_not_lt (List.isPrefixOf_iff_prefix.1 h) hlt
  have hbehind := hsorted.sublist ((List.dropWhile_sublist fun d => d.name < start).map _)
  rw [takeWhile_eq_filter hbehind (not_lt_of_mem_dropWhile hsorted)]
  conv_rhs => rw [← List.takeWhile_append_dropWhile (p := fun d => d.name < start) (l := ds)]
  rw [List.filter_append, List.filter_eq_nil_iff.2 hbefore, List.nil_append]

/-- Found for a text is every description whose name starts with it, and no other. -/
theorem startingWith_eq_filter (r : Registry) (start : Text) :
    r.startingWith start = r.entries.filter fun d => start.isPrefixOf d.name :=
  takeWhile_dropWhile_eq_filter start r.sorted

theorem names_startingWith (r : Registry) (start : Text) :
    (r.startingWith start).map (·.name) = r.names.filter fun n => start.isPrefixOf n := by
  rw [startingWith_eq_filter, names, List.filter_map]
  rfl

theorem startingWith_sublist (r : Registry) (start : Text) :
    (r.startingWith start).Sublist r.entries := by
  rw [startingWith_eq_filter]
  exact List.filter_sublist

theorem sorted_startingWith (r : Registry) (start : Text) :
    ((r.startingWith start).map (·.name)).Pairwise (· < ·) :=
  r.sorted.sublist ((startingWith_sublist r start).map _)

theorem mem_startingWith {r : Registry} {start : Text} {d : Description} :
    d ∈ r.startingWith start ↔ d ∈ r.entries ∧ start <+: d.name := by
  rw [startingWith_eq_filter, List.mem_filter, List.isPrefixOf_iff_prefix]

theorem mem_names_startingWith {r : Registry} {start n : Text} :
    n ∈ (r.startingWith start).map (·.name) ↔ n ∈ r.names ∧ start <+: n := by
  rw [names_startingWith, List.mem_filter, List.isPrefixOf_iff_prefix]

theorem get?_eq_some_iff {r : Registry} {start : Text} {d : Description} :
    r.get? start = some d ↔ (r.startingWith start).head? = some d ∧ d.name = start := by
  constructor
  · intro h
    obtain rfl : d.name = start := name_of_get? h
    have hmem : d ∈ r.startingWith d.name :=
      mem_startingWith.2 ⟨List.mem_of_find?_eq_some h, List.prefix_refl _⟩
    have hsorted := sorted_startingWith r d.name
    have hnames : ∀ e ∈ r.startingWith d.name, d.name <+: e.name :=
      fun e he => (mem_startingWith.1 he).2
    refine ⟨?_, rfl⟩
    cases hfound : r.startingWith d.name with
    | nil =>
      rw [hfound] at hmem
      exact absurd hmem (by simp)
    | cons e es =>
      rw [hfound] at hmem hsorted hnames
      rw [List.map_cons, List.pairwise_cons] at hsorted
      obtain rfl | hbehind := List.mem_cons.1 hmem
      · rfl
      · -- nothing that starts with the name comes before it
        have hlt := hsorted.1 d.name (List.mem_map_of_mem hbehind)
        exact absurd hlt (prefix_not_lt (hnames e List.mem_cons_self))
  · rintro ⟨hhead, rfl⟩
    exact get?_of_mem (mem_startingWith.1 (List.mem_of_mem_head? hhead)).1

theorem map_get?_names_startingWith (r : Registry) (start : Text) :
    ((r.startingWith start).map (·.name)).map r.get? = (r.startingWith start).map some := by
  rw [List.map_map]
  apply List.map_congr_left
  intro d hd
  exact get?_of_mem (mem_startingWith.1 hd).1

/-- The search begins behind the names that come before the text, and ends where names no longer begin
with it. -/
theorem exists_entries_eq (r : Registry) (start : Text) :
    ∃ before after, r.entries = before ++ r.startingWith start ++ after ∧
      (∀ d ∈ before, d.name < start) ∧ ∀ d ∈ after, start < d.name ∧ ¬ start <+: d.name := by
  let before := r.entries.takeWhile fun d => d.name < start
  let rest := r.entries.dropWhile fun d => d.name < start
  let after := rest.dropWhile fun d => start.isPrefixOf d.name
  have hrest : r.startingWith start ++ after = rest := List.takeWhile_append_dropWhile
  have hentries : r.entries = before ++ r.startingWith start ++ after := by
    rw [List.append_assoc, hrest]
    exact List.takeWhile_append_dropWhile.symm
  refine ⟨before, after, hentries, fun d hd => ?_, fun d hd => ?_⟩
  · simpa using List.mem_takeWhile_imp hd
  · have hno : ¬ start <+: d.name := by
      intro hprefix
      have hmem : d ∈ r.entries := by
        rw [hentries]
        exact List.mem_append_right _ hd
      have hfound : d ∈ r.startingWith start := mem_startingWith.2 ⟨hmem, hprefix⟩
      -- it would be an entry twice
      have hnodup : r.entries.Nodup := r.nodup_names.of_map
      rw [hentries, List.nodup_append] at hnodup
      exact hnodup.2.2 d (List.mem_append_right _ hfound) d hd rfl
    have hnot : ¬ d.name < start :=
      not_lt_of_mem_dropWhile r.sorted d ((List.dropWhile_sublist _).subset hd)
    rcases Text.lt_trichotomy start d.name with hlt | heq | hlt
    · exact ⟨hlt, hno⟩
    · rw [heq] at hno
      exact absurd (List.prefix_refl d.name) hno
    · exact absurd hlt hnot

theorem contains_iff_startingWith (r : Registry) (n : Text) :
    r.contains n = true ↔ ∃ d rest, r.startingWith n = d :: rest ∧ d.name = n := by
  rw [contains, Option.isSome_iff_exists]
  simp only [get?_eq_some_iff, List.head?_eq_some_iff]
  constructor
  · rintro ⟨d, ⟨rest, hfound⟩, hname⟩
    exact ⟨d, rest, hfound, hname⟩
  · rintro ⟨d, rest, hfound, hname⟩
    exact ⟨d, ⟨rest, hfound⟩, hname⟩

/-- Searching for a text is looking up the names that begin with it, one by one and in their order. The
entries that are found stand together, and no other name begins with the text. A name is held when the
search for it finds it first. -/
theorem startingWith_looks_up (r : Registry) (start : Text) :
    let found := r.startingWith start
    found.map some = (r.names.filter fun n => start.isPrefixOf n).map r.get? ∧
    found.map (·.name) = (r.names.filter fun n => start.isPrefixOf n) ∧
    (found.map (·.name)).Pairwise (· < ·) ∧ found.Nodup ∧
    (∃ before after, r.entries = before ++ found ++ after ∧
      (∀ d ∈ before, d.name < start) ∧ ∀ d ∈ after, start < d.name ∧ ¬ start <+: d.name) ∧
    (r.contains start = true ↔ ∃ d rest, found = d :: rest ∧ d.name = start) := by
  intro found
  have hnames := names_startingWith r start
  have hlookup := map_get?_names_startingWith r start
  have hnodup : found.Nodup := r.nodup_names.of_map.sublist (startingWith_sublist r start)
  rw [hnames] at hlookup
  exact ⟨hlookup.symm, hnames, sorted_startingWith r start, hnodup, exists_entries_eq r start,
    contains_iff_startingWith r start⟩

end Registry

end Handbook
