import Handbook.Registry
import Mathlib.Data.Finset.Card
import Mathlib.Data.List.Nodup

namespace Handbook.Registry

@[simp] theorem get?_empty (n : Text) : empty.get? n = none := rfl

theorem find?_insertEntry (d : Description) (es : List Description) (n : Text) :
    (insertEntry d es).find? (·.name = n) =
      if d.name = n then some d else es.find? (·.name = n) := by
  induction es with
  | nil => by_cases hn : d.name = n <;> simp [insertEntry, hn]
  | cons e es ih =>
    -- in front of the first larger name, further behind, or in place of its own name
    unfold insertEntry
    split
    · by_cases hn : d.name = n <;> simp [hn]
    · split
      · next hlt =>
        have hne : e.name = n → d.name ≠ n := by
          intro he hd
          rw [he, hd] at hlt
          exact List.lt_irrefl n hlt
        by_cases he : e.name = n
        · simp [he, hne he]
        · simp [he, ih]
      · next hd he =>
        have hsame : e.name = d.name := by
          rcases Text.lt_trichotomy d.name e.name with h | h | h
          · exact absurd h hd
          · exact h.symm
          · exact absurd h he
        by_cases hn : d.name = n <;> simp [hsame, hn]

@[simp] theorem get?_insert (r : Registry) (d : Description) (n : Text) :
    (r.insert d).get? n = if d.name = n then some d else r.get? n :=
  find?_insertEntry d r.entries n

/-- The last description of a name wins over all before it and over what was there. -/
theorem get?_foldl_insert (ds : List Description) (r : Registry) (n : Text) :
    (ds.foldl insert r).get? n = (ds.findRev? (·.name = n)).or (r.get? n) := by
  induction ds generalizing r with
  | nil => rfl
  | cons d ds ih =>
    rw [List.foldl_cons, ih, get?_insert, List.findRev?]
    -- only when no later description has the name does this one count
    cases ds.findRev? (·.name = n) with
    | some e => rfl
    | none => by_cases hn : d.name = n <;> simp [hn]

theorem get?_ofList (ds : List Description) (n : Text) :
    (ofList ds).get? n = ds.findRev? (·.name = n) := by
  rw [ofList, get?_foldl_insert, get?_empty, Option.or_none]

theorem name_of_get? {r : Registry} {n : Text} {d : Description} (h : r.get? n = some d) :
    d.name = n := by
  simpa using List.find?_some h

theorem nodup_names (r : Registry) : r.names.Nodup := by
  rw [List.nodup_iff_pairwise_ne]
  refine r.sorted.imp fun {a b} h he => ?_
  rw [he] at h
  exact List.lt_irrefl b h

theorem get?_of_mem {r : Registry} {d : Description} (h : d ∈ r.entries) :
    r.get? d.name = some d := by
  cases hg : r.get? d.name with
  | none =>
    have hno := List.find?_eq_none.1 hg d h
    simp at hno
  | some e =>
    have hmem : e ∈ r.entries := List.mem_of_find?_eq_some hg
    rw [List.inj_on_of_nodup_map r.nodup_names hmem h (name_of_get? hg)]

theorem contains_iff (r : Registry) (n : Text) : r.contains n = true ↔ n ∈ r.names := by
  unfold contains names
  rw [get?, List.find?_isSome]
  simp

theorem mem_names_ofList (ds : List Description) (n : Text) :
    n ∈ (ofList ds).names ↔ n ∈ ds.map (·.name) := by
  rw [← contains_iff, contains, get?_ofList, List.findRev?_eq_find?_reverse, List.find?_isSome]
  simp

theorem mem_of_get?_ofList {ds : List Description} {n : Text} {d : Description}
    (h : (ofList ds).get? n = some d) : d ∈ ds := by
  rw [get?_ofList, List.findRev?_eq_find?_reverse] at h
  exact List.mem_reverse.1 (List.mem_of_find?_eq_some h)

theorem get?_ofList_eq_some_iff {ds : List Description} (h : (ds.map (·.name)).Nodup) {n : Text}
    {d : Description} : (ofList ds).get? n = some d ↔ d ∈ ds ∧ d.name = n := by
  constructor
  · intro hget
    exact ⟨mem_of_get?_ofList hget, name_of_get? hget⟩
  · rintro ⟨hd, rfl⟩
    have hhas : (ofList ds).contains d.name = true :=
      (contains_iff _ _).2 ((mem_names_ofList ds _).2 (List.mem_map_of_mem hd))
    obtain ⟨e, he⟩ := Option.isSome_iff_exists.1 hhas
    have hname : e.name = d.name := name_of_get? he
    rw [he, List.inj_on_of_nodup_map h (mem_of_get?_ofList he) hd hname]

theorem mem_entries_iff {r : Registry} {d : Description} :
    d ∈ r.entries ↔ r.get? d.name = some d :=
  ⟨get?_of_mem, List.mem_of_find?_eq_some⟩

/-- The order of names leaves a registry no choice: what is found in it is all there is to it. -/
theorem eq_of_get? {r r' : Registry} (h : ∀ n, r.get? n = r'.get? n) : r = r' := by
  have hperm : r.entries.Perm r'.entries := by
    rw [List.perm_ext_iff_of_nodup r.nodup_names.of_map r'.nodup_names.of_map]
    intro d
    rw [mem_entries_iff, mem_entries_iff, h]
  have hentries : r.entries = r'.entries := by
    refine hperm.eq_of_pairwise (fun a b _ _ hab hba => ?_) (List.pairwise_map.1 r.sorted)
      (List.pairwise_map.1 r'.sorted)
    exact absurd (List.lt_trans hab hba) (List.lt_irrefl a.name)
  cases r
  cases r'
  cases hentries
  rfl

theorem ofList_perm {ds ds' : List Description} (hperm : ds.Perm ds')
    (h : (ds.map (·.name)).Nodup) : ofList ds = ofList ds' := by
  have h' : (ds'.map (·.name)).Nodup := (hperm.map _).nodup h
  apply eq_of_get?
  intro n
  apply Option.ext
  intro d
  rw [get?_ofList_eq_some_iff h, get?_ofList_eq_some_iff h', hperm.mem_iff]

/-- As many entries as there are different names among what was put in. -/
theorem length_entries_ofList (ds : List Description) :
    (ofList ds).entries.length = (ds.map (·.name)).toFinset.card := by
  have hset : (ds.map (·.name)).toFinset = (ofList ds).names.toFinset := by
    ext n
    rw [List.mem_toFinset, List.mem_toFinset, mem_names_ofList]
  rw [hset, List.toFinset_card_of_nodup (nodup_names _), names, List.length_map]

end Handbook.Registry
