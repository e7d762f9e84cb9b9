import Handbook.Definition.Reading
import Mathlib.Data.List.Forall2

namespace Handbook

/-- The entries of a mapping under its tags; other trees have none. -/
def Tree.entries (t : Tree) : List (Tree × Tree) :=
  match t.untagged with
  | .mapping es => es
  | _ => []

def Tree.text? (t : Tree) : Option Text :=
  match t.untagged with
  | .text s => some s
  | _ => none

theorem Tree.entries_of_mapping {t : Tree} {es : List (Tree × Tree)} (h : t.untagged = .mapping es) :
    t.entries = es := by
  rw [entries, h]

theorem Tree.exists_of_mem_entries {t : Tree} {e : Tree × Tree} (he : e ∈ t.entries) :
    ∃ es, t.untagged = .mapping es := by
  unfold entries at he
  split at he
  · next es h => exact ⟨es, h⟩
  · exact absurd he (by simp)

theorem Tree.text?_of_mapping {t : Tree} {es : List (Tree × Tree)} (h : t.untagged = .mapping es) :
    t.text? = none := by
  rw [text?, h]

theorem Tree.text?_eq_some_iff {t : Tree} {s : Text} : t.text? = some s ↔ t.untagged = .text s := by
  unfold text?
  cases t.untagged <;> simp

theorem Tree.untagged_ne_tagged (t : Tree) (name : Text) (inner : Tree) :
    t.untagged ≠ .tagged name inner := by
  fun_induction untagged t with
  | case1 _ _ ih => exact ih
  | case2 t h => exact h name inner

theorem Tree.shape_eq_null_iff {t : Tree} : t.shape = .null ↔ t.untagged = .null := by
  fun_induction shape t with
  | case7 _ t ih => exact ih
  | _ => simp [untagged]

theorem Tree.shape_eq_text_iff {t : Tree} : t.shape = .text ↔ ∃ s, t.untagged = .text s := by
  fun_induction shape t with
  | case7 _ t ih => exact ih
  | _ => simp [untagged]

theorem Tree.shape_eq_sequence_iff {t : Tree} :
    t.shape = .sequence ↔ ∃ items, t.untagged = .sequence items := by
  fun_induction shape t with
  | case7 _ t ih => exact ih
  | _ => simp [untagged]

theorem Tree.shape_eq_mapping_iff {t : Tree} :
    t.shape = .mapping ↔ ∃ es, t.untagged = .mapping es := by
  fun_induction shape t with
  | case7 _ t ih => exact ih
  | _ => simp [untagged]

theorem Tree.text?_eq_none_iff {t : Tree} : t.text? = none ↔ t.shape ≠ .text := by
  fun_induction shape t with
  | case7 _ t ih => exact ih
  | _ => simp [text?, untagged]

theorem Tree.entries_of_shape_ne {t : Tree} (h : t.shape ≠ .mapping) : t.entries = [] := by
  unfold entries
  split
  · next es hes => exact absurd (shape_eq_mapping_iff.2 ⟨es, hes⟩) h
  · rfl

namespace Definitions

/-- What a single entry gives: a description, and the warnings on the way to it. -/
def ofEntry (language label : Text) (e : Tree × Tree) :
    Except Fault (Description × List Warning) :=
  match e.1.untagged with
  | .text name =>
    (Reading.command language name e.2).map fun c => (c.1, c.2.map (Warning.mk label name))
  | t => .error (.commandName t.shape)

def append (read : Definitions) (cs : List (Description × List Warning)) : Definitions :=
  ⟨read.descriptions ++ cs.map (·.1), read.warnings ++ cs.flatMap (·.2)⟩

variable (language label : Text)

theorem entry_eq (read : Definitions) (e : Tree × Tree) :
    entry language label read e = (ofEntry language label e).map fun c => read.append [c] := by
  unfold entry ofEntry
  generalize e.1.untagged = key
  cases key with
  | text name =>
    dsimp only
    cases Reading.command language name e.2 with
    | error fault => rfl
    | ok c => simp [append, bind, Except.bind, Except.map, pure, Except.pure]
  | _ => rfl

theorem append_append (read : Definitions) (cs cs' : List (Description × List Warning)) :
    (read.append cs).append cs' = read.append (cs ++ cs') := by
  simp [append]

theorem foldlM_entry (read : Definitions) (es : List (Tree × Tree)) :
    es.foldlM (entry language label) read =
      (es.mapM (ofEntry language label)).map read.append := by
  -- the first fault stops both, and what was read before it does not show
  induction es generalizing read with
  | nil => simp [append, Except.map, pure, Except.pure]
  | cons e es ih =>
    rw [List.foldlM_cons, List.mapM_cons, entry_eq]
    cases ofEntry language label e with
    | error fault => rfl
    | ok c =>
      simp only [Except.map, bind, Except.bind, ih]
      cases es.mapM (ofEntry language label) with
      | error fault => rfl
      | ok cs => simp [append_append, pure, Except.pure]

theorem mapM_ofEntry_eq_ok {es : List (Tree × Tree)} {cs : List (Description × List Warning)} :
    es.mapM (ofEntry language label) = .ok cs ↔
      List.Forall₂ (fun e c => ofEntry language label e = .ok c) es cs := by
  induction es generalizing cs with
  | nil => cases cs <;> simp [pure, Except.pure]
  | cons e es ih =>
    rw [List.mapM_cons]
    cases he : ofEntry language label e with
    | error fault => cases cs <;> simp [bind, Except.bind, he]
    | ok c =>
      cases hes : es.mapM (ofEntry language label) with
      | error fault => cases cs <;> simp [bind, Except.bind, ← ih, hes]
      | ok rest => cases cs <;> simp [bind, Except.bind, pure, Except.pure, ← ih, hes, he]

theorem exists_readings_iff {es : List (Tree × Tree)} :
    (∃ cs, List.Forall₂ (fun e c => ofEntry language label e = .ok c) es cs) ↔
      ∀ e ∈ es, ∃ c, ofEntry language label e = .ok c := by
  induction es with
  | nil => simp
  | cons e es ih =>
    rw [List.forall_mem_cons, ← ih]
    constructor
    · rintro ⟨cs, h⟩
      obtain ⟨c, cs', hc, hcs, -⟩ := List.forall₂_cons_left_iff.1 h
      exact ⟨⟨c, hc⟩, cs', hcs⟩
    · rintro ⟨⟨c, hc⟩, cs, hcs⟩
      exact ⟨c :: cs, .cons hc hcs⟩

theorem ofTree_of_mapping {t : Tree} {es : List (Tree × Tree)} (h : t.untagged = .mapping es) :
    ofTree language label t = (es.mapM (ofEntry language label)).map empty.append := by
  rw [ofTree, h]
  exact foldlM_entry language label empty es

/-- A tree that can be read is empty or a mapping, and each of its entries can be read. -/
theorem entries_of_ofTree {t : Tree} {d : Definitions} (h : ofTree language label t = .ok d) :
    ∃ cs, List.Forall₂ (fun e c => ofEntry language label e = .ok c) t.entries cs ∧
      d = empty.append cs := by
  unfold Tree.entries
  cases ht : t.untagged with
  | null =>
    rw [ofTree, ht] at h
    exact ⟨[], .nil, (Except.ok.inj h).symm⟩
  | mapping es =>
    rw [ofTree_of_mapping language label ht] at h
    cases hes : es.mapM (ofEntry language label) with
    | error fault => rw [hes] at h; exact absurd h (by simp [Except.map])
    | ok cs =>
      rw [hes] at h
      exact ⟨cs, (mapM_ofEntry_eq_ok language label).1 hes, (Except.ok.inj h).symm⟩
  | _ =>
    rw [ofTree, ht] at h
    exact absurd h (by simp)

theorem name_of_command {name : Text} {value : Tree} {c : Reading.Noted Description}
    (hvalue : value.text? = none) (h : Reading.command language name value = .ok c) :
    c.1.name = name := by
  have hdescribed : ∀ properties, (do
      let read ← Reading.draft name properties
      return (read.1.describe language name, read.2)) = Except.ok c → c.1.name = name := by
    intro properties hc
    cases hd : Reading.draft name properties with
    | error fault => rw [hd] at hc; exact absurd hc (by simp [bind, Except.bind])
    | ok read =>
      rw [hd] at hc
      obtain rfl := Except.ok.inj hc
      rfl
  unfold Reading.command at h
  unfold Tree.text? at hvalue
  cases hv : value.untagged with
  | text meant => rw [hv] at hvalue; exact absurd hvalue (by simp)
  | null => rw [hv] at h; exact hdescribed [] h
  | mapping properties => rw [hv] at h; exact hdescribed properties h
  | _ => rw [hv] at h; exact absurd h (by simp)

/-- An entry that can be read stands under a name. With a text for its value it gives the bare
command of that text, and else a description of the command of its own name. -/
theorem ofEntry_cases {e : Tree × Tree} {c : Description × List Warning}
    (h : ofEntry language label e = .ok c) :
    ∃ name, e.1.text? = some name ∧
      ((∃ meant, e.2.text? = some meant ∧ c = (.bare meant, [])) ∨
        (e.2.text? = none ∧ c.1.name = name)) := by
  unfold ofEntry at h
  split at h
  · next name hkey =>
    refine ⟨name, Tree.text?_eq_some_iff.2 hkey, ?_⟩
    cases hc : Reading.command language name e.2 with
    | error fault => rw [hc] at h; exact absurd h (by simp [Except.map])
    | ok noted =>
      rw [hc] at h
      obtain rfl := Except.ok.inj h
      cases hvalue : e.2.text? with
      | none => exact .inr ⟨rfl, name_of_command language hvalue hc⟩
      | some meant =>
        rw [Reading.command, Tree.text?_eq_some_iff.1 hvalue] at hc
        obtain rfl := Except.ok.inj hc
        exact .inl ⟨meant, rfl, rfl⟩
  · exact absurd h (by simp)

end Definitions

end Handbook
