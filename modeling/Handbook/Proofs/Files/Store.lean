import Handbook.Files.Store
import Mathlib.Data.List.Basic

namespace Handbook

namespace Disk

theorem decode?_encode (t : Text) : decode? (encode t) = some t := by
  have hread : String.fromUTF8? t.string.toUTF8 = some t.string := dif_pos t.string.isValidUTF8
  rw [decode?, encode, hread, Option.map_some, Text.string, String.toList_ofList]

theorem text_eq_ok_iff {disk : Disk} {path t : Text} :
    disk.text path = .ok t ↔ ∃ bytes, disk path = .ok bytes ∧ decode? bytes = some t := by
  unfold text
  cases disk path with
  | error e => simp [bind, Except.bind]
  | ok bytes =>
    cases h : decode? bytes <;>
      simp [bind, Except.bind, pure, Except.pure, throw, throwThe, MonadExceptOf.throw, h]

end Disk

namespace Files

def next (p : List Text) (name : Text) : List Text :=
  if name = [] ∨ name = ['.'] then p
  else if name = ['.', '.'] then p.dropLast
  else p ++ [name]

variable {fs : Files} {p q : List Text}

theorem walk_cons_eq_ok_iff {n : Text} {ns : List Text} : fs.walk p (n :: ns) = .ok q ↔
    fs.isFolder p ∧ Text.byteLength n ≤ 255 ∧ fs.walk (next p n) ns = .ok q := by
  rw [walk]
  cases hp : fs.isFolder p with
  | false => simp
  | true =>
    unfold next
    simp only [Bool.not_true, Bool.false_eq_true, if_false, true_and]
    split
    · next hn =>
      have hlen : Text.byteLength n ≤ 255 := by
        obtain rfl | rfl := hn <;> decide
      simp [hlen]
    · split
      · next hn =>
        have hlen : Text.byteLength n ≤ 255 := by
          rw [hn]
          decide
        simp [hlen]
      · split
        · next hn => simp [Nat.not_le.2 hn]
        · next hn => simp [Nat.not_lt.1 hn]

theorem walk_append_eq_ok_iff {before after : List Text} : fs.walk p (before ++ after) = .ok q ↔
    ∃ r, fs.walk p before = .ok r ∧ fs.walk r after = .ok q := by
  induction before generalizing p with
  | nil => simp [walk]
  | cons n ns ih =>
    simp only [List.cons_append, walk_cons_eq_ok_iff, ih]
    grind

/-- Only the folders matter on the way. -/
theorem walk_put (place : List Text) (bytes : ByteArray) {ns : List Text} :
    (fs.put place bytes).walk p ns = .ok q ↔ fs.walk p ns = .ok q := by
  induction ns generalizing p with
  | nil => simp [walk]
  | cons n ns ih =>
    rw [walk_cons_eq_ok_iff, walk_cons_eq_ok_iff, ih]
    rfl

/-- The path ends with the name of an entry of a folder, and the entry is no folder itself. -/
structure Reaches (fs : Files) (path : Text) (p : List Text) (name : Text) : Prop where
  no_error : pathError? path = none
  names_eq : ∃ before, Path.names path = before ++ [name] ∧ fs.walk (fs.origin path) before = .ok p
  isFolder : fs.isFolder p
  ne_nil : name ≠ []
  ne_dot : name ≠ ['.']
  ne_dots : name ≠ ['.', '.']
  length_le : Text.byteLength name ≤ 255
  not_isFolder : fs.isFolder (p ++ [name]) = false

theorem walk_concat_dot {ns : List Text} : fs.walk p (ns ++ [['.']]) = .ok q ↔
    fs.walk p ns = .ok q ∧ fs.isFolder q := by
  rw [walk_append_eq_ok_iff]
  have hlen : Text.byteLength ['.'] ≤ 255 := by decide
  have hdot : ∀ r, fs.walk r [['.']] = .ok q ↔ fs.isFolder r ∧ r = q := by
    intro r
    have hnext : next r ['.'] = r := if_pos (.inr rfl)
    rw [walk_cons_eq_ok_iff, hnext]
    simp [walk, hlen]
  simp only [hdot]
  grind

/-- No name is passed over at the end of a path that does not end with a separator. -/
theorem dropWhile_isEmpty {ns : List Text} {name : Text} (hne : name ≠ []) :
    (ns ++ [name]).reverse.dropWhile (·.isEmpty) = name :: ns.reverse := by
  rw [List.reverse_append]
  simp [hne]

theorem eq_append_of_dropWhile {ns before : List Text} {name : Text}
    (h : ns.reverse.dropWhile (·.isEmpty) = name :: before) (hlast : ns.getLast? ≠ some []) :
    ns = before.reverse ++ [name] ∧ name ≠ [] := by
  obtain rfl | ⟨init, last, rfl⟩ := List.eq_nil_or_concat' ns
  · simp at h
  · rw [List.getLast?_concat] at hlast
    have hne : last ≠ [] := fun hnil => hlast (by rw [hnil])
    rw [dropWhile_isEmpty hne] at h
    obtain ⟨rfl, rfl⟩ := List.cons.inj h
    exact ⟨by rw [List.reverse_reverse], hne⟩

theorem write_of_reaches {path name : Text} (h : fs.Reaches path p name) (bytes : ByteArray) :
    fs.write path bytes = .ok (fs.put (p ++ [name]) bytes) := by
  obtain ⟨before, hnames, hwalk⟩ := h.names_eq
  have hdot : fs.walk (fs.origin path) (before.reverse.reverse ++ [['.']]) = .ok p := by
    rw [List.reverse_reverse]
    exact walk_concat_dot.2 ⟨hwalk, h.isFolder⟩
  have hlast : ¬ (some name = some [] ∨ name = ['.'] ∨ name = ['.', '.']) := by
    simp [h.ne_nil, h.ne_dot, h.ne_dots]
  unfold write
  simp only [h.no_error, hnames, dropWhile_isEmpty h.ne_nil, List.getLast?_concat, hdot, bind,
    Except.bind, if_neg hlast, if_neg (Nat.not_lt.2 h.length_le), h.not_isFolder]
  rfl

theorem exists_reaches_of_write {path : Text} {bytes : ByteArray} {fs' : Files}
    (h : fs.write path bytes = .ok fs') : ∃ p name, fs.Reaches path p name ∧
      fs' = fs.put (p ++ [name]) bytes := by
  unfold write at h
  cases herr : pathError? path with
  | some e =>
    rw [herr] at h
    cases h
  | none =>
    simp only [herr, bind, Except.bind, pure, Except.pure, throw, throwThe, MonadExceptOf.throw] at h
    split at h
    · cases h
    · next name before hnames =>
      split at h
      · cases h
      · next p hwalk =>
        split_ifs at h with hlast hlen hfolder
        obtain ⟨hwalk, hp⟩ := walk_concat_dot.1 hwalk
        rw [not_or, not_or] at hlast
        obtain ⟨hns, hne⟩ := eq_append_of_dropWhile hnames hlast.1
        refine ⟨p, name, ?_, (Except.ok.inj h).symm⟩
        exact {
          no_error := herr
          names_eq := ⟨before.reverse, hns, hwalk⟩
          isFolder := hp
          ne_nil := hne
          ne_dot := hlast.2.1
          ne_dots := hlast.2.2
          length_le := Nat.not_lt.1 hlen
          not_isFolder := by simpa using hfolder }

/-- Every place around one that a walk has come to is a folder. -/
def Rooted (fs : Files) (p : List Text) : Prop := ∀ k < p.length, fs.isFolder (p.take k)

theorem isFolder_of_prefix (h : p <+: fs.working) : fs.isFolder p := by
  rw [isFolder, Iff.mpr List.isPrefixOf_iff_prefix h]
  rfl

theorem rooted_origin (fs : Files) (path : Text) : fs.Rooted (fs.origin path) := by
  intro k _
  unfold origin
  split
  · exact isFolder_of_prefix (by simp)
  · exact isFolder_of_prefix (List.take_prefix k _)

theorem Rooted.isFolder_dropLast (h : fs.Rooted p) : fs.isFolder p.dropLast := by
  obtain rfl | hne := eq_or_ne p []
  · exact isFolder_of_prefix List.nil_prefix
  · rw [List.dropLast_eq_take]
    refine h _ ?_
    have := List.length_pos_iff.2 hne
    omega

theorem Rooted.dropLast (h : fs.Rooted p) : fs.Rooted p.dropLast := by
  intro k hk
  rw [List.length_dropLast] at hk
  rw [List.dropLast_eq_take, List.take_take, Nat.min_eq_left (by omega)]
  exact h k (by omega)

theorem Rooted.next (h : fs.Rooted p) (hp : fs.isFolder p) (n : Text) :
    fs.Rooted (Files.next p n) := by
  unfold Files.next
  split
  · exact h
  · split
    · exact h.dropLast
    · intro k hk
      rw [List.length_append, List.length_singleton] at hk
      rw [List.take_append_of_le_length (by omega)]
      obtain hlt | rfl : k < p.length ∨ k = p.length := by omega
      · exact h k hlt
      · rw [List.take_length]
        exact hp

theorem Rooted.walk {ns : List Text} (h : fs.Rooted p) (hwalk : fs.walk p ns = .ok q) :
    fs.Rooted q := by
  induction ns generalizing p with
  | nil =>
    obtain rfl := Except.ok.inj hwalk
    exact h
  | cons n ns ih =>
    obtain ⟨hp, -, hrest⟩ := walk_cons_eq_ok_iff.1 hwalk
    exact ih (h.next hp n) hrest

theorem read_eq_ok_iff {path : Text} {bytes : ByteArray} : fs.read path = .ok bytes ↔
    pathError? path = none ∧ ∃ q, fs.walk (fs.origin path) (Path.names path) = .ok q ∧
      fs.isFolder q = false ∧ fs.content? q = some bytes := by
  unfold read
  cases pathError? path with
  | some e => simp [throw, throwThe, MonadExceptOf.throw, bind, Except.bind]
  | none =>
    simp only [bind, Except.bind, pure, Except.pure, throw, throwThe, MonadExceptOf.throw]
    cases fs.walk (fs.origin path) (Path.names path) with
    | error e => simp
    | ok q =>
      cases hfolder : fs.isFolder q <;> cases hbytes : fs.content? q <;> simp [hfolder, hbytes]

theorem reaches_of_read {path : Text} {bytes : ByteArray} (h : fs.read path = .ok bytes) :
    ∃ p name, fs.Reaches path p name ∧ fs.content? (p ++ [name]) = some bytes := by
  obtain ⟨herr, q, hwalk, hfolder, hbytes⟩ := read_eq_ok_iff.1 h
  obtain hnil | ⟨before, name, hnames⟩ := List.eq_nil_or_concat' (Path.names path)
  · exact absurd hnil (List.splitOn_ne_nil '/' path)
  · rw [hnames, walk_append_eq_ok_iff] at hwalk
    obtain ⟨p, hbefore, hlast⟩ := hwalk
    obtain ⟨hp, hlen, hnext⟩ := walk_cons_eq_ok_iff.1 hlast
    obtain rfl : next p name = q := Except.ok.inj hnext
    have hrooted := (rooted_origin fs path).walk hbefore
    -- a name that leads to a folder is none of a file
    have hhere : ¬ (name = [] ∨ name = ['.']) := by
      intro hname
      rw [next, if_pos hname, hp] at hfolder
      exact absurd hfolder (by decide)
    have hup : name ≠ ['.', '.'] := by
      intro hname
      rw [next, if_neg hhere, if_pos hname, hrooted.isFolder_dropLast] at hfolder
      exact absurd hfolder (by decide)
    rw [next, if_neg hhere, if_neg hup] at hfolder hbytes
    rw [not_or] at hhere
    exact ⟨p, name, ⟨herr, ⟨before, hnames, hbefore⟩, hp, hhere.1, hhere.2, hup, hlen, hfolder⟩, hbytes⟩

theorem read_of_reaches {path name : Text} {bytes : ByteArray} (h : fs.Reaches path p name)
    (hbytes : fs.content? (p ++ [name]) = some bytes) : fs.read path = .ok bytes := by
  obtain ⟨before, hnames, hwalk⟩ := h.names_eq
  have hnext : next p name = p ++ [name] := by
    rw [next, if_neg (by simp [h.ne_nil, h.ne_dot]), if_neg h.ne_dots]
  refine read_eq_ok_iff.2 ⟨h.no_error, p ++ [name], ?_, h.not_isFolder, hbytes⟩
  rw [hnames, walk_append_eq_ok_iff]
  refine ⟨p, hwalk, walk_cons_eq_ok_iff.2 ⟨h.isFolder, h.length_le, ?_⟩⟩
  rw [hnext]
  rfl

theorem reaches_put {place : List Text} {bytes : ByteArray} {path name : Text}
    (h : fs.Reaches path p name) : (fs.put place bytes).Reaches path p name := by
  obtain ⟨before, hnames, hwalk⟩ := h.names_eq
  exact { h with
    names_eq := ⟨before, hnames, (walk_put place bytes).2 hwalk⟩
    isFolder := h.isFolder
    not_isFolder := h.not_isFolder }

theorem read_write {path : Text} {bytes : ByteArray} {fs' : Files}
    (h : fs.write path bytes = .ok fs') : fs'.read path = .ok bytes := by
  obtain ⟨p, name, hreach, rfl⟩ := exists_reaches_of_write h
  apply read_of_reaches (reaches_put hreach)
  simp [content?, put]

theorem exists_write_of_read {path : Text} {old : ByteArray} (h : fs.read path = .ok old)
    (bytes : ByteArray) : ∃ fs', fs.write path bytes = .ok fs' := by
  obtain ⟨p, name, hreach, -⟩ := reaches_of_read h
  exact ⟨_, write_of_reaches hreach bytes⟩

end Files

end Handbook
