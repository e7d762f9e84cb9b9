import Handbook.Files.Path
import Handbook.Proofs.Text.Lines
import Mathlib.Data.List.DropRight

namespace Handbook.Path

def resolve (file path : Text) : Text :=
  match parent? file with
  | some base => join base path
  | none => path

/-- A path by where it starts and the names on its way. -/
@[ext]
structure Way where
  absolute : Bool
  /-- Whether a relative path says with a dot that it starts here. -/
  dotted : Bool
  names : List Text
  deriving DecidableEq, Repr

def isPlain (name : Text) : Bool := !(name.isEmpty || name == ['.'])

/-- Doubled separators and dots further on change nothing about it. -/
def way (path : Text) : Way where
  absolute := isAbsolute path
  dotted := !isAbsolute path && (names path).head? == some ['.']
  names := (names path).filter isPlain

theorem names_append (a b : Text) : names (a ++ '/' :: b) = names a ++ names b :=
  List.splitOn_append_cons_self a b

theorem isAbsolute_append {a : Text} (h : a ≠ []) (b : Text) : isAbsolute (a ++ b) = isAbsolute a := by
  obtain ⟨c, a, rfl⟩ := List.exists_cons_of_ne_nil h
  rfl

theorem join_cases (base path : Text) :
    (isAbsolute path ∨ base = []) ∧ join base path = path ∨
    isAbsolute path = false ∧ base ≠ [] ∧
      ∃ folder, (base = folder ∨ base = folder ++ ['/']) ∧ join base path = folder ++ '/' :: path := by
  cases habs : isAbsolute path with
  | true => exact .inl ⟨.inl rfl, if_pos habs⟩
  | false =>
    unfold join
    rw [if_neg (by simp [habs])]
    split
    · next h => exact .inl ⟨.inr (List.getLast?_eq_none_iff.1 h), rfl⟩
    · next h =>
      obtain ⟨folder, rfl⟩ := List.getLast?_eq_some_iff.1 h
      exact .inr ⟨rfl, by simp, folder, .inr rfl, by simp⟩
    · next h =>
      obtain ⟨folder, rfl⟩ := List.getLast?_eq_some_iff.1 h
      exact .inr ⟨rfl, by simp, _, .inl rfl, rfl⟩

theorem join_eq_self_iff {base path : Text} : join base path = path ↔ isAbsolute path ∨ base = [] := by
  obtain ⟨h, hjoin⟩ | ⟨habs, hne, folder, -, hjoin⟩ := join_cases base path
  · simp [hjoin, h]
  · rw [hjoin, habs]
    constructor
    · intro h
      have hlen := congrArg List.length h
      simp only [List.length_append, List.length_cons] at hlen
      omega
    · rintro (h | h)
      · exact absurd h (by decide)
      · exact absurd h hne

theorem isAbsolute_join (base path : Text) :
    isAbsolute (join base path) = (isAbsolute base || isAbsolute path) := by
  obtain ⟨h, hjoin⟩ | ⟨habs, hne, folder, hfolder, hjoin⟩ := join_cases base path
  · obtain h | rfl := h
    · rw [hjoin, h, Bool.or_true]
    · rw [hjoin]
      rfl
  · rw [hjoin, habs, Bool.or_false]
    obtain rfl | rfl := hfolder
    · exact isAbsolute_append hne _
    · rw [← List.singleton_append, ← List.append_assoc, isAbsolute_append hne]

theorem names_way_join {base path : Text} (habs : isAbsolute path = false) :
    (way (join base path)).names = (way base).names ++ (way path).names := by
  obtain ⟨h, hjoin⟩ | ⟨-, -, folder, hfolder, hjoin⟩ := join_cases base path
  · obtain h | rfl := h
    · rw [habs] at h
      exact absurd h (by decide)
    · rw [hjoin]
      rfl
  · rw [hjoin]
    simp only [way, names_append, List.filter_append]
    obtain rfl | rfl := hfolder
    · rfl
    · rw [names_append, List.filter_append]
      simp [names, isPlain]

theorem dotted_way_join_dot {path : Text} (habs : isAbsolute path = false) :
    join ['.'] path = '.' :: '/' :: path ∧ (way ('.' :: '/' :: path)).dotted = true := by
  refine ⟨if_neg (by simp [habs]), ?_⟩
  have hnames : names ('.' :: '/' :: path) = ['.'] :: names path := names_append ['.'] path
  simp [way, hnames, isAbsolute]

theorem trimNames_subset (absolute : Bool) (ns : List Text) : trimNames absolute ns ⊆ ns := by
  unfold trimNames
  split
  · split
    · next h =>
      intro n hn
      rw [List.mem_singleton.1 hn]
      exact List.mem_of_mem_head? h.2
    · exact List.nil_subset ns
  · exact (List.rdropWhile_prefix _ ns).subset

/-- Some names without the empty ones and dots at their end are nothing, or one dot, or they hold a
name of another kind. -/
theorem trimNames_cases (absolute : Bool) (ns : List Text) :
    trimNames absolute ns = [] ∨ trimNames absolute ns = [['.']] ∨
      ∃ n ∈ trimNames absolute ns, isPlain n := by
  unfold trimNames
  split
  · split
    · exact .inr (.inl rfl)
    · exact .inl rfl
  · next hne =>
    have hlast := List.rdropWhile_last_not (fun n : Text => n.isEmpty || n == ['.']) ns hne
    have hplain : isPlain ((ns.rdropWhile fun n : Text => n.isEmpty || n == ['.']).getLast hne) := by
      simpa [isPlain] using hlast
    exact .inr (.inr ⟨_, List.getLast_mem hne, hplain⟩)

theorem ofNames_trimNames {absolute : Bool} {ns : List Text} (hfree : ∀ n ∈ ns, '/' ∉ n)
    (h : (way (ofNames (trimNames absolute ns))).names = []) :
    ofNames (trimNames absolute ns) = [] ∨ ofNames (trimNames absolute ns) = ['.'] := by
  obtain hnil | hdot | ⟨n, hn, hplain⟩ := trimNames_cases absolute ns
  · rw [hnil]
    exact .inl rfl
  · rw [hdot]
    exact .inr rfl
  · have hread : names (ofNames (trimNames absolute ns)) = trimNames absolute ns :=
      List.splitOn_intercalate '/' (fun m hm => hfree m (trimNames_subset absolute ns hm))
        (List.ne_nil_of_mem hn)
    have hin : n ∈ (way (ofNames (trimNames absolute ns))).names := by
      rw [way, hread]
      exact List.mem_filter.2 ⟨hn, hplain⟩
    rw [h] at hin
    exact absurd hin (by simp)

theorem exists_of_parent? {file base : Text} (h : parent? file = some base) :
    ∃ ns, (∀ n ∈ ns, '/' ∉ n) ∧ base = if isAbsolute file then '/' :: ofNames (trimNames true ns)
      else ofNames (trimNames false ns) := by
  have hfree : ∀ n ∈ (trimNames (isAbsolute file)
      (names (if isAbsolute file then file.drop 1 else file))).dropLast, '/' ∉ n := fun n hn =>
    Text.not_mem_of_mem_splitOn (trimNames_subset _ _ (List.dropLast_subset _ hn))
  unfold parent? at h
  dsimp only at h
  generalize trimNames (isAbsolute file) (names (if isAbsolute file then file.drop 1 else file)) = body
    at h hfree
  refine ⟨body.dropLast, hfree, ?_⟩
  cases body with
  | nil => exact absurd h (by simp)
  | cons n ns =>
    rw [← Option.some.inj h]
    cases isAbsolute file <;> rfl

theorem isAbsolute_of_parent? {file base : Text} (h : parent? file = some base)
    (hfile : isAbsolute file) : isAbsolute base := by
  obtain ⟨ns, -, hbase⟩ := exists_of_parent? h
  rw [hbase, if_pos hfile]
  rfl

/-- A relative folder that a file is in and that is reached by no name is where relative paths start. -/
theorem eq_of_parent? {file base : Text} (h : parent? file = some base)
    (habs : isAbsolute base = false) (hnames : (way base).names = []) : base = [] ∨ base = ['.'] := by
  obtain ⟨ns, hfree, hbase⟩ := exists_of_parent? h
  cases hfile : isAbsolute file with
  | true =>
    rw [isAbsolute_of_parent? h hfile] at habs
    exact absurd habs (by decide)
  | false =>
    rw [hbase, hfile] at hnames ⊢
    exact ofNames_trimNames hfree hnames

theorem resolve_eq_self_iff {file path : Text} : resolve file path = path ↔
    parent? file = none ∨ parent? file = some [] ∨ isAbsolute path := by
  unfold resolve
  cases parent? file with
  | none => simp
  | some base => simp [join_eq_self_iff, or_comm]

/-- From the folder of a file that is named by its name alone, or by a dot and its name, all paths lead
where they led before. -/
theorem way_resolve_resolve (file path : Text) :
    way (resolve file (resolve file path)) = way (resolve file path) ↔
      parent? file = none ∨ parent? file = some [] ∨ parent? file = some ['.'] ∨
        isAbsolute (resolve file path) := by
  by_cases hsame : resolve file (resolve file path) = resolve file path
  · have hwhy := resolve_eq_self_iff.1 hsame
    rw [hsame]
    simp only [true_iff]
    grind
  · have hwhy := mt resolve_eq_self_iff.2 hsame
    obtain ⟨base, hbase⟩ : ∃ base, parent? file = some base :=
      Option.ne_none_iff_exists'.1 fun h => hwhy (.inl h)
    have hne : base ≠ [] := fun h => hwhy (.inr (.inl (h ▸ hbase)))
    have hresolve : ∀ p, resolve file p = join base p := fun p => by rw [resolve, hbase]
    simp only [hresolve] at hwhy ⊢
    have habs : isAbsolute (join base path) = false := by grind
    have hrel := habs
    rw [isAbsolute_join, Bool.or_eq_false_iff] at hrel
    -- the names of the folder come twice, which changes nothing only if it has none
    have hnames : (way (join base (join base path))).names =
        (way base).names ++ (way (join base path)).names := names_way_join habs
    constructor
    · intro hway
      have hnil : (way base).names = [] := by
        rw [hway] at hnames
        simpa using hnames.symm
      obtain h | h := eq_of_parent? hbase hrel.1 hnil
      · exact absurd h hne
      · exact .inr (.inr (.inl (h ▸ hbase)))
    · intro hor
      obtain rfl : base = ['.'] := by grind
      have hagain : isAbsolute (join ['.'] (join ['.'] path)) = false := by
        rw [isAbsolute_join, habs]
        rfl
      have hdot := dotted_way_join_dot hrel.2
      have hdots := dotted_way_join_dot habs
      refine Way.ext (hagain.trans habs.symm) ?_ hnames
      rw [hdots.1, hdots.2, hdot.1, hdot.2]

end Handbook.Path
