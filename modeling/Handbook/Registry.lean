import Handbook.Source

namespace Handbook

theorem Text.lt_trichotomy (a b : Text) : a < b ∨ a = b ∨ b < a := by
  by_cases h : a < b
  · exact .inl h
  · by_cases h' : b < a
    · exact .inr (.inr h')
    · exact .inr (.inl (List.le_antisymm (List.not_lt.1 h') (List.not_lt.1 h)))

/-- One description for each name, in the order of names. -/
structure Registry where
  entries : List Description
  sorted : (entries.map (·.name)).Pairwise (· < ·) := by simp

namespace Registry

def empty : Registry := { entries := [] }

def insertEntry (d : Description) : List Description → List Description
  | [] => [d]
  | e :: es =>
    if d.name < e.name then d :: e :: es
    else if e.name < d.name then e :: insertEntry d es
    else d :: es

theorem mem_names_insertEntry (d : Description) (es : List Description) (n : Text) :
    n ∈ (insertEntry d es).map (·.name) ↔ n = d.name ∨ n ∈ es.map (·.name) := by
  induction es with
  | nil => simp [insertEntry]
  | cons e es ih =>
    unfold insertEntry
    split
    · simp
    · split
      · simp only [List.map_cons, List.mem_cons, ih]
        grind
      · next h h' =>
        have he : d.name = e.name := by
          rcases Text.lt_trichotomy d.name e.name with h₁ | h₁ | h₁
          · exact absurd h₁ h
          · exact h₁
          · exact absurd h₁ h'
        simp [he]

theorem sorted_insertEntry (d : Description) {es : List Description}
    (h : (es.map (·.name)).Pairwise (· < ·)) :
    ((insertEntry d es).map (·.name)).Pairwise (· < ·) := by
  induction es with
  | nil => simp [insertEntry]
  | cons e es ih =>
    rw [List.map_cons, List.pairwise_cons] at h
    unfold insertEntry
    split
    · next hd =>
      simp only [List.map_cons, List.pairwise_cons]
      refine ⟨fun n hn => ?_, h⟩
      rcases List.mem_cons.1 hn with rfl | hn
      · exact hd
      · exact List.lt_trans hd (h.1 n hn)
    · split
      · next hd =>
        rw [List.map_cons, List.pairwise_cons]
        refine ⟨fun n hn => ?_, ih h.2⟩
        rcases (mem_names_insertEntry d es n).1 hn with rfl | hn
        · exact hd
        · exact h.1 n hn
      · next hd hd' =>
        have he : d.name = e.name := by
          rcases Text.lt_trichotomy d.name e.name with h₁ | h₁ | h₁
          · exact absurd h₁ hd
          · exact h₁
          · exact absurd h₁ hd'
        simpa [he] using h

def insert (r : Registry) (d : Description) : Registry where
  entries := insertEntry d r.entries
  sorted := sorted_insertEntry d r.sorted

def ofList (ds : List Description) : Registry := ds.foldl insert empty

def names (r : Registry) : List Text := r.entries.map (·.name)

def get? (r : Registry) (name : Text) : Option Description :=
  r.entries.find? (·.name = name)

def contains (r : Registry) (name : Text) : Bool := (r.get? name).isSome

/-- The descriptions whose names start with a text. They stand together, from the first name that is
not before the text on. -/
def startingWith (r : Registry) (start : Text) : List Description :=
  (r.entries.dropWhile fun d => d.name < start).takeWhile fun d => start.isPrefixOf d.name

/-- The names that are here and not in `next`. -/
def pruned (r next : Registry) : List Text := r.names.filter fun n => !next.contains n

/-- A source that gave nothing, and what is said of it. -/
structure Failure where
  label : Text
  message : Text
  deriving DecidableEq, Repr

structure Report where
  /-- The number of commands there are now. -/
  loaded : Nat
  /-- The names that were there before and no longer are. -/
  pruned : List Text
  failures : List Failure
  warnings : List Warning
  deriving DecidableEq, Repr

/-- The registry of these descriptions alone, and the names that it no longer has. -/
def load (r : Registry) (ds : List Description) : Registry × List Text :=
  let next := ofList ds
  (next, r.pruned next)

structure Loading where
  next : Registry
  failures : List Failure
  warnings : List Warning

variable [Yaml.Wording]

/-- A source that fails gives its failure and nothing else. -/
def Loading.add (disk : Disk) (language : Text) (l : Loading) (s : Source) : Loading :=
  match s.load disk language with
  | .ok d =>
    { l with next := d.descriptions.foldl insert l.next, warnings := l.warnings ++ d.warnings }
  | .error e => { l with failures := l.failures ++ [⟨s.label, e.message⟩] }

def reload (r : Registry) (disk : Disk) (language : Text) (sources : List Source) :
    Registry × Report :=
  let l := sources.foldl (Loading.add disk language) ⟨empty, [], []⟩
  (l.next, ⟨l.next.entries.length, r.pruned l.next, l.failures, l.warnings⟩)

end Registry

end Handbook
