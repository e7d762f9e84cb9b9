import Handbook.Tree.Basic

namespace Handbook.Tree

mutual

/-- Equality of keys: the order of a mapping's entries does not count, and all else does. -/
def same : Tree → Tree → Bool
  | null, null => true
  | bool a, bool b => a == b
  | number a, number b => a.same b
  | text a, text b => a == b
  | sequence a, sequence b => sameItems a b
  | mapping a, mapping b => a.length == b.length && sameEntries a b
  | tagged m a, tagged n b => m == n && a.same b
  | _, _ => false

def sameItems : List Tree → List Tree → Bool
  | [], [] => true
  | a :: as, b :: bs => a.same b && sameItems as bs
  | _, _ => false

def sameEntries : List (Tree × Tree) → List (Tree × Tree) → Bool
  | [], _ => true
  | (k, v) :: es, bs => bs.any (fun b => k.same b.1 && v.same b.2) && sameEntries es bs

end

mutual

theorem same_self : (t : Tree) → t.same t
  | null => rfl
  | bool _ => by simp [same]
  | number _ => by simp [same, Number.same_self]
  | text _ => by simp [same]
  | sequence items => by simpa [same] using sameItems_self items
  | mapping es => by simpa [same] using sameEntries_self es es fun _ h => h
  | tagged _ t => by simpa [same] using same_self t

theorem sameItems_self : (ts : List Tree) → sameItems ts ts
  | [] => rfl
  | t :: ts => by simp [sameItems, same_self t, sameItems_self ts]

theorem sameEntries_self : (es bs : List (Tree × Tree)) → (∀ e ∈ es, e ∈ bs) → sameEntries es bs
  | [], _, _ => rfl
  | (k, v) :: es, bs, h => by
    simp only [sameEntries, Bool.and_eq_true, List.any_eq_true]
    exact ⟨⟨(k, v), h _ (by simp), same_self k, same_self v⟩,
      sameEntries_self es bs fun e he => h e (by simp [he])⟩

end

/-- The value is put at the first entry with the same key, or behind all entries. -/
def insert (key value : Tree) : List (Tree × Tree) → List (Tree × Tree)
  | [] => [(key, value)]
  | (k, v) :: es => if k.same key then (k, value) :: es else (k, v) :: insert key value es

def ofPairs (pairs : List (Tree × Tree)) : Tree :=
  mapping (pairs.foldl (fun es p => insert p.1 p.2 es) [])

mutual

/-- Every mapping at every depth, in keys as in values, with its pairs put in one after the
other. -/
def settled : Tree → Tree
  | sequence items => sequence (settledItems items)
  | mapping es => ofPairs (settledEntries es)
  | tagged name t => tagged name t.settled
  | t => t

def settledItems : List Tree → List Tree
  | [] => []
  | t :: ts => t.settled :: settledItems ts

def settledEntries : List (Tree × Tree) → List (Tree × Tree)
  | [] => []
  | (k, v) :: es => (k.settled, v.settled) :: settledEntries es

end

theorem settledItems_eq_map (ts : List Tree) : settledItems ts = ts.map settled := by
  induction ts with
  | nil => rfl
  | cons t ts ih => simp [settledItems, ih]

theorem settledEntries_eq_map (es : List (Tree × Tree)) :
    settledEntries es = es.map fun e => (e.1.settled, e.2.settled) := by
  induction es with
  | nil => rfl
  | cons e es ih => simp [settledEntries, ih]

end Handbook.Tree
