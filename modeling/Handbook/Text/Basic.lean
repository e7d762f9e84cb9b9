namespace Handbook

/-- Columns and lengths count characters, and texts are ordered by code point. -/
abbrev Text := List Char

namespace Text

instance : Coe String Text := ⟨String.toList⟩

def ofNat (n : Nat) : Text := Nat.toDigits 10 n

def ofInt (n : Int) : Text := if n < 0 then '-' :: ofNat n.natAbs else ofNat n.natAbs

def string (t : Text) : String := String.ofList t

def byteLength (t : Text) : Nat := t.string.utf8ByteSize

/-- What follows `start`, if the text begins with it. -/
def after? (start : Text) (t : Text) : Option Text :=
  if start.isPrefixOf t then some (t.drop start.length) else none

theorem after?_append (start t : Text) : after? start (start ++ t) = some t := by
  simp [after?]

theorem eq_append_of_after? {start t r : Text} (h : after? start t = some r) :
    t = start ++ r := by
  unfold after? at h
  split at h
  · next hp =>
    obtain ⟨s, rfl⟩ := List.isPrefixOf_iff_prefix.1 hp
    simp_all
  · exact absurd h (by simp)

end Text

end Handbook
