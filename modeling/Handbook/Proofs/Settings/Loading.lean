import Handbook.Proofs.Files.Path
import Handbook.Proofs.Files.Store
import Handbook.Settings.Reading

namespace Handbook.Settings

/-- Settings that are written in a file, with their sources as seen from the folder of the file. -/
def seenFrom (file : Text) (s : Settings) : Settings :=
  { s with sources := s.sources.map (Path.resolve file) }

theorem seenFrom_eq (file : Text) (s : Settings) : s.seenFrom file =
    match Path.parent? file with
    | some base => s.basedAt base
    | none => s := by
  cases h : Path.parent? file with
  | none =>
    have hresolve : Path.resolve file = id := by
      funext path
      rw [Path.resolve, h]
      rfl
    rw [seenFrom, hresolve, List.map_id]
  | some base =>
    have hresolve : Path.resolve file = Path.join base := by
      funext path
      rw [Path.resolve, h]
    rw [seenFrom, hresolve]
    rfl

variable [Yaml.Wording]

theorem load_of_bytes {disk : Disk} {path t : Text} {bytes : ByteArray}
    (hbytes : disk path = .ok bytes) (ht : Disk.decode? bytes = some t) :
    load disk path = match ofYaml? t with
      | none => .error (.yaml (Yaml.Wording.settings bytes))
      | some raw => match (raw.seenFrom path).flaw? with
        | some e => .error (.flaw e)
        | none => .ok (raw.seenFrom path) := by
  unfold load
  rw [hbytes]
  simp only [ht, Option.bind_some]
  cases ofYaml? t with
  | none => rfl
  | some raw =>
    have hseen := seenFrom_eq path raw
    dsimp only
    generalize raw.seenFrom path = seen at hseen ⊢
    subst hseen
    rfl

theorem text_of_load {disk : Disk} {path : Text} {s : Settings} (h : load disk path = .ok s) :
    ∃ t, disk.text path = .ok t := by
  simp only [Disk.text_eq_ok_iff]
  unfold load at h
  cases hdisk : disk path with
  | error e =>
    rw [hdisk] at h
    cases e <;> cases h
  | ok bytes =>
    cases ht : Disk.decode? bytes with
    | none =>
      rw [hdisk] at h
      simp [ht] at h
    | some t => exact ⟨t, bytes, rfl, ht⟩

theorem load_eq_ok_iff {disk : Disk} {path : Text} {s : Settings} : load disk path = .ok s ↔
    ∃ t raw, disk.text path = .ok t ∧ ofYaml? t = some raw ∧ s = raw.seenFrom path ∧
      s.flaw? = none := by
  constructor
  · intro h
    obtain ⟨t, ht⟩ := text_of_load h
    obtain ⟨bytes, hbytes, hdecode⟩ := Disk.text_eq_ok_iff.1 ht
    rw [load_of_bytes hbytes hdecode] at h
    cases hraw : ofYaml? t with
    | none =>
      rw [hraw] at h
      cases h
    | some raw =>
      rw [hraw] at h
      cases hflaw : (raw.seenFrom path).flaw? with
      | some e =>
        simp only [hflaw] at h
        cases h
      | none =>
        simp only [hflaw] at h
        cases h
        exact ⟨t, raw, ht, hraw, rfl, hflaw⟩
  · rintro ⟨t, raw, ht, hraw, rfl, hflaw⟩
    obtain ⟨bytes, hbytes, hdecode⟩ := Disk.text_eq_ok_iff.1 ht
    rw [load_of_bytes hbytes hdecode, hraw]
    simp only [hflaw]

end Handbook.Settings
