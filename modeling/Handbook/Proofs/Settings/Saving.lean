import Handbook.Proofs.Settings.Loading
import Handbook.Settings.Writing

namespace Handbook.Settings

/-- Settings that differ at most in how the paths of their sources are written. -/
def Same (s s' : Settings) : Prop :=
  { s with sources := [] } = { s' with sources := [] } ∧
    s.sources.map Path.way = s'.sources.map Path.way

theorem seenFrom_eq_self_iff {file : Text} {s : Settings} : s.seenFrom file = s ↔
    Path.parent? file = none ∨ Path.parent? file = some [] ∨ ∀ p ∈ s.sources, Path.isAbsolute p := by
  have hsources : s.seenFrom file = s ↔ s.sources.map (Path.resolve file) = s.sources.map id := by
    rw [List.map_id]
    exact ⟨fun h => congrArg sources h, fun h => congrArg (fun ps => { s with sources := ps }) h⟩
  rw [hsources, List.map_inj_left]
  simp only [id_eq, Path.resolve_eq_self_iff]
  grind

theorem same_seenFrom_iff {file : Text} {raw : Settings} :
    ((raw.seenFrom file).seenFrom file).Same (raw.seenFrom file) ↔
      Path.parent? file = none ∨ Path.parent? file = some [] ∨ Path.parent? file = some ['.'] ∨
        ∀ p ∈ (raw.seenFrom file).sources, Path.isAbsolute p := by
  have hways : ((raw.seenFrom file).seenFrom file).Same (raw.seenFrom file) ↔
      ∀ p ∈ raw.sources,
        Path.way (Path.resolve file (Path.resolve file p)) = Path.way (Path.resolve file p) := by
    simp only [Same, seenFrom, List.map_map, List.map_inj_left, true_and]
    rfl
  rw [hways]
  simp only [Path.way_resolve_resolve, seenFrom, List.forall_mem_map]
  grind

theorem isAbsolute_of_mem_seenFrom {file : Text} (hfile : Path.isAbsolute file) {raw : Settings}
    {p : Text} (hp : p ∈ (raw.seenFrom file).sources) :
    Path.parent? file = none ∨ Path.isAbsolute p := by
  obtain ⟨q, -, rfl⟩ := List.mem_map.1 hp
  cases hbase : Path.parent? file with
  | none => exact .inl rfl
  | some base =>
    rw [Path.resolve, hbase]
    simp only [Path.isAbsolute_join, Path.isAbsolute_of_parent? hbase hfile, Bool.true_or, or_true]

section

variable [Yaml.Wording]

theorem load_of_written {disk : Disk} {path : Text} {s : Settings}
    (hwritten : disk path = .ok (Disk.encode s.text)) (hread : ofYaml? s.text = some s)
    (hflaw : s.flaw? = none) : load disk path = .ok (s.seenFrom path) := by
  have htext : disk.text path = .ok s.text :=
    Disk.text_eq_ok_iff.2 ⟨_, hwritten, Disk.decode?_encode s.text⟩
  exact load_eq_ok_iff.2 ⟨s.text, s, htext, hread, rfl, hflaw⟩

/-- Settings that were loaded from a file and saved there are loaded again with their sources seen from
its folder a second time. That changes nothing if the file is named without a folder or no source is
relative, and only then; if the folder is a dot, all paths lead where they led before. No source is
relative where the file is named from the root. -/
theorem load_save_load {disk : Disk} {path : Text} {s : Settings} (hload : load disk path = .ok s)
    (hread : ofYaml? s.text = some s) :
    (∀ disk' : Disk, disk' path = .ok (Disk.encode s.text) →
      load disk' path = .ok (s.seenFrom path)) ∧
    (∀ fs : Files, fs.read = disk →
      ∃ fs', save fs path s = .ok fs' ∧ load fs'.read path = .ok (s.seenFrom path)) ∧
    (s.seenFrom path = s ↔ Path.parent? path = none ∨ Path.parent? path = some [] ∨
      ∀ p ∈ s.sources, Path.isAbsolute p) ∧
    ((s.seenFrom path).Same s ↔ Path.parent? path = none ∨ Path.parent? path = some [] ∨
      Path.parent? path = some ['.'] ∨ ∀ p ∈ s.sources, Path.isAbsolute p) ∧
    (Path.isAbsolute path → s.seenFrom path = s) := by
  obtain ⟨t, raw, ht, hraw, hs, hflaw⟩ := load_eq_ok_iff.1 hload
  refine ⟨fun disk' hwritten => load_of_written hwritten hread hflaw, ?_, seenFrom_eq_self_iff, ?_, ?_⟩
  · rintro fs rfl
    obtain ⟨old, hold, -⟩ := Disk.text_eq_ok_iff.1 ht
    obtain ⟨fs', hwrite⟩ := Files.exists_write_of_read hold (Disk.encode s.text)
    exact ⟨fs', hwrite, load_of_written (Files.read_write hwrite) hread hflaw⟩
  · rw [hs]
    exact same_seenFrom_iff
  · intro hpath
    rw [seenFrom_eq_self_iff]
    by_cases hbase : Path.parent? path = none
    · exact .inl hbase
    · refine .inr (.inr fun p hp => ?_)
      rw [hs] at hp
      exact (isAbsolute_of_mem_seenFrom hpath hp).resolve_left hbase

end

def twoSources : Text := "sources: [a.yaml, /b.yaml]\n"

/-- A folder for work, and the file in the folder around it. -/
def parentFolder : Files :=
  (Files.empty ["music", "work"]).put ["music", "docs.yml"] (Disk.encode twoSources)

def seenOnce : Settings := { standard with sources := ["../a.yaml", "/b.yaml"] }

def seenTwice : Settings := { standard with sources := ["../../a.yaml", "/b.yaml"] }

theorem read_parentFolder : parentFolder.read "../docs.yml" = .ok (Disk.encode twoSources) := rfl

theorem load_parentFolder : letI := Yaml.Wording.plain
    load parentFolder.read "../docs.yml" = .ok seenOnce := by
  let := Yaml.Wording.plain
  have htext : Disk.text parentFolder.read "../docs.yml" = .ok twoSources :=
    Disk.text_eq_ok_iff.2 ⟨_, read_parentFolder, Disk.decode?_encode twoSources⟩
  have hraw : ofYaml? twoSources = some { standard with sources := ["a.yaml", "/b.yaml"] } := by
    decide +kernel
  exact load_eq_ok_iff.2 ⟨_, _, htext, hraw, by decide +kernel, rfl⟩

theorem ofYaml?_seenOnce : ofYaml? seenOnce.text = some seenOnce := by
  decide +kernel

theorem load_save_load_parentFolder :
    letI := Yaml.Wording.plain
    load parentFolder.read "../docs.yml" = .ok seenOnce ∧ ofYaml? seenOnce.text = some seenOnce ∧
    (∃ fs', save parentFolder "../docs.yml" seenOnce = .ok fs' ∧
      load fs'.read "../docs.yml" = .ok seenTwice) ∧
    ¬ seenTwice.Same seenOnce := by
  let := Yaml.Wording.plain
  obtain ⟨-, hsaved, -, hsame, -⟩ := load_save_load load_parentFolder ofYaml?_seenOnce
  have htwice : seenOnce.seenFrom "../docs.yml" = seenTwice := by decide +kernel
  rw [htwice] at hsaved hsame
  exact ⟨load_parentFolder, ofYaml?_seenOnce, hsaved parentFolder rfl,
    fun h => absurd (hsame.1 h) (by decide)⟩

/-- Not all settings stay the same, not even up to the way in which paths are written. -/
theorem not_same_load_save_load :
    ¬ ∀ [Yaml.Wording] (fs fs' : Files) (path : Text) (s : Settings), load fs.read path = .ok s →
      ofYaml? s.text = some s → save fs path s = .ok fs' →
      ∃ s', load fs'.read path = .ok s' ∧ s'.Same s := by
  intro h
  let := Yaml.Wording.plain
  obtain ⟨fs', hsave⟩ := Files.exists_write_of_read read_parentFolder (Disk.encode seenOnce.text)
  obtain ⟨s', hload, hsame⟩ :=
    h parentFolder fs' "../docs.yml" seenOnce load_parentFolder ofYaml?_seenOnce hsave
  have hagain := load_of_written (Files.read_write hsave) ofYaml?_seenOnce rfl
  rw [hload] at hagain
  obtain rfl := Except.ok.inj hagain
  exact absurd hsame.2 (by decide +kernel)

end Handbook.Settings
