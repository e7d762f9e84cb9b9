import Handbook.CommandLine.Run
import Handbook.Proofs.Registry.Reload
import Handbook.Proofs.Settings.Loading

namespace Handbook.CommandLine

/-- Settings as they are written: those of the configuration file, or the standard ones. -/
def Common.Configures (c : Common) (disk : Disk) (raw : Settings) : Prop :=
  match c.config with
  | none => raw = Settings.standard
  | some file => ∃ t, disk.text file = .ok t ∧ Settings.ofYaml? t = some raw

def Common.resolve (c : Common) (path : Text) : Text :=
  match c.config with
  | none => path
  | some file => Path.resolve file path

/-- The sources in their order: the bundled ones unless they are left out, those of the configuration
and those of the options. -/
def Common.sourcesWith (c : Common) (raw : Settings) : List Source :=
  (if raw.bundled && !c.noBundled then [Source.bundled] else [])
    ++ raw.sources.map (fun path => Source.file (c.resolve path)) ++ c.sources.map Source.file

variable {disk : Disk} {c : Common} {s : Settings}

def addressed (text : Text) (line : Nat) : Text := (Text.fileLines text)[line]?.getD []

theorem text_of_file {position : Position} {text : Text} (h : disk.text position.file = .ok text) :
    position.text disk = .ok (addressed text position.line) := by
  rw [Position.text, h, addressed]

variable [Yaml.Wording]

theorem exists_of_settings (h : c.settings disk = .ok s) : ∃ raw, c.Configures disk raw ∧
    s = { raw with
      bundled := raw.bundled && !c.noBundled
      sources := raw.sources.map c.resolve ++ c.sources } := by
  unfold Common.settings at h
  unfold Common.Configures Common.resolve
  cases hconfig : c.config with
  | none =>
    rw [hconfig] at h
    refine ⟨Settings.standard, rfl, ?_⟩
    exact (Except.ok.inj h).symm
  | some file =>
    cases hload : Settings.load disk file with
    | error e =>
      simp only [hconfig, hload] at h
      cases h
    | ok seen =>
      simp only [hconfig, hload] at h
      obtain ⟨t, raw, ht, hraw, rfl, -⟩ := Settings.load_eq_ok_iff.1 hload
      exact ⟨raw, ⟨t, ht, hraw⟩, (Except.ok.inj h).symm⟩

theorem allSources_of_settings (h : c.settings disk = .ok s) : ∃ raw, c.Configures disk raw ∧
    s.allSources = c.sourcesWith raw ∧ s.language = raw.language := by
  obtain ⟨raw, hraw, rfl⟩ := exists_of_settings h
  refine ⟨raw, hraw, ?_, rfl⟩
  simp only [Settings.allSources, Common.sourcesWith, List.map_append, List.map_map,
    List.append_assoc]
  rfl

theorem provider_eq (s : Settings) (disk : Disk) : provider s disk =
    (⟨s, .ofList (Registry.offered disk s.language s.allSources)⟩,
      (s.allSources.filterMap (Registry.failure? disk s.language)).flatMap skippedLine) := by
  unfold provider Provider.reload Provider.reloadFrom Provider.new
  simp only [Registry.reload_eq]

theorem settings_provider (s : Settings) (disk : Disk) : (provider s disk).1.settings = s := by
  rw [provider_eq]

section

variable (h : c.settings disk = .ok s)
include h

theorem run_hover (position : Position) : Invocation.run ⟨c, .hover position⟩ disk =
    position.hover disk (provider s disk).1 (provider s disk).2 := by
  simp only [Invocation.run, h]

theorem run_complete (position : Position) (layout : Layout) :
    Invocation.run ⟨c, .complete position layout⟩ disk =
      position.complete layout disk (provider s disk).1 (provider s disk).2 := by
  simp only [Invocation.run, h]

theorem run_describe (name : Text) (level : Detail) (withSignature : Bool) :
    Invocation.run ⟨c, .describe name level withSignature⟩ disk =
      describe name level withSignature (provider s disk).1 (provider s disk).2 := by
  simp only [Invocation.run, h]

theorem run_list (start : Text) : Invocation.run ⟨c, .list start⟩ disk =
    list start (provider s disk).1 (provider s disk).2 := by
  simp only [Invocation.run, h]

theorem run_check : Invocation.run ⟨c, .check⟩ disk = check s disk := by
  simp only [Invocation.run, h]

end

section

variable {disk' : Disk}

/-- The configuration file is all that the settings are read from. -/
theorem settings_congr (h : ∀ path ∈ c.config, disk' path = disk path) :
    c.settings disk' = c.settings disk := by
  unfold Common.settings Settings.load
  cases hconfig : c.config with
  | none => rfl
  | some file => simp only [h file hconfig]

theorem provider_congr (h : ∀ path ∈ s.sources, disk' path = disk path) :
    provider s disk' = provider s disk := by
  have hload : ∀ source ∈ s.allSources,
      source.load disk' s.language = source.load disk s.language := by
    intro source hsource
    -- only sources in files look at the disk
    have hread : source.read disk' = source.read disk := by
      cases source with
      | file path =>
        have hpath : path ∈ s.sources := by
          unfold Settings.allSources at hsource
          split at hsource <;> simpa using hsource
        simp only [Source.read, Disk.text, h path hpath]
      | inline label text => rfl
      | bundled => rfl
    rw [Source.load, hread, Source.load]
  have haccepted : Registry.accepted disk' s.language s.allSources =
      Registry.accepted disk s.language s.allSources :=
    List.filterMap_congr fun source hsource => by rw [hload source hsource]
  have hfailures : s.allSources.filterMap (Registry.failure? disk' s.language) =
      s.allSources.filterMap (Registry.failure? disk s.language) :=
    List.filterMap_congr fun source hsource => by
      rw [Registry.failure?, Registry.rejection?_eq, hload source hsource, Registry.failure?,
        Registry.rejection?_eq]
  rw [provider_eq, provider_eq, hfailures, Registry.offered, haccepted, Registry.offered]

end

end Handbook.CommandLine
