import Handbook.Proofs.CommandLine.Loading
import Handbook.Proofs.Cursor.Word

namespace Handbook.CommandLine

/-- What is printed for a name: its documentation, or nothing. -/
def documented (r : Registry) (level : Detail) (name : Text) : Text :=
  (((r.get? name).bind fun d => d.format level true).map fun m => outputLine m.source).getD []

theorem documented_unknown {r : Registry} {name : Text} (h : r.get? name = none) (level : Detail) :
    documented r level name = [] := by
  rw [documented, h]
  rfl

theorem documented_off (r : Registry) (name : Text) : documented r .off name = [] := by
  unfold documented
  cases r.get? name <;> rfl

section

variable {disk : Disk} (p : Provider) (skipped : Text)

theorem output_describe (name : Text) (level : Detail) :
    (describe name level true p skipped).output = documented p.registry level name := by
  unfold describe documented
  cases p.registry.get? name <;> rfl

variable {position : Position} {t : Text} (h : position.text disk = .ok t)
include h

theorem exit_hover : (position.hover disk p skipped).exit = 0 := by
  rw [Position.hover, h]
  simp only
  split <;> rfl

theorem output_hover : (position.hover disk p skipped).output =
    ((Cursor.wordAt? p.settings.marker t position.column).map fun w =>
      documented p.registry (position.level.getD p.settings.hoverLevel) w.text).getD [] := by
  rw [Position.hover, h]
  simp only [Registry.hover, documented]
  cases Cursor.wordAt? p.settings.marker t position.column with
  | none => rfl
  | some w =>
    simp only [Option.bind_eq_bind, Option.bind_some, Option.map_some, Option.getD_some]
    cases p.registry.get? w.text with
    | none => rfl
    | some d =>
      simp only [Option.bind_some]
      cases d.format (position.level.getD p.settings.hoverLevel) true <;> rfl

end

section

variable [Yaml.Wording] {disk : Disk} {c : Common} {s : Settings} (hs : c.settings disk = .ok s)
  {position : Position} {text : Text} (hfile : disk.text position.file = .ok text)
include hs hfile

theorem exit_run_hover : (Invocation.run ⟨c, .hover position⟩ disk).exit = 0 := by
  rw [run_hover hs]
  exact exit_hover _ _ (text_of_file hfile)

theorem output_run_hover : (Invocation.run ⟨c, .hover position⟩ disk).output =
    ((Cursor.wordAt? s.marker (addressed text position.line) position.column).map fun w =>
      documented (provider s disk).1.registry (position.level.getD s.hoverLevel) w.text).getD [] := by
  rw [run_hover hs, output_hover _ _ (text_of_file hfile), settings_provider]

/-- Of the file only the code on one line matters, wherever it stands. -/
theorem output_run_hover_congr {disk' : Disk}
    (hdisk : ∀ path ∈ c.config.toList ++ s.sources, disk' path = disk path)
    {position' : Position} {text' : Text} (hfile' : disk'.text position'.file = .ok text')
    (hcolumn : position'.column = position.column) (hlevel : position'.level = position.level)
    (hcode : Cursor.stripComment s.marker (addressed text' position'.line) =
      Cursor.stripComment s.marker (addressed text position.line)) :
    (Invocation.run ⟨c, .hover position'⟩ disk').output =
      (Invocation.run ⟨c, .hover position⟩ disk).output := by
  have hs' : c.settings disk' = .ok s := by
    rw [← hs]
    exact settings_congr fun path hpath =>
      hdisk path (List.mem_append_left _ (Option.mem_toList.2 hpath))
  have hprovider : provider s disk' = provider s disk :=
    provider_congr fun path hpath => hdisk path (List.mem_append_right _ hpath)
  rw [output_run_hover hs' hfile', output_run_hover hs hfile, hprovider, hcolumn, hlevel,
    Cursor.wordAt?_congr hcode]

end

/-- Hovering over a file that can be read succeeds. For a word it prints what is printed when the word
is asked for by its name, and where there is no word it prints nothing. Two files with the same code
on the lines in question give the same, whatever else is in them. -/
theorem hover_agrees_with_describe [Yaml.Wording] {disk : Disk} {c : Common} {s : Settings}
    {file text : Text} (hs : c.settings disk = .ok s) (hfile : disk.text file = .ok text) (line column : Nat) :
    let hovered := fun level => Invocation.run ⟨c, .hover ⟨file, line, column, level⟩⟩ disk
    let described := fun name level => Invocation.run ⟨c, .describe name level true⟩ disk
    (∀ level, (hovered level).exit = 0) ∧
    (match Cursor.wordAt? s.marker (addressed text line) column with
      | none => ∀ level, (hovered level).output = []
      | some w => ∀ level, (hovered (some level)).output = (described w.text level).output ∧
          ((provider s disk).1.registry.get? w.text = none ∨ level = .off →
            (hovered (some level)).output = [] ∧ (described w.text level).output = [])) ∧
    ∀ (disk' : Disk) (file' text' : Text) (line' : Nat) (level : Option Detail),
      (∀ path ∈ c.config.toList ++ s.sources, disk' path = disk path) →
      disk'.text file' = .ok text' →
      Cursor.stripComment s.marker (addressed text' line') =
        Cursor.stripComment s.marker (addressed text line) →
      (Invocation.run ⟨c, .hover ⟨file', line', column, level⟩⟩ disk').output =
        (hovered level).output := by
  intro hovered described
  -- both print what is documented for a name
  have houtput : ∀ level, (hovered level).output =
      ((Cursor.wordAt? s.marker (addressed text line) column).map fun w =>
        documented (provider s disk).1.registry (level.getD s.hoverLevel) w.text).getD [] :=
    fun level => output_run_hover hs hfile
  have hdescribed : ∀ name level, (described name level).output =
      documented (provider s disk).1.registry level name := by
    intro name level
    simp only [described, run_describe hs]
    exact output_describe _ _ name level
  refine ⟨fun level => exit_run_hover hs hfile, ?_, ?_⟩
  · cases hw : Cursor.wordAt? s.marker (addressed text line) column with
    | none =>
      intro level
      rw [houtput, hw]
      rfl
    | some w =>
      intro level
      have hword : (hovered (some level)).output =
          documented (provider s disk).1.registry level w.text := by
        rw [houtput, hw]
        rfl
      refine ⟨hword.trans (hdescribed w.text level).symm, fun hempty => ?_⟩
      rw [hword, hdescribed, and_self]
      obtain hunknown | rfl := hempty
      · exact documented_unknown hunknown level
      · exact documented_off _ w.text
  · intro disk' file' text' line' level hdisk hfile' hcode
    exact output_run_hover_congr hs hfile hdisk hfile' rfl rfl hcode

def notes : Files :=
  ((Files.empty ["work"]).add "stop.yaml" (Disk.encode "hush:\n  help: Stops.\n")).add "notes"
    (Disk.encode "d1 $ sound\r\n  hush -- d1\r\n")

def notesOptions : Common := ⟨none, ["stop.yaml"], true⟩

def notesSettings : Settings := { Settings.standard with bundled := false, sources := ["stop.yaml"] }

theorem text_notes : Disk.text notes.read "notes" = .ok "d1 $ sound\r\n  hush -- d1\r\n" :=
  Disk.text_eq_ok_iff.2 ⟨_, rfl, Disk.decode?_encode _⟩

theorem hover_agrees_with_describe_notes : letI := Yaml.Wording.plain
    notesOptions.settings notes.read = .ok notesSettings ∧
    Disk.text notes.read "notes" = .ok "d1 $ sound\r\n  hush -- d1\r\n" ∧
    ∀ level,
      let hovered := Invocation.run ⟨notesOptions, .hover ⟨"notes", 1, 6, some level⟩⟩ notes.read
      hovered.exit = 0 ∧ hovered.output =
        (Invocation.run ⟨notesOptions, .describe "hush" level true⟩ notes.read).output := by
  let := Yaml.Wording.plain
  have hsettings : notesOptions.settings notes.read = .ok notesSettings := rfl
  have hword : Cursor.wordAt? notesSettings.marker (addressed "d1 $ sound\r\n  hush -- d1\r\n" 1) 6 =
      some ⟨"hush", ⟨2, 6⟩⟩ := by decide
  obtain ⟨hexit, hprinted, -⟩ := hover_agrees_with_describe hsettings text_notes 1 6
  rw [hword] at hprinted
  exact ⟨hsettings, text_notes, fun level => ⟨hexit (some level), (hprinted level).1⟩⟩

end Handbook.CommandLine
