import Handbook.Proofs.CommandLine.Loading
import Handbook.Proofs.CommandLine.Printed
import Handbook.Proofs.Lookup.Agreement
import Handbook.Proofs.Text.Lines

namespace Handbook.CommandLine

def detailText (s : Suggestion) : Text := List.intercalate [' '] (Text.fileLines s.detail)

def suggestionText (s : Suggestion) : Text :=
  s.label ++ ['\t'] ++ s.insertText ++ ['\t'] ++ detailText s

/-- However the lines of a signature end, no line feed is left of them. -/
theorem not_mem_detailText (s : Suggestion) : '\n' ∉ detailText s :=
  Text.not_mem_intercalate (by decide) fun _ hline => Text.not_mem_of_mem_fileLines hline

theorem not_mem_suggestionText {s : Suggestion} (hlabel : '\n' ∉ s.label)
    (hinsert : '\n' ∉ s.insertText) : '\n' ∉ suggestionText s := by
  have hdetail := not_mem_detailText s
  simp [suggestionText, hlabel, hinsert, hdetail]

theorem lines_suggestionsText {ss : List Suggestion}
    (h : ∀ s ∈ ss, '\n' ∉ s.label ∧ '\n' ∉ s.insertText) :
    Text.lines (suggestionsText .text ss) = ss.map suggestionText ++ [[]] := by
  have hfree : ∀ t ∈ ss.map suggestionText, '\n' ∉ t := by
    intro t ht
    obtain ⟨s, hs, rfl⟩ := List.mem_map.1 ht
    exact not_mem_suggestionText (h s hs).1 (h s hs).2
  rw [← Text.lines_flatMap hfree, List.flatMap_map]
  rfl

theorem eq_of_suggestionsText {ss : List Suggestion} {value : Printed}
    (h : suggestionsText .json ss = outputLine (value.lay 0)) :
    value = .list (ss.map printedSuggestion) :=
  (Printed.lay_inj (List.append_cancel_right h)).symm

section

variable [Yaml.Wording] {disk : Disk} {c : Common} {s : Settings}

theorem run_complete_of_file (hs : c.settings disk = .ok s) {position : Position} {text : Text}
    (hfile : disk.text position.file = .ok text) (layout : Layout) :
    Invocation.run ⟨c, .complete position layout⟩ disk =
      ⟨0, suggestionsText layout ((provider s disk).1.registry.complete s.marker
        (addressed text position.line) position.column
        (position.level.getD s.completionLevel)), (provider s disk).2⟩ := by
  rw [run_complete hs, Position.complete, text_of_file hfile]
  simp only [settings_provider]

theorem output_list (hs : c.settings disk = .ok s) (start : Text) :
    (Invocation.run ⟨c, .list start⟩ disk).output =
      (((provider s disk).1.registry.startingWith start).map (·.name)).flatMap outputLine := by
  rw [run_list hs, list, List.flatMap_map]

end

/-- Completing in a file that can be read succeeds. Where there is a word, its suggestions are the
items of the one layout, with all their fields, and the records of the other, and their names are those
listed for the word: the names of commands that start with it, once and in order. A record has the name,
what is inserted and the signature without its line breaks, so it takes one line unless one of the first
two goes over several. Where there is no word there are no suggestions. -/
theorem complete_agrees_with_list [Yaml.Wording] {disk : Disk} {c : Common} {s : Settings}
    {file text : Text} (hs : c.settings disk = .ok s) (hfile : disk.text file = .ok text)
    (line column : Nat) (level : Option Detail) :
    let completed := fun layout => Invocation.run ⟨c, .complete ⟨file, line, column, level⟩ layout⟩ disk
    let listed := fun start => Invocation.run ⟨c, .list start⟩ disk
    let item := fun s : Suggestion => Printed.record
      [("label", .text s.label), ("detail", .text s.detail),
        ("documentation", (s.documentation.map fun m => Printed.record
          [("value", .text m.source), ("is_trusted", .bool true)]).getD .null),
        ("insert_text", .text s.insertText),
        ("replace", .record [("start", .nat s.replace.start), ("end", .nat s.replace.stop)])]
    (∀ layout, (completed layout).exit = 0) ∧
    match Cursor.wordAt? s.marker (addressed text line) column with
    | none => (completed .json).output = "[]\n" ∧ (completed .text).output = []
    | some w =>
      ∃ ss : List Suggestion,
        ((completed .json).output = outputLine ((Printed.list (ss.map item)).lay 0) ∧
          ∀ value : Printed, (completed .json).output = outputLine (value.lay 0) →
            value = .list (ss.map item)) ∧
        (completed .text).output = (ss.map suggestionText).flatMap outputLine ∧
        (listed w.text).exit = 0 ∧ (listed w.text).output = (ss.map (·.label)).flatMap outputLine ∧
        (ss.map (·.label)).Pairwise (· < ·) ∧
        (∀ n, n ∈ ss.map (·.label) ↔ n ∈ (provider s disk).1.registry.names ∧ w.text <+: n) ∧
        (∀ s ∈ ss, '\n' ∉ detailText s) ∧
        ((∀ s ∈ ss, '\n' ∉ s.label ∧ '\n' ∉ s.insertText) →
          Text.lines (completed .text).output = ss.map suggestionText ++ [[]]) := by
  intro completed listed item
  let r := (provider s disk).1.registry
  let found := r.complete s.marker (addressed text line) column (level.getD s.completionLevel)
  have hcompleted : ∀ layout, completed layout =
      ⟨0, suggestionsText layout found, (provider s disk).2⟩ :=
    fun layout => run_complete_of_file hs hfile layout
  refine ⟨fun layout => by rw [hcompleted], ?_⟩
  cases hw : Cursor.wordAt? s.marker (addressed text line) column with
  | none =>
    have hfound : found = [] := by
      simp only [found, Registry.complete, hw]
    rw [hcompleted, hcompleted, hfound]
    exact ⟨rfl, rfl⟩
  | some w =>
    have hlabels : found.map (·.label) = (r.startingWith w.text).map (·.name) :=
      Registry.labels_complete hw _
    refine ⟨found, ⟨?_, fun value hvalue => ?_⟩, ?_, ?_, ?_, ?_, fun n => ?_, ?_, fun hfree => ?_⟩
    · rw [hcompleted]
      rfl
    · rw [hcompleted] at hvalue
      exact eq_of_suggestionsText hvalue
    · rw [hcompleted, List.flatMap_map]
      rfl
    · simp only [listed, run_list hs]
      rfl
    · rw [hlabels]
      exact output_list hs w.text
    · rw [hlabels]
      exact Registry.sorted_startingWith r w.text
    · rw [hlabels]
      exact Registry.mem_names_startingWith
    · exact fun s _ => not_mem_detailText s
    · rw [hcompleted]
      exact lines_suggestionsText hfree

/-- A file of definitions in which one name starts another one, and a file with the shorter name. -/
def stops : Files :=
  ((Files.empty ["work"]).add "stops.yaml"
    (Disk.encode "hush':\n  cmd: [hush' n, hush' f]\nhush:\n  help: Stops.\n")).add "stop"
    (Disk.encode "hush -- now\n")

def stopsOptions : Common := ⟨none, ["stops.yaml"], true⟩

def stopsSettings : Settings := { Settings.standard with bundled := false, sources := ["stops.yaml"] }

def stopsSuggestions : List Suggestion :=
  [⟨"hush", "hush ?", some ⟨"Stops."⟩, "hush", ⟨0, 4⟩⟩,
    ⟨"hush'", "hush' n\nhush' f", some ⟨[]⟩, "hush'", ⟨0, 4⟩⟩]

def stopsItems : Text :=
  "[\n  \x7b\n    \"label\": \"hush\",\n    \"detail\": \"hush ?\",\n" ++
  "    \"documentation\": \x7b\n      \"value\": \"Stops.\",\n" ++
  "      \"is_trusted\": true\n    \x7d,\n    \"insert_text\": \"hush\",\n" ++
  "    \"replace\": \x7b\n      \"start\": 0,\n      \"end\": 4\n    \x7d\n  \x7d,\n" ++
  "  \x7b\n    \"label\": \"hush'\",\n    \"detail\": \"hush' n\\nhush' f\",\n" ++
  "    \"documentation\": \x7b\n      \"value\": \"\",\n      \"is_trusted\": true\n    \x7d,\n" ++
  "    \"insert_text\": \"hush'\",\n" ++
  "    \"replace\": \x7b\n      \"start\": 0,\n      \"end\": 4\n    \x7d\n  \x7d\n]\n"

def stopsRecords : Text := "hush\thush\thush ?\nhush'\thush'\thush' n hush' f\n"

theorem text_stops : Disk.text stops.read "stop" = .ok "hush -- now\n" :=
  Disk.text_eq_ok_iff.2 ⟨_, rfl, Disk.decode?_encode _⟩

theorem suggestionsText_stops : suggestionsText .json stopsSuggestions = stopsItems ∧
    suggestionsText .text stopsSuggestions = stopsRecords := by
  refine ⟨?_, by decide +kernel⟩
  simp only [suggestionsText, stopsSuggestions, List.map_cons, List.map_nil, printedSuggestion,
    printedMarkup, Option.map_some, Option.getD_some, Printed.lay,
    Printed.layItems, Printed.layFields]
  decide +kernel

theorem complete_agrees_with_list_stops : letI := Yaml.Wording.plain
    stopsOptions.settings stops.read = .ok stopsSettings ∧
    Disk.text stops.read "stop" = .ok "hush -- now\n" ∧
    let completed := fun layout =>
      Invocation.run ⟨stopsOptions, .complete ⟨"stop", 0, 2, none⟩ layout⟩ stops.read
    (completed .json).output = stopsItems ∧ (completed .text).output = stopsRecords ∧
    ∃ ss : List Suggestion, (ss.map (·.label)).flatMap outputLine = "hush\nhush'\n" ∧
      (∀ value : Printed, stopsItems = outputLine (value.lay 0) →
        value = .list (ss.map printedSuggestion)) ∧
      stopsRecords = (ss.map suggestionText).flatMap outputLine := by
  let := Yaml.Wording.plain
  have hsettings : stopsOptions.settings stops.read = .ok stopsSettings := rfl
  have hword : Cursor.wordAt? stopsSettings.marker (addressed "hush -- now\n" 0) 2 =
      some ⟨"hush", ⟨0, 4⟩⟩ := by decide
  have hfound : (provider stopsSettings stops.read).1.registry.complete stopsSettings.marker
      (addressed "hush -- now\n" 0) 2 stopsSettings.completionLevel = stopsSuggestions := by
    decide +kernel
  have houtput : ∀ layout, (Invocation.run ⟨stopsOptions, .complete ⟨"stop", 0, 2, none⟩ layout⟩
      stops.read).output = suggestionsText layout stopsSuggestions := by
    intro layout
    rw [run_complete_of_file hsettings text_stops, ← hfound]
    rfl
  have hitems := (houtput .json).trans suggestionsText_stops.1
  have hrecords := (houtput .text).trans suggestionsText_stops.2
  have hlisted : (Invocation.run ⟨stopsOptions, .list "hush"⟩ stops.read).output =
      "hush\nhush'\n" := by decide +kernel
  obtain ⟨-, hcompleted⟩ := complete_agrees_with_list hsettings text_stops 0 2 none
  rw [hword] at hcompleted
  obtain ⟨ss, ⟨-, honly⟩, htext, -, hnames, -⟩ := hcompleted
  rw [hitems] at honly
  exact ⟨hsettings, text_stops, hitems, hrecords, ss, hnames.symm.trans hlisted, honly,
    hrecords.symm.trans htext⟩

end Handbook.CommandLine
