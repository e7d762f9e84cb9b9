import Handbook.CommandLine.Arguments
import Handbook.CommandLine.Printed
import Handbook.Provider
import Handbook.Settings.Reading

namespace Handbook.CommandLine

/-- What a run leaves behind. `errors` is standard error without the log, to which loading the registry
adds a warning for each source that fails. -/
structure Outcome where
  exit : Nat
  output : Text
  errors : Text
  deriving DecidableEq, Repr

namespace Outcome

def usage : Outcome := ⟨2, [], []⟩

def failed (output errors message : Text) : Outcome :=
  ⟨1, output, errors ++ "error: " ++ message ++ "\n"⟩

end Outcome

def outputLine (t : Text) : Text := t ++ "\n"

variable [Yaml.Wording]

def Common.settings (c : Common) (disk : Disk) : Except Text Settings :=
  let read : Except Text Settings := match c.config with
    | none => .ok Settings.standard
    | some path =>
      match Settings.load disk path with
      | .ok s => .ok s
      | .error e => .error ("Failed to load config '" ++ path ++ "': " ++ e.message)
  read.map fun s =>
    { s with bundled := s.bundled && !c.noBundled, sources := s.sources ++ c.sources }

def skippedLine (f : Registry.Failure) : Text :=
  outputLine ("warning: skipped " ++ f.label ++ ": " ++ f.message)

/-- A provider with its sources loaded, and the lines about those that gave nothing. -/
def provider (s : Settings) (disk : Disk) : Provider × Text :=
  let (p, report) := (Provider.new s).reload disk
  (p, report.failures.flatMap skippedLine)

/-- The addressed line; beyond the last line it is empty. -/
def Position.text (p : Position) (disk : Disk) : Except Text Text :=
  match disk.text p.file with
  | .ok t => .ok ((Text.fileLines t)[p.line]?.getD [])
  | .error e => .error ("Failed to read '" ++ p.file ++ "': " ++ e.message)

def Position.hover (position : Position) (disk : Disk) (p : Provider) (skipped : Text) : Outcome :=
  match position.text disk with
  | .error e => .failed [] skipped e
  | .ok t =>
    let level := position.level.getD p.settings.hoverLevel
    match p.registry.hover p.settings.marker t position.line position.column level with
    | some h => ⟨0, outputLine h.contents.source, skipped⟩
    | none =>
      ⟨0, [], skipped ++ outputLine ("no documentation at " ++ Text.ofNat position.line ++ ":"
        ++ Text.ofNat position.column)⟩

def suggestionLine (s : Suggestion) : Text :=
  outputLine (s.label ++ ['\t'] ++ s.insertText ++ ['\t']
    ++ List.intercalate [' '] (Text.fileLines s.detail))

def printedMarkup (m : Markup) : Printed :=
  .record [("value", .text m.source), ("is_trusted", .bool true)]

def printedSuggestion (s : Suggestion) : Printed :=
  .record [("label", .text s.label), ("detail", .text s.detail),
    ("documentation", (s.documentation.map printedMarkup).getD .null),
    ("insert_text", .text s.insertText),
    ("replace", .record [("start", .nat s.replace.start), ("end", .nat s.replace.stop)])]

def suggestionsText (layout : Layout) (ss : List Suggestion) : Text :=
  match layout with
  | .text => ss.flatMap suggestionLine
  | .json => outputLine ((Printed.list (ss.map printedSuggestion)).lay 0)

def Position.complete (position : Position) (layout : Layout) (disk : Disk) (p : Provider)
    (skipped : Text) : Outcome :=
  match position.text disk with
  | .error e => .failed [] skipped e
  | .ok t =>
    let level := position.level.getD p.settings.completionLevel
    let found := p.registry.complete p.settings.marker t position.column level
    ⟨0, suggestionsText layout found, skipped⟩

def describe (name : Text) (level : Detail) (withSignature : Bool) (p : Provider)
    (skipped : Text) : Outcome :=
  match p.registry.get? name with
  | none => .failed [] skipped ("Unknown command '" ++ name ++ "'")
  | some d => ⟨0, ((d.format level withSignature).map fun m => outputLine m.source).getD [], skipped⟩

def list (start : Text) (p : Provider) (skipped : Text) : Outcome :=
  ⟨0, (p.registry.startingWith start).flatMap fun d => outputLine d.name, skipped⟩

/-- What is said of one source: its commands and warnings, or why it gives nothing. -/
def checkText (disk : Disk) (language : Text) (s : Source) : Text :=
  match s.load disk language with
  | .ok d =>
    outputLine ("ok: " ++ s.label ++ " (" ++ Text.ofNat d.descriptions.length ++ " commands)")
      ++ d.warnings.flatMap fun w => outputLine ("  warning: " ++ w.message)
  | .error e => outputLine ("failed: " ++ s.label ++ ": " ++ e.message)

def isFailing (disk : Disk) (language : Text) (s : Source) : Bool :=
  match s.load disk language with
  | .ok _ => false
  | .error _ => true

def check (s : Settings) (disk : Disk) : Outcome :=
  let output := s.allSources.flatMap (checkText disk s.language)
  let failing := s.allSources.countP (isFailing disk s.language)
  if 0 < failing then
    .failed output [] (Text.ofNat failing ++ " of " ++ Text.ofNat s.allSources.length
      ++ " sources failed to load")
  else ⟨0, output, []⟩

def Invocation.run (i : Invocation) (disk : Disk) : Outcome :=
  match i.common.settings disk with
  | .error e => .failed [] [] e
  | .ok s =>
    let (p, skipped) := provider s disk
    match i.action with
    | .hover position => position.hover disk p skipped
    | .complete position layout => position.complete layout disk p skipped
    | .describe name level withSignature => describe name level withSignature p skipped
    | .list start => list start p skipped
    | .check => check s disk

/-- The whole program, on the files of a disk. -/
def run (disk : Disk) (args : List Text) : Outcome :=
  match Invocation.ofArguments? args with
  | none => .usage
  | some i => i.run disk

def Action.files : Action → List Text
  | .hover position => [position.file]
  | .complete position _ => [position.file]
  | _ => []

/-- The files that a run reads, once the configuration file is on the disk. -/
def Invocation.files (i : Invocation) (disk : Disk) : List Text :=
  let sources := match i.common.settings disk with
    | .ok s => s.sources
    | .error _ => []
  i.common.config.toList ++ sources ++ i.action.files

end Handbook.CommandLine
