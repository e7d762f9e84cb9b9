import Handbook.Command.Detail
import Handbook.Command.Description
import Handbook.Cursor
import Handbook.Files.Disk
import Handbook.Files.Path
import Handbook.Source

namespace Handbook

/-- Which definitions are loaded, and how much of them is shown. -/
structure Settings where
  version : Text
  /-- Whether the bundled definitions are loaded, before all others. -/
  bundled : Bool
  /-- Paths of further sources, in order. -/
  sources : List Text
  hoverLevel : Detail
  completionLevel : Detail
  /-- What a comment on a line starts with. -/
  marker : Text
  /-- The language of examples. -/
  language : Text
  deriving DecidableEq, Repr

inductive SettingsFlaw
  | marker (text : Text)
  | language (text : Text)
  deriving DecidableEq, Repr

def SettingsFlaw.message : SettingsFlaw → Text
  | marker text => "invalid config: comment_marker must be two characters, got '" ++ text ++ "'"
  | language text => "invalid config: code_language must be a single word, got '" ++ text ++ "'"

inductive SettingsError
  | unreadable (e : FileError)
  | yaml (refusal : Text)
  | flaw (e : SettingsFlaw)
  deriving DecidableEq, Repr

def SettingsError.message : SettingsError → Text
  | unreadable e => "I/O error: " ++ e.message
  | yaml refusal => "YAML error: " ++ refusal
  | flaw e => e.message

namespace Settings

def standard : Settings where
  version := "1.0"
  bundled := true
  sources := []
  hoverLevel := .full
  completionLevel := .noExamplesNoLinks
  marker := Cursor.defaultMarker
  language := Description.defaultLanguage

/-- A comment marker has two characters or none, and a language has no blanks. -/
def flaw? (s : Settings) : Option SettingsFlaw :=
  if s.marker.length ≠ 0 ∧ s.marker.length ≠ 2 then some (.marker s.marker)
  else if s.language.any Text.isBlank then some (.language s.language)
  else none

def allSources (s : Settings) : List Source :=
  (if s.bundled then [Source.bundled] else []) ++ s.sources.map Source.file

/-- Sources with relative paths are meant as seen from the folder `base`. -/
def basedAt (base : Text) (s : Settings) : Settings :=
  { s with sources := s.sources.map (Path.join base) }

end Settings

end Handbook
