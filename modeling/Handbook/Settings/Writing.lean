import Handbook.Files.Store
import Handbook.Settings.Basic
import Handbook.Yaml.Writing

namespace Handbook.Settings

open Yaml

def sourcesText (sources : List Text) : Text :=
  if sources = [] then "sources: []\n" else "sources:\n" ++ sources.flatMap (scalarLine "-")

def text (s : Settings) : Text :=
  scalarLine "version:" s.version
    ++ (if s.bundled then "bundled: true\n" else "bundled: false\n")
    ++ sourcesText s.sources
    ++ "hover:\n" ++ scalarLine "  level:" s.hoverLevel.name
    ++ "completion:\n" ++ scalarLine "  level:" s.completionLevel.name
    ++ scalarLine "comment_marker:" s.marker
    ++ scalarLine "code_language:" s.language

def save (fs : Files) (path : Text) (s : Settings) : Except FileError Files :=
  fs.write path (Disk.encode s.text)

end Handbook.Settings
