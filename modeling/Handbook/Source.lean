import Handbook.Bundled
import Handbook.Definition.Reading
import Handbook.Files.Disk
import Handbook.Yaml.Decoding

namespace Handbook

inductive Source
  | file (path : Text)
  | inline (label text : Text)
  | bundled
  deriving DecidableEq, Repr

inductive SourceError
  | unreadable (e : FileError)
  | yaml (refusal : Text)
  | fault (label : Text) (e : Fault)
  deriving DecidableEq, Repr

def SourceError.message : SourceError → Text
  | unreadable e => "I/O error: " ++ e.message
  | yaml refusal => "YAML error: " ++ refusal
  | fault label e => e.message label

namespace Source

def label : Source → Text
  | file path => path
  | inline label _ => label
  | bundled => bundledLabel

def read (disk : Disk) : Source → Except FileError Text
  | file path => disk.text path
  | inline _ text => .ok text
  | bundled => .ok bundledDefinitions

/-- Reads, decodes and reads off the definitions of a source, with examples in `language`. -/
def load [Yaml.Wording] (disk : Disk) (language : Text) (s : Source) :
    Except SourceError Definitions :=
  match s.read disk with
  | .error e => .error (.unreadable e)
  | .ok text =>
    match Tree.ofYaml? text with
    | none => .error (.yaml (Yaml.Wording.tree text))
    | some tree =>
      match Definitions.ofTree language s.label tree with
      | .error e => .error (.fault s.label e)
      | .ok d => .ok d

end Source

end Handbook
