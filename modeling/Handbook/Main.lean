import Handbook.CommandLine.Run

namespace Handbook

/-- The cause that the system reports. Its codes come with either sign. -/
def FileError.ofIO (e : IO.Error) : FileError :=
  match e with
  | .noFileOrDirectory _ _ _ => .notFound
  | .permissionDenied _ _ _ => .other "Permission denied (os error 13)"
  | .inappropriateType _ code text =>
    if code = 21 ∨ code = -21 then .isAFolder
    else if code = 20 ∨ code = -20 then .notAFolder
    else .other text
  | .invalidArgument _ _ text =>
    if text = "string contains NUL bytes" then .nulInName else .other text
  | e => .other (toString e)

def Disk.ofFiles (paths : List Text) : IO Disk := do
  let mut read : List (Text × Except FileError ByteArray) := []
  for path in paths do
    let content ← (IO.FS.readBinFile path.string).toBaseIO
    read := (path, content.mapError FileError.ofIO) :: read
  return fun path => (read.lookup path).getD (.error .notFound)

end Handbook

open Handbook

def main (args : List String) : IO UInt32 := do
  let args := args.map String.toList
  let _ := Yaml.Wording.plain
  let disk ← match CommandLine.Invocation.ofArguments? args with
    | some i => do
      let config ← Disk.ofFiles i.common.config.toList
      Disk.ofFiles (i.files config)
    | none => Disk.ofFiles []
  let outcome := CommandLine.run disk args
  IO.print outcome.output.string
  IO.eprint outcome.errors.string
  return outcome.exit.toUInt32
