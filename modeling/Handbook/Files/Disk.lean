import Handbook.Text.Basic

namespace Handbook

inductive FileError
  | notFound
  | notAFolder
  | isAFolder
  | notText
  | nameTooLong
  | nulInName
  /-- Any other cause, in the words of the system. -/
  | other (text : Text)
  deriving DecidableEq, Repr

def FileError.message : FileError → Text
  | notFound => "No such file or directory (os error 2)"
  | notAFolder => "Not a directory (os error 20)"
  | isAFolder => "Is a directory (os error 21)"
  | notText => "stream did not contain valid UTF-8"
  | nameTooLong => "File name too long (os error 36)"
  | nulInName => "file name contained an unexpected NUL byte"
  | other text => text

abbrev Disk := Text → Except FileError ByteArray

namespace Disk

def decode? (bytes : ByteArray) : Option Text := (String.fromUTF8? bytes).map String.toList

def encode (t : Text) : ByteArray := t.string.toUTF8

def text (disk : Disk) (path : Text) : Except FileError Text := do
  match decode? (← disk path) with
  | some t => return t
  | none => throw .notText

end Disk

end Handbook
