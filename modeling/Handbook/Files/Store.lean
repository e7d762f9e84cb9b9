import Handbook.Files.Disk
import Handbook.Files.Path

namespace Handbook

/-- Files and folders by their names from the root on. The working folder and those around it are there
without being listed. -/
structure Files where
  working : List Text
  folders : List (List Text)
  files : List (List Text × ByteArray)

namespace Files

def empty (working : List Text) : Files := ⟨working, [], []⟩

def content? (fs : Files) (place : List Text) : Option ByteArray := fs.files.lookup place

def isFolder (fs : Files) (place : List Text) : Bool :=
  place.isPrefixOf fs.working || fs.folders.contains place

/-- Follows names from a place. Every name but the last has to be that of a folder, and the root is
its own parent. -/
def walk (fs : Files) : List Text → List Text → Except FileError (List Text)
  | p, [] => .ok p
  | p, n :: ns =>
    if !fs.isFolder p then .error (if (fs.content? p).isSome then .notAFolder else .notFound)
    else if n = [] ∨ n = ['.'] then walk fs p ns
    else if n = ['.', '.'] then walk fs p.dropLast ns
    else if 255 < Text.byteLength n then .error .nameTooLong
    else walk fs (p ++ [n]) ns

def pathError? (path : Text) : Option FileError :=
  if path.contains '\x00' then some .nulInName
  else if path = [] then some .notFound
  else if 4096 ≤ Text.byteLength path then some .nameTooLong
  else none

def origin (fs : Files) (path : Text) : List Text := if Path.isAbsolute path then [] else fs.working

def read (fs : Files) (path : Text) : Except FileError ByteArray := do
  if let some e := pathError? path then throw e
  let p ← fs.walk (fs.origin path) (Path.names path)
  if fs.isFolder p then throw .isAFolder
  match fs.content? p with
  | some bytes => return bytes
  | none => throw .notFound

def put (fs : Files) (place : List Text) (bytes : ByteArray) : Files :=
  { fs with files := (place, bytes) :: fs.files.filter (·.1 ≠ place) }

def write (fs : Files) (path : Text) (bytes : ByteArray) : Except FileError Files := do
  if let some e := pathError? path then throw e
  let ns := Path.names path
  match ns.reverse.dropWhile (·.isEmpty) with
  | [] => throw .isAFolder
  | name :: before => do
    let p ← fs.walk (fs.origin path) (before.reverse ++ [['.']])
    if ns.getLast? = some [] ∨ name = ['.'] ∨ name = ['.', '.'] then throw .isAFolder
    if 255 < Text.byteLength name then throw .nameTooLong
    if fs.isFolder (p ++ [name]) then throw .isAFolder
    return fs.put (p ++ [name]) bytes

/-- Where a path without parent folders leads from the working folder. -/
def place (fs : Files) (path : Text) : List Text :=
  fs.working ++ (Path.names path).filter fun n => !(n.isEmpty || n == ['.'])

def add (fs : Files) (path : Text) (bytes : ByteArray) : Files :=
  let ns := fs.place path
  let around := (List.range ns.length).map ns.take
  ({ fs with folders := fs.folders ++ around }).put ns bytes

def remove (fs : Files) (path : Text) : Files :=
  let ns := fs.place path
  { fs with
    folders := fs.folders.filter fun f => !ns.isPrefixOf f
    files := fs.files.filter fun f => !ns.isPrefixOf f.1 }

end Files

end Handbook
