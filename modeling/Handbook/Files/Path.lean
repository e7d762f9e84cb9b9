import Handbook.Text.Basic

namespace Handbook.Path

def isAbsolute (path : Text) : Bool := path.head? == some '/'

def names (path : Text) : List Text := path.splitOn '/'

def ofNames (ns : List Text) : Text := List.intercalate ['/'] ns

/-- Without empty names and dots at the end. A dot that is the only name of a relative path stays. -/
def trimNames (absolute : Bool) (ns : List Text) : List Text :=
  match (ns.reverse.dropWhile fun n => n.isEmpty || n == ['.']).reverse with
  | [] => if !absolute ∧ ns.head? = some ['.'] then [['.']] else []
  | kept => kept

/-- The path without its last name; nothing for the root and for the empty path. -/
def parent? (path : Text) : Option Text :=
  let absolute := isAbsolute path
  let body := trimNames absolute (names (if absolute then path.drop 1 else path))
  match body with
  | [] => none
  | ns =>
    let rest := ofNames (trimNames absolute ns.dropLast)
    some (if absolute then '/' :: rest else rest)

def join (base path : Text) : Text :=
  if isAbsolute path then path
  else match base.getLast? with
    | none => path
    | some '/' => base ++ path
    | some _ => base ++ '/' :: path

end Handbook.Path
