import Handbook.Command.Parameter

namespace Handbook

structure Description where
  name : Text
  signature : List Markup
  parameters : List Parameter
  returns : Option Markup
  help : Option Markup
  /-- Each example stands in a block of its own. -/
  examples : List Markup
  deriving DecidableEq, Repr

/-- What a source says of a command, before anything is filled in. -/
structure Draft where
  /-- Signature lines as they are to be shown. -/
  signature : Option (List Text)
  /-- A list without entries says that the command takes nothing; no list says nothing. -/
  parameters : Option (List Parameter)
  returns : Option Text
  help : Option Text
  examples : List Text
  deriving DecidableEq, Repr

namespace Draft

def empty : Draft := ⟨none, none, none, none, []⟩

/-- The line shown for a command whose source gives no signature. -/
def signatureFrom (name : Text) : Option (List Parameter) → Text
  | some ps => name ++ " " ++ List.intercalate [' '] (ps.map (·.name))
  | none => name ++ " ?"

def signatureLines (d : Draft) (name : Text) : List Text :=
  match d.signature with
  | some (l :: ls) => l :: ls
  | _ => [signatureFrom name d.parameters]

def describe (d : Draft) (language name : Text) : Description where
  name := name
  signature := (d.signatureLines name).map Markup.mk
  parameters := d.parameters.getD []
  returns := d.returns.map Markup.mk
  help := d.help.map Markup.mk
  examples := d.examples.map (Markup.codeBlock language)

end Draft

namespace Description

def defaultLanguage : Text := "haskell"

/-- A command of which only the name is known. -/
def bare (name : Text) : Description := Draft.empty.describe defaultLanguage name

def editableNames (d : Description) : List Text :=
  (d.parameters.filter (·.editable)).map (·.name)

end Description

end Handbook
