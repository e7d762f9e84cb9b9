import Handbook.Tree.Basic
import Handbook.Command.Parameter

namespace Handbook

/-- What makes a tree of definitions unreadable. Each case holds what was found in place of what has
to be there. -/
inductive Fault
  | notAMapping (found : Shape)
  | commandName (found : Shape)
  | commandValue (command : Text) (found : Shape)
  | propertyName (command : Text) (found : Shape)
  | parameterName (command : Text) (found : Shape)
  deriving DecidableEq, Repr

def Fault.message (label : Text) : Fault → Text
  | notAMapping found =>
    label ++ ": definitions must be a mapping of command names, found " ++ found.phrase
  | commandName found => label ++ ": command name must be a string, found " ++ found.phrase
  | commandValue command found =>
    label ++ ": command '" ++ command ++ "' must be a string or a mapping, found " ++ found.phrase
  | propertyName command found =>
    label ++ ": command '" ++ command ++ "' has a property key that is " ++ found.phrase
      ++ ", expected a string"
  | parameterName command found =>
    label ++ ": command '" ++ command ++ "' has a parameter name that is " ++ found.phrase
      ++ ", expected a string"

/-- What is left out of a description, and why. -/
inductive Discard
  | unknownProperty (property : Text)
  | notText (property : Text) (found : Shape)
  | notTextOrSequence (property : Text) (found : Shape)
  | notAMapping (property : Text) (found : Shape)
  | item (property : Text) (index : Nat) (found : Shape)
  | kind (parameter : Text) (unknown : UnknownKind)
  | field (parameter name : Text) (found : Shape)
  | fieldName (parameter : Text)
  deriving DecidableEq, Repr

def Discard.message : Discard → Text
  | unknownProperty property => "ignored unknown property '" ++ property ++ "'"
  | notText property found =>
    "discarded '" ++ property ++ "': expected a string, found " ++ found.phrase
  | notTextOrSequence property found =>
    "discarded '" ++ property ++ "': expected a string or a sequence, found " ++ found.phrase
  | notAMapping property found =>
    "discarded '" ++ property ++ "': expected a mapping, found " ++ found.phrase
  | item property index found =>
    "dropped '" ++ property ++ "' item " ++ Text.ofNat index ++ ": expected a string, found "
      ++ found.phrase
  | kind parameter unknown => "parameter '" ++ parameter ++ "': " ++ unknown.message
  | field parameter name found =>
    "parameter '" ++ parameter ++ "': ignored field '" ++ name ++ "' (" ++ found.phrase ++ ")"
  | fieldName parameter => "parameter '" ++ parameter ++ "': ignored non-string field"

structure Warning where
  label : Text
  command : Text
  discard : Discard
  deriving DecidableEq, Repr

def Warning.message (w : Warning) : Text :=
  w.label ++ ": command '" ++ w.command ++ "': " ++ w.discard.message

end Handbook
