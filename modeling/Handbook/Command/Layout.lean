import Handbook.Command.Description
import Handbook.Command.Detail

namespace Handbook

def sectionRule : Text :=
  Text.lineBreak ++ Text.lineBreak ++ "---" ++ Text.lineBreak ++ Text.lineBreak

namespace Parameter

def line (p : Parameter) : Text :=
  ['\x60'] ++ p.name ++ ['\x60']
    ++ (match p.kind with
        | some k => [' ', '\x60'] ++ k.label ++ ['\x60']
        | none => [])
    ++ (if p.help.source.isEmpty then [] else ' ' :: p.help.source)

end Parameter

namespace Description

def signatureText (d : Description) : Text := Text.ofLines (d.signature.map (·.source))

def plainSignature (d : Description) : Text := (Markup.mk d.signatureText).plain

def usageText (d : Description) : Text :=
  Text.ofLines (d.parameters.map Parameter.line
    ++ (d.returns.map fun r => "Returns: ".toList ++ r.source).toList)

def examplesText (d : Description) : Text :=
  Text.ofLines ("Examples:".toList :: d.examples.map (·.source))

/-- The texts that a level selects, the empty ones among them. -/
def parts (d : Description) (level : Detail) (withSignature : Bool) : List Text :=
  (if withSignature then [d.signatureText] else [])
    ++ (if .noExamplesNoLinks ≤ level then (d.help.map (·.source)).toList ++ [d.usageText] else [])
    ++ (if .full ≤ level ∧ d.examples ≠ [] then [d.examplesText] else [])

def sections (d : Description) (level : Detail) (withSignature : Bool) : List Text :=
  (d.parts level withSignature).filter fun t => !t.isEmpty

/-- Nothing at level `off`; above it, the sections with rules between them. -/
def format (d : Description) (level : Detail) (withSignature : Bool) : Option Markup :=
  if level = .off then none
  else some ⟨sectionRule.intercalate (d.sections level withSignature)⟩

end Description

end Handbook
