import Handbook.Text.Lines

namespace Handbook

/-- Every value is trusted: a display may render it with all its formatting. -/
structure Markup where
  source : Text
  deriving DecidableEq, Repr

namespace Markup

def plain (m : Markup) : Text := m.source.filter (· != '\x60')

def fence : Text := ['\x60', '\x60', '\x60']

/-- Code as it stands inside its block: unified breaks, no blank lines at the end. -/
def blockBody (code : Text) : Text :=
  Text.ofLines (Text.dropBlankTail (Text.lines (Text.unifyBreaks code)))

def codeBlock (language code : Text) : Markup :=
  ⟨fence ++ language ++ Text.lineBreak ++ blockBody code ++ Text.lineBreak ++ fence⟩

end Markup

end Handbook
