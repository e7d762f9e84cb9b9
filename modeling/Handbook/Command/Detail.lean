import Handbook.Command.Parameter

namespace Handbook

inductive Detail
  | off
  | minimum
  | noExamplesNoLinks
  | full
  deriving DecidableEq, Repr

structure UnknownDetail where
  text : Text
  deriving DecidableEq, Repr

def UnknownDetail.message (e : UnknownDetail) : Text := "unknown detail level: " ++ e.text

namespace Detail

def all : List Detail := [off, minimum, noExamplesNoLinks, full]

def name : Detail → Text
  | off => "OFF"
  | minimum => "MINIMUM"
  | noExamplesNoLinks => "NO_EXAMPLES_NO_LINKS"
  | full => "FULL"

def rank : Detail → Nat
  | off => 0
  | minimum => 1
  | noExamplesNoLinks => 2
  | full => 3

instance : LE Detail := ⟨fun a b => a.rank ≤ b.rank⟩

instance (a b : Detail) : Decidable (a ≤ b) := inferInstanceAs (Decidable (a.rank ≤ b.rank))

/-- The level with exactly this name. -/
def ofName? (t : Text) : Option Detail := all.find? (·.name = t)

def ofText (t : Text) : Except UnknownDetail Detail :=
  match ofName? (Text.folded t) with
  | some d => .ok d
  | none => .error ⟨t⟩

theorem ofName?_name (d : Detail) : ofName? d.name = some d := by
  cases d <;> rfl

theorem ofText_name (d : Detail) : ofText d.name = .ok d := by
  cases d <;> rfl

end Detail

end Handbook
