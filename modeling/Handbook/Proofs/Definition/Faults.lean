import Handbook.Proofs.Definition.Entries
import Mathlib.Data.List.Induction

namespace Handbook

namespace Property

/-- The property that goes by a name. There are twelve names. -/
def called? (t : Text) : Option Property :=
  if t = "cmd" ∨ t = "formattedCommand" then some .signature
  else if t = "return" ∨ t = "returns" then some .returns
  else if t = "help" ∨ t = "doc" then some .help
  else if t = "parm" ∨ t = "param" ∨ t = "params" ∨ t = "parameters" then some .parameters
  else if t = "example" ∨ t = "examples" then some .examples
  else none

theorem ofName?_eq_called? (t : Text) : ofName? t = called? t := by
  unfold ofName? called? all
  simp only [List.find?_cons, List.find?_nil, names]
  split_ifs <;> simp_all

theorem called?_eq_parameters_iff {t : Text} : called? t = some .parameters ↔
    t = "parm" ∨ t = "param" ∨ t = "params" ∨ t = "parameters" := by
  constructor
  · intro h
    by_contra hno
    rw [called?, if_neg hno] at h
    split_ifs at h <;> cases h
  · rintro (rfl | rfl | rfl | rfl) <;> rfl

end Property

namespace Reading

def okUnless {α : Type} : List Fault → α → Except Fault α
  | [], x => .ok x
  | f :: _, _ => .error f

variable {α β : Type}

@[simp] theorem okUnless_nil (x : α) : okUnless [] x = .ok x := rfl

@[simp] theorem okUnless_cons (f : Fault) (fs : List Fault) (x : α) :
    okUnless (f :: fs) x = .error f := rfl

theorem okUnless_eq_error_iff {fs : List Fault} {x : α} {f : Fault} :
    okUnless fs x = .error f ↔ fs.head? = some f := by
  cases fs <;> simp

theorem okUnless_eq_ok_iff {fs : List Fault} {x y : α} :
    okUnless fs x = .ok y ↔ fs = [] ∧ x = y := by
  cases fs <;> simp

@[simp] theorem map_okUnless (g : α → β) (fs : List Fault) (x : α) :
    g <$> okUnless fs x = okUnless fs (g x) := by
  cases fs <;> rfl

theorem okUnless_bind {fs gs : List Fault} {x : α} {y : β} {next : α → Except Fault β}
    (h : next x = okUnless gs y) : okUnless fs x >>= next = okUnless (fs ++ gs) y := by
  cases fs with
  | nil => exact h
  | cons f fs => rfl

/-- A run over a list, when it is known for each beginning of the list what was read of it and what
is wrong with the next element: all faults in a row, and what was read of the whole list. -/
theorem foldlM_eq_okUnless {step : β → α → Except Fault β} {faults : α → List Fault}
    {done : List α → β}
    (hstep : ∀ before a, step (done before) a = okUnless (faults a) (done (before ++ [a])))
    (as : List α) : as.foldlM step (done []) = okUnless (as.flatMap faults) (done as) := by
  induction as using List.reverseRecOn with
  | nil => rfl
  | append_singleton before a ih =>
    have hlast : [a].foldlM step (done before) = okUnless (faults a) (done (before ++ [a])) := by
      rw [List.foldlM_cons, hstep]
      cases faults a <;> rfl
    rw [List.foldlM_append, ih, List.flatMap_append, List.flatMap_singleton]
    exact okUnless_bind hlast

/-- The name under which an entry stands. An entry without one is a fault. -/
def entryName (e : Tree × Tree) : Text := e.1.text?.getD []

def parameterFaults (command : Text) (e : Tree × Tree) : List Fault :=
  match e.1.text? with
  | some _ => []
  | none => [.parameterName command e.1.shape]

def propertyFaults (command : Text) (e : Tree × Tree) : List Fault :=
  match e.1.text? with
  | some name =>
    if name = "parm" ∨ name = "param" ∨ name = "params" ∨ name = "parameters" then
      e.2.entries.flatMap (parameterFaults command)
    else []
  | none => [.propertyName command e.1.shape]

def commandFaults (name : Text) (value : Tree) : List Fault :=
  match value.shape with
  | .null | .text => []
  | .mapping => value.entries.flatMap (propertyFaults name)
  | found => [.commandValue name found]

def entryFaults (e : Tree × Tree) : List Fault :=
  match e.1.text? with
  | some name => commandFaults name e.2
  | none => [.commandName e.1.shape]

theorem propertyFaults_eq_nil_iff {command : Text} {e : Tree × Tree} :
    propertyFaults command e = [] ↔ ∃ name, e.1.text? = some name ∧
      (Property.called? name = some .parameters → ∀ p ∈ e.2.entries, parameterFaults command p = []) := by
  unfold propertyFaults
  simp only [← Property.called?_eq_parameters_iff]
  cases e.1.text? with
  | none => simp
  | some name => by_cases h : Property.called? name = some .parameters <;> simp [h]

theorem commandFaults_eq_nil_iff {name : Text} {value : Tree} :
    commandFaults name value = [] ↔
      (value.shape = .null ∨ value.shape = .text ∨ value.shape = .mapping) ∧
      ∀ p ∈ value.entries, propertyFaults name p = [] := by
  unfold commandFaults
  cases h : value.shape with
  | mapping => simp
  | _ => simp [Tree.entries_of_shape_ne (by rw [h]; decide : value.shape ≠ .mapping)]

theorem entryFaults_eq_nil_iff {e : Tree × Tree} :
    entryFaults e = [] ↔ ∃ name, e.1.text? = some name ∧ commandFaults name e.2 = [] := by
  unfold entryFaults
  cases e.1.text? <;> simp

end Reading

/-- The faults of a tree of definitions, which has to be a mapping or nothing at all. -/
def Tree.faults (t : Tree) : List Fault :=
  match t.shape with
  | .null => []
  | .mapping => t.entries.flatMap Reading.entryFaults
  | found => [.notAMapping found]

theorem Tree.faults_eq_nil_iff {t : Tree} :
    t.faults = [] ↔ (t.shape = .null ∨ t.shape = .mapping) ∧
      ∀ e ∈ t.entries, Reading.entryFaults e = [] := by
  unfold faults
  cases h : t.shape with
  | mapping => simp
  | _ => simp [entries_of_shape_ne (by rw [h]; decide : t.shape ≠ .mapping)]

namespace Fault

def found : Fault → Shape
  | notAMapping found => found
  | commandName found => found
  | commandValue _ found => found
  | propertyName _ found => found
  | parameterName _ found => found

def command? : Fault → Option Text
  | notAMapping _ => none
  | commandName _ => none
  | commandValue command _ => some command
  | propertyName command _ => some command
  | parameterName command _ => some command

end Fault

end Handbook
