import Handbook.Command.Detail

namespace Handbook.CommandLine

inductive Layout
  | text
  | json
  deriving DecidableEq, Repr

structure Position where
  file : Text
  line : Nat
  column : Nat
  /-- Instead of the level that the settings give. -/
  level : Option Detail
  deriving DecidableEq, Repr

inductive Action
  | hover (position : Position)
  | complete (position : Position) (layout : Layout)
  | describe (name : Text) (level : Detail) (withSignature : Bool)
  | list (start : Text)
  | check
  deriving DecidableEq, Repr

structure Common where
  config : Option Text
  sources : List Text
  noBundled : Bool
  deriving DecidableEq, Repr

structure Invocation where
  common : Common
  action : Action
  deriving DecidableEq, Repr

inductive Verb
  | hover
  | complete
  | describe
  | list
  | check
  deriving DecidableEq, Repr

def Verb.all : List Verb := [hover, complete, describe, list, check]

def Verb.name : Verb → Text
  | hover => "hover"
  | complete => "complete"
  | describe => "show"
  | list => "list"
  | check => "check"

inductive Switch
  | config
  | source
  | noBundled
  | verbose
  | file
  | line
  | column
  | level
  | format
  | noSignature
  | start
  deriving DecidableEq, Repr

namespace Switch

def name : Switch → Text
  | config => "config"
  | source => "source"
  | noBundled => "no-bundled"
  | verbose => "verbose"
  | file => "file"
  | line => "line"
  | column => "column"
  | level => "level"
  | format => "format"
  | noSignature => "no-signature"
  | start => "prefix"

def takesValue : Switch → Bool
  | noBundled | verbose | noSignature => false
  | _ => true

def repeats : Switch → Bool
  | source => true
  | _ => false

def common : List Switch := [config, source, noBundled, verbose]

end Switch

def Verb.switches : Verb → List Switch
  | hover => Switch.common ++ [.file, .line, .column, .level]
  | complete => Switch.common ++ [.file, .line, .column, .level, .format]
  | describe => Switch.common ++ [.level, .noSignature]
  | list => Switch.common ++ [.start]
  | check => Switch.common

/-- Switches with their values, in order, and the arguments that are no switches. -/
structure Group where
  switches : List (Switch × Text)
  others : List Text
  deriving DecidableEq, Repr

namespace Group

def empty : Group := ⟨[], []⟩

def cons (s : Switch) (value : Text) (g : Group) : Group :=
  { g with switches := (s, value) :: g.switches }

def consOther (t : Text) (g : Group) : Group := { g with others := t :: g.others }

def values (g : Group) (s : Switch) : List Text :=
  (g.switches.filter (·.1 = s)).map (·.2)

def has (g : Group) (s : Switch) : Bool := !(g.values s).isEmpty

/-- Only switches that may be repeated are. -/
def isProper (g : Group) : Bool :=
  g.switches.all fun p => p.1.repeats || (g.values p.1).length == 1

end Group

/-- Whether an argument starts as a switch does. A dash alone is none. -/
def isSwitchLike (t : Text) : Bool := t.head? == some '-' && t ≠ ['-']

/-- The name of a long switch and the value attached to it. -/
def splitValue (t : Text) : Text × Option Text :=
  match t.dropWhile (· ≠ '=') with
  | _ :: value => (t.takeWhile (· ≠ '='), some value)
  | [] => (t, none)

/-- The switches among arguments, up to the name of an action if one is looked for. What follows that
name is left. Two dashes end the switches. -/
def group? (allowed : List Switch) (findVerb : Bool) :
    List Text → Option (Group × Option (Verb × List Text))
  | [] => some (Group.empty, none)
  | a :: rest =>
    match if findVerb then Verb.all.find? (·.name = a) else none with
    | some v => some (Group.empty, some (v, rest))
    | none =>
      match a with
      | ['-', '-'] => some (⟨[], rest⟩, none)
      | '-' :: '-' :: t =>
        let (n, attached) := splitValue t
        match allowed.find? (·.name = n) with
        | none => none
        | some s =>
          match s.takesValue, attached with
          | true, some value => (group? allowed findVerb rest).map fun r => (r.1.cons s value, r.2)
          | true, none =>
            match rest with
            | [] => none
            | value :: rest =>
              if isSwitchLike value then none
              else (group? allowed findVerb rest).map fun r => (r.1.cons s value, r.2)
          | false, none => (group? allowed findVerb rest).map fun r => (r.1.cons s [], r.2)
          | false, some _ => none
      | '-' :: c :: cs =>
        if (c :: cs).all (· = 'v') then
          (group? allowed findVerb rest).map fun r =>
            ((c :: cs).foldl (fun g _ => g.cons .verbose []) r.1, r.2)
        else none
      | _ => (group? allowed findVerb rest).map fun r => (r.1.consOther a, r.2)

/-- A natural number of 64 bits, with an optional plus sign. -/
def number? (t : Text) : Option Nat :=
  let ds := match t with
    | '+' :: r => r
    | r => r
  if ds ≠ [] ∧ ds.all Char.isDigit then
    some (ds.foldl (fun n c => 10 * n + (c.toNat - '0'.toNat)) 0) |>.filter (· < Nat.pow 2 64)
  else none

def levelName : Detail → Text
  | .off => "off"
  | .minimum => "minimum"
  | .noExamplesNoLinks => "no-examples-no-links"
  | .full => "full"

def level? (t : Text) : Option Detail := Detail.all.find? (levelName · = t)

def layout? (t : Text) : Option Layout :=
  if t = "text" then some .text else if t = "json" then some .json else none

def path? (t : Text) : Option Text := if t = [] then none else some t

namespace Group

def required? {α : Type} (g : Group) (s : Switch) (read : Text → Option α) : Option α :=
  (g.values s).head?.bind read

def optional? {α : Type} (g : Group) (s : Switch) (read : Text → Option α) : Option (Option α) :=
  match g.values s with
  | [] => some none
  | value :: _ => (read value).map some

def position? (g : Group) : Option Position := do
  return {
    file := ← g.required? .file path?
    line := ← g.required? .line number?
    column := ← g.required? .column number?
    level := ← g.optional? .level level? }

def common? (g : Group) : Option Common := do
  return {
    config := ← g.optional? .config path?
    sources := ← (g.values .source).mapM path?
    noBundled := g.has .noBundled }

def action? (g : Group) : Verb → Option Action
  | .hover => do
    if g.others ≠ [] then none else return .hover (← g.position?)
  | .complete => do
    if g.others ≠ [] then none
    else return .complete (← g.position?) ((← g.optional? .format layout?).getD .text)
  | .describe => do
    match g.others with
    | [name] => return .describe name ((← g.optional? .level level?).getD .full) (!g.has .noSignature)
    | _ => none
  | .list => do
    if g.others ≠ [] then none else return .list ((← g.optional? .start some).getD [])
  | .check => if g.others ≠ [] then none else some .check

end Group

/-- The options before the action and those behind it. The later ones count, as a whole list where
there are several values. -/
def Common.merge (before behind : Common) : Common where
  config := behind.config.or before.config
  sources := if behind.sources = [] then before.sources else behind.sources
  noBundled := before.noBundled || behind.noBundled

/-- What the arguments ask for, unless they are wrong in some way. -/
def Invocation.ofArguments? (args : List Text) : Option Invocation := do
  let (before, found) ← group? Switch.common true args
  let (verb, rest) ← found
  let (behind, _) ← group? verb.switches false rest
  if before.others ≠ [] ∨ !before.isProper ∨ !behind.isProper then none
  else
    return {
      common := (← before.common?).merge (← behind.common?)
      action := ← behind.action? verb }

end Handbook.CommandLine
