import Handbook.Proofs.Definition.Properties

namespace Handbook

namespace Reading

def describedAs (language name : Text) (value : Tree) : Description :=
  match value.text? with
  | some meant => .bare meant
  | none => (Draft.ofProperties value.entries).describe language name

theorem command_eq (language name : Text) (value : Tree) :
    command language name value = okUnless (commandFaults name value)
      (describedAs language name value, value.entries.flatMap propertyDiscards) := by
  unfold command commandFaults describedAs Tree.text? Tree.entries
  rw [← Tree.shape_untagged value]
  have hne := value.untagged_ne_tagged
  cases h : value.untagged with
  | tagged tag inner => exact absurd h (hne tag inner)
  | null => simp [draft_eq, Tree.shape]
  | mapping ps => simp [draft_eq, Tree.shape]
  | _ => simp [Tree.shape]

end Reading

/-- A message begins with the source, then names the command and what was found. -/
theorem Fault.message_eq (label : Text) (f : Fault) :
    ∃ lead rest : Text, f.message label = label ++ lead ++ f.found.phrase ++ rest ∧
      ∀ c ∈ f.command?, (": command '" ++ c : Text) <+: lead := by
  have hnone : ∀ lead : Text, ∀ c ∈ (none : Option Text), (": command '" ++ c : Text) <+: lead :=
    fun _ _ h => absurd h (by simp)
  have hsome : ∀ command rest : Text, ∀ c ∈ some command,
      (": command '" ++ c : Text) <+: ": command '" ++ command ++ rest := by
    intro command rest c hc
    rw [Option.mem_some_iff.1 hc]
    exact List.prefix_append _ rest
  cases f with
  | notAMapping found => exact ⟨_, [], (List.append_nil _).symm, hnone _⟩
  | commandName found => exact ⟨_, [], (List.append_nil _).symm, hnone _⟩
  | commandValue command found =>
    refine ⟨": command '" ++ command ++ "' must be a string or a mapping, found ", [], ?_,
      hsome _ _⟩
    simp only [message, Fault.found, List.append_assoc, List.append_nil]
  | propertyName command found =>
    refine ⟨": command '" ++ command ++ "' has a property key that is ", ", expected a string",
      ?_, hsome _ _⟩
    simp only [message, Fault.found, List.append_assoc]
  | parameterName command found =>
    refine ⟨": command '" ++ command ++ "' has a parameter name that is ", ", expected a string",
      ?_, hsome _ _⟩
    simp only [message, Fault.found, List.append_assoc]

namespace Definitions

open Reading

variable (language label : Text)

def entryDescription (e : Tree × Tree) : Description := describedAs language (entryName e) e.2

def entryWarnings (e : Tree × Tree) : List Warning :=
  (e.2.entries.flatMap propertyDiscards).map (Warning.mk label (entryName e))

def ofEntries (es : List (Tree × Tree)) : Definitions :=
  ⟨es.map (entryDescription language), es.flatMap (entryWarnings label)⟩

theorem entry_eq_okUnless (before : List (Tree × Tree)) (e : Tree × Tree) :
    entry language label (ofEntries language label before) e =
      okUnless (entryFaults e) (ofEntries language label (before ++ [e])) := by
  unfold entry entryFaults
  cases hkey : e.1.untagged with
  | text name =>
    have htext : e.1.text? = some name := Tree.text?_eq_some_iff.2 hkey
    have hname : entryName e = name := by rw [entryName, htext]; rfl
    simp [htext, command_eq, ofEntries, entryDescription, entryWarnings, hname]
  | _ =>
    unfold Tree.text?
    rw [← Tree.shape_untagged e.1, hkey]
    rfl

theorem ofTree_eq (tree : Tree) :
    ofTree language label tree = okUnless tree.faults (ofEntries language label tree.entries) := by
  unfold ofTree Tree.faults Tree.entries
  rw [← Tree.shape_untagged tree]
  have hne := tree.untagged_ne_tagged
  cases h : tree.untagged with
  | tagged tag inner => exact absurd h (hne tag inner)
  | mapping es => exact foldlM_eq_okUnless (entry_eq_okUnless language label) es
  | _ => rfl

theorem ofTree_eq_ok_iff {tree : Tree} {read : Definitions} :
    ofTree language label tree = .ok read ↔
      tree.faults = [] ∧ ofEntries language label tree.entries = read := by
  rw [ofTree_eq, okUnless_eq_ok_iff]

/-- Reading fails exactly when something is wrong with the tree, and then with the first fault that
is met. The message says in which source it is, in which command, and what was found. -/
theorem ofTree_first_fault (tree : Tree) :
    (∀ f, ofTree language label tree = .error f ↔ tree.faults.head? = some f) ∧
    ((∃ read, ofTree language label tree = .ok read) ↔ tree.faults = []) ∧
    ∀ f ∈ tree.faults, ∃ lead rest : Text,
      f.message label = label ++ lead ++ f.found.phrase ++ rest ∧
      ∀ c ∈ f.command?, (": command '" ++ c : Text) <+: lead := by
  refine ⟨fun f => ?_, ?_, fun f _ => f.message_eq label⟩
  · rw [ofTree_eq, okUnless_eq_error_iff]
  · constructor
    · rintro ⟨read, h⟩
      exact ((ofTree_eq_ok_iff language label).1 h).1
    · intro h
      exact ⟨_, (ofTree_eq_ok_iff language label).2 ⟨h, rfl⟩⟩

/-- A command with properties of wrong shapes, with parameters of which two have no name, and with a
property that has none. Behind it comes a value that can be no command. -/
def nameless : Tree :=
  .tagged "defs" (.mapping [(.text "rest", .null), (.text "every", .tagged "v1" (.mapping [
    (.text "help", .number (.int 3)), (.text "parm", .sequence [.null]), (.text "params", .null),
    (.tagged "p" (.text "param"), .mapping [(.text "n", .mapping [(.null, .text "cycles")]),
      (.tagged "k" (.number (.int 1)), .text "f"), (.bool true, .null)]),
    (.sequence [], .null)])), (.text "sound", .number (.int 2))])

theorem ofTree_first_fault_nameless :
    nameless.faults = [.parameterName "every" .number, .parameterName "every" .boolean,
      .propertyName "every" .sequence, .commandValue "sound" .number] ∧
    ofTree "haskell" "defs" nameless = .error (.parameterName "every" .number) ∧
    (Fault.parameterName "every" .number).message "defs" =
      "defs: command 'every' has a parameter name that is a number, expected a string" :=
  ⟨rfl, ((ofTree_first_fault "haskell" "defs" nameless).1 _).2 rfl, by decide⟩

end Definitions

end Handbook
