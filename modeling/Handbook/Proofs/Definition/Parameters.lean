import Handbook.Proofs.Definition.Faults

namespace Handbook

def Tree.bool? (t : Tree) : Option Bool :=
  match t.untagged with
  | .bool b => some b
  | _ => none

theorem Tree.isSome_bool? (t : Tree) : t.bool?.isSome = decide (t.shape = .boolean) := by
  fun_induction shape t with
  | case7 _ t ih => exact ih
  | _ => rfl

theorem Tree.isSome_text? (t : Tree) : t.text?.isSome = decide (t.shape = .text) := by
  fun_induction shape t with
  | case7 _ t ih => exact ih
  | _ => rfl

theorem ParameterKind.ofText_eq_error {t : Text} {u : UnknownKind} (h : ofText t = .error u) :
    u = ⟨t⟩ := by
  unfold ofText at h
  split at h
  · exact absurd h (by simp)
  · exact (Except.error.inj h).symm

namespace Reading

/-- Whether a field says something of its parameter. -/
def isUsable (e : Tree × Tree) : Bool :=
  match e.1.text? with
  | some name =>
    if name = "help" ∨ name = "doc" then e.2.shape = .text
    else if name = "type" then e.2.text?.any fun t => (ParameterKind.ofText t).isOk
    else if name = "editable" then e.2.shape = .boolean
    else false
  | none => false

def helpOf? (e : Tree × Tree) : Option Text :=
  match e.1.text? with
  | some name => if name = "help" ∨ name = "doc" then e.2.text? else none
  | none => none

def kindOf? (e : Tree × Tree) : Option ParameterKind :=
  match e.1.text? with
  | some name =>
    if name = "type" then e.2.text?.bind fun t => (ParameterKind.ofText t).toOption else none
  | none => none

def editableOf? (e : Tree × Tree) : Option Bool :=
  match e.1.text? with
  | some name => if name = "editable" then e.2.bool? else none
  | none => none

/-- Why a field is left out of the parameter of this name. -/
def fieldDiscard (parameter : Text) (e : Tree × Tree) : Discard :=
  match e.1.text? with
  | some name =>
    match e.2.text? with
    | some t => if name = "type" then .kind parameter ⟨t⟩ else .field parameter name .text
    | none => .field parameter name e.2.shape
  | none => .fieldName parameter

def fieldDiscards (parameter : Text) (fields : List (Tree × Tree)) : List Discard :=
  (fields.filter (!isUsable ·)).map (fieldDiscard parameter)

theorem fieldDiscards_concat (parameter : Text) (fields : List (Tree × Tree)) (e : Tree × Tree) :
    fieldDiscards parameter (fields ++ [e]) =
      fieldDiscards parameter fields ++ if isUsable e then [] else [fieldDiscard parameter e] := by
  unfold fieldDiscards
  rw [List.filter_append, List.map_append]
  cases h : isUsable e <;> simp [h]

theorem isUsable_eq (e : Tree × Tree) :
    isUsable e = ((helpOf? e).isSome || (kindOf? e).isSome || (editableOf? e).isSome) := by
  unfold isUsable helpOf? kindOf? editableOf?
  cases e.1.text? with
  | none => rfl
  | some name =>
    dsimp only
    by_cases hhelp : name = "help" ∨ name = "doc"
    · have htype : name ≠ "type" := by rcases hhelp with rfl | rfl <;> decide
      have heditable : name ≠ "editable" := by rcases hhelp with rfl | rfl <;> decide
      simp only [if_pos hhelp, if_neg htype, if_neg heditable, Option.isSome_none, Bool.or_false,
        Tree.isSome_text?]
    simp only [if_neg hhelp, Option.isSome_none, Bool.false_or]
    by_cases htype : name = "type"
    · have heditable : name ≠ "editable" := by rw [htype]; decide
      simp only [if_pos htype, if_neg heditable, Option.isSome_none, Bool.or_false]
      cases e.2.text? with
      | none => rfl
      | some t =>
        rw [Option.any_some, Option.bind_some]
        cases ParameterKind.ofText t <;> rfl
    simp only [if_neg htype, Option.isSome_none, Bool.false_or]
    by_cases heditable : name = "editable"
    · simp only [if_pos heditable, Tree.isSome_bool?]
    · simp only [if_neg heditable, Option.isSome_none]

/-- A field sets what it gives and keeps the rest. One that gives nothing leaves a note. -/
theorem field_eq (e : Tree × Tree) (p : Parameter) (notes : List Discard) :
    field (p, notes) e =
      (⟨p.name, ((helpOf? e).map Markup.mk).getD p.help, (editableOf? e).getD p.editable,
        (kindOf? e).or p.kind⟩, notes ++ if isUsable e then [] else [fieldDiscard p.name e]) := by
  have hvalue := Tree.untagged_ne_tagged e.2
  unfold fieldDiscard isUsable helpOf? kindOf? editableOf? Tree.text? Tree.bool? field
  rw [← Tree.shape_untagged e.2]
  cases hkey : e.1.untagged with
  | text name =>
    dsimp only
    -- by the name of the field, and then by the shape of its value
    by_cases hhelp : name = "help" ∨ name = "doc"
    · have htype : name ≠ "type" := by rcases hhelp with rfl | rfl <;> decide
      have heditable : name ≠ "editable" := by rcases hhelp with rfl | rfl <;> decide
      simp only [if_pos hhelp, if_neg htype, if_neg heditable]
      cases hv : e.2.untagged with
      | text t => exact Prod.ext rfl (List.append_nil notes).symm
      | tagged tag inner => exact absurd hv (hvalue tag inner)
      | _ => rfl
    simp only [if_neg hhelp]
    by_cases htype : name = "type"
    · have heditable : name ≠ "editable" := by rw [htype]; decide
      simp only [if_pos htype, if_neg heditable]
      cases hv : e.2.untagged with
      | text t =>
        cases hkind : ParameterKind.ofText t with
        | ok k =>
          simp only [Option.bind_some, Option.any_some, hkind]
          exact Prod.ext rfl (List.append_nil notes).symm
        | error u =>
          obtain rfl := ParameterKind.ofText_eq_error hkind
          simp only [Option.bind_some, Option.any_some, hkind]
          rfl
      | _ => rfl
    simp only [if_neg htype]
    by_cases heditable : name = "editable"
    · simp only [if_pos heditable]
      cases hv : e.2.untagged with
      | bool b => exact Prod.ext rfl (List.append_nil notes).symm
      | tagged tag inner => exact absurd hv (hvalue tag inner)
      | _ => rfl
    simp only [if_neg heditable]
    cases hv : e.2.untagged <;> rfl
  | _ => rfl

end Reading

open Reading

/-- The parameter of some fields. What is given more than once counts as it is given last. -/
def Parameter.ofFields (name : Text) (fields : List (Tree × Tree)) : Parameter where
  name := name
  help := ⟨(fields.filterMap helpOf?).getLast?.getD []⟩
  editable := (fields.filterMap editableOf?).getLast?.getD false
  kind := (fields.filterMap kindOf?).getLast?

def Parameter.ofValue (name : Text) (value : Tree) : Parameter :=
  match value.untagged with
  | .mapping fields => ofFields name fields
  | t => plain name t.plainText

namespace Reading

theorem getLast?_filterMap_concat {α β : Type} (f : α → Option β) (as : List α) (a : α) :
    ((as ++ [a]).filterMap f).getLast? = (f a).or (as.filterMap f).getLast? := by
  rw [List.filterMap_append, List.getLast?_append]
  cases h : f a <;> simp [h]

theorem foldl_field (name : Text) (fields : List (Tree × Tree)) :
    fields.foldl field (Parameter.plain name [], []) =
      (Parameter.ofFields name fields, fieldDiscards name fields) := by
  induction fields using List.reverseRecOn with
  | nil => rfl
  | append_singleton fields e ih =>
    rw [List.foldl_append, ih, List.foldl_cons, List.foldl_nil, field_eq]
    simp only [Parameter.ofFields, getLast?_filterMap_concat, fieldDiscards_concat]
    cases helpOf? e <;> cases editableOf? e <;> rfl

theorem parameter_eq (name : Text) (value : Tree) :
    parameter name value = (Parameter.ofValue name value, fieldDiscards name value.entries) := by
  unfold parameter Parameter.ofValue Tree.entries
  cases value.untagged with
  | mapping fields => exact foldl_field name fields
  | _ => rfl

theorem filterMap_filter_isUsable {α : Type} (given? : Tree × Tree → Option α)
    (h : ∀ e, (given? e).isSome = true → isUsable e = true) (fields : List (Tree × Tree)) :
    (fields.filter isUsable).filterMap given? = fields.filterMap given? := by
  rw [List.filterMap_filter]
  apply List.filterMap_congr
  intro e _
  cases hgiven : given? e with
  | none => simp
  | some a => simp [h e (by simp [hgiven])]

/-- Fields that are not usable might as well not be there, but for their notes. -/
theorem ofFields_filter (name : Text) (fields : List (Tree × Tree)) :
    Parameter.ofFields name (fields.filter isUsable) = Parameter.ofFields name fields := by
  have hhelp := filterMap_filter_isUsable helpOf?
    (fun e h => by rw [isUsable_eq, h, Bool.true_or, Bool.true_or]) fields
  have hkind := filterMap_filter_isUsable kindOf?
    (fun e h => by rw [isUsable_eq, h, Bool.or_true, Bool.true_or]) fields
  have heditable := filterMap_filter_isUsable editableOf?
    (fun e h => by rw [isUsable_eq, h, Bool.or_true]) fields
  rw [Parameter.ofFields, hhelp, hkind, heditable, Parameter.ofFields]

theorem fieldDiscards_eq_nil_iff {name : Text} {fields : List (Tree × Tree)} :
    fieldDiscards name fields = [] ↔ ∀ e ∈ fields, isUsable e = true := by
  simp [fieldDiscards]

/-- The parameters of some entries. A later entry takes the place of an earlier one of its name. -/
def parameterList (es : List (Tree × Tree)) : List Parameter :=
  es.foldl (fun ps e => place (parameter (entryName e) e.2).1 ps) []

def parameterDiscards (e : Tree × Tree) : List Discard := (parameter (entryName e) e.2).2

theorem parameterDiscards_eq (e : Tree × Tree) :
    parameterDiscards e = fieldDiscards (entryName e) e.2.entries := by
  rw [parameterDiscards, parameter_eq]

theorem parameterEntry_eq (command : Text) (before : List (Tree × Tree)) (e : Tree × Tree) :
    parameterEntry command (parameterList before, before.flatMap parameterDiscards) e =
      okUnless (parameterFaults command e)
        (parameterList (before ++ [e]), (before ++ [e]).flatMap parameterDiscards) := by
  have hlist : parameterList (before ++ [e]) =
      place (parameter (entryName e) e.2).1 (parameterList before) := List.foldl_concat ..
  rw [hlist, List.flatMap_append, List.flatMap_singleton, parameterDiscards]
  unfold parameterEntry parameterFaults entryName Tree.text?
  rw [← Tree.shape_untagged e.1]
  cases e.1.untagged <;> rfl

theorem parameters_of_mapping (command property : Text) (es : List (Tree × Tree)) :
    parameters command property (.mapping es) =
      okUnless (es.flatMap (parameterFaults command))
        (some (parameterList es), es.flatMap parameterDiscards) := by
  have hrun := foldlM_eq_okUnless (parameterEntry_eq command) es
  unfold parameters
  change (es.foldlM (parameterEntry command) (parameterList [], List.flatMap parameterDiscards [])
    >>= fun read => pure (some read.1, read.2)) = _
  rw [hrun, bind_pure_comp, map_okUnless]

end Reading

def Tree.parameters? (t : Tree) : Option (List Parameter) :=
  match t.untagged with
  | .mapping es => some (Reading.parameterList es)
  | _ => none

theorem Tree.parameters?_eq_none {t : Tree} (h : t.shape ≠ .mapping) : t.parameters? = none := by
  unfold parameters?
  split
  · next es hes => exact absurd (shape_eq_mapping_iff.2 ⟨es, hes⟩) h
  · rfl

end Handbook
