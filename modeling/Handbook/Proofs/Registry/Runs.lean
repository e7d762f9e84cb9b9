import Handbook.Proofs.Registry.Reload

namespace Handbook.Registry

/-- What can be done with a registry. A reload finds the disk as it is at that time. -/
inductive Operation
  | load (ds : List Description)
  | reload (disk : Disk) (language : Text) (sources : List Source)
  /-- A tree is read, and its descriptions are loaded if there is no fault in it. -/
  | loadTree (language label : Text) (tree : Tree)
  | get (name : Text)
  | contains (name : Text)
  | startingWith (start : Text)
  | names
  | size

inductive Answer
  | pruned (gone : List Text)
  | report (report : Report)
  | tree (warnings : List Warning) (gone : List Text)
  | fault (e : Fault)
  | description (d : Option Description)
  | held (b : Bool)
  | descriptions (ds : List Description)
  | names (ns : List Text)
  | size (n : Nat)

def Answer.gone? : Answer → Option (List Text)
  | pruned gone => some gone
  | report r => some r.pruned
  | tree _ gone => some gone
  | _ => none

/-- Whether the operation puts new contents in place of the old. -/
def Operation.replaces : Operation → Bool
  | load _ => true
  | reload _ _ _ => true
  | loadTree language label tree => (Definitions.ofTree language label tree).isOk
  | _ => false

theorem mem_pruned (r next : Registry) (n : Text) :
    n ∈ r.pruned next ↔ n ∈ r.names ∧ n ∉ next.names := by
  rw [pruned, List.mem_filter, Bool.not_eq_true', ← Bool.not_eq_true, contains_iff]

theorem sorted_pruned (r next : Registry) : (r.pruned next).Pairwise (· < ·) :=
  List.Pairwise.filter _ r.sorted

theorem xor_mem_pruned {r : Registry} {n : Text} (hn : n ∈ r.names) (next : Registry) :
    Xor (n ∈ next.names) (n ∈ r.pruned next) := by
  rw [mem_pruned]
  by_cases hin : n ∈ next.names
  · exact .inl ⟨hin, fun hgone => hgone.2 hin⟩
  · exact .inr ⟨⟨hn, hin⟩, hin⟩

theorem pruned_self (r : Registry) : r.pruned r = [] := by
  rw [List.eq_nil_iff_forall_not_mem]
  intro n hn
  obtain ⟨hmem, hno⟩ := (mem_pruned r r n).1 hn
  exact hno hmem

variable [Yaml.Wording]

def step (r : Registry) : Operation → Registry × Answer
  | .load ds => ((r.load ds).1, .pruned (r.load ds).2)
  | .reload disk language sources =>
    ((r.reload disk language sources).1, .report (r.reload disk language sources).2)
  | .loadTree language label tree =>
    match Definitions.ofTree language label tree with
    | .ok d => ((r.load d.descriptions).1, .tree d.warnings (r.load d.descriptions).2)
    | .error e => (r, .fault e)
  | .get name => (r, .description (r.get? name))
  | .contains name => (r, .held (r.contains name))
  | .startingWith start => (r, .descriptions (r.startingWith start))
  | .names => (r, .names r.names)
  | .size => (r, .size r.entries.length)

def run (r : Registry) : List Operation → Registry × List Answer
  | [] => (r, [])
  | op :: ops => (((r.step op).1.run ops).1, (r.step op).2 :: ((r.step op).1.run ops).2)

/-- All that one step can do: the contents become a registry that does not depend on the old one and
the answer reports what it lacks, or nothing changes and nothing is reported. -/
theorem step_cases (op : Operation) :
    (op.replaces = true ∧ ∃ next, ∀ r : Registry,
      (r.step op).1 = next ∧ (r.step op).2.gone? = some (r.pruned next)) ∨
    (op.replaces = false ∧ ∀ r : Registry, (r.step op).1 = r ∧ (r.step op).2.gone? = none) := by
  cases op with
  | load ds => exact .inl ⟨rfl, ofList ds, fun r => ⟨rfl, rfl⟩⟩
  | reload disk language sources =>
    refine .inl ⟨rfl, ofList (offered disk language sources), fun r => ?_⟩
    simp only [step, reload_eq, Answer.gone?, and_self]
  | loadTree language label tree =>
    cases h : Definitions.ofTree language label tree with
    | ok d =>
      refine .inl ⟨by rw [Operation.replaces, h]; rfl, ofList d.descriptions, fun r => ?_⟩
      simp only [step, h, load, Answer.gone?, and_self]
    | error e =>
      refine .inr ⟨by rw [Operation.replaces, h]; rfl, fun r => ?_⟩
      simp only [step, h, Answer.gone?, and_self]
  | _ => exact .inr ⟨rfl, fun r => ⟨rfl, rfl⟩⟩

theorem step_of_replaces {op : Operation} (h : op.replaces = true) (r s : Registry) :
    (r.step op).1 = (s.step op).1 := by
  obtain ⟨-, next, hn⟩ | ⟨hno, -⟩ := step_cases op
  · rw [(hn r).1, (hn s).1]
  · rw [h] at hno
    exact absurd hno (by decide)

theorem step_of_not_replaces {op : Operation} (h : op.replaces = false) (r : Registry) :
    (r.step op).1 = r ∧ (r.step op).2.gone? = none := by
  obtain ⟨hyes, -⟩ | ⟨-, hn⟩ := step_cases op
  · rw [h] at hyes
    exact absurd hyes (by decide)
  · exact hn r

theorem gone_of_replaces {op : Operation} (h : op.replaces = true) (r : Registry) :
    (r.step op).2.gone? = some (r.pruned (r.step op).1) := by
  obtain ⟨-, next, hn⟩ | ⟨hno, -⟩ := step_cases op
  · rw [(hn r).2, (hn r).1]
  · rw [h] at hno
    exact absurd hno (by decide)

/-- The second of two equal replacements finds its own contents. -/
theorem step_again {op : Operation} (h : op.replaces = true) (r : Registry) :
    ((r.step op).1.step op).1 = (r.step op).1 ∧ ((r.step op).1.step op).2.gone? = some [] := by
  have hsame := step_of_replaces h (r.step op).1 r
  refine ⟨hsame, ?_⟩
  rw [gone_of_replaces h, hsame, pruned_self]

theorem run_append (r : Registry) (before after : List Operation) :
    r.run (before ++ after) =
      (((r.run before).1.run after).1, (r.run before).2 ++ ((r.run before).1.run after).2) := by
  induction before generalizing r with
  | nil => rfl
  | cons op ops ih => simp only [List.cons_append, run, ih]

theorem run_concat (r : Registry) (ops : List Operation) (op : Operation) :
    (r.run (ops ++ [op])).1 = ((r.run ops).1.step op).1 := by
  rw [run_append]
  rfl

theorem length_answers (r : Registry) (ops : List Operation) : (r.run ops).2.length = ops.length := by
  induction ops generalizing r with
  | nil => rfl
  | cons op ops ih => simp only [run, List.length_cons, ih]

theorem getElem?_answers (r : Registry) (before after : List Operation) (op : Operation) :
    (r.run (before ++ op :: after)).2[before.length]? = some ((r.run before).1.step op).2 := by
  rw [run_append, List.getElem?_append_right (by rw [length_answers]), length_answers, Nat.sub_self]
  rfl

theorem contents_run (r : Registry) (ops : List Operation) :
    (r.run ops).1 = match ops.findRev? (·.replaces) with
      | some op => (empty.step op).1
      | none => r := by
  induction ops generalizing r with
  | nil => rfl
  | cons op ops ih =>
    rw [run, ih, List.findRev?]
    cases ops.findRev? (·.replaces) with
    -- what this step does is forgotten again
    | some later => rfl
    | none =>
      cases h : op.replaces with
      | true => exact step_of_replaces h r empty
      | false => exact (step_of_not_replaces h r).1

/-- After any run the contents are those that the last replacement gives to an empty registry, where
the descriptions at the beginning count as loaded. On the way each replacement reports the names that
are lost by it, once and in order, and finds nothing to drop when it is repeated; every other
operation leaves the contents as they are. -/
theorem run_last_replacement (initial : List Description) :
    (∀ ops : List Operation, ∃ op,
      (Operation.load initial :: ops).findRev? (·.replaces) = some op ∧
      ((ofList initial).run ops).1 = (empty.step op).1) ∧
    ∀ (before after : List Operation) (op : Operation),
      let whole := (ofList initial).run (before ++ op :: after)
      let r := ((ofList initial).run before).1
      let next := ((ofList initial).run (before ++ [op])).1
      ∃ answer, whole.2[before.length]? = some answer ∧
        if op.replaces then
          ∃ gone, answer.gone? = some gone ∧ gone.Pairwise (· < ·) ∧
            (∀ n, n ∈ gone ↔ n ∈ r.names ∧ n ∉ next.names) ∧
            (∀ n ∈ r.names, Xor (n ∈ next.names) (n ∈ gone)) ∧
            (next.step op).1 = next ∧ (next.step op).2.gone? = some []
        else next = r ∧ answer.gone? = none := by
  refine ⟨fun ops => ?_, fun before after op => ?_⟩
  · -- the descriptions at the beginning are a load in front of all
    rw [contents_run, List.findRev?]
    cases ops.findRev? (·.replaces) with
    | some op => exact ⟨op, rfl, rfl⟩
    | none => exact ⟨.load initial, rfl, rfl⟩
  · intro whole r next
    have hnext : next = (r.step op).1 := run_concat (ofList initial) before op
    have hanswer : whole.2[before.length]? = some (r.step op).2 :=
      getElem?_answers (ofList initial) before after op
    refine ⟨(r.step op).2, hanswer, ?_⟩
    split
    · next h =>
      refine ⟨r.pruned next, ?_, sorted_pruned r next, mem_pruned r next,
        fun n hn => xor_mem_pruned hn next, ?_⟩
      · rw [hnext]
        exact gone_of_replaces h r
      · rw [hnext]
        exact step_again h r
    · next h =>
      rw [hnext]
      exact step_of_not_replaces (Bool.eq_false_iff.2 h) r

end Handbook.Registry
