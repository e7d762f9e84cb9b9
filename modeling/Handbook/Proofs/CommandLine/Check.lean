import Handbook.Proofs.CommandLine.Loading
import Handbook.Proofs.Registry.Prefix

namespace Handbook.CommandLine

/-- What came of one source: its definitions, or the text of its error. -/
structure Verdict where
  label : Text
  result : Except Text Definitions

namespace Verdict

def on [Yaml.Wording] (disk : Disk) (language : Text) (s : Source) : Verdict :=
  ⟨s.label, (s.load disk language).mapError SourceError.message⟩

def failed? (v : Verdict) : Option (Text × Text) :=
  match v.result with
  | .ok _ => none
  | .error e => some (v.label, e)

def text (v : Verdict) : Text :=
  match v.result with
  | .ok d =>
    outputLine ("ok: " ++ v.label ++ " (" ++ Text.ofNat d.descriptions.length ++ " commands)")
      ++ d.warnings.flatMap fun w => outputLine ("  warning: " ++ w.message)
  | .error e => outputLine ("failed: " ++ v.label ++ ": " ++ e)

end Verdict

def skippedText (failed : Text × Text) : Text :=
  outputLine ("warning: skipped " ++ failed.1 ++ ": " ++ failed.2)

section

variable [Yaml.Wording] (disk : Disk) (language : Text)

theorem checkText_eq (s : Source) : checkText disk language s = (Verdict.on disk language s).text := by
  unfold checkText Verdict.on Verdict.text
  cases s.load disk language <;> rfl

theorem failed?_eq (s : Source) : (Verdict.on disk language s).failed? =
    (Registry.failure? disk language s).map fun f => (f.label, f.message) := by
  unfold Verdict.on Verdict.failed?
  rw [Registry.failure?, Registry.rejection?_eq]
  cases s.load disk language <;> rfl

theorem isFailing_eq (s : Source) :
    isFailing disk language s = (Verdict.on disk language s).failed?.isSome := by
  unfold isFailing Verdict.on Verdict.failed?
  cases s.load disk language <;> rfl

theorem skipped_eq (sources : List Source) :
    (sources.filterMap (Registry.failure? disk language)).flatMap skippedLine =
      ((sources.map (Verdict.on disk language)).filterMap Verdict.failed?).flatMap skippedText := by
  have hfailed : (sources.map (Verdict.on disk language)).filterMap Verdict.failed? =
      (sources.filterMap (Registry.failure? disk language)).map fun f => (f.label, f.message) := by
    rw [List.filterMap_map, List.map_filterMap]
    exact List.filterMap_congr fun s _ => failed?_eq disk language s
  rw [hfailed, List.flatMap_map]
  rfl

theorem countP_isFailing (sources : List Source) : sources.countP (isFailing disk language) =
    ((sources.map (Verdict.on disk language)).filterMap Verdict.failed?).length := by
  rw [List.length_filterMap_eq_countP, List.countP_map]
  exact List.countP_congr fun s _ => by rw [isFailing_eq]; rfl

theorem result_on_eq_ok_iff {s : Source} {d : Definitions} :
    (Verdict.on disk language s).result = .ok d ↔ s.load disk language = .ok d := by
  unfold Verdict.on
  cases s.load disk language <;> simp [Except.mapError]

theorem mem_names_offered (sources : List Source) (n : Text) :
    n ∈ (Registry.ofList (Registry.offered disk language sources)).names ↔
      ∃ v ∈ sources.map (Verdict.on disk language), ∃ d, v.result = .ok d ∧
        n ∈ d.descriptions.map (·.name) := by
  rw [Registry.mem_names_ofList, Registry.offered, List.map_flatMap, List.mem_flatMap]
  constructor
  · rintro ⟨d, hd, hn⟩
    obtain ⟨s, hs, hload⟩ := (Registry.mem_accepted disk language).1 hd
    exact ⟨_, List.mem_map_of_mem hs, d, (result_on_eq_ok_iff disk language).2 hload, hn⟩
  · rintro ⟨v, hv, d, hd, hn⟩
    obtain ⟨s, hs, rfl⟩ := List.mem_map.1 hv
    have hload := (result_on_eq_ok_iff disk language).1 hd
    exact ⟨d, (Registry.mem_accepted disk language).2 ⟨s, hs, hload⟩, hn⟩

end

/-- What an action says on errors besides the sources that it skips. -/
inductive Remark (disk : Disk) : Action → Text → Prop
  | nothing (a : Action) : Remark disk a []
  | undocumented (p : Position) : Remark disk (.hover p)
      ("no documentation at " ++ Text.ofNat p.line ++ ":" ++ Text.ofNat p.column ++ "\n")
  | unreadable {a : Action} {p : Position} {e : FileError}
      (position : a = .hover p ∨ ∃ layout, a = .complete p layout) (error : disk.text p.file = .error e) :
      Remark disk a ("error: Failed to read '" ++ p.file ++ "': " ++ e.message ++ "\n")
  | unknown (name : Text) (level : Detail) (withSignature : Bool) :
      Remark disk (.describe name level withSignature) ("error: Unknown command '" ++ name ++ "'\n")

theorem startingWith_nil (r : Registry) : r.startingWith [] = r.entries := by
  rw [Registry.startingWith_eq_filter, List.filter_eq_self]
  exact fun d _ => rfl

theorem errors_failed (output errors message : Text) :
    (Outcome.failed output errors message).errors = errors ++ ("error: " ++ message ++ "\n") := by
  simp only [Outcome.failed, List.append_assoc]

variable {disk : Disk} {c : Common} {s : Settings}

theorem error_of_text {p : Position} {message : Text} (h : p.text disk = .error message) :
    ∃ e, disk.text p.file = .error e ∧ message = "Failed to read '" ++ p.file ++ "': " ++ e.message := by
  unfold Position.text at h
  cases htext : disk.text p.file with
  | ok t =>
    rw [htext] at h
    cases h
  | error e =>
    rw [htext] at h
    exact ⟨e, rfl, (Except.error.inj h).symm⟩

theorem exists_remark_unreadable {a : Action} {p : Position} {message : Text}
    (ha : a = .hover p ∨ ∃ layout, a = .complete p layout) (h : p.text disk = .error message)
    (output errors : Text) : ∃ remark, Remark disk a remark ∧
      (Outcome.failed output errors message).errors = errors ++ remark := by
  obtain ⟨e, herror, rfl⟩ := error_of_text h
  refine ⟨_, .unreadable ha herror, ?_⟩
  rw [errors_failed]
  simp only [List.append_assoc]
  rfl

section

variable [Yaml.Wording]

/-- Every action but the check first prints the sources that it skips. -/
theorem exists_remark (h : c.settings disk = .ok s) {a : Action} (ha : a ≠ .check) :
    ∃ remark, Remark disk a remark ∧
      (Invocation.run ⟨c, a⟩ disk).errors = (provider s disk).2 ++ remark := by
  have hnothing : ∀ t : Text, ∃ remark, Remark disk a remark ∧ t = t ++ remark := fun t =>
    ⟨[], .nothing a, by simp⟩
  cases a with
  | hover position =>
    rw [run_hover h, Position.hover]
    cases htext : position.text disk with
    | error message => exact exists_remark_unreadable (.inl rfl) htext _ _
    | ok t =>
      simp only
      split
      · exact hnothing _
      · refine ⟨_, .undocumented position, ?_⟩
        simp only [outputLine, List.append_assoc]
  | complete position layout =>
    rw [run_complete h, Position.complete]
    cases htext : position.text disk with
    | error message => exact exists_remark_unreadable (.inr ⟨layout, rfl⟩) htext _ _
    | ok t => exact hnothing _
  | describe name level withSignature =>
    rw [run_describe h, describe]
    split
    · refine ⟨_, .unknown name level withSignature, ?_⟩
      rw [errors_failed]
      simp only [List.append_assoc]
      rfl
    · exact hnothing _
  | list start =>
    rw [run_list h]
    exact hnothing _
  | check => exact absurd rfl ha

theorem output_list_nil (h : c.settings disk = .ok s) : (Invocation.run ⟨c, .list []⟩ disk).output =
    (provider s disk).1.registry.names.flatMap outputLine := by
  rw [run_list h, list, startingWith_nil, Registry.names, List.flatMap_map]

theorem check_eq (s : Settings) (disk : Disk) :
    let verdicts := s.allSources.map (Verdict.on disk s.language)
    let failed := verdicts.filterMap Verdict.failed?
    check s disk = ⟨if failed = [] then 0 else 1, verdicts.flatMap Verdict.text,
      if failed = [] then [] else
        outputLine ("error: " ++ Text.ofNat failed.length ++ " of " ++ Text.ofNat verdicts.length
          ++ " sources failed to load")⟩ := by
  intro verdicts failed
  have houtput : s.allSources.flatMap (checkText disk s.language) = verdicts.flatMap Verdict.text := by
    rw [List.flatMap_map]
    exact List.flatMap_congr fun source _ => checkText_eq disk s.language source
  have hlength : s.allSources.length = verdicts.length := (List.length_map _).symm
  unfold check
  simp only [houtput, countP_isFailing, hlength]
  change (if 0 < failed.length then _ else _) = _
  by_cases hfailed : failed = []
  · simp [hfailed]
  · rw [if_pos (List.length_pos_iff.2 hfailed), if_neg hfailed, if_neg hfailed]
    simp [Outcome.failed, outputLine, failed, verdicts]

/-- The check and the listing look at the same sources: the bundled ones, those of the configuration
and those of the options, in this order. What the check prints as failed is what every other action
prints as skipped, with the same errors in the same order; the check fails if there is any such source,
and the listing does not. Listed is each command of the other sources, once and in order. -/
theorem check_agrees_with_list (h : c.settings disk = .ok s) : ∃ raw, c.Configures disk raw ∧
    let verdicts := (c.sourcesWith raw).map (Verdict.on disk raw.language)
    let failed := verdicts.filterMap Verdict.failed?
    let checked := Invocation.run ⟨c, .check⟩ disk
    let listed := Invocation.run ⟨c, .list []⟩ disk
    checked.output = verdicts.flatMap Verdict.text ∧
    listed.errors = failed.flatMap skippedText ∧
    (∀ a, a ≠ .check → ∃ remark, Remark disk a remark ∧
      (Invocation.run ⟨c, a⟩ disk).errors = failed.flatMap skippedText ++ remark) ∧
    checked.exit = (if failed = [] then 0 else 1) ∧
    checked.errors = (if failed = [] then [] else
      outputLine ("error: " ++ Text.ofNat failed.length ++ " of " ++ Text.ofNat verdicts.length
        ++ " sources failed to load")) ∧
    listed.exit = 0 ∧
    ∃ names : List Text, listed.output = names.flatMap outputLine ∧ names.Pairwise (· < ·) ∧
      ∀ n, n ∈ names ↔ ∃ v ∈ verdicts, ∃ d, v.result = .ok d ∧ n ∈ d.descriptions.map (·.name) := by
  obtain ⟨raw, hraw, hsources, hlanguage⟩ := allSources_of_settings h
  refine ⟨raw, hraw, ?_⟩
  intro verdicts failed checked listed
  -- what is skipped is printed by each of the other actions before anything else
  have hskipped : (provider s disk).2 = failed.flatMap skippedText := by
    rw [provider_eq, hsources, hlanguage]
    exact skipped_eq disk raw.language _
  have hlisted : listed = list [] (provider s disk).1 (provider s disk).2 := run_list h []
  have hchecked : checked = _ := (run_check h).trans (check_eq s disk)
  rw [hsources, hlanguage] at hchecked
  refine ⟨?_, ?_, ?_, ?_, ?_, ?_, ?_⟩
  · rw [hchecked]
  · rw [hlisted, ← hskipped]
    rfl
  · intro a ha
    rw [← hskipped]
    exact exists_remark h ha
  · rw [hchecked]
  · rw [hchecked]
  · rw [hlisted]
    rfl
  · refine ⟨_, output_list_nil h, (provider s disk).1.registry.sorted, fun n => ?_⟩
    rw [provider_eq, hsources, hlanguage]
    exact mem_names_offered disk raw.language _ n

end

/-- A configuration with a file of definitions and one that is not there, and two files for the options,
one without definitions and one that is no YAML. -/
def fourSources : Files :=
  ((((Files.empty ["work"]).add "conf/docs.yml"
    (Disk.encode "bundled: false\nsources: [a.yaml, b.yaml]\n")).add
    "conf/a.yaml" (Disk.encode "hush:\n  help: Stops.\n")).add "c.yaml" (Disk.encode "12\n")).add
    "d.yaml" (Disk.encode "a: [unclosed\n")

def fourOptions : Common := ⟨some "conf/docs.yml", ["c.yaml", "d.yaml"], false⟩

def fourSettings : Settings :=
  { Settings.standard with
    bundled := false
    sources := ["conf/a.yaml", "conf/b.yaml", "c.yaml", "d.yaml"] }

def fourChecked : Text :=
  "ok: conf/a.yaml (1 commands)\n" ++
  "failed: conf/b.yaml: I/O error: No such file or directory (os error 2)\n" ++
  "failed: c.yaml: c.yaml: definitions must be a mapping of command names, found a number\n" ++
  "failed: d.yaml: YAML error: did not find expected ',' or ']' at line 2 column 1, " ++
  "while parsing a flow sequence at line 1 column 4\n"

def fourSkipped : Text :=
  "warning: skipped conf/b.yaml: I/O error: No such file or directory (os error 2)\n" ++
  "warning: skipped c.yaml: c.yaml: definitions must be a mapping of command names, found a number\n" ++
  "warning: skipped d.yaml: YAML error: did not find expected ',' or ']' at line 2 column 1, " ++
  "while parsing a flow sequence at line 1 column 4\n"

theorem settings_fourSources : letI := Registry.refusals
    fourOptions.settings fourSources.read = .ok fourSettings := by
  let := Registry.refusals
  have h : (fourOptions.settings fourSources.read).toOption = some fourSettings := by
    decide +kernel
  cases hs : fourOptions.settings fourSources.read with
  | error e =>
    rw [hs] at h
    cases h
  | ok s =>
    rw [hs] at h
    exact congrArg _ (Option.some.inj h)

theorem check_agrees_with_list_fourSources : letI := Registry.refusals
    fourOptions.settings fourSources.read = .ok fourSettings ∧
    Invocation.run ⟨fourOptions, .check⟩ fourSources.read =
      ⟨1, fourChecked, "error: 3 of 4 sources failed to load\n"⟩ ∧
    Invocation.run ⟨fourOptions, .list []⟩ fourSources.read = ⟨0, "hush\n", fourSkipped⟩ ∧
    ∀ a, a ≠ .check → ∃ remark, Remark fourSources.read a remark ∧
      (Invocation.run ⟨fourOptions, a⟩ fourSources.read).errors = fourSkipped ++ remark := by
  let := Registry.refusals
  obtain ⟨raw, -, -, hlisted, hothers, -⟩ := check_agrees_with_list settings_fourSources
  have hchecked : Invocation.run ⟨fourOptions, .check⟩ fourSources.read =
      ⟨1, fourChecked, "error: 3 of 4 sources failed to load\n"⟩ := by
    rw [run_check settings_fourSources]
    decide +kernel
  have hlist : Invocation.run ⟨fourOptions, .list []⟩ fourSources.read = ⟨0, "hush\n", fourSkipped⟩ := by
    rw [run_list settings_fourSources]
    decide +kernel
  rw [hlist] at hlisted
  rw [← hlisted] at hothers
  exact ⟨settings_fourSources, hchecked, hlist, hothers⟩

end Handbook.CommandLine
