import Handbook.Proofs.Registry.Contents

namespace Handbook.Registry

section

variable [Yaml.Wording]

def accepted (disk : Disk) (language : Text) (sources : List Source) : List Definitions :=
  sources.filterMap fun s => (s.load disk language).toOption

/-- What is wrong with a source, from the outside in: its file, its text or the tree in it. -/
def rejection? (disk : Disk) (language : Text) (s : Source) : Option Text :=
  match s.read disk with
  | .error e => some ("I/O error: " ++ e.message)
  | .ok text =>
    match Tree.ofYaml? text with
    | none => some ("YAML error: " ++ Yaml.Wording.tree text)
    | some tree =>
      match Definitions.ofTree language s.label tree with
      | .error e => some (e.message s.label)
      | .ok _ => none

def failure? (disk : Disk) (language : Text) (s : Source) : Option Failure :=
  (rejection? disk language s).map (Failure.mk s.label)

def offered (disk : Disk) (language : Text) (sources : List Source) : List Description :=
  (accepted disk language sources).flatMap (·.descriptions)

variable (disk : Disk) (language : Text)

theorem accepted_cons_of_ok {s : Source} {d : Definitions} (h : s.load disk language = .ok d)
    (ss : List Source) : accepted disk language (s :: ss) = d :: accepted disk language ss :=
  List.filterMap_cons_some (by rw [h]; rfl)

theorem accepted_cons_of_error {s : Source} {e : SourceError}
    (h : s.load disk language = .error e) (ss : List Source) :
    accepted disk language (s :: ss) = accepted disk language ss :=
  List.filterMap_cons_none (by rw [h]; rfl)

theorem mem_accepted {sources : List Source} {d : Definitions} :
    d ∈ accepted disk language sources ↔ ∃ s ∈ sources, s.load disk language = .ok d := by
  rw [accepted, List.mem_filterMap]
  refine exists_congr fun s => and_congr_right fun _ => ?_
  cases s.load disk language <;> simp [Except.toOption]

theorem rejection?_eq (s : Source) : rejection? disk language s =
    match s.load disk language with
    | .ok _ => none
    | .error e => some e.message := by
  unfold rejection? Source.load
  cases s.read disk with
  | error e => rfl
  | ok text =>
    dsimp only
    cases Tree.ofYaml? text with
    | none => rfl
    | some tree =>
      dsimp only
      cases Definitions.ofTree language s.label tree <;> rfl

theorem failure?_of_ok {s : Source} {d : Definitions} (h : s.load disk language = .ok d) :
    failure? disk language s = none := by
  rw [failure?, rejection?_eq, h]
  rfl

theorem failure?_of_error {s : Source} {e : SourceError} (h : s.load disk language = .error e) :
    failure? disk language s = some ⟨s.label, e.message⟩ := by
  rw [failure?, rejection?_eq, h]
  rfl

theorem add_cases (l : Loading) (s : Source) :
    (∃ d, s.load disk language = .ok d ∧ l.add disk language s =
      ⟨d.descriptions.foldl insert l.next, l.failures, l.warnings ++ d.warnings⟩) ∨
    (∃ e, s.load disk language = .error e ∧ l.add disk language s =
      ⟨l.next, l.failures ++ [⟨s.label, e.message⟩], l.warnings⟩) := by
  cases h : s.load disk language with
  | ok d => exact .inl ⟨d, rfl, by rw [Loading.add, h]⟩
  | error e => exact .inr ⟨e, rfl, by rw [Loading.add, h]⟩

theorem foldl_add (l : Loading) (sources : List Source) :
    sources.foldl (Loading.add disk language) l =
      ⟨(offered disk language sources).foldl insert l.next,
        l.failures ++ sources.filterMap (failure? disk language),
        l.warnings ++ (accepted disk language sources).flatMap (·.warnings)⟩ := by
  -- a source only adds behind what is there, so the loading so far stays open
  induction sources generalizing l with
  | nil => simp [offered, accepted]
  | cons s ss ih =>
    rw [List.foldl_cons, ih]
    obtain ⟨d, hd, ha⟩ | ⟨e, he, ha⟩ := add_cases disk language l s
    · rw [ha, List.filterMap_cons_none (failure?_of_ok disk language hd), offered, offered,
        accepted_cons_of_ok disk language hd]
      simp
    · rw [ha, List.filterMap_cons_some (failure?_of_error disk language he), offered, offered,
        accepted_cons_of_error disk language he]
      simp

/-- A reload in one piece. What was there before shows only in the names that are gone. -/
theorem reload_eq (r : Registry) (sources : List Source) :
    r.reload disk language sources =
      (ofList (offered disk language sources),
        ⟨(ofList (offered disk language sources)).entries.length,
          r.pruned (ofList (offered disk language sources)),
          sources.filterMap (failure? disk language),
          (accepted disk language sources).flatMap (·.warnings)⟩) := by
  unfold reload
  rw [foldl_add]
  simp only [ofList, List.nil_append]

def readable (sources : List Source) : List Source :=
  sources.filter fun s => (s.load disk language).isOk

theorem accepted_readable (sources : List Source) :
    accepted disk language (readable disk language sources) = accepted disk language sources := by
  unfold accepted readable
  rw [List.filterMap_filter]
  congr 1
  funext s
  cases s.load disk language <;> rfl

theorem failures_readable (sources : List Source) :
    (readable disk language sources).filterMap (failure? disk language) = [] := by
  rw [List.filterMap_eq_nil_iff]
  intro s hs
  obtain ⟨-, hok⟩ := List.mem_filter.1 hs
  cases h : s.load disk language with
  | ok d => exact failure?_of_ok disk language h
  | error e => rw [h] at hok; exact absurd hok (by simp [Except.isOk, Except.toBool])

/-- After a reload each name has the last description that a readable source gives it; the report
counts the names, lists the failures of the other sources in order and joins the warnings. The other
sources might as well not have been there. -/
theorem reload_contents_and_report (r : Registry) (sources : List Source) :
    let ds := offered disk language sources
    let next := (r.reload disk language sources).1
    let report := (r.reload disk language sources).2
    (∀ n, next.get? n = ds.findRev? (·.name = n)) ∧
    (∀ n d, next.get? n = some d → d.name = n) ∧
    report.loaded = (ds.map (·.name)).toFinset.card ∧
    report.failures = sources.filterMap (failure? disk language) ∧
    report.warnings = (accepted disk language sources).flatMap (·.warnings) ∧
    r.reload disk language (readable disk language sources) = (next, { report with failures := [] }) := by
  intro ds next report
  have hnext : next = ofList ds := congrArg Prod.fst (reload_eq disk language r sources)
  have hreport := congrArg Prod.snd (reload_eq disk language r sources)
  refine ⟨fun n => ?_, fun n d h => name_of_get? h, ?_, ?_, ?_, ?_⟩
  · rw [hnext, get?_ofList]
  · exact (congrArg Report.loaded hreport).trans (length_entries_ofList ds)
  · exact congrArg Report.failures hreport
  · exact congrArg Report.warnings hreport
  · have hsame : offered disk language (readable disk language sources) = ds := by
      rw [offered, accepted_readable]
      rfl
    rw [reload_eq, hsame, failures_readable, accepted_readable, hnext]
    simp only [report, hreport]
    rfl

end

/-- What the library says of an alias to nothing and of a list without an end. -/
abbrev refusals : Yaml.Wording where
  tree text := if text = "a: *nowhere\n" then "unknown anchor at line 1 column 4"
    else "did not find expected ',' or ']' at line 2 column 1, " ++
      "while parsing a flow sequence at line 1 column 4"
  settings _ := []

/-- Two commands with one name, and between them a source for each way to be rejected. The last of
these has a good command and a warning in front of its fault. -/
def mixedSources : List Source :=
  [.inline "first" "hush: {help: Stops.}\n", .file "gone.yaml", .inline "alias" "a: *nowhere\n",
    .inline "list" "a: [unclosed\n", .inline "late" "rest: {color: red}\nsound: 12\n",
    .inline "last" "hush: {help: Stops all.}\n"]

theorem reload_contents_and_report_rejected : letI := refusals
    let reloaded := empty.reload (fun _ => .error .notFound) "haskell" mixedSources
    reloaded.1.get? "hush" = some ⟨"hush", [⟨"hush ?"⟩], [], none, some ⟨"Stops all."⟩, []⟩ ∧
    reloaded.1.get? "rest" = none ∧ reloaded.2.loaded = 1 ∧ reloaded.2.warnings = [] ∧
    reloaded.2.failures =
      [⟨"gone.yaml", "I/O error: No such file or directory (os error 2)"⟩,
        ⟨"alias", "YAML error: unknown anchor at line 1 column 4"⟩,
        ⟨"list", "YAML error: did not find expected ',' or ']' at line 2 column 1, " ++
          "while parsing a flow sequence at line 1 column 4"⟩,
        ⟨"late", "late: command 'sound' must be a string or a mapping, found a number"⟩] := by
  let := refusals
  obtain ⟨hget, -, hloaded, hfailures, hwarnings, -⟩ :=
    reload_contents_and_report (fun _ => .error .notFound) "haskell" empty mixedSources
  have haccepted : accepted (fun _ => .error .notFound) "haskell" mixedSources =
      [⟨[⟨"hush", [⟨"hush ?"⟩], [], none, some ⟨"Stops."⟩, []⟩], []⟩,
        ⟨[⟨"hush", [⟨"hush ?"⟩], [], none, some ⟨"Stops all."⟩, []⟩], []⟩] := by decide +kernel
  rw [haccepted] at hwarnings
  rw [offered, haccepted] at hget hloaded
  refine ⟨(hget _).trans ?_, (hget _).trans ?_, hloaded.trans ?_, hwarnings, hfailures.trans ?_⟩
  all_goals decide +kernel

end Handbook.Registry
