import Handbook.Proofs.Definition.Entries
import Handbook.Proofs.Registry.Contents

namespace Handbook

namespace Definitions

def isAlias (e : Tree × Tree) : Bool := e.2.text?.isSome

/-- The command that an entry is about: the one that is meant, or the one under its key. -/
def subject? (e : Tree × Tree) : Option Text := e.2.text?.or e.1.text?

def last? (name : Text) (es : List (Tree × Tree)) : Option (Tree × Tree) :=
  es.findRev? (subject? · = some name)

end Definitions

def Tree.withoutAliases : Tree → Tree
  | mapping es => mapping (es.filter (!Definitions.isAlias ·))
  | tagged name t => tagged name t.withoutAliases
  | t => t

theorem Tree.untagged_withoutAliases {t : Tree} {es : List (Tree × Tree)}
    (h : t.untagged = .mapping es) :
    t.withoutAliases.untagged = .mapping (es.filter (!Definitions.isAlias ·)) := by
  fun_induction untagged t with
  | case1 name t ih => exact ih h
  | case2 t _ => rw [h]; rfl

namespace Definitions

variable (language label : Text)

theorem subject?_of_ofEntry {e : Tree × Tree} {c : Description × List Warning}
    (h : ofEntry language label e = .ok c) : subject? e = some c.1.name := by
  obtain ⟨name, hkey, ⟨meant, hvalue, rfl⟩ | ⟨hvalue, hname⟩⟩ := ofEntry_cases language label h
  · rw [subject?, hvalue]
    rfl
  · rw [subject?, hvalue, hkey, hname]
    rfl

theorem eq_bare_of_isAlias {e : Tree × Tree} {c : Description × List Warning}
    (ha : isAlias e = true) (h : ofEntry language label e = .ok c) : c.1 = .bare c.1.name := by
  obtain ⟨name, hkey, ⟨meant, hvalue, rfl⟩ | ⟨hvalue, hname⟩⟩ := ofEntry_cases language label h
  · rfl
  · rw [isAlias, hvalue] at ha
    exact absurd ha (by decide)

def described? (e : Tree × Tree) : Option Description :=
  (ofEntry language label e).toOption.map Prod.fst

theorem described?_of_ofEntry {e : Tree × Tree} {c : Description × List Warning}
    (h : ofEntry language label e = .ok c) : described? language label e = some c.1 := by
  rw [described?, h]
  rfl

theorem mem_of_last? {name : Text} {es : List (Tree × Tree)} {e : Tree × Tree}
    (h : last? name es = some e) : e ∈ es ∧ subject? e = some name := by
  rw [last?, List.findRev?_eq_find?_reverse] at h
  exact ⟨List.mem_reverse.1 (List.mem_of_find?_eq_some h), by simpa using List.find?_some h⟩

theorem exists_last? {name : Text} {es : List (Tree × Tree)} {e : Tree × Tree} (he : e ∈ es)
    (hs : subject? e = some name) : ∃ final, last? name es = some final := by
  rw [← Option.isSome_iff_exists, last?, List.findRev?_eq_find?_reverse, List.find?_isSome]
  exact ⟨e, List.mem_reverse.2 he, by simpa using hs⟩

theorem last?_filter {name : Text} {es : List (Tree × Tree)} {e : Tree × Tree}
    {p : Tree × Tree → Bool} (h : last? name es = some e) (he : p e = true) :
    last? name (es.filter p) = some e := by
  rw [last?, List.findRev?_eq_find?_reverse] at h ⊢
  rw [← List.filter_reverse, List.find?_filter]
  rw [List.find?_eq_some_iff_append] at h ⊢
  obtain ⟨hs, front, back, hes, hfront⟩ := h
  refine ⟨by simp [he, hs], front, back, hes, fun b hb => ?_⟩
  have hno := hfront b hb
  simp_all

theorem last?_cons (name : Text) (e : Tree × Tree) (es : List (Tree × Tree)) :
    last? name (e :: es) =
      (last? name es).or (if subject? e = some name then some e else none) := by
  unfold last?
  rw [List.findRev?]
  cases es.findRev? (subject? · = some name) <;> simp

theorem findRev?_readings {es : List (Tree × Tree)} {cs : List (Description × List Warning)}
    (h : List.Forall₂ (fun e c => ofEntry language label e = .ok c) es cs) (name : Text) :
    (cs.map Prod.fst).findRev? (·.name = name) =
      (last? name es).bind (described? language label) := by
  induction h with
  | nil => rfl
  | @cons e c es cs hc hrest ih =>
    rw [List.map_cons, List.findRev?, ih, last?_cons, subject?_of_ofEntry language label hc]
    cases hlast : last? name es with
    | none =>
      by_cases hn : c.1.name = name <;> simp [hn, described?_of_ofEntry language label hc]
    | some final =>
      obtain ⟨c', hc'⟩ :=
        (exists_readings_iff language label).1 ⟨cs, hrest⟩ final (mem_of_last? hlast).1
      simp [described?_of_ofEntry language label hc']

/-- Of all that a tree says of a command the registry keeps what its last entry about it says. -/
theorem get?_ofList_of_last? {es : List (Tree × Tree)} {cs : List (Description × List Warning)}
    (h : List.Forall₂ (fun e c => ofEntry language label e = .ok c) es cs) {name : Text}
    {e : Tree × Tree} (he : last? name es = some e) :
    ∃ c, ofEntry language label e = .ok c ∧ c.1.name = name ∧
      (Registry.ofList (empty.append cs).descriptions).get? name = some c.1 := by
  obtain ⟨hmem, hs⟩ := mem_of_last? he
  obtain ⟨c, hc⟩ := (exists_readings_iff language label).1 ⟨cs, h⟩ e hmem
  refine ⟨c, hc, ?_, ?_⟩
  · rw [subject?_of_ofEntry language label hc] at hs
    exact Option.some.inj hs
  · have hcs : (empty.append cs).descriptions = cs.map Prod.fst := List.nil_append _
    rw [Registry.get?_ofList, hcs, findRev?_readings language label h, he, Option.bind_some,
      described?_of_ofEntry language label hc]

theorem exists_ofTree_withoutAliases {tree : Tree} {es : List (Tree × Tree)}
    (htree : tree.untagged = .mapping es) {cs : List (Description × List Warning)}
    (h : List.Forall₂ (fun e c => ofEntry language label e = .ok c) es cs) :
    ∃ cs', List.Forall₂ (fun e c => ofEntry language label e = .ok c)
        (es.filter (!isAlias ·)) cs' ∧
      ofTree language label tree.withoutAliases = .ok (empty.append cs') := by
  have hread : ∀ e ∈ es.filter (!isAlias ·), ∃ c, ofEntry language label e = .ok c :=
    fun e he => (exists_readings_iff language label).1 ⟨cs, h⟩ e (List.mem_of_mem_filter he)
  obtain ⟨cs', hcs'⟩ := (exists_readings_iff language label).2 hread
  refine ⟨cs', hcs', ?_⟩
  rw [ofTree_of_mapping language label (Tree.untagged_withoutAliases htree),
    (mapM_ofEntry_eq_ok language label).2 hcs']
  rfl

/-- A tree that can be read can be read without its aliases too. A command that it describes has the
same description in both, unless the last entry about it is an alias: that leaves it bare. -/
theorem get?_load_of_described {tree : Tree} {read : Definitions}
    (h : ofTree language label tree = .ok read) {name : Text}
    (hname : ∃ e ∈ tree.entries, e.1.untagged = .text name ∧ ∃ ps, e.2.untagged = .mapping ps)
    (r : Registry) :
    ∃ plain d, ofTree language label tree.withoutAliases = .ok plain ∧
      (r.load plain.descriptions).1.get? name = some d ∧
      (r.load read.descriptions).1.get? name =
        some (if (last? name tree.entries).any isAlias then .bare name else d) := by
  obtain ⟨cs, hcs, rfl⟩ := entries_of_ofTree language label h
  obtain ⟨e, he, hkey, ps, hvalue⟩ := hname
  obtain ⟨es, htree⟩ := Tree.exists_of_mem_entries he
  rw [Tree.entries_of_mapping htree] at hcs he ⊢
  have hsubject : subject? e = some name := by
    rw [subject?, Tree.text?_of_mapping hvalue, Tree.text?_eq_some_iff.2 hkey]
    rfl
  have hkept : e ∈ es.filter (!isAlias ·) := by
    rw [List.mem_filter]
    exact ⟨he, by rw [isAlias, Tree.text?_of_mapping hvalue]; rfl⟩
  obtain ⟨cs', hcs', hof⟩ := exists_ofTree_withoutAliases language label htree hcs
  obtain ⟨final, hfinal⟩ := exists_last? he hsubject
  obtain ⟨final', hfinal'⟩ := exists_last? hkept hsubject
  obtain ⟨c, hc, hcname, hget⟩ := get?_ofList_of_last? language label hcs hfinal
  obtain ⟨c', hc', -, hget'⟩ := get?_ofList_of_last? language label hcs' hfinal'
  refine ⟨empty.append cs', c'.1, hof, hget', ?_⟩
  change (Registry.ofList (empty.append cs).descriptions).get? name = _
  rw [hget, hfinal, Option.any_some]
  cases ha : isAlias final with
  | true =>
    rw [eq_bare_of_isAlias language label ha hc, hcname]
    rfl
  | false =>
    -- the last entry of all is no alias, so it is the last of those that stay
    have hsame : last? name (es.filter (!isAlias ·)) = some final :=
      last?_filter hfinal (by rw [ha]; rfl)
    obtain rfl : final' = final := Option.some.inj (hfinal'.symm.trans hsame)
    rw [hc] at hc'
    obtain rfl := Except.ok.inj hc'
    rfl

def helpThenAlias : Tree :=
  .mapping [(.text "sound", .mapping [(.text "help", .text "Plays a sample.")]),
    (.text "s", .text "sound")]

def helpful : Description :=
  { Draft.empty with help := some "Plays a sample." }.describe "haskell" "sound"

/-- The alias is the last entry about the command, which has no help any more. -/
theorem get?_load_helpThenAlias :
    ofTree "haskell" "defs" helpThenAlias = .ok ⟨[helpful, .bare "sound"], []⟩ ∧
    (∃ e ∈ helpThenAlias.entries, e.1.untagged = .text "sound" ∧ ∃ ps, e.2.untagged = .mapping ps) ∧
    ∃ plain d, ofTree "haskell" "defs" helpThenAlias.withoutAliases = .ok plain ∧
      (Registry.empty.load plain.descriptions).1.get? "sound" = some d ∧
      (Registry.empty.load [helpful, .bare "sound"]).1.get? "sound" = some (.bare "sound") :=
  have hread : ofTree "haskell" "defs" helpThenAlias = .ok ⟨[helpful, .bare "sound"], []⟩ := rfl
  have hname : ∃ e ∈ helpThenAlias.entries,
      e.1.untagged = .text "sound" ∧ ∃ ps, e.2.untagged = .mapping ps :=
    ⟨_, List.mem_cons_self, rfl, _, rfl⟩
  ⟨hread, hname, get?_load_of_described "haskell" "defs" hread hname Registry.empty⟩

/-- So aliases do change what is known of a command that has an entry of its own. -/
theorem not_get?_load_withoutAliases :
    ¬ ∀ (language label : Text) (tree : Tree) (read plain : Definitions) (name : Text),
      ofTree language label tree = .ok read →
      ofTree language label tree.withoutAliases = .ok plain →
      (∃ e ∈ tree.entries, e.1.untagged = .text name ∧ ∃ ps, e.2.untagged = .mapping ps) →
      (Registry.empty.load read.descriptions).1.get? name =
        (Registry.empty.load plain.descriptions).1.get? name := by
  intro h
  have hsame := h "haskell" "defs" helpThenAlias ⟨[helpful, .bare "sound"], []⟩ ⟨[helpful], []⟩
    "sound" rfl rfl ⟨_, List.mem_cons_self, rfl, _, rfl⟩
  exact absurd hsame (by decide)

end Definitions

end Handbook
