import Handbook.Proofs.Markup.CodeBlock
import Handbook.Proofs.Text.Blank

namespace Handbook.Markup

/-- A line that starts with backticks, and what stands behind them. -/
structure FenceLine where
  ticks : Nat
  rest : Text
  deriving DecidableEq, Repr

/-- At least three backticks after at most three spaces. -/
def fenceLine? (line : Text) : Option FenceLine :=
  let marks := line.dropWhile (· = ' ')
  let ticks := (marks.takeWhile (· = '\x60')).length
  if (line.takeWhile (· = ' ')).length ≤ 3 ∧ 3 ≤ ticks then
    some ⟨ticks, marks.dropWhile (· = '\x60')⟩
  else none

/-- The backticks of a line that opens a block of code; its language has none. -/
def opens? (line : Text) : Option Nat :=
  ((fenceLine? line).filter fun f => !f.rest.contains '\x60').map (·.ticks)

/-- At least as many backticks as have opened the block, and only spaces or tabs behind them. -/
def Closes (ticks : Nat) (line : Text) : Prop :=
  ∃ f ∈ fenceLine? line, ticks ≤ f.ticks ∧ f.rest.all fun c => c = ' ' ∨ c = '\t'

instance (ticks : Nat) (line : Text) : Decidable (Closes ticks line) :=
  inferInstanceAs (Decidable (∃ f ∈ fenceLine? line,
    ticks ≤ f.ticks ∧ f.rest.all fun c => c = ' ' ∨ c = '\t'))

theorem closes_iff {ticks : Nat} {line : Text} : Closes ticks line ↔
    ∃ i n rest, i ≤ 3 ∧ 3 ≤ n ∧ ticks ≤ n ∧ (∀ c ∈ rest, c = ' ' ∨ c = '\t') ∧
      line = List.replicate i ' ' ++ (List.replicate n '\x60' ++ rest) := by
  constructor
  · rintro ⟨f, hf, hticks, hrest⟩
    rw [fenceLine?, Option.mem_def] at hf
    split at hf
    · next hmarks =>
      obtain rfl := Option.some.inj hf
      refine ⟨_, _, _, hmarks.1, hmarks.2, hticks, by simpa using hrest, ?_⟩
      rw [← Text.takeWhile_eq_replicate, ← Text.takeWhile_eq_replicate,
        List.takeWhile_append_dropWhile, List.takeWhile_append_dropWhile]
    · exact absurd hf (by simp)
  · rintro ⟨i, n, rest, hi, hn, hticks, hrest, rfl⟩
    have htick : ∀ c ∈ rest.head?, decide (c = '\x60') = false := by
      intro c hc
      obtain rfl | rfl := hrest c (List.mem_of_mem_head? hc) <;> decide
    have hspace : ∀ c ∈ (List.replicate n '\x60' ++ rest).head?, decide (c = ' ') = false := by
      obtain ⟨m, rfl⟩ := Nat.exists_eq_add_of_lt (Nat.lt_of_lt_of_le (by decide : 0 < 3) hn)
      simp [List.replicate_succ]
    obtain ⟨hspaces, hmarks⟩ := Text.span_replicate_append hspace i
    obtain ⟨hticks', hrest'⟩ := Text.span_replicate_append htick n
    refine ⟨⟨n, rest⟩, ?_, hticks, by simpa using hrest⟩
    simp only [fenceLine?, hspaces, hmarks, hticks', hrest', List.length_replicate, hi, hn, and_self,
      if_true, Option.mem_some_iff]

theorem isWritten_of_closes {ticks : Nat} {line : Text} (h : Closes ticks line) : Text.IsWritten line := by
  obtain ⟨i, n, rest, -, hn, -, -, rfl⟩ := closes_iff.1 h
  have hmem : '\x60' ∈ List.replicate n '\x60' := List.mem_replicate.2 ⟨by omega, rfl⟩
  exact ⟨_, List.mem_append_right _ (List.mem_append_left rest hmem), by decide⟩

inductive LineRole
  /-- It is shown with all its formatting. -/
  | live
  | opening
  /-- It is shown as it stands. -/
  | code
  | closing
  deriving DecidableEq, Repr

/-- What a line is, and the backticks of the fence that is open behind it. -/
def readLine : Option Nat → Text → LineRole × Option Nat
  | none, line => (if (opens? line).isSome then .opening else .live, opens? line)
  | some ticks, line => if Closes ticks line then (.closing, none) else (.code, some ticks)

def roles : Option Nat → List Text → List LineRole
  | _, [] => []
  | opened, l :: ls => (readLine opened l).1 :: roles (readLine opened l).2 ls

def openAfter (opened : Option Nat) (ls : List Text) : Option Nat :=
  ls.foldl (fun o l => (readLine o l).2) opened

def blockRoles (content : List Text) : List LineRole :=
  .opening :: (content.map fun _ => .code) ++ [.closing]

theorem length_roles (opened : Option Nat) (ls : List Text) : (roles opened ls).length = ls.length := by
  induction ls generalizing opened with
  | nil => rfl
  | cons l ls ih => rw [roles, List.length_cons, List.length_cons, ih]

theorem roles_append (opened : Option Nat) (ls ls' : List Text) :
    roles opened (ls ++ ls') = roles opened ls ++ roles (openAfter opened ls) ls' := by
  induction ls generalizing opened with
  | nil => rfl
  | cons l ls ih =>
    rw [List.cons_append, roles, roles, ih, List.cons_append]
    rfl

theorem readLine_none_eq_opening_iff {line : Text} :
    (readLine none line).1 = .opening ↔ ∃ ticks, opens? line = some ticks := by
  rw [readLine, ← Option.isSome_iff_exists]
  by_cases h : (opens? line).isSome <;> simp [h]

theorem readLine_some_eq_code_iff {ticks : Nat} {line : Text} :
    (readLine (some ticks) line).1 = .code ↔ ¬ Closes ticks line := by
  by_cases h : Closes ticks line <;> simp [readLine, h]

theorem readLine_some_eq_closing_iff {ticks : Nat} {line : Text} :
    (readLine (some ticks) line).1 = .closing ↔ Closes ticks line := by
  by_cases h : Closes ticks line <;> simp [readLine, h]

theorem roles_open_iff {ticks : Nat} {content : List Text} {last : Text} :
    roles (some ticks) (content ++ [last]) = (content.map fun _ => .code) ++ [.closing] ↔
      (∀ l ∈ content, ¬ Closes ticks l) ∧ Closes ticks last := by
  induction content with
  | nil => simp [roles, readLine_some_eq_closing_iff]
  | cons l content ih =>
    rw [List.cons_append, roles, List.map_cons, List.cons_append, List.cons.injEq,
      readLine_some_eq_code_iff, List.forall_mem_cons, and_assoc]
    refine and_congr_right fun hl => ?_
    have hopen : (readLine (some ticks) l).2 = some ticks := by simp [readLine, hl]
    rw [hopen, ih]

theorem openAfter_of_closing {ticks : Nat} {content : List Text} {last : Text}
    (hcontent : ∀ l ∈ content, ¬ Closes ticks l) (hlast : Closes ticks last) :
    openAfter (some ticks) (content ++ [last]) = none := by
  induction content with
  | nil => simp [openAfter, readLine, hlast]
  | cons l content ih =>
    have hopen : (readLine (some ticks) l).2 = some ticks := by
      simp [readLine, hcontent l List.mem_cons_self]
    rw [List.cons_append, openAfter, List.foldl_cons, hopen]
    exact ih fun l' hl' => hcontent l' (List.mem_cons_of_mem l hl')

theorem fenceLine?_fence_append (t : Text) : fenceLine? (fence ++ t) =
    some ⟨3 + (t.takeWhile (· = '\x60')).length, t.dropWhile (· = '\x60')⟩ := by
  simp [fenceLine?, fence, Nat.add_comm 3]

theorem closes_fence_iff {ticks : Nat} : Closes ticks fence ↔ ticks ≤ 3 := by
  have hfence : fenceLine? fence = some ⟨3, []⟩ := by decide
  simp [Closes, hfence]

theorem opens?_fence_append (language : Text) : opens? (fence ++ language) =
    if '\x60' ∈ language.dropWhile (· = '\x60') then none
    else some (3 + (language.takeWhile (· = '\x60')).length) := by
  rw [opens?, fenceLine?_fence_append]
  split <;> simp_all

theorem opens?_fence_append_of_not_mem {language : Text} (h : '\x60' ∉ language) :
    opens? (fence ++ language) = some 3 := by
  obtain ⟨hnone, hall⟩ := Text.span_replicate_append (c := '\x60') (t := language)
    (fun c hc => decide_eq_false fun htick => h (htick ▸ List.mem_of_mem_head? hc)) 0
  rw [List.replicate_zero, List.nil_append] at hnone hall
  rw [opens?_fence_append, hall, if_neg h, hnone]
  rfl

/-- Backticks at the start of a language make a longer fence, and any others make none. -/
theorem not_mem_of_opens?_fence_append {language : Text} {ticks : Nat}
    (h : opens? (fence ++ language) = some ticks) (hticks : ticks ≤ 3) :
    '\x60' ∉ language ∧ ticks = 3 := by
  rw [opens?_fence_append] at h
  split at h
  · exact absurd h (by simp)
  · next hrest =>
    have hlength := Option.some.inj h
    have hnone : language.takeWhile (· = '\x60') = [] := List.eq_nil_of_length_eq_zero (by omega)
    have hall := List.takeWhile_append_dropWhile (p := (· = '\x60')) (l := language)
    rw [hnone, List.nil_append] at hall
    rw [hall] at hrest
    rw [hnone] at hlength
    exact ⟨hrest, hlength.symm⟩

/-- Lines between a fence with a language and a plain fence are read as one block just if none of them
closes it and the language has no backtick. -/
theorem roles_fenced_iff {language : Text} {content : List Text} :
    roles none ((fence ++ language) :: (content ++ [fence])) = blockRoles content ↔
      '\x60' ∉ language ∧ ∀ l ∈ content, ¬ Closes 3 l := by
  have hafter : (readLine none (fence ++ language)).2 = opens? (fence ++ language) := rfl
  rw [roles, blockRoles, List.cons_append, List.cons.injEq, readLine_none_eq_opening_iff, hafter]
  constructor
  · rintro ⟨⟨ticks, hopens⟩, hrest⟩
    rw [hopens] at hrest
    obtain ⟨hcontent, hlast⟩ := roles_open_iff.1 hrest
    obtain ⟨hlanguage, rfl⟩ := not_mem_of_opens?_fence_append hopens (closes_fence_iff.1 hlast)
    exact ⟨hlanguage, hcontent⟩
  · rintro ⟨hlanguage, hcontent⟩
    have hopens := opens?_fence_append_of_not_mem hlanguage
    rw [hopens]
    exact ⟨⟨3, rfl⟩, roles_open_iff.2 ⟨hcontent, closes_fence_iff.2 le_rfl⟩⟩

theorem openAfter_fenced {language : Text} {content : List Text} (hlanguage : '\x60' ∉ language)
    (hcontent : ∀ l ∈ content, ¬ Closes 3 l) :
    openAfter none ((fence ++ language) :: (content ++ [fence])) = none := by
  have hopens : (readLine none (fence ++ language)).2 = some 3 :=
    opens?_fence_append_of_not_mem hlanguage
  rw [openAfter, List.foldl_cons, hopens]
  exact openAfter_of_closing hcontent (closes_fence_iff.2 le_rfl)

/-- Nothing in the code ends its block, and nothing in the language spoils the opening of it. -/
def IsContained (language code : Text) : Prop :=
  '\x60' ∉ language ∧ ∀ l ∈ Text.unifiedLines code, ¬ Closes 3 l

instance (language code : Text) : Decidable (IsContained language code) :=
  inferInstanceAs (Decidable (_ ∧ _))

theorem forall_not_closes_iff (code : Text) : (∀ l ∈ Text.lines (blockBody code), ¬ Closes 3 l) ↔
    ∀ l ∈ Text.unifiedLines code, ¬ Closes 3 l := by
  obtain ⟨tail, hall, htail⟩ := Text.exists_blankTail (Text.unifiedLines code)
  have hblank : ∀ l ∈ tail, ¬ Closes 3 l := fun l hl h => htail l hl (isWritten_of_closes h)
  rw [hall, List.forall_mem_append, and_iff_left hblank, lines_blockBody]
  split
  · next hnone =>
    rw [keptLines] at hnone
    rw [hnone]
    simp +decide
  · rfl

theorem roles_codeBlock_iff {language : Text} (h : ∀ c ∈ language, Text.isBlank c = false) (code : Text) :
    roles none (Text.unifiedLines (codeBlock language code).source) =
      blockRoles (Text.lines (blockBody code)) ↔ IsContained language code := by
  rw [unifiedLines_codeBlock h, roles_fenced_iff, forall_not_closes_iff]
  rfl

theorem openAfter_codeBlock {language : Text} (h : ∀ c ∈ language, Text.isBlank c = false) {code : Text}
    (hcode : IsContained language code) :
    openAfter none (Text.unifiedLines (codeBlock language code).source) = none := by
  rw [unifiedLines_codeBlock h]
  exact openAfter_fenced hcode.1 ((forall_not_closes_iff code).2 hcode.2)

theorem roles_codeBlocks_iff {language : Text} (h : ∀ c ∈ language, Text.isBlank c = false)
    (codes : List Text) :
    roles none (codes.flatMap fun code => Text.unifiedLines (codeBlock language code).source) =
      (codes.flatMap fun code => blockRoles (Text.lines (blockBody code))) ↔
      ∀ code ∈ codes, IsContained language code := by
  induction codes with
  | nil => simp [roles]
  | cons code codes ih =>
    have hlength : (roles none (Text.unifiedLines (codeBlock language code).source)).length =
        (blockRoles (Text.lines (blockBody code))).length := by
      rw [length_roles, unifiedLines_codeBlock h]
      simp [blockRoles]
    -- a block has as many roles as lines, so the roles are cut where the block ends
    have hsplit : ∀ {rest rest' : List LineRole},
        roles none (Text.unifiedLines (codeBlock language code).source) ++ rest =
          blockRoles (Text.lines (blockBody code)) ++ rest' ↔
        IsContained language code ∧ rest = rest' := by
      intro rest rest'
      rw [← roles_codeBlock_iff h]
      exact ⟨fun heq => List.append_inj heq hlength, fun heq => by rw [heq.1, heq.2]⟩
    rw [List.flatMap_cons, List.flatMap_cons, roles_append, hsplit, List.forall_mem_cons]
    refine and_congr_right fun hcode => ?_
    rw [openAfter_codeBlock h hcode, ih]

end Handbook.Markup
