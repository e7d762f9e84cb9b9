import Handbook.CommandLine.Printed
import Mathlib.Data.List.Basic

namespace Handbook.CommandLine.Printed

def marked : List Char := (List.range 0x20).map Char.ofNat ++ ['"', '\\']

theorem mem_marked_or (c : Char) : c ∈ marked ∨ escaped c = [c] ∧ c ≠ '"' ∧ c ≠ '\\' := by
  by_cases hc : c.toNat < 0x20
  · left
    refine List.mem_append_left _ (List.mem_map.2 ⟨c.toNat, List.mem_range.2 hc, ?_⟩)
    exact Char.ofNat_toNat c
  · by_cases hquote : c ∈ ['"', '\\']
    · exact .inl (List.mem_append_right _ hquote)
    · right
      simp only [List.mem_cons, List.not_mem_nil, or_false, not_or] at hquote
      refine ⟨?_, hquote⟩
      unfold escaped
      split <;> simp_all

theorem exists_escaped_of_marked {c : Char} (h : c ∈ marked) : ∃ e, escaped c = '\\' :: e := by
  have hall : marked.all fun c => (escaped c).head? == some '\\' := by decide +kernel
  have hhead : (escaped c).head? = some '\\' := by simpa using List.all_eq_true.1 hall c h
  exact ⟨_, List.eq_cons_of_mem_head? hhead⟩

/-- No escape is the beginning of another one. -/
theorem eq_of_prefix_escaped {c d : Char} (hc : c ∈ marked) (hd : d ∈ marked)
    (h : escaped c <+: escaped d) : c = d := by
  have hall : marked.all fun c => marked.all fun d => c == d || !(escaped c).isPrefixOf (escaped d) := by
    decide +kernel
  have hcd := List.all_eq_true.1 (List.all_eq_true.1 hall c hc) d hd
  have hp : (escaped c).isPrefixOf (escaped d) := Iff.mpr List.isPrefixOf_iff_prefix h
  rw [hp] at hcd
  simpa using hcd

theorem exists_escaped (c : Char) : ∃ e es, escaped c = e :: es ∧ e ≠ '"' := by
  obtain hc | ⟨hc, hquote, -⟩ := mem_marked_or c
  · obtain ⟨e, he⟩ := exists_escaped_of_marked hc
    exact ⟨_, e, he, by decide⟩
  · exact ⟨c, [], hc, hquote⟩

theorem escaped_append_inj {c d : Char} {x y : Text} (h : escaped c ++ x = escaped d ++ y) :
    c = d ∧ x = y := by
  have hcd : c = d := by
    obtain hc | ⟨hc, -, hc'⟩ := mem_marked_or c <;> obtain hd | ⟨hd, -, hd'⟩ := mem_marked_or d
    · have hx : escaped c <+: escaped d ++ y := h ▸ List.prefix_append _ x
      obtain hp | hp := List.prefix_or_prefix_of_prefix hx (List.prefix_append _ y)
      · exact eq_of_prefix_escaped hc hd hp
      · exact (eq_of_prefix_escaped hd hc hp).symm
    · obtain ⟨e, he⟩ := exists_escaped_of_marked hc
      rw [he, hd] at h
      exact absurd (List.cons.inj h).1.symm hd'
    · obtain ⟨e, he⟩ := exists_escaped_of_marked hd
      rw [he, hc] at h
      exact absurd (List.cons.inj h).1 hc'
    · rw [hc, hd] at h
      exact (List.cons.inj h).1
  subst hcd
  exact ⟨rfl, List.append_cancel_left h⟩

theorem quoted_append_inj {s t x y : Text} (h : quoted s ++ x = quoted t ++ y) : s = t ∧ x = y := by
  have hopened : s.flatMap escaped ++ '"' :: x = t.flatMap escaped ++ '"' :: y := by
    simpa [quoted] using h
  clear h
  -- no character is printed with a quotation mark in front, so both texts end at once
  induction s generalizing t with
  | nil =>
    cases t with
    | nil => exact ⟨rfl, (List.cons.inj hopened).2⟩
    | cons d t =>
      obtain ⟨e, es, he, hquote⟩ := exists_escaped d
      rw [List.flatMap_cons, he] at hopened
      exact absurd (List.cons.inj hopened).1.symm hquote
  | cons c s ih =>
    cases t with
    | nil =>
      obtain ⟨e, es, he, hquote⟩ := exists_escaped c
      rw [List.flatMap_cons, he] at hopened
      exact absurd (List.cons.inj hopened).1 hquote
    | cons d t =>
      rw [List.flatMap_cons, List.flatMap_cons, List.append_assoc, List.append_assoc] at hopened
      obtain ⟨rfl, hrest⟩ := escaped_append_inj hopened
      obtain ⟨rfl, hxy⟩ := ih hrest
      exact ⟨rfl, hxy⟩

/-- A text that a number in front of it does not run into. -/
def Ended (x : Text) : Prop := ∀ c ∈ x.head?, c.isDigit = false

theorem isDigit_of_mem_ofNat {n : Nat} {c : Char} (h : c ∈ Text.ofNat n) : c.isDigit :=
  Nat.isDigit_of_mem_toDigits (by decide) (by decide) h

theorem takeWhile_isDigit_ofNat {n : Nat} {x : Text} (hx : Ended x) :
    (Text.ofNat n ++ x).takeWhile Char.isDigit = Text.ofNat n := by
  have hnone : x.takeWhile Char.isDigit = [] := by
    cases x with
    | nil => rfl
    | cons c x => exact List.takeWhile_cons_of_neg (by simp [hx c rfl])
  rw [List.takeWhile_append_of_pos fun c hc => isDigit_of_mem_ofNat hc, hnone, List.append_nil]

theorem ofNat_append_inj {m n : Nat} {x y : Text} (hx : Ended x) (hy : Ended y)
    (h : Text.ofNat m ++ x = Text.ofNat n ++ y) : m = n ∧ x = y := by
  have hdigits : Text.ofNat m = Text.ofNat n := by
    rw [← takeWhile_isDigit_ofNat hx, h, takeWhile_isDigit_ofNat hy]
  have hmn : m = n := by
    calc
      m = Nat.ofDigitChars 10 (Text.ofNat m) 0 :=
        (Nat.ofDigitChars_toDigits (by decide) (by decide)).symm
      _ = Nat.ofDigitChars 10 (Text.ofNat n) 0 := by rw [hdigits]
      _ = n := Nat.ofDigitChars_toDigits (by decide) (by decide)
  subst hmn
  exact ⟨rfl, List.append_cancel_left h⟩

/-- The first character of a value, with one for all truth values and one for all numbers. -/
def sign : Printed → Char
  | null => 'n'
  | bool _ => 't'
  | nat _ => '0'
  | text _ => '"'
  | list _ => '['
  | record _ => '\x7b'

def signOf (c : Char) : Char := if c.isDigit then '0' else if c = 'f' then 't' else c

theorem sign_eq (depth : Nat) (p : Printed) (x : Text) :
    (lay depth p ++ x).head?.map signOf = some p.sign := by
  cases p with
  | null => rfl
  | bool b => cases b <;> rfl
  | nat n =>
    obtain ⟨c, cs, hc⟩ := List.exists_cons_of_ne_nil (Nat.toDigits_ne_nil (n := n) (b := 10))
    have hdigit : c.isDigit := isDigit_of_mem_ofNat (n := n) (by rw [Text.ofNat, hc]; simp)
    simp [lay, Text.ofNat, hc, signOf, hdigit, sign]
  | text t => rfl
  | list ps => cases ps <;> rfl
  | record fs => cases fs <;> rfl

theorem ended_cons {c : Char} (h : c.isDigit = false) (x : Text) : Ended (c :: x) := by
  intro d hd
  obtain rfl : c = d := by simpa using hd
  exact h

theorem ended_layItems (depth outer : Nat) (ps : List Printed) (x : Text) :
    Ended (layItems depth ps ++ (newLine outer ++ x)) := by
  cases ps with
  | nil => exact ended_cons (c := '\n') rfl _
  | cons p ps => exact ended_cons (c := ',') rfl _

theorem ended_layFields (depth outer : Nat) (fs : List (Text × Printed)) (x : Text) :
    Ended (layFields depth fs ++ (newLine outer ++ x)) := by
  cases fs with
  | nil => exact ended_cons (c := '\n') rfl _
  | cons f fs => exact ended_cons (c := ',') rfl _

theorem list_append_inj {depth : Nat} {ps qs : List Printed} {x y : Text}
    (hitems : ∀ {x y : Text}, layItems (depth + 1) ps ++ (newLine depth ++ x) =
      layItems (depth + 1) qs ++ (newLine depth ++ y) → ps = qs ∧ x = y)
    (h : lay depth (list ps) ++ x = lay depth (list qs) ++ y) : list ps = list qs ∧ x = y := by
  cases ps with
  | nil =>
    cases qs with
    | nil => exact ⟨rfl, List.append_cancel_left h⟩
    | cons q qs => simp [lay, newLine] at h
  | cons p ps =>
    cases qs with
    | nil => simp [lay, newLine] at h
    | cons q qs =>
      -- the first item is printed as the others are, but for the comma
      have hopened : layItems (depth + 1) (p :: ps) ++ (newLine depth ++ ']' :: x) =
          layItems (depth + 1) (q :: qs) ++ (newLine depth ++ ']' :: y) := by
        simpa [lay, layItems] using h
      obtain ⟨hps, hrest⟩ := hitems hopened
      exact ⟨congrArg list hps, (List.cons.inj hrest).2⟩

theorem record_append_inj {depth : Nat} {fs gs : List (Text × Printed)} {x y : Text}
    (hfields : ∀ {x y : Text}, layFields (depth + 1) fs ++ (newLine depth ++ x) =
      layFields (depth + 1) gs ++ (newLine depth ++ y) → fs = gs ∧ x = y)
    (h : lay depth (record fs) ++ x = lay depth (record gs) ++ y) :
    record fs = record gs ∧ x = y := by
  cases fs with
  | nil =>
    cases gs with
    | nil => exact ⟨rfl, List.append_cancel_left h⟩
    | cons g gs => simp [lay, newLine] at h
  | cons f fs =>
    cases gs with
    | nil => simp [lay, newLine] at h
    | cons g gs =>
      have hopened : layFields (depth + 1) (f :: fs) ++ (newLine depth ++ '\x7d' :: x) =
          layFields (depth + 1) (g :: gs) ++ (newLine depth ++ '\x7d' :: y) := by
        simpa [lay, layFields] using h
      obtain ⟨hfs, hrest⟩ := hfields hopened
      exact ⟨congrArg record hfs, (List.cons.inj hrest).2⟩

mutual

/-- A value and what comes behind it can both be told from the text. Digits behind a number would be
taken for its own. -/
theorem lay_append_inj (depth : Nat) (p q : Printed) {x y : Text} (hx : Ended x) (hy : Ended y)
    (h : lay depth p ++ x = lay depth q ++ y) : p = q ∧ x = y := by
  -- the first character tells the kind of value
  have hsign : p.sign = q.sign := by
    rw [← Option.some_inj, ← sign_eq depth p x, h, sign_eq]
  cases p with
  | null =>
    cases q with
    | null => exact ⟨rfl, List.append_cancel_left h⟩
    | _ => simp [sign] at hsign
  | bool b =>
    cases q with
    | bool b' =>
      obtain rfl : b = b' := by
        revert h
        cases b <;> cases b' <;> simp [lay]
      exact ⟨rfl, List.append_cancel_left h⟩
    | _ => simp [sign] at hsign
  | nat m =>
    cases q with
    | nat n =>
      obtain ⟨rfl, hxy⟩ := ofNat_append_inj hx hy h
      exact ⟨rfl, hxy⟩
    | _ => simp [sign] at hsign
  | text s =>
    cases q with
    | text t =>
      obtain ⟨rfl, hxy⟩ := quoted_append_inj h
      exact ⟨rfl, hxy⟩
    | _ => simp [sign] at hsign
  | list ps =>
    cases q with
    | list qs => exact list_append_inj (layItems_append_inj (depth + 1) depth ps qs) h
    | _ => simp [sign] at hsign
  | record fs =>
    cases q with
    | record gs => exact record_append_inj (layFields_append_inj (depth + 1) depth fs gs) h
    | _ => simp [sign] at hsign

theorem layItems_append_inj (depth outer : Nat) (ps qs : List Printed) {x y : Text}
    (h : layItems depth ps ++ (newLine outer ++ x) = layItems depth qs ++ (newLine outer ++ y)) :
    ps = qs ∧ x = y := by
  cases ps with
  | nil =>
    cases qs with
    | nil => exact ⟨rfl, List.append_cancel_left h⟩
    | cons q qs => simp [layItems, newLine] at h
  | cons p ps =>
    cases qs with
    | nil => simp [layItems, newLine] at h
    | cons q qs =>
      have hitem : lay depth p ++ (layItems depth ps ++ (newLine outer ++ x)) =
          lay depth q ++ (layItems depth qs ++ (newLine outer ++ y)) := by
        simpa [layItems] using h
      obtain ⟨rfl, hrest⟩ := lay_append_inj depth p q (ended_layItems depth outer ps x)
        (ended_layItems depth outer qs y) hitem
      obtain ⟨rfl, hxy⟩ := layItems_append_inj depth outer ps qs hrest
      exact ⟨rfl, hxy⟩

theorem layFields_append_inj (depth outer : Nat) (fs gs : List (Text × Printed)) {x y : Text}
    (h : layFields depth fs ++ (newLine outer ++ x) = layFields depth gs ++ (newLine outer ++ y)) :
    fs = gs ∧ x = y := by
  cases fs with
  | nil =>
    cases gs with
    | nil => exact ⟨rfl, List.append_cancel_left h⟩
    | cons g gs => simp [layFields, newLine] at h
  | cons f fs =>
    cases gs with
    | nil => simp [layFields, newLine] at h
    | cons g gs =>
      -- the name is told from the text first, then the value, then the other fields
      have hname : quoted f.1 ++ (": " ++ (lay depth f.2 ++
            (layFields depth fs ++ (newLine outer ++ x)))) =
          quoted g.1 ++ (": " ++ (lay depth g.2 ++
            (layFields depth gs ++ (newLine outer ++ y)))) := by
        simpa [layFields] using h
      obtain ⟨hfst, hvalue⟩ := quoted_append_inj hname
      obtain ⟨hsnd, hrest⟩ := lay_append_inj depth f.2 g.2 (ended_layFields depth outer fs x)
        (ended_layFields depth outer gs y) (List.append_cancel_left hvalue)
      obtain ⟨rfl, hxy⟩ := layFields_append_inj depth outer fs gs hrest
      exact ⟨congrArg (· :: fs) (Prod.ext hfst hsnd), hxy⟩

end

theorem lay_inj {depth : Nat} {p q : Printed} (h : lay depth p = lay depth q) : p = q := by
  have hended : Ended [] := fun c hc => absurd hc (by simp)
  exact (lay_append_inj depth p q hended hended (congrArg (· ++ []) h)).1

end Handbook.CommandLine.Printed
