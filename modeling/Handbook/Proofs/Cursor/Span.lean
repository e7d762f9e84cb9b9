import Handbook.Proofs.Cursor.Word

namespace Handbook

def Span.slice (s : Span) (line : Text) : Text := (line.drop s.start).take s.length

theorem Span.slice_append (before word rest : Text) :
    Span.slice ⟨before.length, before.length + word.length⟩ (before ++ word ++ rest) = word := by
  rw [slice, length, Nat.add_sub_cancel_left, List.append_assoc, List.drop_left, List.take_left]

namespace Cursor

/-- A span around a column: word characters up to the column, tail characters from there on, and no
further ones beside them. -/
structure Around (code : Text) (column : Nat) (s : Span) : Prop where
  start_le : s.start ≤ column
  le_stop : column ≤ s.stop
  stop_le : s.stop ≤ code.length
  left : ∀ i c, s.start ≤ i → i < column → code[i]? = some c → isWordChar c = true
  before : ∀ i c, i + 1 = s.start → code[i]? = some c → isWordChar c = false
  right : ∀ i c, column ≤ i → i < s.stop → code[i]? = some c → isWordTail c = true
  after : ∀ c, code[s.stop]? = some c → isWordTail c = false

namespace Around

theorem of_parts {before left right after : Text} (hleft : ∀ c ∈ left, isWordChar c)
    (hright : ∀ c ∈ right, isWordTail c) (hbefore : ∀ c ∈ before.getLast?, isWordChar c = false)
    (hafter : ∀ c ∈ after.head?, isWordTail c = false) :
    Around (before ++ left ++ right ++ after) (before.length + left.length)
      ⟨before.length, before.length + left.length + right.length⟩ where
  start_le := Nat.le_add_right _ _
  le_stop := Nat.le_add_right _ _
  stop_le := by simp only [List.length_append, Nat.le_add_right]
  left i c hstart hcolumn hc := by
    change before.length ≤ i at hstart
    rw [List.append_assoc, List.append_assoc, List.getElem?_append_right hstart,
      List.getElem?_append_left (by omega)] at hc
    exact hleft c (List.mem_of_getElem? hc)
  before i c hi hc := by
    change i + 1 = before.length at hi
    rw [List.append_assoc, List.append_assoc, List.getElem?_append_left (by omega)] at hc
    apply hbefore c
    rw [Option.mem_def, List.getLast?_eq_getElem?, ← hi, Nat.add_sub_cancel]
    exact hc
  right i c hcolumn hstop hc := by
    change i < before.length + left.length + right.length at hstop
    rw [List.append_assoc, List.getElem?_append_right (by simpa using hcolumn),
      List.getElem?_append_left (by rw [List.length_append]; omega)] at hc
    exact hright c (List.mem_of_getElem? hc)
  after c hc := by
    rw [List.getElem?_append_right (by simp only [List.length_append, Nat.le_refl])] at hc
    apply hafter c
    rw [Option.mem_def, List.head?_eq_getElem?]
    simpa only [List.length_append, Nat.sub_self] using hc

variable {code : Text} {column column' : Nat} {s s' : Span}

theorem exists_char (h : Around code column s) {i : Nat} (hi : i < s.stop) :
    ∃ c, code[i]? = some c :=
  ⟨_, List.getElem?_eq_getElem (Nat.lt_of_lt_of_le hi h.stop_le)⟩

theorem start_mono (h : Around code column s) (h' : Around code column' s')
    (hle : column ≤ column') : s.start ≤ s'.start := by
  by_contra hlt
  -- the character in front of the first span would belong to the second
  obtain ⟨i, hi⟩ : ∃ i, i + 1 = s.start := ⟨s.start - 1, by omega⟩
  have hcolumn : i < column := by have := h.start_le; omega
  obtain ⟨c, hc⟩ := h.exists_char (Nat.lt_of_lt_of_le hcolumn h.le_stop)
  have hin : isWordChar c = true := h'.left i c (by omega) (by omega) hc
  rw [h.before i c hi hc] at hin
  exact absurd hin (by decide)

theorem stop_mono (h : Around code column s) (h' : Around code column' s')
    (hle : column ≤ column') : s.stop ≤ s'.stop := by
  by_contra hlt
  -- the character behind the second span would belong to the first
  obtain ⟨c, hc⟩ := h.exists_char (Nat.lt_of_not_le hlt)
  have hcolumn : column ≤ s'.stop := hle.trans h'.le_stop
  have hin : isWordTail c = true := h.right s'.stop c hcolumn (by omega) hc
  rw [h'.after c hc] at hin
  exact absurd hin (by decide)

theorem eq (h : Around code column s) (h' : Around code column s') : s = s' := by
  have hstart := Nat.le_antisymm (h.start_mono h' le_rfl) (h'.start_mono h le_rfl)
  have hstop := Nat.le_antisymm (h.stop_mono h' le_rfl) (h'.stop_mono h le_rfl)
  cases s
  cases s'
  cases hstart
  cases hstop
  rfl

theorem start_add_length (h : Around code column s) : s.start + s.length = s.stop :=
  Nat.add_sub_cancel' (h.start_le.trans h.le_stop)

end Around

section

variable {marker line : Text} {column : Nat} {w : Word}

theorem wordAt?_eq_none_iff :
    wordAt? marker line column = none ↔ (stripComment marker line).length < column := by
  rw [wordAt?_eq]
  split <;> simp_all

theorem around_of_wordAt? (h : wordAt? marker line column = some w) :
    Around (stripComment marker line) column w.span := by
  obtain ⟨before, left, right, after, hcode, rfl, rfl, hleft, hright, hbefore, hafter⟩ :=
    exists_parts h
  rw [hcode]
  exact .of_parts hleft hright hbefore hafter

theorem text_of_wordAt? (h : wordAt? marker line column = some w) : w.text = w.span.slice line := by
  obtain ⟨before, after, hcode, hspan, -, -⟩ := exists_around_word h
  obtain ⟨blanks, comment, hline, -, -⟩ := exists_comment marker line
  rw [hspan, hline, hcode, List.append_assoc, List.append_assoc (before ++ w.text),
    Span.slice_append]

theorem exists_word (h : column ≤ (stripComment marker line).length) :
    ∃ w, wordAt? marker line column = some w := by
  rw [← Option.ne_none_iff_exists', ne_eq, wordAt?_eq_none_iff]
  omega

theorem wordAt?_eq_some_iff : wordAt? marker line column = some w ↔
    Around (stripComment marker line) column w.span ∧ w.text = w.span.slice line := by
  constructor
  · intro h
    exact ⟨around_of_wordAt? h, text_of_wordAt? h⟩
  · rintro ⟨haround, htext⟩
    obtain ⟨found, hfound⟩ := exists_word (haround.le_stop.trans haround.stop_le)
    have hspan : found.span = w.span := (around_of_wordAt? hfound).eq haround
    have htext' : found.text = w.text := by
      rw [htext, ← hspan]
      exact text_of_wordAt? hfound
    rw [hfound]
    cases found
    cases w
    cases hspan
    cases htext'
    rfl

end

/-- Every column up to the end of the code has a word, and none behind it. Its span is the one around
the column, of which there is no other, and its text is what stands there on the line. Words are made
of ASCII letters, digits and underscores, and go on to the right over apostrophes too. -/
theorem wordAt?_is_around (marker line : Text) (column : Nat) :
    let code := stripComment marker line
    (wordAt? marker line column = none ↔ code.length < column) ∧
    (∀ w, wordAt? marker line column = some w ↔
      Around code column w.span ∧ w.text = w.span.slice line) ∧
    (column ≤ code.length → ∃! s, Around code column s) ∧
    (∀ s, Around code column s → s.start + s.length = s.stop) ∧
    (∀ c, isWordChar c = true ↔
      'A' ≤ c ∧ c ≤ 'Z' ∨ 'a' ≤ c ∧ c ≤ 'z' ∨ '0' ≤ c ∧ c ≤ '9' ∨ c = '_') ∧
    (∀ c, isWordTail c = true ↔ isWordChar c = true ∨ c = '\'') := by
  refine ⟨wordAt?_eq_none_iff, fun w => wordAt?_eq_some_iff, fun h => ?_,
    fun s hs => hs.start_add_length, fun c => isWordChar_iff, fun c => isWordTail_iff⟩
  obtain ⟨w, hw⟩ := exists_word h
  exact ⟨w.span, around_of_wordAt? hw, fun s hs => hs.eq (around_of_wordAt? hw)⟩

end Cursor

end Handbook
