import Handbook.Proofs.Cursor.Span

namespace Handbook.Cursor

theorem isWordTail_of_isWordChar {c : Char} (h : isWordChar c = true) : isWordTail c = true :=
  isWordTail_iff.2 (.inl h)

theorem eq_apostrophe {c : Char} (htail : isWordTail c = true) (hchar : isWordChar c = false) :
    c = '\'' := by
  obtain hyes | rfl := isWordTail_iff.1 htail
  · rw [hchar] at hyes
    exact absurd hyes (by decide)
  · rfl

namespace Around

variable {code : Text} {column column' : Nat} {s s' : Span}

theorem isWordTail_of_mem (h : Around code column s) {i : Nat} {c : Char} (hstart : s.start ≤ i)
    (hstop : i < s.stop) (hc : code[i]? = some c) : isWordTail c = true := by
  obtain hi | hi := Nat.lt_or_ge i column
  · exact isWordTail_of_isWordChar (h.left i c hstart hi hc)
  · exact h.right i c hi hstop hc

theorem from_start (h : Around code column s) : Around code s.start s where
  start_le := Nat.le_refl _
  le_stop := h.start_le.trans h.le_stop
  stop_le := h.stop_le
  left _ _ hstart hi := absurd hi (Nat.not_lt.2 hstart)
  before := h.before
  right _ _ hstart hstop hc := h.isWordTail_of_mem hstart hstop hc
  after := h.after

section

variable (h : Around code column s) (h' : Around code column' s')
include h h'

/-- Behind the end of a word another one begins, and a character that is in no word stands between. -/
theorem stop_lt_start (hout : s.stop < column') :
    s.stop < s'.start ∧ ∃ c, code[s.stop]? = some c ∧ isWordTail c = false := by
  obtain ⟨c, hc⟩ := h'.exists_char (Nat.lt_of_lt_of_le hout h'.le_stop)
  refine ⟨?_, c, hc, h.after c hc⟩
  by_contra hlt
  have hchar : isWordChar c = true := h'.left s.stop c (by omega) hout hc
  have htail := isWordTail_of_isWordChar hchar
  rw [h.after c hc] at htail
  exact absurd htail (by decide)

variable (hle : column ≤ column')
include hle

theorem stop_eq (hin : column' ≤ s.stop) : s'.stop = s.stop := by
  refine Nat.le_antisymm ?_ (h.stop_mono h' hle)
  by_contra hlt
  -- the second word would go on over the end of the first
  obtain ⟨c, hc⟩ := h'.exists_char (Nat.lt_of_not_le hlt)
  have htail : isWordTail c = true := h'.right s.stop c hin (by omega) hc
  rw [h.after c hc] at htail
  exact absurd htail (by decide)

/-- Between the columns a word begins behind the last apostrophe, or where it has begun before. -/
theorem start_cases (hin : column' ≤ s.stop) :
    ((∀ i, s.start ≤ i → i < column' → code[i]? ≠ some '\'') ∧ s'.start = s.start) ∨
    ∃ i, s.start ≤ i ∧ i < column' ∧ code[i]? = some '\'' ∧
      (∀ j, i < j → j < column' → code[j]? ≠ some '\'') ∧ s'.start = i + 1 := by
  have hword : ∀ j, s'.start ≤ j → j < column' → code[j]? ≠ some '\'' := by
    intro j hj hcolumn hc
    have hchar := h'.left j _ hj hcolumn hc
    exact absurd hchar (by decide)
  obtain heq | hlt := Nat.eq_or_lt_of_le (h.start_mono h' hle)
  · rw [heq]
    exact .inl ⟨hword, rfl⟩
  · -- what stops the scan inside of the first word can only be an apostrophe
    obtain ⟨i, hi⟩ : ∃ i, i + 1 = s'.start := ⟨s'.start - 1, by omega⟩
    have hcolumn : i < column' := by have := h'.start_le; omega
    obtain ⟨c, hc⟩ := h.exists_char (Nat.lt_of_lt_of_le hcolumn hin)
    have htail := h.isWordTail_of_mem (by omega) (Nat.lt_of_lt_of_le hcolumn hin) hc
    obtain rfl := eq_apostrophe htail (h'.before i c hi hc)
    exact .inr ⟨i, by omega, hcolumn, hc, fun j hj => hword j (by omega), hi.symm⟩

end

end Around

theorem getElem?_stripComment {marker text : Text} {i : Nat}
    (hi : i < (stripComment marker text).length) : (stripComment marker text)[i]? = text[i]? := by
  obtain ⟨blanks, comment, hline, -, -⟩ := exists_comment marker text
  conv_rhs => rw [hline, List.append_assoc]
  rw [List.getElem?_append_left hi]

theorem wordAt?_from_start {marker text : Text} {column : Nat} {w : Word}
    (h : wordAt? marker text column = some w) : wordAt? marker text w.span.start = some w :=
  wordAt?_eq_some_iff.2 ⟨(around_of_wordAt? h).from_start, text_of_wordAt? h⟩

/-- With the column the word moves to the right. Inside of a word it keeps the end, and begins behind
the last apostrophe that was passed; past the end it is another word, with a character between that
is in neither. A word is found again at the column where it begins. -/
theorem wordAt?_moves {marker text : Text} {column column' : Nat} {w w' : Word}
    (hle : column ≤ column') (h : wordAt? marker text column = some w)
    (h' : wordAt? marker text column' = some w') :
    (w.span.start ≤ w'.span.start ∧ w.span.stop ≤ w'.span.stop) ∧
    (column' ≤ w.span.stop → w'.span.stop = w.span.stop ∧
      (((∀ i, w.span.start ≤ i → i < column' → text[i]? ≠ some '\'') ∧
          w'.span.start = w.span.start) ∨
        ∃ i, w.span.start ≤ i ∧ i < column' ∧ text[i]? = some '\'' ∧
          (∀ j, i < j → j < column' → text[j]? ≠ some '\'') ∧ w'.span.start = i + 1)) ∧
    (w.span.stop < column' → w.span.stop < w'.span.start ∧
      ∃ c, text[w.span.stop]? = some c ∧ isWordTail c = false) ∧
    wordAt? marker text w.span.start = some w := by
  have haround := around_of_wordAt? h
  have haround' := around_of_wordAt? h'
  have hcode : ∀ i, i < column' → (stripComment marker text)[i]? = text[i]? := fun i hi =>
    getElem?_stripComment (Nat.lt_of_lt_of_le hi (haround'.le_stop.trans haround'.stop_le))
  refine ⟨⟨haround.start_mono haround' hle, haround.stop_mono haround' hle⟩, fun hin => ?_,
    fun hout => ?_, wordAt?_from_start h⟩
  · refine ⟨haround.stop_eq haround' hle hin, ?_⟩
    obtain ⟨hnone, hstart⟩ | ⟨i, hfrom, hto, hi, hlast, hstart⟩ :=
      haround.start_cases haround' hle hin
    · refine .inl ⟨fun i hfrom hto => ?_, hstart⟩
      rw [← hcode i hto]
      exact hnone i hfrom hto
    · refine .inr ⟨i, hfrom, hto, ?_, fun j hj hto' => ?_, hstart⟩
      · rw [← hcode i hto]
        exact hi
      · rw [← hcode j hto']
        exact hlast j hj hto'
  · rw [← hcode _ hout]
    exact haround.stop_lt_start haround' hout

theorem wordAt?_moves_apostrophes :
    let text : Text := "é foo'ba'r2 -- x"
    wordAt? "--" text 3 = some ⟨"foo'ba'r2", ⟨2, 11⟩⟩ ∧
    wordAt? "--" text 10 = some ⟨"r2", ⟨9, 11⟩⟩ ∧
    (∃ i, 2 ≤ i ∧ i < 10 ∧ text[i]? = some '\'' ∧
      (∀ j, i < j → j < 10 → text[j]? ≠ some '\'') ∧ 9 = i + 1) ∧
    wordAt? "--" text 2 = some ⟨"foo'ba'r2", ⟨2, 11⟩⟩ := by
  intro text
  have h : wordAt? "--" text 3 = some ⟨"foo'ba'r2", ⟨2, 11⟩⟩ := by decide
  have h' : wordAt? "--" text 10 = some ⟨"r2", ⟨9, 11⟩⟩ := by decide
  obtain ⟨-, hinside, -, hagain⟩ := wordAt?_moves (by decide) h h'
  obtain ⟨-, ⟨-, hstart⟩ | hpassed⟩ := hinside (by decide)
  · exact absurd hstart (by decide)
  · exact ⟨h, h', hpassed, hagain⟩

end Handbook.Cursor
