import Handbook.Proofs.Cursor.Comment

namespace Handbook.Cursor

open Text

theorem isWordChar_iff {c : Char} : isWordChar c = true ↔
    'A' ≤ c ∧ c ≤ 'Z' ∨ 'a' ≤ c ∧ c ≤ 'z' ∨ '0' ≤ c ∧ c ≤ '9' ∨ c = '_' := by
  have hletter : c.isAlpha = true ↔ 'A' ≤ c ∧ c ≤ 'Z' ∨ 'a' ≤ c ∧ c ≤ 'z' := by
    change (decide ('A' ≤ c ∧ c ≤ 'Z') || (decide ('a' ≤ c) && decide (c ≤ 'z'))) = true ↔ _
    simp
  have hdigit : c.isDigit = true ↔ '0' ≤ c ∧ c ≤ '9' := by
    change (decide ('0' ≤ c) && decide (c ≤ '9')) = true ↔ _
    simp
  change ((c.isAlpha || c.isDigit) || c == '_') = true ↔ _
  simp only [Bool.or_eq_true, hletter, hdigit, beq_iff_eq, or_assoc]

theorem isWordTail_iff {c : Char} : isWordTail c = true ↔ isWordChar c = true ∨ c = '\'' := by
  rw [isWordTail, Bool.or_eq_true, beq_iff_eq]

theorem not_isBlank_of_isWordTail {c : Char} (h : isWordTail c) : isBlank c = false := by
  have hle : ∀ a b : Char, a ≤ b ↔ a.toNat ≤ b.toNat := fun _ _ => Iff.rfl
  have hrange : c.toNat = 39 ∨ 48 ≤ c.toNat ∧ c.toNat ≤ 122 := by
    simp only [isWordTail_iff, isWordChar_iff, hle, Char.reduceToNat] at h
    obtain (h | h | h | rfl) | rfl := h
    · omega
    · omega
    · omega
    · decide
    · decide
  rw [← Bool.not_eq_true]
  intro hb
  simp only [isBlank, blanks, List.contains_eq_mem, List.mem_cons, List.not_mem_nil, or_false,
    decide_eq_true_eq] at hb
  omega

theorem not_isWordTail_of_isBlank {c : Char} (h : isBlank c) : isWordTail c = false := by
  rw [← Bool.not_eq_true]
  intro ht
  rw [not_isBlank_of_isWordTail ht] at h
  exact absurd h (by decide)

theorem wordAt?_eq (marker line : Text) (column : Nat) :
    let code := stripComment marker line
    let left := (code.take column).rtakeWhile isWordChar
    let right := (code.drop column).takeWhile isWordTail
    wordAt? marker line column = if code.length < column then none
      else some ⟨left ++ right, ⟨column - left.length, column + right.length⟩⟩ := rfl

/-- The comment of a line and the blanks at its end have no part in the word. -/
theorem wordAt?_congr {marker line line' : Text}
    (h : stripComment marker line' = stripComment marker line) (column : Nat) :
    wordAt? marker line' column = wordAt? marker line column := by
  rw [wordAt?_eq, wordAt?_eq, h]

/-- A found word has word characters up to the column and tail characters from there on, and no further
ones stand beside it. -/
theorem exists_parts {marker line : Text} {column : Nat} {w : Word}
    (h : wordAt? marker line column = some w) :
    ∃ before left right after, stripComment marker line = before ++ left ++ right ++ after ∧
      column = before.length + left.length ∧
      w = ⟨left ++ right, ⟨before.length, before.length + left.length + right.length⟩⟩ ∧
      (∀ c ∈ left, isWordChar c) ∧ (∀ c ∈ right, isWordTail c) ∧
      (∀ c ∈ before.getLast?, isWordChar c = false) ∧
      (∀ c ∈ after.head?, isWordTail c = false) := by
  rw [wordAt?_eq] at h
  generalize stripComment marker line = code at h ⊢
  let left := (code.take column).rtakeWhile isWordChar
  let before := (code.take column).rdropWhile isWordChar
  let right := (code.drop column).takeWhile isWordTail
  let after := (code.drop column).dropWhile isWordTail
  have htake : before ++ left = code.take column := List.rdropWhile_append_rtakeWhile
  have hdrop : right ++ after = code.drop column := List.takeWhile_append_dropWhile
  split at h
  · exact absurd h (by simp)
  · next hcolumn =>
    have hlen : before.length + left.length = column := by
      rw [← List.length_append, htake, List.length_take]
      omega
    have hstart : column - left.length = before.length := by omega
    have hcode : code = before ++ left ++ right ++ after := by
      rw [List.append_assoc, htake, hdrop, List.take_append_drop]
    refine ⟨before, left, right, after, hcode, hlen.symm, ?_, fun c hc => ?_, fun c hc => ?_,
      fun c hc => ?_, fun c hc => ?_⟩
    · rw [hlen, ← hstart]
      exact (Option.some.inj h).symm
    · exact List.mem_rtakeWhile_imp hc
    · exact List.mem_takeWhile_imp hc
    · exact not_of_mem_getLast?_rdropWhile hc
    · exact not_of_mem_head?_dropWhile hc

theorem exists_around_word {marker line : Text} {column : Nat} {w : Word}
    (h : wordAt? marker line column = some w) :
    ∃ before after, stripComment marker line = before ++ w.text ++ after ∧
      w.span = ⟨before.length, before.length + w.text.length⟩ ∧
      (∀ c ∈ before.getLast?, isWordChar c = false) ∧
      (∀ c ∈ after.head?, isWordTail c = false) := by
  obtain ⟨before, left, right, after, hcode, -, rfl, -, -, hbefore, hafter⟩ := exists_parts h
  refine ⟨before, after, ?_, ?_, hbefore, hafter⟩
  · rw [hcode, List.append_assoc before]
  · rw [List.length_append, Nat.add_assoc]

theorem wordAt?_of_eq_append {marker line before word after : Text}
    (h : stripComment marker line = before ++ word ++ after)
    (hbefore : ∀ c ∈ before.getLast?, isWordChar c = false) (hword : ∀ c ∈ word, isWordTail c)
    (hafter : ∀ c ∈ after.head?, isWordTail c = false) :
    wordAt? marker line before.length =
      some ⟨word, ⟨before.length, before.length + word.length⟩⟩ := by
  have hleft : before.rtakeWhile isWordChar = [] := by
    rw [List.rtakeWhile, takeWhile_eq_nil, List.reverse_nil]
    rwa [List.head?_reverse]
  have hright : (word ++ after).takeWhile isWordTail = word := by
    rw [List.takeWhile_append_of_pos hword, takeWhile_eq_nil hafter, List.append_nil]
  rw [wordAt?_eq, h, List.append_assoc, List.take_left, List.drop_left, hleft, hright]
  rw [if_neg (by simp)]
  simp

theorem not_isWordTail_of_mem_head? {marker after blanks comment : Text}
    (hmarker : ∀ c ∈ marker, isWordTail c = false) (hafter : ∀ c ∈ after.head?, isWordTail c = false)
    (hblanks : ∀ c ∈ blanks, isBlank c) (hcomment : comment = [] ∨ marker ≠ [] ∧ marker <+: comment) :
    ∀ c ∈ (after ++ blanks ++ comment).head?, isWordTail c = false := by
  intro c hc
  cases after with
  | cons a after => exact hafter c (by simpa using hc)
  | nil =>
    cases blanks with
    | cons b blanks =>
      obtain rfl : b = c := by simpa using hc
      exact not_isWordTail_of_isBlank (hblanks b (by simp))
    | nil =>
      obtain rfl | ⟨hm, tail, rfl⟩ := hcomment
      · exact absurd hc (by simp)
      · obtain ⟨m, ms, rfl⟩ := List.exists_cons_of_ne_nil hm
        obtain rfl : m = c := by simpa using hc
        exact hmarker m (by simp)

/-- Behind a located word the whole line goes on with no character of a word, be it code, the blanks
before a comment or the comment. -/
theorem exists_rest_of_wordAt? {marker line : Text} {column : Nat} {w : Word}
    (hmarker : ∀ c ∈ marker, isWordTail c = false) (h : wordAt? marker line column = some w) :
    ∃ before rest, line = before ++ w.text ++ rest ∧ before.length = w.span.start ∧
      w.span.stop = w.span.start + w.text.length ∧ (marker ≠ [] → ¬ marker <:+: before) ∧
      (∀ c ∈ before.getLast?, isWordChar c = false) ∧ ∀ c ∈ rest.head?, isWordTail c = false := by
  obtain ⟨before, after, hcode, hspan, hbefore, hafter⟩ := exists_around_word h
  obtain ⟨blanks, comment, hline, hblanks, hcomment⟩ := exists_comment marker line
  refine ⟨before, after ++ blanks ++ comment, ?_, ?_, ?_, fun hm hin => ?_, hbefore, ?_⟩
  · calc
      line = stripComment marker line ++ blanks ++ comment := hline
      _ = before ++ w.text ++ (after ++ blanks ++ comment) := by rw [hcode]; simp
  · rw [hspan]
  · rw [hspan]
  · -- a comment in front would have taken the word off with it
    apply not_infix_stripComment hm line
    rw [hcode, List.append_assoc]
    exact hin.trans (List.prefix_append before _).isInfix
  · exact not_isWordTail_of_mem_head? hmarker hafter hblanks hcomment

theorem wordAt?_append {marker before word rest : Text} (hmarker : ∀ c ∈ marker, isWordTail c = false)
    (hfree : marker ≠ [] → ¬ marker <:+: before)
    (hbefore : ∀ c ∈ before.getLast?, isWordChar c = false) (hne : word ≠ [])
    (hword : ∀ c ∈ word, isWordTail c) (hrest : ∀ c ∈ rest.head?, isWordTail c = false) :
    wordAt? marker (before ++ word ++ rest) before.length =
      some ⟨word, ⟨before.length, before.length + word.length⟩⟩ := by
  -- neither the marker nor trimming can touch the word
  have hkept : ∀ c ∈ word, c ∉ marker ∧ isBlank c = false := by
    intro c hc
    refine ⟨fun hm => ?_, not_isBlank_of_isWordTail (hword c hc)⟩
    have hno := hmarker c hm
    rw [hword c hc] at hno
    exact absurd hno (by decide)
  obtain ⟨z, ⟨z', hz⟩, hcode⟩ := stripComment_append hfree hne hkept rest
  apply wordAt?_of_eq_append hcode hbefore hword
  intro c hc
  apply hrest c
  rw [← hz, Option.mem_def, List.head?_append, Option.mem_def.1 hc]
  rfl

end Handbook.Cursor
