import Handbook.Markup
import Handbook.Proofs.Text.BlankTail
import Handbook.Proofs.Text.Breaks

namespace Handbook

namespace Markup

/-- The lines of some code that stand in its block. -/
def keptLines (code : Text) : List Text := Text.dropBlankTail (Text.unifiedLines code)

theorem blockBody_eq (code : Text) : blockBody code = Text.ofLines (keptLines code) := rfl

theorem mem_unifiedLines {code l : Text} (h : l ∈ keptLines code) : l ∈ Text.unifiedLines code :=
  (Text.longestRun_dropBlankTail _).leads.subset h

theorem not_mem_blockBody (code : Text) : '\r' ∉ blockBody code := by
  refine Text.not_mem_intercalate (by decide) fun l hl hmem => ?_
  exact Text.not_mem_unifyBreaks code (Text.mem_of_mem_lines (mem_unifiedLines hl) hmem)

theorem lines_blockBody (code : Text) :
    Text.lines (blockBody code) = if keptLines code = [] then [[]] else keptLines code := by
  split
  · next hnone => rw [blockBody_eq, hnone]; rfl
  · next hsome =>
    refine Text.lines_ofLines hsome fun l hl => ?_
    exact Text.not_mem_of_mem_splitOn (mem_unifiedLines hl)

theorem keptLines_blockBody (code : Text) : keptLines (blockBody code) = keptLines code := by
  have hkept : keptLines (blockBody code) = Text.dropBlankTail (Text.lines (blockBody code)) := by
    rw [keptLines, Text.unifiedLines_eq_lines (not_mem_blockBody code)]
  rw [hkept, lines_blockBody]
  split
  · next hnone => rw [hnone]; rfl
  · exact List.rdropWhile_idempotent Text.allBlank _

theorem blockBody_blockBody (code : Text) : blockBody (blockBody code) = blockBody code := by
  rw [blockBody_eq, keptLines_blockBody, ← blockBody_eq]

theorem blockBody_eq_iff {code other : Text} :
    blockBody code = blockBody other ↔ keptLines code = keptLines other := by
  constructor
  · intro h
    rw [← keptLines_blockBody code, h, keptLines_blockBody]
  · intro h
    rw [blockBody_eq, h, ← blockBody_eq]

theorem codeBlock_eq_iff {language code other : Text} :
    codeBlock language code = codeBlock language other ↔ blockBody code = blockBody other := by
  rw [codeBlock, codeBlock, mk.injEq, List.append_left_inj, List.append_left_inj,
    List.append_right_inj]

/-- A language without blanks leaves the opening fence on a line of its own. -/
theorem unifiedLines_codeBlock {language : Text} (h : ∀ c ∈ language, Text.isBlank c = false)
    (code : Text) : Text.unifiedLines (codeBlock language code).source =
      (fence ++ language) :: (Text.lines (blockBody code) ++ [fence]) := by
  have hopening : ∀ c, Text.isBlank c = true → c ∉ fence → c ∉ fence ++ language := by
    intro c hblank hfence hmem
    obtain hmem | hmem := List.mem_append.1 hmem
    · exact hfence hmem
    · exact absurd hblank (by simp [h c hmem])
  have hreturn : '\r' ∉ (codeBlock language code).source := by
    have hopening' := hopening '\r' (by decide) (by decide)
    simp only [codeBlock, List.mem_append, not_or] at hopening' ⊢
    exact ⟨⟨⟨⟨hopening', by decide⟩, not_mem_blockBody code⟩, by decide⟩, by decide⟩
  rw [Text.unifiedLines_eq_lines hreturn, codeBlock, Text.lines_append_lineBreak,
    Text.lines_append_lineBreak, Text.lines_eq_singleton (hopening '\n' (by decide) (by decide))]
  rfl

/-- A block is its opening fence, the longest written run of the unified code and the closing fence.
The run makes the same block again, and codes make the same block when they differ only in blank lines
at the end. -/
theorem codeBlock_canonical (language code : Text) :
    (∃ run, Text.LongestRun (Text.unifiedLines code) run ∧
      codeBlock language code =
        ⟨fence ++ language ++ Text.lineBreak ++ Text.ofLines run ++ Text.lineBreak ++ fence⟩ ∧
      '\r' ∉ Text.ofLines run ∧
      codeBlock language (Text.ofLines run) = codeBlock language code) ∧
    ∀ other, codeBlock language code = codeBlock language other ↔
      Text.SameUpToBlankTail (Text.unifiedLines code) (Text.unifiedLines other) := by
  constructor
  · refine ⟨keptLines code, Text.longestRun_dropBlankTail _, rfl, not_mem_blockBody code, ?_⟩
    rw [codeBlock_eq_iff]
    exact blockBody_blockBody code
  · intro other
    rw [codeBlock_eq_iff, blockBody_eq_iff]
    exact Text.dropBlankTail_eq_iff

example : codeBlock "haskell" "one\r\n\r\ntwo  \r  \n\t\n" = ⟨"```haskell\none\n\ntwo  \n```"⟩ := by
  decide +kernel

end Markup

end Handbook
