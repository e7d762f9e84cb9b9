import Handbook.Proofs.Text.Lines
import Handbook.Proofs.Text.Pieces

namespace Handbook.Text

/-- From left to right: a carriage return with the line feed behind it, or without one, becomes a line
feed, and every other character stays. -/
def scanBreaks : Text → Text
  | '\r' :: '\n' :: r => '\n' :: scanBreaks r
  | '\r' :: r => '\n' :: scanBreaks r
  | c :: r => c :: scanBreaks r
  | [] => []

theorem scanBreaks_pair (r : Text) : scanBreaks ('\r' :: '\n' :: r) = '\n' :: scanBreaks r := rfl

theorem scanBreaks_return {r : Text} (h : ∀ r', r ≠ '\n' :: r') :
    scanBreaks ('\r' :: r) = '\n' :: scanBreaks r := by
  rw [scanBreaks]
  exact h

theorem scanBreaks_cons {c : Char} (hc : c ≠ '\r') (r : Text) :
    scanBreaks (c :: r) = c :: scanBreaks r := by
  rw [scanBreaks]
  · rintro r' rfl
    exact absurd rfl hc
  · rintro rfl
    exact hc rfl

def unifiedLines (t : Text) : List Text := lines (unifyBreaks t)

theorem unifyBreaks_eq (t : Text) :
    unifyBreaks t = (replace ['\r', '\n'] ['\n'] t).map fun c => if c = '\r' then '\n' else c :=
  ofLines_lines _

/-- After the first replacement a return is left only where no feed came behind it, so the second one
finds what the scan finds. -/
theorem unifyBreaks_eq_scanBreaks (t : Text) : unifyBreaks t = scanBreaks t := by
  have hpair : ['\r', '\n'] ≠ ([] : Text) := List.cons_ne_nil _ _
  rw [unifyBreaks_eq]
  -- the cases are a pair of breaks, a return alone, any other character and the end
  induction t using scanBreaks.induct with
  | case1 r ih =>
    have happend : '\r' :: '\n' :: r = ['\r', '\n'] ++ r := rfl
    rw [scanBreaks_pair, ← ih, happend, replace_append hpair, List.map_append]
    rfl
  | case2 r hr ih =>
    have hno : ¬ ['\r', '\n'] <+: '\r' :: r := by
      rintro ⟨x, hx⟩
      exact hr x (List.cons.inj hx).2.symm
    rw [scanBreaks_return hr, ← ih, replace_cons hno, List.map_cons]
    rfl
  | case3 c r _ hc ih =>
    have hc' : c ≠ '\r' := fun h => hc h
    have hno : ¬ ['\r', '\n'] <+: c :: r := by
      rintro ⟨x, hx⟩
      exact hc' (List.cons.inj hx).1.symm
    rw [scanBreaks_cons hc', ← ih, replace_cons hno, List.map_cons, if_neg hc']
  | case4 => rw [replace_nil hpair]; rfl

theorem not_mem_scanBreaks (t : Text) : '\r' ∉ scanBreaks t := by
  induction t using scanBreaks.induct with
  | case1 r ih => simpa [scanBreaks_pair] using ih
  | case2 r hr ih => simpa [scanBreaks_return hr] using ih
  | case3 c r _ hc ih =>
    have hc' : '\r' ≠ c := fun h => hc h.symm
    simpa [scanBreaks_cons hc'.symm, hc'] using ih
  | case4 => exact List.not_mem_nil

theorem scanBreaks_eq_self {t : Text} (h : '\r' ∉ t) : scanBreaks t = t := by
  induction t with
  | nil => rfl
  | cons c t ih =>
    have hc : c ≠ '\r' := fun hc => h (hc ▸ List.mem_cons_self)
    rw [scanBreaks_cons hc, ih fun ht => h (List.mem_cons_of_mem c ht)]

theorem not_mem_unifyBreaks (t : Text) : '\r' ∉ unifyBreaks t := by
  rw [unifyBreaks_eq_scanBreaks]
  exact not_mem_scanBreaks t

theorem unifyBreaks_eq_self {t : Text} (h : '\r' ∉ t) : unifyBreaks t = t := by
  rw [unifyBreaks_eq_scanBreaks, scanBreaks_eq_self h]

/-- The scan looks no further than one character ahead, so only a pair of breaks must not be cut. -/
theorem scanBreaks_append {a b : Text} (h : ¬ (a.getLast? = some '\r' ∧ b.head? = some '\n')) :
    scanBreaks (a ++ b) = scanBreaks a ++ scanBreaks b := by
  have hrest : ∀ {c : Char} {r : Text}, ¬ ((c :: r).getLast? = some '\r' ∧ b.head? = some '\n') →
      ¬ (r.getLast? = some '\r' ∧ b.head? = some '\n') := by
    intro c r h hr
    exact h ⟨by rw [List.getLast?_cons, hr.1]; rfl, hr.2⟩
  induction a using scanBreaks.induct with
  | case1 r ih =>
    rw [List.cons_append, List.cons_append, scanBreaks_pair, scanBreaks_pair, ih (hrest (hrest h)),
      List.cons_append]
  | case2 r hr ih =>
    have hfeed : ∀ r', r ++ b ≠ '\n' :: r' := by
      intro r' heq
      cases r with
      | nil => exact h ⟨rfl, by rw [← List.nil_append b, heq]; rfl⟩
      | cons d r => exact hr r (by rw [(List.cons.inj heq).1])
    rw [List.cons_append, scanBreaks_return hfeed, scanBreaks_return hr, ih (hrest h),
      List.cons_append]
  | case3 c r _ hc ih =>
    have hc' : c ≠ '\r' := fun h => hc h
    rw [List.cons_append, scanBreaks_cons hc', scanBreaks_cons hc', ih (hrest h), List.cons_append]
  | case4 => rfl

theorem unifiedLines_eq_lines {t : Text} (h : '\r' ∉ t) : unifiedLines t = lines t := by
  rw [unifiedLines, unifyBreaks_eq_self h]

theorem unifiedLines_append_lineBreak {a : Text} (h : a.getLast? ≠ some '\r') (b : Text) :
    unifiedLines (a ++ lineBreak ++ b) = unifiedLines a ++ unifiedLines b := by
  have hfeed : scanBreaks (lineBreak ++ b) = lineBreak ++ scanBreaks b := scanBreaks_cons (by decide) b
  unfold unifiedLines
  rw [unifyBreaks_eq_scanBreaks, unifyBreaks_eq_scanBreaks, unifyBreaks_eq_scanBreaks, List.append_assoc,
    scanBreaks_append fun hpair => h hpair.1, hfeed, ← List.append_assoc, lines_append_lineBreak]

theorem unifiedLines_ofLines {ts : List Text} (hne : ts ≠ []) (h : ∀ t ∈ ts, t.getLast? ≠ some '\r') :
    unifiedLines (ofLines ts) = ts.flatMap unifiedLines := by
  induction ts with
  | nil => exact absurd rfl hne
  | cons t ts ih =>
    rw [List.flatMap_cons]
    cases ts with
    | nil => rw [ofLines, List.intercalate_singleton, List.flatMap_nil, List.append_nil]
    | cons t' ts =>
      rw [ofLines, List.intercalate_cons_cons, unifiedLines_append_lineBreak (h t List.mem_cons_self),
        ← ih (List.cons_ne_nil t' ts) fun u hu => h u (List.mem_cons_of_mem t hu), ofLines]

theorem length_scanBreaks_cut (a b : Text) :
    (scanBreaks (a ++ ['\r'])).length + (scanBreaks ('\n' :: b)).length =
      (scanBreaks (a ++ ['\r'] ++ '\n' :: b)).length + 1 := by
  have hfeed : ¬ (a.getLast? = some '\r' ∧ ['\r'].head? = some '\n') := by simp
  have hpair : ¬ (a.getLast? = some '\r' ∧ ('\r' :: '\n' :: b).head? = some '\n') := by simp
  rw [List.append_assoc, List.singleton_append, scanBreaks_append hfeed, scanBreaks_append hpair,
    scanBreaks_pair, scanBreaks_cons (by decide : '\n' ≠ '\r') b]
  have hreturn : scanBreaks ['\r'] = ['\n'] := rfl
  rw [hreturn]
  simp only [List.length_append, List.length_cons, List.length_nil]
  omega

/-- Unifying breaks is one scan of the text. It leaves no carriage return, so doing it again changes
nothing, and two parts can be done one by one unless they cut a pair of breaks. -/
theorem unifyBreaks_scans (t : Text) :
    unifyBreaks t = scanBreaks t ∧ '\r' ∉ unifyBreaks t ∧
    unifyBreaks (unifyBreaks t) = unifyBreaks t ∧
    ∀ u, unifyBreaks (t ++ u) = unifyBreaks t ++ unifyBreaks u ↔
      ¬ (t.getLast? = some '\r' ∧ u.head? = some '\n') := by
  refine ⟨unifyBreaks_eq_scanBreaks t, not_mem_unifyBreaks t,
    unifyBreaks_eq_self (not_mem_unifyBreaks t), fun u => ?_⟩
  rw [unifyBreaks_eq_scanBreaks, unifyBreaks_eq_scanBreaks, unifyBreaks_eq_scanBreaks]
  constructor
  · rintro heq ⟨ht, hu⟩
    obtain ⟨a, rfl⟩ := List.getLast?_eq_some_iff.1 ht
    obtain ⟨b, rfl⟩ := List.head?_eq_some_iff.1 hu
    have hlength := length_scanBreaks_cut a b
    rw [heq, List.length_append] at hlength
    omega
  · exact scanBreaks_append

end Handbook.Text
