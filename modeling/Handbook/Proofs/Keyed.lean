import Mathlib.Data.List.Basic
import Mathlib.Data.List.Induction

namespace Handbook.Keyed

variable {κ ν : Type} (same : κ → κ → Bool)

/-- The value is put at the first key that is the same, or behind all. -/
def put (key : κ) (value : ν) : List (κ × ν) → List (κ × ν)
  | [] => [(key, value)]
  | (k, v) :: es => if same k key then (k, value) :: es else (k, v) :: put key value es

def putAll (pairs : List (κ × ν)) : List (κ × ν) :=
  pairs.foldl (fun es p => put same p.1 p.2 es) []

def firsts (keys : List κ) : List κ := keys.eraseDupsBy fun later earlier => same earlier later

def last? (pairs : List (κ × ν)) (key : κ) : Option ν :=
  (pairs.findRev? fun p => same key p.1).map Prod.snd

/-- The keys in the order in which they first come, each with its last value. -/
structure LastValues (pairs entries : List (κ × ν)) : Prop where
  keys : entries.map Prod.fst = firsts same (pairs.map Prod.fst)
  values : ∀ e ∈ entries, last? same pairs e.1 = some e.2

/-- Keys of which two are the same when both are the same as a third. -/
structure Coherent (keys : List κ) : Prop where
  self : ∀ a ∈ keys, same a a = true
  common : ∀ a ∈ keys, ∀ b ∈ keys, ∀ c ∈ keys, same a c = true → same b c = true → same a b = true

theorem Coherent.mono {keys keys' : List κ} (h : Coherent same keys') (hkeys : keys ⊆ keys') :
    Coherent same keys where
  self a ha := h.self a (hkeys ha)
  common a ha b hb c hc := h.common a (hkeys ha) b (hkeys hb) c (hkeys hc)

theorem firsts_concat (keys : List κ) (key : κ) :
    firsts same (keys ++ [key]) =
      if (firsts same keys).any (same · key) then firsts same keys
      else firsts same keys ++ [key] := by
  let r := fun later earlier => same earlier later
  -- the keys seen so far are kept in reverse
  have hloop : ∀ seen, List.eraseDupsBy.loop r (keys ++ [key]) seen =
      if (List.eraseDupsBy.loop r keys seen).any (same · key) then List.eraseDupsBy.loop r keys seen
      else List.eraseDupsBy.loop r keys seen ++ [key] := by
    induction keys with
    | nil =>
      intro seen
      cases h : seen.any (same · key) <;> simp [List.eraseDupsBy.loop, r, h]
    | cons k ks ih =>
      intro seen
      rw [List.cons_append, List.eraseDupsBy.loop, List.eraseDupsBy.loop]
      cases seen.any (r k) <;> exact ih _
  exact hloop []

theorem pairwise_firsts (keys : List κ) :
    (firsts same keys).Pairwise fun a b => same a b = false := by
  induction keys using List.reverseRecOn with
  | nil => exact .nil
  | append_singleton keys key ih =>
    rw [firsts_concat]
    split
    · exact ih
    · next hnew =>
      rw [List.pairwise_append]
      exact ⟨ih, List.pairwise_singleton _ _, by simpa using hnew⟩

theorem mem_of_mem_firsts {keys : List κ} {k : κ} (h : k ∈ firsts same keys) : k ∈ keys := by
  induction keys using List.reverseRecOn with
  | nil => exact h
  | append_singleton keys key ih =>
    rw [firsts_concat] at h
    split at h
    · exact List.mem_append_left _ (ih h)
    · obtain h | h := List.mem_append.1 h
      · exact List.mem_append_left _ (ih h)
      · exact List.mem_append_right _ h

theorem last?_concat (pairs : List (κ × ν)) (p : κ × ν) (key : κ) :
    last? same (pairs ++ [p]) key = if same key p.1 then some p.2 else last? same pairs key := by
  rw [last?, last?, List.findRev?_eq_find?_reverse, List.findRev?_eq_find?_reverse,
    List.reverse_append, List.reverse_singleton, List.singleton_append, List.find?_cons]
  cases same key p.1 <;> rfl

theorem exists_of_last? {pairs : List (κ × ν)} {key : κ} {value : ν}
    (h : last? same pairs key = some value) :
    ∃ p ∈ pairs, same key p.1 = true ∧ p.2 = value := by
  obtain ⟨p, hp, rfl⟩ := Option.map_eq_some_iff.1 h
  rw [List.findRev?_eq_find?_reverse] at hp
  have hkey := List.find?_some hp
  exact ⟨p, List.mem_reverse.1 (List.mem_of_find?_eq_some hp), hkey, rfl⟩

/-- Entries are determined by their keys and by what stands under each of them. -/
theorem eq_of_keys {es es' : List (κ × ν)} (value? : κ → Option ν)
    (hkeys : es.map Prod.fst = es'.map Prod.fst) (h : ∀ e ∈ es, value? e.1 = some e.2)
    (h' : ∀ e ∈ es', value? e.1 = some e.2) : es = es' := by
  induction es generalizing es' with
  | nil => exact (List.map_eq_nil_iff.1 hkeys.symm).symm
  | cons e es ih =>
    cases es' with
    | nil => exact absurd hkeys (by simp)
    | cons e' es' =>
      rw [List.map_cons, List.map_cons, List.cons.injEq] at hkeys
      obtain ⟨hkey, hkeys⟩ := hkeys
      obtain ⟨he, hes⟩ := List.forall_mem_cons.1 h
      obtain ⟨he', hes'⟩ := List.forall_mem_cons.1 h'
      have hvalue : e.2 = e'.2 := by
        rw [hkey, he'] at he
        exact (Option.some.inj he).symm
      rw [Prod.ext hkey hvalue, ih hkeys hes hes']

theorem putAll_concat (pairs : List (κ × ν)) (p : κ × ν) :
    putAll same (pairs ++ [p]) = put same p.1 p.2 (putAll same pairs) := List.foldl_concat ..

/-- All that putting in a value can do: the key is new and goes behind all others, or the first key
that is the same takes the value. -/
theorem put_cases (key : κ) (value : ν) (es : List (κ × ν)) :
    ((∀ e ∈ es, same e.1 key = false) ∧ put same key value es = es ++ [(key, value)]) ∨
    ∃ front k v back, es = front ++ (k, v) :: back ∧ (∀ e ∈ front, same e.1 key = false) ∧
      same k key = true ∧ put same key value es = front ++ (k, value) :: back := by
  induction es with
  | nil => exact .inl ⟨by simp, rfl⟩
  | cons e es ih =>
    obtain ⟨k, v⟩ := e
    cases hk : same k key with
    | true => exact .inr ⟨[], k, v, es, rfl, by simp, hk, by simp [put, hk]⟩
    | false =>
      obtain ⟨hnew, hput⟩ | ⟨front, k', v', back, rfl, hfront, hk', hput⟩ := ih
      · exact .inl ⟨List.forall_mem_cons.2 ⟨hk, hnew⟩, by simp [put, hk, hput]⟩
      · exact .inr ⟨(k, v) :: front, k', v', back, rfl, List.forall_mem_cons.2 ⟨hk, hfront⟩, hk',
          by simp [put, hk, hput]⟩

theorem keys_put (key : κ) (value : ν) (es : List (κ × ν)) :
    (put same key value es).map Prod.fst =
      if (es.map Prod.fst).any (same · key) then es.map Prod.fst else es.map Prod.fst ++ [key] := by
  obtain ⟨hnew, hput⟩ | ⟨front, k, v, back, rfl, -, hk, hput⟩ := put_cases same key value es
  · have hnone : (es.map Prod.fst).any (same · key) = false := by simpa using hnew
    simp [hput, hnone]
  · simp [hput, hk]

theorem keys_putAll (pairs : List (κ × ν)) :
    (putAll same pairs).map Prod.fst = firsts same (pairs.map Prod.fst) := by
  induction pairs using List.reverseRecOn with
  | nil => rfl
  | append_singleton pairs p ih =>
    rw [putAll_concat, keys_put, ih, List.map_append, List.map_singleton, firsts_concat]

theorem pairwise_putAll (pairs : List (κ × ν)) :
    (putAll same pairs).Pairwise fun a b => same a.1 b.1 = false := by
  rw [← List.pairwise_map (f := Prod.fst) (R := fun a b => same a b = false), keys_putAll]
  exact pairwise_firsts same _

theorem mem_keys_putAll {pairs : List (κ × ν)} {e : κ × ν} (h : e ∈ putAll same pairs) :
    e.1 ∈ pairs.map Prod.fst := by
  apply mem_of_mem_firsts same
  rw [← keys_putAll]
  exact List.mem_map_of_mem h

theorem putAll_eq_self {pairs : List (κ × ν)}
    (h : pairs.Pairwise fun a b => same a.1 b.1 = false) : putAll same pairs = pairs := by
  induction pairs using List.reverseRecOn with
  | nil => rfl
  | append_singleton pairs p ih =>
    obtain ⟨hpairs, -, hp⟩ := List.pairwise_append.1 h
    rw [putAll_concat, ih hpairs]
    obtain ⟨-, hput⟩ | ⟨front, k, v, back, rfl, -, hk, -⟩ := put_cases same p.1 p.2 pairs
    · exact hput
    · have hno := hp (k, v) (by simp) p (by simp)
      rw [hno] at hk
      exact absurd hk (by decide)

theorem of_mem_put {key : κ} {value : ν} {es : List (κ × ν)} {e : κ × ν}
    (hkeys : Coherent same (key :: es.map Prod.fst))
    (hes : es.Pairwise fun a b => same a.1 b.1 = false) (he : e ∈ put same key value es) :
    if same e.1 key then e.2 = value else e ∈ es := by
  obtain ⟨hnew, hput⟩ | ⟨front, k, v, back, rfl, hfront, hk, hput⟩ := put_cases same key value es
  · rw [hput] at he
    obtain he | he := List.mem_append.1 he
    · rw [hnew e he]
      exact he
    · obtain rfl := List.mem_singleton.1 he
      rw [hkeys.self key List.mem_cons_self]
      rfl
  · rw [hput] at he
    obtain he | he := List.mem_append.1 he
    · rw [hfront e he]
      exact List.mem_append_left _ he
    obtain rfl | he := List.mem_cons.1 he
    · rw [hk]
      rfl
    · -- behind the entry that takes the value there is none with the same key
      have hmem : e ∈ front ++ (k, v) :: back :=
        List.mem_append_right _ (List.mem_cons_of_mem _ he)
      have hapart := (List.pairwise_cons.1 (List.pairwise_append.1 hes).2.1).1 e he
      cases hyes : same e.1 key with
      | false => exact hmem
      | true =>
        have hke := hkeys.common k (by simp) e.1 (List.mem_cons_of_mem _ (List.mem_map_of_mem hmem))
          key List.mem_cons_self hk hyes
        rw [hapart] at hke
        exact absurd hke (by decide)

theorem last?_of_mem_putAll {pairs : List (κ × ν)} (hkeys : Coherent same (pairs.map Prod.fst))
    {e : κ × ν} (he : e ∈ putAll same pairs) : last? same pairs e.1 = some e.2 := by
  induction pairs using List.reverseRecOn with
  | nil => exact absurd he (by simp [putAll])
  | append_singleton pairs p ih =>
    have hbefore : pairs.map Prod.fst ⊆ (pairs ++ [p]).map Prod.fst :=
      List.map_subset _ (List.subset_append_left _ _)
    have hput : p.1 :: (putAll same pairs).map Prod.fst ⊆ (pairs ++ [p]).map Prod.fst := by
      refine List.cons_subset.2 ⟨by simp, fun k hk => ?_⟩
      obtain ⟨e, he, rfl⟩ := List.mem_map.1 hk
      exact hbefore (mem_keys_putAll same he)
    rw [putAll_concat] at he
    -- the entry has the value of the last pair, or it was there before
    have hreached := of_mem_put same (hkeys.mono same hput) (pairwise_putAll same pairs) he
    rw [last?_concat]
    cases h : same e.1 p.1 with
    | true =>
      rw [h] at hreached
      exact congrArg some hreached.symm
    | false =>
      rw [h] at hreached
      exact ih (hkeys.mono same hbefore) hreached

/-- First places and last values say all about what comes of some pairs. -/
theorem lastValues_iff {pairs entries : List (κ × ν)} (hkeys : Coherent same (pairs.map Prod.fst)) :
    LastValues same pairs entries ↔ entries = putAll same pairs := by
  have hvalues : ∀ e ∈ putAll same pairs, last? same pairs e.1 = some e.2 :=
    fun e he => last?_of_mem_putAll same hkeys he
  constructor
  · intro h
    have hfirsts := h.keys
    rw [← keys_putAll] at hfirsts
    exact eq_of_keys _ hfirsts h.values hvalues
  · rintro rfl
    exact ⟨keys_putAll same pairs, hvalues⟩

section Lawful

variable {κ ν : Type} [BEq κ] [LawfulBEq κ]

theorem firsts_beq (keys : List κ) : firsts (· == ·) keys = keys.eraseDups := by
  have hcomm : (fun later earlier : κ => earlier == later) = (· == ·) := by
    funext later earlier
    exact BEq.comm
  rw [firsts, hcomm, List.eraseDups]

theorem last?_beq (pairs : List (κ × ν)) (key : κ) :
    last? (· == ·) pairs key = (pairs.filter (·.1 == key)).getLast?.map Prod.snd := by
  have hcomm : (fun p : κ × ν => key == p.1) = (·.1 == key) := by
    funext p
    exact BEq.comm
  rw [last?, List.findRev?_eq_find?_reverse, List.getLast?_filter, hcomm]

theorem lastValues_putAll (pairs : List (κ × ν)) :
    LastValues (· == ·) pairs (putAll (· == ·) pairs) := by
  have hkeys : Coherent (· == ·) (pairs.map Prod.fst) :=
    ⟨fun a _ => BEq.rfl, fun a _ b _ c _ hac hbc => BEq.trans hac (BEq.symm hbc)⟩
  exact (lastValues_iff _ hkeys).2 rfl

end Lawful

end Handbook.Keyed
