import Handbook.Tree.Mapping
import Mathlib.Data.List.Forall2

namespace Handbook

theorem Binary64.same_trans {x y z : Binary64} (hxy : x.same y) (hyz : y.same z) : x.same z := by
  cases x <;> cases y <;> cases z <;> simp_all [same]
  grind

namespace Number

theorem same_symm {m n : Number} (h : m.same n) : n.same m := by
  cases m <;> cases n <;> simp_all [same]
  exact Binary64.same_symm h

theorem same_trans {l m n : Number} (hlm : l.same m) (hmn : m.same n) : l.same n := by
  cases l <;> cases m <;> cases n <;> simp_all [same]
  exact Binary64.same_trans hlm hmn

end Number

namespace Tree

theorem sizeOf_lt_of_mem_entries {e : Tree × Tree} {es : List (Tree × Tree)} (h : e ∈ es) :
    sizeOf e.1 < sizeOf es ∧ sizeOf e.2 < sizeOf es := by
  have hlt := List.sizeOf_lt_of_mem h
  obtain ⟨k, v⟩ := e
  simp only [Prod.mk.sizeOf_spec] at hlt ⊢
  omega

/-- Induction over a tree, through the items, keys and values of the collections in it. -/
@[elab_as_elim]
theorem induct {motive : Tree → Prop} (null : motive .null) (bool : ∀ b, motive (.bool b))
    (number : ∀ n, motive (.number n)) (text : ∀ t, motive (.text t))
    (sequence : ∀ items, (∀ t ∈ items, motive t) → motive (.sequence items))
    (mapping : ∀ es, (∀ e ∈ es, motive e.1) → (∀ e ∈ es, motive e.2) → motive (.mapping es))
    (tagged : ∀ name t, motive t → motive (.tagged name t)) (t : Tree) : motive t := by
  cases t with
  | null => exact null
  | bool b => exact bool b
  | number n => exact number n
  | text t => exact text t
  | sequence items =>
    refine sequence items fun t ht => ?_
    have hsize := List.sizeOf_lt_of_mem ht
    exact induct null bool number text sequence mapping tagged t
  | mapping es =>
    refine mapping es (fun e he => ?_) fun e he => ?_
    · have hsize := sizeOf_lt_of_mem_entries he
      exact induct null bool number text sequence mapping tagged e.1
    · have hsize := sizeOf_lt_of_mem_entries he
      exact induct null bool number text sequence mapping tagged e.2
  | tagged name t => exact tagged name t (induct null bool number text sequence mapping tagged t)
termination_by sizeOf t

theorem sameItems_iff {as bs : List Tree} :
    sameItems as bs = true ↔ List.Forall₂ (fun a b => a.same b = true) as bs := by
  induction as generalizing bs with
  | nil => cases bs <;> simp [sameItems]
  | cons a as ih => cases bs <;> simp [sameItems, ih]

theorem sameEntries_iff {es bs : List (Tree × Tree)} :
    sameEntries es bs = true ↔ ∀ e ∈ es, ∃ b ∈ bs, e.1.same b.1 = true ∧ e.2.same b.2 = true := by
  induction es with
  | nil => simp [sameEntries]
  | cons e es ih =>
    obtain ⟨k, v⟩ := e
    rw [sameEntries, Bool.and_eq_true, ih, List.forall_mem_cons, List.any_eq_true]
    simp only [Bool.and_eq_true]

section

variable {t : Tree}

theorem null_same_iff : null.same t = true ↔ t = null := by
  cases t <;> simp [same]

theorem bool_same_iff {a : Bool} : (bool a).same t = true ↔ t = bool a := by
  cases t <;> simp [same, eq_comm (a := a)]

theorem number_same_iff {m : Number} :
    (number m).same t = true ↔ ∃ n, t = number n ∧ m.same n = true := by
  cases t <;> simp [same]

theorem text_same_iff {a : Text} : (text a).same t = true ↔ t = text a := by
  cases t <;> simp [same, eq_comm (a := a)]

theorem sequence_same_iff {as : List Tree} : (sequence as).same t = true ↔
    ∃ bs, t = sequence bs ∧ List.Forall₂ (fun a b => a.same b = true) as bs := by
  cases t <;> simp [same, sameItems_iff]

theorem mapping_same_iff {es : List (Tree × Tree)} : (mapping es).same t = true ↔
    ∃ bs, t = mapping bs ∧ es.length = bs.length ∧
      ∀ e ∈ es, ∃ b ∈ bs, e.1.same b.1 = true ∧ e.2.same b.2 = true := by
  cases t <;> simp [same, sameEntries_iff]

theorem tagged_same_iff {name : Text} {inner : Tree} : (tagged name inner).same t = true ↔
    ∃ other, t = tagged name other ∧ inner.same other = true := by
  cases t <;> simp [same, eq_comm (a := name)]

end

/-- No mapping in the tree, at any depth, in keys as in values, holds a key twice. -/
inductive Distinct : Tree → Prop
  | null : Distinct null
  | bool (b : Bool) : Distinct (bool b)
  | number (n : Number) : Distinct (number n)
  | text (t : Text) : Distinct (text t)
  | sequence {items : List Tree} : (∀ t ∈ items, Distinct t) → Distinct (sequence items)
  | mapping {es : List (Tree × Tree)} : es.Pairwise (fun a b => a.1.same b.1 = false) →
      (∀ e ∈ es, Distinct e.1) → (∀ e ∈ es, Distinct e.2) → Distinct (mapping es)
  | tagged (name : Text) {t : Tree} : Distinct t → Distinct (tagged name t)

theorem same_trans {a b c : Tree} (hab : a.same b = true) (hbc : b.same c = true) :
    a.same c = true := by
  induction a using induct generalizing b c with
  | null =>
    obtain rfl := null_same_iff.1 hab
    exact hbc
  | bool v =>
    obtain rfl := bool_same_iff.1 hab
    exact hbc
  | text v =>
    obtain rfl := text_same_iff.1 hab
    exact hbc
  | number m =>
    obtain ⟨n, rfl, hmn⟩ := number_same_iff.1 hab
    obtain ⟨l, rfl, hnl⟩ := number_same_iff.1 hbc
    exact number_same_iff.2 ⟨l, rfl, Number.same_trans hmn hnl⟩
  | sequence as ih =>
    obtain ⟨bs, rfl, has⟩ := sequence_same_iff.1 hab
    obtain ⟨cs, rfl, hbs⟩ := sequence_same_iff.1 hbc
    rw [List.forall₂_iff_get] at has hbs
    refine sequence_same_iff.2 ⟨cs, rfl, List.forall₂_iff_get.2 ⟨has.1.trans hbs.1, ?_⟩⟩
    intro i hi hi'
    have hib : i < bs.length := has.1 ▸ hi
    exact ih _ (List.get_mem as ⟨i, hi⟩) (has.2 i hi hib) (hbs.2 i hib hi')
  | mapping es ihkey ihvalue =>
    obtain ⟨bs, rfl, hlen, hes⟩ := mapping_same_iff.1 hab
    obtain ⟨cs, rfl, hlen', hbs⟩ := mapping_same_iff.1 hbc
    refine mapping_same_iff.2 ⟨cs, rfl, hlen.trans hlen', fun e he => ?_⟩
    obtain ⟨b, hb, hkey, hvalue⟩ := hes e he
    obtain ⟨c, hc, hkey', hvalue'⟩ := hbs b hb
    exact ⟨c, hc, ihkey e he hkey hkey', ihvalue e he hvalue hvalue'⟩
  | tagged name t ih =>
    obtain ⟨u, rfl, htu⟩ := tagged_same_iff.1 hab
    obtain ⟨v, rfl, huv⟩ := tagged_same_iff.1 hbc
    exact tagged_same_iff.2 ⟨v, rfl, ih htu huv⟩

/-- As many as there are on one side, each with a partner on the other side and no two with the same
one, leave nobody there without a partner. -/
theorem exists_partner {α β : Type} {r : α → β → Prop} {as : List α} {bs : List β}
    (hlen : as.length = bs.length) (hpartner : ∀ a ∈ as, ∃ b ∈ bs, r a b)
    (hapart : as.Pairwise fun a a' => ∀ b ∈ bs, r a b → ¬ r a' b) : ∀ b ∈ bs, ∃ a ∈ as, r a b := by
  induction as generalizing bs with
  | nil =>
    rw [List.eq_nil_of_length_eq_zero hlen.symm]
    simp
  | cons a as ih =>
    obtain ⟨b, hb, hab⟩ := hpartner a List.mem_cons_self
    obtain ⟨front, back, rfl⟩ := List.append_of_mem hb
    obtain ⟨ha, has⟩ := List.pairwise_cons.1 hapart
    have hmem : ∀ c, c ∈ front ++ b :: back ↔ c = b ∨ c ∈ front ++ back := by
      intro c
      rw [List.perm_middle.mem_iff, List.mem_cons]
    have hlen' : as.length = (front ++ back).length := by
      simp only [List.length_cons, List.length_append] at hlen ⊢
      omega
    -- the partner of the first one is taken away, and nobody else has it
    have hpartner' : ∀ a' ∈ as, ∃ c ∈ front ++ back, r a' c := by
      intro a' ha'
      obtain ⟨c, hc, hac⟩ := hpartner a' (List.mem_cons_of_mem a ha')
      obtain rfl | hc' := (hmem c).1 hc
      · exact absurd hac (ha a' ha' c hc hab)
      · exact ⟨c, hc', hac⟩
    have hrest := ih hlen' hpartner' (has.imp fun h c hc => h c ((hmem c).2 (.inr hc)))
    intro c hc
    obtain rfl | hc' := (hmem c).1 hc
    · exact ⟨a, List.mem_cons_self, hab⟩
    · obtain ⟨a', ha', hac⟩ := hrest c hc'
      exact ⟨a', List.mem_cons_of_mem a ha', hac⟩

theorem same_symm {a b : Tree} (ha : a.Distinct) (h : a.same b = true) : b.same a = true := by
  induction a using induct generalizing b with
  | null =>
    obtain rfl := null_same_iff.1 h
    exact h
  | bool v =>
    obtain rfl := bool_same_iff.1 h
    exact h
  | text v =>
    obtain rfl := text_same_iff.1 h
    exact h
  | number m =>
    obtain ⟨n, rfl, hmn⟩ := number_same_iff.1 h
    exact number_same_iff.2 ⟨m, rfl, Number.same_symm hmn⟩
  | sequence as ih =>
    obtain ⟨bs, rfl, has⟩ := sequence_same_iff.1 h
    cases ha with | sequence hitems =>
    rw [List.forall₂_iff_get] at has
    refine sequence_same_iff.2 ⟨as, rfl, List.forall₂_iff_get.2 ⟨has.1.symm, fun i hi hi' => ?_⟩⟩
    have hmem := List.get_mem as ⟨i, hi'⟩
    exact ih _ hmem (hitems _ hmem) (has.2 i hi' hi)
  | mapping es ihkey ihvalue =>
    obtain ⟨bs, rfl, hlen, hes⟩ := mapping_same_iff.1 h
    cases ha with | mapping hpairwise hkeys hvalues =>
    -- two entries with one partner would repeat a key
    have hapart : es.Pairwise fun e e' => ∀ b ∈ bs,
        e.1.same b.1 = true ∧ e.2.same b.2 = true →
          ¬ (e'.1.same b.1 = true ∧ e'.2.same b.2 = true) := by
      refine hpairwise.imp_of_mem fun {e e'} he he' hno b _ heb heb' => ?_
      have hback := ihkey e' he' (hkeys e' he') heb'.1
      rw [same_trans heb.1 hback] at hno
      exact absurd hno (by decide)
    refine mapping_same_iff.2 ⟨es, rfl, hlen.symm, fun b hb => ?_⟩
    obtain ⟨e, he, hkey, hvalue⟩ := exists_partner hlen hes hapart b hb
    exact ⟨e, he, ihkey e he (hkeys e he) hkey, ihvalue e he (hvalues e he) hvalue⟩
  | tagged name t ih =>
    obtain ⟨u, rfl, htu⟩ := tagged_same_iff.1 h
    cases ha with | tagged _ ht =>
    exact tagged_same_iff.2 ⟨t, rfl, ih ht htu⟩

end Tree

end Handbook
