import Handbook.Proofs.Keyed
import Handbook.Proofs.Tree.Sameness

namespace Handbook.Tree

/-- What a tree with repeated keys is settled to: each mapping to the keys that first come in it, with
their last values, once keys and values are settled themselves. -/
inductive Settles : Tree → Tree → Prop
  | null : Settles null null
  | bool (b : Bool) : Settles (bool b) (bool b)
  | number (n : Number) : Settles (number n) (number n)
  | text (t : Text) : Settles (text t) (text t)
  | sequence {items items' : List Tree} : List.Forall₂ Settles items items' →
      Settles (sequence items) (sequence items')
  | mapping {es out : List (Tree × Tree)} {keys values : List Tree} :
      List.Forall₂ Settles (es.map Prod.fst) keys → List.Forall₂ Settles (es.map Prod.snd) values →
      Keyed.LastValues same (keys.zip values) out → Settles (mapping es) (mapping out)
  | tagged (name : Text) {t t' : Tree} : Settles t t' → Settles (tagged name t) (tagged name t')

theorem insert_eq_put (key value : Tree) (es : List (Tree × Tree)) :
    insert key value es = Keyed.put same key value es := by
  induction es with
  | nil => rfl
  | cons e es ih => rw [insert, Keyed.put, ih]

abbrev settledEntry (e : Tree × Tree) : Tree × Tree := (e.1.settled, e.2.settled)

theorem settled_sequence (items : List Tree) :
    (sequence items).settled = sequence (items.map settled) := by
  rw [settled, settledItems_eq_map]

theorem settled_mapping (es : List (Tree × Tree)) :
    (mapping es).settled = mapping (Keyed.putAll same (es.map settledEntry)) := by
  rw [settled, settledEntries_eq_map, ofPairs, Keyed.putAll]
  simp only [insert_eq_put]

section

variable {pairs : List (Tree × Tree)}

/-- Sameness is only symmetric where no key is repeated. -/
theorem coherent_of_distinct (h : ∀ p ∈ pairs, p.1.Distinct) :
    Keyed.Coherent same (pairs.map Prod.fst) where
  self a _ := same_self a
  common a _ b hb c _ hac hbc := by
    have hdistinct : b.Distinct := List.forall_mem_map.2 h b hb
    exact same_trans hac (same_symm hdistinct hbc)

theorem distinct_putAll (hkeys : ∀ p ∈ pairs, p.1.Distinct) (hvalues : ∀ p ∈ pairs, p.2.Distinct) :
    (mapping (Keyed.putAll same pairs)).Distinct := by
  refine .mapping (Keyed.pairwise_putAll same pairs) (fun e he => ?_) fun e he => ?_
  · obtain ⟨p, hp, hpe⟩ := List.mem_map.1 (Keyed.mem_keys_putAll same he)
    exact hpe ▸ hkeys p hp
  · have hlast := Keyed.last?_of_mem_putAll same (coherent_of_distinct hkeys) he
    obtain ⟨p, hp, -, hpe⟩ := Keyed.exists_of_last? same hlast
    exact hpe ▸ hvalues p hp

end

theorem distinct_settled (t : Tree) : t.settled.Distinct := by
  induction t using induct with
  | null => exact .null
  | bool b => exact .bool b
  | number n => exact .number n
  | text t => exact .text t
  | sequence items ih =>
    rw [settled_sequence]
    exact .sequence (List.forall_mem_map.2 ih)
  | mapping es ihkey ihvalue =>
    rw [settled_mapping]
    exact distinct_putAll (List.forall_mem_map.2 ihkey) (List.forall_mem_map.2 ihvalue)
  | tagged name t ih => exact .tagged name ih

theorem settled_eq_self {t : Tree} (h : t.Distinct) : t.settled = t := by
  induction t using induct with
  | null => rfl
  | bool b => rfl
  | number n => rfl
  | text t => rfl
  | sequence items ih =>
    cases h with | sequence hitems =>
    rw [settled_sequence, List.map_congr_left fun t ht => ih t ht (hitems t ht), List.map_id']
  | mapping es ihkey ihvalue =>
    cases h with | mapping hpairwise hkeys hvalues =>
    have hes : es.map settledEntry = es.map id := by
      apply List.map_congr_left
      intro e he
      rw [settledEntry, ihkey e he (hkeys e he), ihvalue e he (hvalues e he)]
      rfl
    rw [settled_mapping, hes, List.map_id, Keyed.putAll_eq_self same hpairwise]
  | tagged name t ih =>
    cases h with | tagged _ ht =>
    rw [settled, ih ht]

theorem forall₂_iff_eq_map {α β : Type} {r : α → β → Prop} {f : α → β} {as : List α} {bs : List β}
    (h : ∀ a ∈ as, ∀ b, r a b ↔ b = f a) : List.Forall₂ r as bs ↔ bs = as.map f := by
  induction as generalizing bs with
  | nil => simp
  | cons a as ih =>
    obtain ⟨ha, has⟩ := List.forall_mem_cons.1 h
    cases bs with
    | nil => simp
    | cons b bs => rw [List.forall₂_cons, ha, ih has, List.map_cons, List.cons.injEq]

theorem settles_mapping_iff {es : List (Tree × Tree)} {t' : Tree}
    (hkeys : ∀ e ∈ es, ∀ k, Settles e.1 k ↔ k = e.1.settled)
    (hvalues : ∀ e ∈ es, ∀ v, Settles e.2 v ↔ v = e.2.settled) :
    Settles (mapping es) t' ↔ t' = (mapping es).settled := by
  have hkeys' : ∀ keys, List.Forall₂ Settles (es.map Prod.fst) keys ↔
      keys = (es.map Prod.fst).map settled := fun keys =>
    forall₂_iff_eq_map (List.forall_mem_map.2 hkeys)
  have hvalues' : ∀ values, List.Forall₂ Settles (es.map Prod.snd) values ↔
      values = (es.map Prod.snd).map settled := fun values =>
    forall₂_iff_eq_map (List.forall_mem_map.2 hvalues)
  have hzip : ((es.map Prod.fst).map settled).zip ((es.map Prod.snd).map settled) =
      es.map settledEntry := by
    rw [List.map_map, List.map_map, List.zip_map']
    rfl
  -- nothing is repeated in the settled keys, so their sameness goes both ways
  have hlast : ∀ out, Keyed.LastValues same (es.map settledEntry) out ↔
      out = Keyed.putAll same (es.map settledEntry) := fun out =>
    Keyed.lastValues_iff same
      (coherent_of_distinct (List.forall_mem_map.2 fun e _ => distinct_settled e.1))
  rw [settled_mapping]
  constructor
  · intro h
    cases h with | mapping hk hv hout =>
    rw [(hkeys' _).1 hk, (hvalues' _).1 hv, hzip] at hout
    rw [(hlast _).1 hout]
  · rintro rfl
    refine .mapping ((hkeys' _).2 rfl) ((hvalues' _).2 rfl) ?_
    rw [hzip]
    exact (hlast _).2 rfl

theorem settles_iff {t t' : Tree} : Settles t t' ↔ t' = t.settled := by
  induction t using induct generalizing t' with
  | null => exact ⟨fun h => by cases h; rfl, fun h => h ▸ .null⟩
  | bool b => exact ⟨fun h => by cases h; rfl, fun h => h ▸ .bool b⟩
  | number n => exact ⟨fun h => by cases h; rfl, fun h => h ▸ .number n⟩
  | text t => exact ⟨fun h => by cases h; rfl, fun h => h ▸ .text t⟩
  | sequence items ih =>
    have hitems : ∀ items', List.Forall₂ Settles items items' ↔ items' = items.map settled :=
      fun items' => forall₂_iff_eq_map fun t ht t' => ih t ht
    rw [settled_sequence]
    constructor
    · intro h
      cases h with | sequence h =>
      rw [(hitems _).1 h]
    · rintro rfl
      exact .sequence ((hitems _).2 rfl)
  | mapping es ihkey ihvalue =>
    exact settles_mapping_iff (fun e he k => ihkey e he) fun e he v => ihvalue e he
  | tagged name t ih =>
    constructor
    · intro h
      cases h with | tagged _ h =>
      rw [settled, ih.1 h]
    · rintro rfl
      exact .tagged name (ih.2 rfl)

/-- Two keys that are the same only once repeated keys in them are settled. -/
example :
    let key (values : List Tree) := mapping (values.map fun v => (text "a", v))
    (mapping [(key [bool true, null], text "x"), (null, null), (key [null], text "y")]).settled =
      mapping [(key [null], text "y"), (null, null)] := by
  rfl

/-- Of any tree, whatever keys it repeats, comes the one tree with first places and last values at
every depth. No key is left twice in it, and only a tree that repeats no key stays as it is. -/
theorem settled_last_values (t : Tree) :
    (∀ t', Settles t t' ↔ t' = t.settled) ∧ t.settled.Distinct ∧ (t.settled = t ↔ t.Distinct) := by
  refine ⟨fun t' => settles_iff, distinct_settled t, fun h => ?_, settled_eq_self⟩
  rw [← h]
  exact distinct_settled t

end Handbook.Tree
