import Compliance.Table
import Mathlib.Data.Finset.Card
import Mathlib.Data.List.Induction
import Mathlib.Data.List.Sort

/-!
# Tables and their content

The entries of a table are in order, so a table is determined by what it holds under each key.

* `Table.eq_of_get?` : tables that hold the same under each key are equal.
* `Table.mem_keys_iff` : the keys are those under which there is a value.
* `Table.size_eq_card` : the size of a table is the number of its keys.
* `Table.ofList_entries` : a table is the table of its own entries.
* `Table.get?_foldl_insert` : what a table holds after several entries have been written.
* `Table.get?_ofList_append` : the table of two lists of entries, of which the second counts first.
* `Table.mapValues` : a table with other values under the same keys.
-/

namespace Compliance

namespace Table

/-- Where each key stands once, an entry is found from either end. -/
theorem find?_reverse_of_pairwise {κ α : Type} [DecidableEq κ] {es : List (κ × α)}
    (h : es.Pairwise fun a b => a.1 ≠ b.1) (k : κ) :
    es.reverse.find? (·.1 = k) = es.find? (·.1 = k) := by
  induction es with
  | nil => rfl
  | cons e es ih =>
    obtain ⟨he, hes⟩ := List.pairwise_cons.mp h
    rw [List.reverse_cons, List.find?_append, ih hes, List.find?_singleton, List.find?_cons]
    by_cases hk : e.1 = k
    · have hnone : es.find? (·.1 = k) = none := by
        rw [List.find?_eq_none]
        intro d hd
        simpa [hk] using (he d hd).symm
      simp [hk, hnone]
    · simp [hk]

variable {κ α : Type} [Ord κ]

theorem pairwise_keys (t : Table κ α) : t.keys.Pairwise fun a b => compare a b = .lt :=
  List.pairwise_map.mpr t.ascending

variable [Std.TransOrd κ]

theorem nodup_keys (t : Table κ α) : t.keys.Nodup := by
  refine t.pairwise_keys.imp fun {a b} hlt heq => ?_
  subst heq
  exact Std.OrientedCmp.not_lt_of_lt hlt hlt

theorem nodup_entries (t : Table κ α) : t.entries.Nodup := by
  refine t.ascending.imp fun {a b} hlt heq => ?_
  subst heq
  exact Std.OrientedCmp.not_lt_of_lt hlt hlt

theorem write_of_forall_lt {k : κ} {v : α} {es : List (κ × α)}
    (h : ∀ e ∈ es, compare e.1 k = .lt) : write k v es = es ++ [(k, v)] := by
  induction es with
  | nil => rfl
  | cons e es ih =>
    obtain ⟨he, hes⟩ := List.forall_mem_cons.mp h
    have hgt : compare k e.1 = .gt := Std.OrientedCmp.gt_of_lt he
    simp only [write, hgt, List.cons_append, ih hes]

theorem ofList_entries (t : Table κ α) : ofList t.entries = t := by
  obtain ⟨es, hes⟩ := t
  induction es using List.reverseRecOn with
  | nil => rfl
  | append_singleton es e ih =>
    obtain ⟨hinit, -, hlast⟩ := List.pairwise_append.mp hes
    have hes' : (ofList es).entries = es := congrArg entries (ih hinit)
    have hkeys : ∀ d ∈ es, compare d.1 e.1 = .lt := fun d hd =>
      hlast d hd e (List.mem_singleton_self e)
    ext1
    rw [ofList_append, insert]
    simp only [hes']
    exact write_of_forall_lt hkeys

variable [Std.LawfulEqOrd κ]

/-- Tables that hold the same under each key are equal. -/
theorem eq_of_get? {s t : Table κ α} (h : ∀ k, s.get? k = t.get? k) : s = t := by
  have hperm : s.entries.Perm t.entries := by
    rw [List.perm_ext_iff_of_nodup s.nodup_entries t.nodup_entries]
    rintro ⟨k, v⟩
    rw [mem_entries_iff, mem_entries_iff, h k]
  ext1
  refine hperm.eq_of_pairwise (fun a b _ _ hab hba => ?_) s.ascending t.ascending
  exact absurd hba (Std.OrientedCmp.not_lt_of_lt hab)

theorem mem_keys_iff {t : Table κ α} {k : κ} : k ∈ t.keys ↔ (t.get? k).isSome := by
  rw [keys, List.mem_map, Option.isSome_iff_exists]
  constructor
  · rintro ⟨⟨k', v⟩, he, rfl⟩
    exact ⟨v, mem_entries_iff.mp he⟩
  · rintro ⟨v, hv⟩
    exact ⟨(k, v), mem_entries_iff.mpr hv, rfl⟩

theorem size_eq_card [DecidableEq κ] {t : Table κ α} {ks : Finset κ}
    (h : ∀ k, k ∈ ks ↔ (t.get? k).isSome) : t.size = ks.card := by
  have hkeys : t.keys.toFinset = ks := by
    ext k
    rw [List.mem_toFinset, mem_keys_iff, h]
  rw [← hkeys, List.toFinset_card_of_nodup t.nodup_keys, keys, List.length_map, size]

/-- After several entries have been written a table holds under each key what was written there
last, and under the other keys what it held before. -/
theorem get?_foldl_insert [DecidableEq κ] (t : Table κ α) (es : List (κ × α)) (k : κ) :
    (es.foldl (fun t e => t.insert e.1 e.2) t).get? k =
      ((es.reverse.find? (·.1 = k)).map Prod.snd).or (t.get? k) := by
  induction es using List.reverseRecOn with
  | nil => rfl
  | append_singleton es e ih =>
    rw [List.foldl_append, List.foldl_cons, List.foldl_nil, get?_insert, ih,
      List.reverse_append, List.reverse_singleton, List.singleton_append, List.find?_cons]
    by_cases hk : e.1 = k
    · simp [hk]
    · simp [hk, Ne.symm hk]

theorem get?_foldl_insert_of_pairwise [DecidableEq κ] (t : Table κ α) {es : List (κ × α)}
    (h : es.Pairwise fun a b => a.1 ≠ b.1) (k : κ) :
    (es.foldl (fun t e => t.insert e.1 e.2) t).get? k =
      ((es.find? (·.1 = k)).map Prod.snd).or (t.get? k) := by
  rw [get?_foldl_insert, find?_reverse_of_pairwise h]

theorem get?_ofList_append [DecidableEq κ] (es es' : List (κ × α)) (k : κ) :
    (ofList (es ++ es')).get? k = ((ofList es').get? k).or ((ofList es).get? k) := by
  have hlater : (ofList es').get? k = (es'.reverse.find? (·.1 = k)).map Prod.snd := by
    rw [ofList, get?_foldl_insert, get?_empty, Option.or_none]
  rw [hlater, ofList, List.foldl_append, get?_foldl_insert]
  rfl

/-! ### Other values under the same keys -/

section

variable {β : Type}

omit [Std.TransOrd κ] [Std.LawfulEqOrd κ] in
theorem lookup_map (f : α → β) (k : κ) (es : List (κ × α)) :
    lookup k (es.map fun e => (e.1, f e.2)) = (lookup k es).map f := by
  induction es with
  | nil => rfl
  | cons e es ih =>
    simp only [List.map_cons, lookup]
    cases compare k e.1 with
    | lt => rfl
    | eq => rfl
    | gt => exact ih

/-- A table with other values under the same keys. -/
def mapValues (f : α → β) (t : Table κ α) : Table κ β :=
  ⟨t.entries.map fun e => (e.1, f e.2), List.pairwise_map.mpr t.ascending⟩

omit [Std.TransOrd κ] [Std.LawfulEqOrd κ] in
@[simp] theorem get?_mapValues (f : α → β) (t : Table κ α) (k : κ) :
    (t.mapValues f).get? k = (t.get? k).map f :=
  lookup_map f k t.entries

theorem mapValues_insert (f : α → β) (t : Table κ α) (k : κ) (v : α) :
    (t.insert k v).mapValues f = (t.mapValues f).insert k (f v) := by
  refine eq_of_get? ?_
  intro k'
  by_cases hk : k' = k
  · simp [hk]
  · simp [get?_insert_of_ne _ _ hk]

end

end Table

end Compliance
