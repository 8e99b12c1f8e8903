/-!
# Ordered tables

A finite table from keys to values, held as its entries in strictly ascending key order. Two tables
with the same content are equal, and listing a table lists it in key order.

* `Table.get?` : the value under a key.
* `Table.insert` : a table with one entry written, over an older one if there is one.
* `Table.ofList` : the table of a list of entries, the last one for a key winning.
-/

namespace Compliance

/-- A finite table, as its entries in strictly ascending key order. -/
structure Table (κ α : Type) [Ord κ] where
  entries : List (κ × α)
  ascending : entries.Pairwise (fun a b => compare a.1 b.1 = .lt)

namespace Table

variable {κ α : Type} [Ord κ]

/-- The table without entries. -/
def empty : Table κ α := ⟨[], .nil⟩

instance : EmptyCollection (Table κ α) := ⟨empty⟩

instance : Inhabited (Table κ α) := ⟨empty⟩

instance [DecidableEq κ] [DecidableEq α] : DecidableEq (Table κ α) := fun s t =>
  if h : s.entries = t.entries then
    isTrue (by cases s; cases t; cases h; rfl)
  else
    isFalse (fun e => h (e ▸ rfl))

@[ext] theorem ext {s t : Table κ α} (h : s.entries = t.entries) : s = t := by
  cases s; cases t; cases h; rfl

/-- The value that a list of entries in ascending order holds for a key. -/
def lookup (k : κ) : List (κ × α) → Option α
  | [] => none
  | (k', v) :: rest =>
    match compare k k' with
    | .lt => none
    | .eq => some v
    | .gt => lookup k rest

/-- A list of entries in ascending order with one entry written in its place. -/
def write (k : κ) (v : α) : List (κ × α) → List (κ × α)
  | [] => [(k, v)]
  | (k', v') :: rest =>
    match compare k k' with
    | .lt => (k, v) :: (k', v') :: rest
    | .eq => (k, v) :: rest
    | .gt => (k', v') :: write k v rest

theorem mem_write {k : κ} {v : α} {es : List (κ × α)} {e : κ × α} (h : e ∈ write k v es) :
    e = (k, v) ∨ e ∈ es := by
  induction es with
  | nil => simpa [write] using h
  | cons d rest ih =>
    simp only [write] at h
    split at h
    · simpa using h
    · simp only [List.mem_cons] at h ⊢; exact h.imp_right .inr
    · simp only [List.mem_cons] at h ⊢
      rcases h with h | h
      · exact .inr (.inl h)
      · exact (ih h).imp_right .inr

theorem pairwise_write [Std.TransOrd κ] {k : κ} {v : α} {es : List (κ × α)}
    (h : es.Pairwise (fun a b => compare a.1 b.1 = .lt)) :
    (write k v es).Pairwise (fun a b => compare a.1 b.1 = .lt) := by
  induction es with
  | nil => simp [write]
  | cons d rest ih =>
    obtain ⟨hd, hr⟩ := List.pairwise_cons.mp h
    simp only [write]
    split
    case h_1 hlt =>
      refine List.pairwise_cons.mpr ⟨fun e he => ?_, h⟩
      rcases List.mem_cons.mp he with rfl | he
      · exact hlt
      · exact Std.TransCmp.lt_trans hlt (hd e he)
    case h_2 heq =>
      exact List.pairwise_cons.mpr ⟨fun e he => Std.TransCmp.lt_of_eq_of_lt heq (hd e he), hr⟩
    case h_3 hgt =>
      refine List.pairwise_cons.mpr ⟨fun e he => ?_, ih hr⟩
      rcases mem_write he with rfl | he
      · exact Std.OrientedCmp.lt_of_gt hgt
      · exact hd e he

/-- The value under a key. -/
def get? (t : Table κ α) (k : κ) : Option α :=
  lookup k t.entries

/-- Whether a key has a value. -/
def contains (t : Table κ α) (k : κ) : Bool :=
  (t.get? k).isSome

/-- A table with one entry written, over an older one if there is one. -/
def insert [Std.TransOrd κ] (t : Table κ α) (k : κ) (v : α) : Table κ α :=
  ⟨write k v t.entries, pairwise_write t.ascending⟩

/-- The number of entries. -/
def size (t : Table κ α) : Nat :=
  t.entries.length

/-- The keys in ascending order. -/
def keys (t : Table κ α) : List κ :=
  t.entries.map Prod.fst

/-- The table of a list of entries, the last one for a key winning. -/
def ofList [Std.TransOrd κ] (es : List (κ × α)) : Table κ α :=
  es.foldl (fun t e => t.insert e.1 e.2) empty

/-! ### The table as a function of its keys -/

@[simp] theorem get?_empty (k : κ) : (empty : Table κ α).get? k = none := rfl

@[simp] theorem get?_emptyCollection (k : κ) : (∅ : Table κ α).get? k = none := rfl

private theorem lookup_write_self [Std.TransOrd κ] [Std.LawfulEqOrd κ] (k : κ) (v : α)
    (es : List (κ × α)) : lookup k (write k v es) = some v := by
  induction es with
  | nil => simp [write, lookup, Std.ReflCmp.compare_self]
  | cons d rest ih =>
    simp only [write]
    split
    · simp [lookup, Std.ReflCmp.compare_self]
    · simp [lookup, Std.ReflCmp.compare_self]
    case h_3 hgt => simp [lookup, hgt, ih]

private theorem lookup_write_of_ne [Std.TransOrd κ] [Std.LawfulEqOrd κ] {k k' : κ} (v : α)
    {es : List (κ × α)} (hne : k' ≠ k) : lookup k' (write k v es) = lookup k' es := by
  have hkk : compare k' k ≠ .eq := fun h => hne (Std.LawfulEqOrd.eq_of_compare h)
  induction es with
  | nil =>
    simp only [write, lookup]
    cases h : compare k' k <;> simp_all
  | cons d rest ih =>
    simp only [write]
    split
    case h_1 hlt =>
      simp only [lookup]
      cases h : compare k' k
      · have : compare k' d.1 = .lt := Std.TransCmp.lt_trans h hlt
        simp [this]
      · exact absurd h hkk
      · rfl
    case h_2 heq =>
      have : k = d.1 := Std.LawfulEqOrd.eq_of_compare heq
      subst this
      simp only [lookup]
      cases h : compare k' d.1 <;> simp_all
    case h_3 hgt =>
      simp only [lookup]
      cases compare k' d.1
      case gt => exact ih
      all_goals rfl

@[simp] theorem get?_insert_self [Std.TransOrd κ] [Std.LawfulEqOrd κ] (t : Table κ α) (k : κ)
    (v : α) : (t.insert k v).get? k = some v :=
  lookup_write_self k v t.entries

theorem get?_insert_of_ne [Std.TransOrd κ] [Std.LawfulEqOrd κ] (t : Table κ α) {k k' : κ} (v : α)
    (h : k' ≠ k) : (t.insert k v).get? k' = t.get? k' :=
  lookup_write_of_ne v h

theorem get?_insert [Std.TransOrd κ] [Std.LawfulEqOrd κ] [DecidableEq κ] (t : Table κ α)
    (k k' : κ) (v : α) : (t.insert k v).get? k' = if k' = k then some v else t.get? k' := by
  split
  case isTrue h => rw [h, get?_insert_self]
  case isFalse h => exact get?_insert_of_ne t v h

private theorem lookup_eq_some_iff [Std.TransOrd κ] [Std.LawfulEqOrd κ] {k : κ} {v : α}
    {es : List (κ × α)} (h : es.Pairwise (fun a b => compare a.1 b.1 = .lt)) :
    lookup k es = some v ↔ (k, v) ∈ es := by
  induction es with
  | nil => simp [lookup]
  | cons d rest ih =>
    obtain ⟨hd, hr⟩ := List.pairwise_cons.mp h
    -- an entry for `k` further on puts `k` after the key at the front
    have later (hk : compare k d.1 ≠ .gt) : (k, v) ∉ rest := fun he =>
      hk (Std.OrientedCmp.gt_of_lt (hd _ he))
    have here (hk : compare k d.1 ≠ .eq) : (k, v) ≠ d := fun he =>
      hk (he ▸ Std.ReflCmp.compare_self)
    simp only [lookup, List.mem_cons]
    split
    case h_1 hlt => simp [here (by simp [hlt]), later (by simp [hlt])]
    case h_2 heq =>
      have hl := later (by simp [heq])
      obtain rfl : k = d.1 := Std.LawfulEqOrd.eq_of_compare heq
      simp only [hl, or_false, Option.some.injEq, Prod.ext_iff, true_and]
      exact eq_comm
    case h_3 hgt => rw [ih hr]; simp [here (by simp [hgt])]

theorem mem_entries_iff [Std.TransOrd κ] [Std.LawfulEqOrd κ] {t : Table κ α} {k : κ} {v : α} :
    (k, v) ∈ t.entries ↔ t.get? k = some v :=
  (lookup_eq_some_iff t.ascending).symm

theorem ofList_append [Std.TransOrd κ] (es : List (κ × α)) (e : κ × α) :
    ofList (es ++ [e]) = (ofList es).insert e.1 e.2 := by
  simp [ofList]

end Table

end Compliance
