import Compliance.Mapping.Store
import Compliance.Proofs.Table

/-!
# What the indexes hold

An index answers from the documents that it was made of: under an id it holds the last occurrence
of that id, with the parts of the document around it.

* `IsLast` : an element is the last of a list that satisfies a condition.
* `isLast_flatMap_iff` : the last of the elements of several lists.
* `ProcedureSite`, `ControlSite` : a procedure or a control with its place in the document.
* `ProcedureIndex.get?_ofPlans_eq_some_iff`, `ControlIndex.get?_ofCatalog_eq_some_iff` : the
  entries of the two indexes, read off the documents.
* `ProcedureIndex.get?_ofPlans_append` : what more plans make of an index.
* `ProcedureSite.IsLastIn`, `ControlSite.IsLastIn` : where the last occurrence of an id stands.
* `Table.HoldsLast` : a table that holds the last of several elements under each key.
* `indexes_of_documents` : the two indexes are such tables, for any documents.
-/

namespace Compliance

open Compliance.Text (trim)

/-! ### Last occurrences -/

/-- `x` is the last element of `xs` that satisfies `p`. -/
def IsLast {α : Type} (p : α → Prop) (xs : List α) (x : α) : Prop :=
  ∃ before after, xs = before ++ x :: after ∧ p x ∧ ∀ y ∈ after, ¬ p y

section IsLast

variable {α β : Type} {p : α → Prop} {xs : List α} {x y : α}

theorem IsLast.mem (h : IsLast p xs x) : x ∈ xs := by
  obtain ⟨before, after, rfl, -, -⟩ := h
  simp

theorem IsLast.holds (h : IsLast p xs x) : p x := by
  obtain ⟨_, _, _, hx, _⟩ := h
  exact hx

theorem not_isLast_nil : ¬ IsLast p [] x := fun h => by simpa using h.mem

theorem isLast_concat_iff {a : α} :
    IsLast p (xs ++ [a]) x ↔ (p a ∧ x = a) ∨ (¬ p a ∧ IsLast p xs x) := by
  constructor
  · rintro ⟨before, after, he, hx, hafter⟩
    obtain rfl | ⟨after, b, rfl⟩ := List.eq_nil_or_concat after
    · obtain ⟨-, hxa⟩ := List.append_inj' he rfl
      obtain rfl : a = x := by simpa using hxa
      exact .inl ⟨hx, rfl⟩
    · have he' : xs ++ [a] = (before ++ x :: after) ++ [b] := by simpa using he
      obtain ⟨rfl, hab⟩ := List.append_inj' he' rfl
      obtain rfl : a = b := by simpa using hab
      exact .inr ⟨hafter a (by simp), before, after, rfl, hx, fun y hy => hafter y (by simp [hy])⟩
  · rintro (⟨ha, rfl⟩ | ⟨ha, before, after, rfl, hx, hafter⟩)
    · exact ⟨xs, [], rfl, ha, by simp⟩
    · refine ⟨before, after ++ [a], by simp, hx, fun y hy => ?_⟩
      rcases List.mem_append.1 hy with hy | hy
      · exact hafter y hy
      · rwa [List.mem_singleton.1 hy]

theorem IsLast.unique (hx : IsLast p xs x) (hy : IsLast p xs y) : x = y := by
  induction xs using List.reverseRecOn with
  | nil => exact absurd hx not_isLast_nil
  | append_singleton xs a ih =>
    rcases isLast_concat_iff.1 hx with ⟨ha, rfl⟩ | ⟨ha, hx⟩
    · rcases isLast_concat_iff.1 hy with ⟨-, rfl⟩ | ⟨hna, -⟩
      · rfl
      · exact absurd ha hna
    · rcases isLast_concat_iff.1 hy with ⟨ha', -⟩ | ⟨-, hy⟩
      · exact absurd ha' ha
      · exact ih hx hy

theorem exists_isLast_iff : (∃ x, IsLast p xs x) ↔ ∃ x ∈ xs, p x := by
  refine ⟨fun ⟨x, hx⟩ => ⟨x, hx.mem, hx.holds⟩, ?_⟩
  induction xs using List.reverseRecOn with
  | nil => simp
  | append_singleton xs a ih =>
    rintro ⟨x, hmem, hx⟩
    by_cases ha : p a
    · exact ⟨a, isLast_concat_iff.2 (.inl ⟨ha, rfl⟩)⟩
    · have hmem' : x ∈ xs := by
        rcases List.mem_append.1 hmem with h | h
        · exact h
        · exact absurd (List.mem_singleton.1 h ▸ hx) ha
      obtain ⟨y, hy⟩ := ih ⟨x, hmem', hx⟩
      exact ⟨y, isLast_concat_iff.2 (.inr ⟨ha, hy⟩)⟩

/-- Where the elements have different keys, the last one with a key is the only one. -/
theorem isLast_iff_of_nodup {f : α → β} {k : β} (h : (xs.map f).Nodup) :
    IsLast (fun x => f x = k) xs x ↔ x ∈ xs ∧ f x = k := by
  refine ⟨fun hx => ⟨hx.mem, hx.holds⟩, ?_⟩
  rintro ⟨hx, hk⟩
  obtain ⟨y, hy⟩ : ∃ y, IsLast (fun x => f x = k) xs y := exists_isLast_iff.mpr ⟨x, hx, hk⟩
  have hxy : x = y := List.inj_on_of_nodup_map h hx hy.mem (hk.trans hy.holds.symm)
  rwa [hxy]

/-- Of two lists the second counts, and the first only if the second has no such element. -/
theorem isLast_append_iff {ys : List α} :
    IsLast p (xs ++ ys) x ↔ IsLast p ys x ∨ ((∀ y ∈ ys, ¬ p y) ∧ IsLast p xs x) := by
  induction ys using List.reverseRecOn with
  | nil => simp [not_isLast_nil]
  | append_singleton ys a ih =>
    rw [← List.append_assoc, isLast_concat_iff, isLast_concat_iff, ih]
    by_cases ha : p a
    · simp [ha]
    · simp [ha, or_imp, forall_and]

theorem isLast_map_iff {f : β → α} {zs : List β} :
    IsLast p (zs.map f) x ↔ ∃ z, IsLast (fun z => p (f z)) zs z ∧ f z = x := by
  induction zs using List.reverseRecOn with
  | nil => simp [not_isLast_nil]
  | append_singleton zs b ih =>
    rw [List.map_append, List.map_singleton, isLast_concat_iff, ih]
    by_cases hb : p (f b)
    · simp [isLast_concat_iff, hb, eq_comm]
    · simp [isLast_concat_iff, hb]

/-- **The last of the elements of several lists** is the last in its own list, and this is the last
list with such an element. -/
theorem isLast_flatMap_iff {f : β → List α} {zs : List β} :
    IsLast p (zs.flatMap f) x ↔ ∃ z, IsLast (fun z => ∃ y ∈ f z, p y) zs z ∧ IsLast p (f z) x := by
  induction zs using List.reverseRecOn with
  | nil => simp [not_isLast_nil]
  | append_singleton zs b ih =>
    rw [List.flatMap_append, List.flatMap_singleton, isLast_append_iff, ih]
    by_cases hb : ∃ y ∈ f b, p y
    · have hnot : ¬ ∀ y ∈ f b, ¬ p y := by simpa using hb
      simp [isLast_concat_iff, hb, hnot]
    · have hnone : ¬ IsLast p (f b) x := fun h => hb ⟨x, h.mem, h.holds⟩
      have hall : ∀ y ∈ f b, ¬ p y := by simpa using hb
      simp only [isLast_concat_iff, hb, hnone, false_or, false_and, not_false_eq_true, true_and]
      exact and_iff_right hall

variable {κ : Type} [Ord κ] [Std.TransOrd κ] [Std.LawfulEqOrd κ]

theorem Table.get?_ofList_map_eq_some_iff {f : α → κ × β} {k : κ} {v : β} :
    (Table.ofList (xs.map f)).get? k = some v ↔
      ∃ x, IsLast (fun x => (f x).1 = k) xs x ∧ (f x).2 = v := by
  induction xs using List.reverseRecOn with
  | nil => simp [Table.ofList, not_isLast_nil]
  | append_singleton xs a ih =>
    rw [List.map_append, List.map_singleton, Table.ofList_append]
    by_cases ha : (f a).1 = k
    · subst ha
      simp [isLast_concat_iff]
    · rw [Table.get?_insert_of_ne _ _ (Ne.symm ha), ih]
      simp [isLast_concat_iff, ha]

theorem Table.isSome_get?_ofList_map_iff {f : α → κ × β} {k : κ} :
    ((Table.ofList (xs.map f)).get? k).isSome ↔ ∃ x ∈ xs, (f x).1 = k := by
  rw [← exists_isLast_iff, Option.isSome_iff_exists]
  simp only [get?_ofList_map_eq_some_iff]
  constructor
  · rintro ⟨v, x, hx, -⟩
    exact ⟨x, hx⟩
  · rintro ⟨x, hx⟩
    exact ⟨_, x, hx, rfl⟩

theorem Table.size_ofList_map [DecidableEq κ] (f : α → κ × β) (xs : List α) :
    (Table.ofList (xs.map f)).size = (xs.map fun x => (f x).1).toFinset.card := by
  refine size_eq_card fun k => ?_
  rw [isSome_get?_ofList_map_iff, List.mem_toFinset, List.mem_map]

/-- A table that tells of some elements, each with its key and value, the last one for each key. -/
structure Table.HoldsLast [DecidableEq κ] (t : Table κ β) (xs : List α) (f : α → κ × β) : Prop where
  /-- There is a value under a key exactly if an element has the key. -/
  isSome : ∀ k, (t.get? k).isSome ↔ ∃ x ∈ xs, (f x).1 = k
  /-- It is the value of the last such element. -/
  last : ∀ k v, t.get? k = some v ↔ ∃ x, IsLast (fun x => (f x).1 = k) xs x ∧ (f x).2 = v
  /-- Each key is counted once. -/
  size : t.size = (xs.map fun x => (f x).1).toFinset.card

theorem Table.holdsLast_ofList_map [DecidableEq κ] (f : α → κ × β) (xs : List α) :
    (Table.ofList (xs.map f)).HoldsLast xs f where
  isSome _ := isSome_get?_ofList_map_iff
  last _ _ := get?_ofList_map_eq_some_iff
  size := size_ofList_map f xs

end IsLast

/-! ### Procedures -/

/-- A procedure with the plan and the requirement that it stands in. -/
structure ProcedureSite where
  plan : AssessmentPlan
  requirement : Requirement
  procedure : Procedure

/-- The procedures of some plans in the order of the documents. -/
def procedureSites (plans : List AssessmentPlan) : List ProcedureSite :=
  plans.flatMap fun p => p.requirements.flatMap fun r => r.procedures.map fun q => ⟨p, r, q⟩

/-- What the index of procedures holds of a procedure, under its trimmed id. -/
def ProcedureSite.entry (s : ProcedureSite) : String × ProcedureEntry :=
  (trim s.procedure.id, ⟨s.plan.controlId, s.requirement.id, s.procedure.documentation⟩)

theorem flatMap_procedures (plans : List AssessmentPlan) :
    plans.flatMap AssessmentPlan.procedures = (procedureSites plans).map ProcedureSite.entry := by
  simp only [procedureSites, List.map_flatMap, List.map_map]
  rfl

theorem ProcedureIndex.ofPlans_eq (plans : List AssessmentPlan) :
    ProcedureIndex.ofPlans plans =
      Table.ofList ((procedureSites plans).map ProcedureSite.entry) := by
  rw [ofPlans, flatMap_procedures]

/-- Under an id the index of some plans holds the last procedure that has it once trimmed. -/
theorem ProcedureIndex.get?_ofPlans_eq_some_iff {plans : List AssessmentPlan} {id : String}
    {e : ProcedureEntry} :
    (ProcedureIndex.ofPlans plans).get? id = some e ↔
      ∃ s, IsLast (fun s => trim s.procedure.id = id) (procedureSites plans) s ∧ s.entry.2 = e := by
  rw [ofPlans_eq]
  exact Table.get?_ofList_map_eq_some_iff

theorem ProcedureIndex.get?_ofPlans_eq_none_iff {plans : List AssessmentPlan} {id : String} :
    (ProcedureIndex.ofPlans plans).get? id = none ↔
      ∀ s ∈ procedureSites plans, trim s.procedure.id ≠ id := by
  rw [Option.eq_none_iff_forall_ne_some]
  constructor
  · intro hnone s hs hid
    have hexists : ∃ last, IsLast (fun s => trim s.procedure.id = id) (procedureSites plans) last :=
      exists_isLast_iff.2 ⟨s, hs, hid⟩
    obtain ⟨last, hlast⟩ := hexists
    exact hnone _ (get?_ofPlans_eq_some_iff.2 ⟨last, hlast, rfl⟩)
  · rintro hother e he
    obtain ⟨s, hs, -⟩ := get?_ofPlans_eq_some_iff.1 he
    exact hother s hs.mem hs.holds

theorem ProcedureIndex.get?_ofPlans_append (plans more : List AssessmentPlan) (id : String) :
    (ProcedureIndex.ofPlans (plans ++ more)).get? id =
      ((ProcedureIndex.ofPlans more).get? id).or ((ProcedureIndex.ofPlans plans).get? id) := by
  rw [ofPlans, List.flatMap_append]
  exact Table.get?_ofList_append _ _ id

/-- A procedure is the last one for an id in some plans: no later one of its requirement has the id,
no later requirement of its plan has such a procedure, and no later plan has one. -/
structure ProcedureSite.IsLastIn (plans : List AssessmentPlan) (id : String) (s : ProcedureSite) :
    Prop where
  plan : IsLast (fun p => ∃ r ∈ p.requirements, ∃ q ∈ r.procedures, trim q.id = id) plans s.plan
  requirement :
    IsLast (fun r => ∃ q ∈ r.procedures, trim q.id = id) s.plan.requirements s.requirement
  procedure : IsLast (fun q => trim q.id = id) s.requirement.procedures s.procedure

/-- In the order of the documents this is the last procedure of all for the id. -/
theorem isLast_procedureSites_iff {plans : List AssessmentPlan} {id : String} {s : ProcedureSite} :
    IsLast (fun s => trim s.procedure.id = id) (procedureSites plans) s ↔ s.IsLastIn plans id := by
  simp only [procedureSites, isLast_flatMap_iff, isLast_map_iff, List.mem_flatMap, List.mem_map]
  constructor
  · rintro ⟨p, hp, r, hr, q, hq, rfl⟩
    exact ⟨by simpa [and_assoc] using hp, by simpa using hr, hq⟩
  · rintro ⟨hp, hr, hq⟩
    exact ⟨s.plan, by simpa [and_assoc] using hp, s.requirement, by simpa using hr, s.procedure, hq,
      rfl⟩

/-! ### Controls -/

/-- A control with the family that it stands in. -/
structure ControlSite where
  family : ControlFamily
  control : Control

/-- The controls of a catalog in the order of the document. -/
def controlSites (c : Catalog) : List ControlSite :=
  c.families.flatMap fun f => f.controls.map fun k => ⟨f, k⟩

/-- What the index of controls holds of a control, under its id. -/
def ControlSite.entry (s : ControlSite) : String × ControlEntry :=
  (s.control.id, ⟨s.family.title, s.control.standards⟩)

theorem ControlIndex.ofCatalog_eq (c : Catalog) :
    ControlIndex.ofCatalog c = Table.ofList ((controlSites c).map ControlSite.entry) := by
  simp only [ofCatalog, Catalog.titledControls, controlSites, List.map_flatMap, List.map_map]
  rfl

/-- Under an id the index of a catalog holds the last control that has it. -/
theorem ControlIndex.get?_ofCatalog_eq_some_iff {c : Catalog} {id : String} {e : ControlEntry} :
    (ControlIndex.ofCatalog c).get? id = some e ↔
      ∃ s, IsLast (fun s => s.control.id = id) (controlSites c) s ∧ s.entry.2 = e := by
  rw [ofCatalog_eq]
  exact Table.get?_ofList_map_eq_some_iff

/-- A control is the last one for an id in a catalog: no later one of its family has the id, and no
later family has such a control. -/
structure ControlSite.IsLastIn (c : Catalog) (id : String) (s : ControlSite) : Prop where
  family : IsLast (fun f => ∃ k ∈ f.controls, k.id = id) c.families s.family
  control : IsLast (fun k => k.id = id) s.family.controls s.control

theorem isLast_controlSites_iff {c : Catalog} {id : String} {s : ControlSite} :
    IsLast (fun s => s.control.id = id) (controlSites c) s ↔ s.IsLastIn c id := by
  simp only [controlSites, isLast_flatMap_iff, isLast_map_iff, List.mem_map]
  constructor
  · rintro ⟨f, hf, k, hk, rfl⟩
    exact ⟨by simpa using hf, hk⟩
  · rintro ⟨hf, hk⟩
    exact ⟨s.family, by simpa using hf, s.control, hk, rfl⟩

/-! ### Both indexes -/

/-- **What the indexes of any documents hold.** The index of some plans holds the last procedure for
each id, once trimmed, in the order of the documents; this is the last one in the last requirement
that has such a procedure, of the last plan that has one.  It counts each id once, and more plans
count before those that are there.  The index of a catalog holds the last control for each id as it
stands, which is the last one in the last family that has such a control, and counts each id once.
-/
theorem indexes_of_documents (plans more : List AssessmentPlan) (c : Catalog) :
    (ProcedureIndex.ofPlans plans).HoldsLast (procedureSites plans) ProcedureSite.entry ∧
    (∀ id e, (ProcedureIndex.ofPlans plans).get? id = some e ↔
      ∃ s : ProcedureSite, s.IsLastIn plans id ∧
        e = ⟨s.plan.controlId, s.requirement.id, s.procedure.documentation⟩) ∧
    (∀ id, (ProcedureIndex.ofPlans (plans ++ more)).get? id =
      ((ProcedureIndex.ofPlans more).get? id).or ((ProcedureIndex.ofPlans plans).get? id)) ∧
    (ControlIndex.ofCatalog c).HoldsLast (controlSites c) ControlSite.entry ∧
    ∀ id e, (ControlIndex.ofCatalog c).get? id = some e ↔
      ∃ s : ControlSite, s.IsLastIn c id ∧ e = ⟨s.family.title, s.control.standards⟩ := by
  refine ⟨?_, fun id e => ?_, ProcedureIndex.get?_ofPlans_append plans more, ?_, fun id e => ?_⟩
  · rw [ProcedureIndex.ofPlans_eq]
    exact Table.holdsLast_ofList_map _ _
  · simp only [ProcedureIndex.get?_ofPlans_eq_some_iff, isLast_procedureSites_iff]
    exact exists_congr fun s => and_congr_right fun _ => eq_comm
  · rw [ControlIndex.ofCatalog_eq]
    exact Table.holdsLast_ofList_map _ _
  · simp only [ControlIndex.get?_ofCatalog_eq_some_iff, isLast_controlSites_iff]
    exact exists_congr fun s => and_congr_right fun _ => eq_comm

end Compliance
