import Compliance.Client.Session
import Mathlib.Data.Finset.Card
import Mathlib.Data.List.Induction

/-!
# What a prefetch asks for

A prefetch keeps the first policy for each rule and asks for what it has kept in chunks, whatever
its source replies.

* `flatten_chunks`, `length_of_mem_chunks`, `length_of_mem_dropLast_chunks`, `length_chunks` :
  chunks cover a list, are as long as allowed but for the last, and are as few as that allows.
* `firstMentions` : the policies before which no other names their rule, by their places.
* `firstPerRule_eq_firstMentions`, `length_firstPerRule` : these are the policies that are kept,
  one for each rule.
* `find?_firstPerRule`, `pairwise_firstPerRule` : the one that is kept for a rule, and that there
  is no second.
-/

namespace Compliance

/-! ### Chunks -/

theorem flatten_chunks {α : Type} {size : Nat} (h : 0 < size) (xs : List α) :
    (chunks size h xs).flatten = xs := by
  fun_induction chunks size h xs with
  | case1 => rfl
  | case2 x rest ih => rw [List.flatten_cons, ih, List.take_append_drop]

theorem length_of_mem_chunks {α : Type} {size : Nat} {h : 0 < size} {xs c : List α}
    (hc : c ∈ chunks size h xs) : 1 ≤ c.length ∧ c.length ≤ size := by
  fun_induction chunks size h xs with
  | case1 => cases hc
  | case2 x rest ih =>
    rcases List.mem_cons.mp hc with rfl | hc
    · rw [List.length_take, List.length_cons]
      omega
    · exact ih hc

theorem length_of_mem_dropLast_chunks {α : Type} {size : Nat} {h : 0 < size} {xs c : List α}
    (hc : c ∈ (chunks size h xs).dropLast) : c.length = size := by
  fun_induction chunks size h xs with
  | case1 => cases hc
  | case2 x rest ih =>
    by_cases hmore : chunks size h ((x :: rest).drop size) = []
    · rw [hmore] at hc
      cases hc
    · rw [List.dropLast_cons_of_ne_nil hmore] at hc
      rcases List.mem_cons.mp hc with rfl | hc
      · -- a chunk follows, so there is more in the list than this one takes
        have hlong : (x :: rest).drop size ≠ [] := by
          intro hnil
          rw [hnil, chunks] at hmore
          exact hmore rfl
        rw [Ne, List.drop_eq_nil_iff] at hlong
        rw [List.length_take]
        omega
      · exact ih hc

/-- There are as many chunks as it takes: the quotient of the lengths, rounded up. -/
theorem length_chunks {α : Type} {size : Nat} (h : 0 < size) (xs : List α) :
    (chunks size h xs).length = (xs.length + size - 1) / size := by
  fun_induction chunks size h xs with
  | case1 => rw [List.length_nil, List.length_nil, Nat.div_eq_of_lt (by omega)]
  | case2 x rest ih =>
    rw [List.length_cons, ih, List.length_drop, List.length_cons]
    rcases Nat.lt_or_ge size (rest.length + 1) with hlt | hge
    · have hsum : rest.length + 1 + size - 1 = rest.length + 1 - size + size - 1 + size := by omega
      rw [hsum, Nat.add_div_right _ h]
    · have hnone : rest.length + 1 - size + size - 1 < size := by omega
      have hone : rest.length + 1 + size - 1 = rest.length + size := by omega
      rw [Nat.div_eq_of_lt hnone, hone, Nat.add_div_right _ h, Nat.div_eq_of_lt (by omega)]


/-! ### The first policy for each rule -/

theorem find?_firstPerRule {seen : List RuleId} {r : RuleId} (h : r ∉ seen)
    (ps : List PolicyRef) :
    (firstPerRule seen ps).find? (·.rule = r) = ps.find? (·.rule = r) := by
  induction ps generalizing seen with
  | nil => rfl
  | cons p ps ih =>
    rw [firstPerRule]
    by_cases hp : p.rule = r
    · have hseen : p.rule ∉ seen := hp ▸ h
      rw [if_neg hseen]
      simp [hp]
    · by_cases hseen : p.rule ∈ seen
      · simp [if_pos hseen, hp, ih h]
      · have hr : r ∉ p.rule :: seen := by simp [Ne.symm hp, h]
        simp [if_neg hseen, hp, ih hr]

theorem rule_not_mem_seen {seen : List RuleId} {ps : List PolicyRef} {p : PolicyRef}
    (h : p ∈ firstPerRule seen ps) : p.rule ∉ seen := by
  induction ps generalizing seen with
  | nil => cases h
  | cons q ps ih =>
    rw [firstPerRule] at h
    split at h
    · exact ih h
    case isFalse hq =>
      rcases List.mem_cons.mp h with rfl | h
      · exact hq
      · exact fun hp => ih h (List.mem_cons_of_mem _ hp)

theorem pairwise_firstPerRule (seen : List RuleId) (ps : List PolicyRef) :
    (firstPerRule seen ps).Pairwise (fun p q => p.rule ≠ q.rule) := by
  induction ps generalizing seen with
  | nil => exact .nil
  | cons p ps ih =>
    rw [firstPerRule]
    split
    · exact ih seen
    · refine List.pairwise_cons.mpr ⟨fun q hq heq => ?_, ih _⟩
      exact rule_not_mem_seen hq (heq ▸ List.mem_cons_self ..)

/-- The policies before which no other policy names their rule. -/
def firstMentions (ps : List PolicyRef) : List PolicyRef :=
  (ps.zipIdx.filter fun e => !((ps.take e.2).map PolicyRef.rule).contains e.1.rule).map Prod.fst

theorem firstPerRule_concat (seen : List RuleId) (ps : List PolicyRef) (p : PolicyRef) :
    firstPerRule seen (ps ++ [p]) =
      firstPerRule seen ps ++
        if p.rule ∈ seen ∨ p.rule ∈ ps.map PolicyRef.rule then [] else [p] := by
  induction ps generalizing seen with
  | nil =>
    by_cases h : p.rule ∈ seen <;> simp [firstPerRule, h]
  | cons q ps ih =>
    rw [List.cons_append, firstPerRule, firstPerRule]
    by_cases hq : q.rule ∈ seen
    · have hor : p.rule ∈ seen ∨ p.rule ∈ (q :: ps).map PolicyRef.rule ↔
          p.rule ∈ seen ∨ p.rule ∈ ps.map PolicyRef.rule := by
        rw [List.map_cons, List.mem_cons]
        refine ⟨?_, fun h => h.imp_right .inr⟩
        rintro (h | h | h)
        · exact .inl h
        · exact .inl (h ▸ hq)
        · exact .inr h
      rw [if_pos hq, if_pos hq, ih]
      simp only [hor]
    · have hor : p.rule ∈ q.rule :: seen ∨ p.rule ∈ ps.map PolicyRef.rule ↔
          p.rule ∈ seen ∨ p.rule ∈ (q :: ps).map PolicyRef.rule := by
        rw [List.map_cons, List.mem_cons, List.mem_cons]
        exact or_assoc.trans or_left_comm
      rw [if_neg hq, if_neg hq, ih, List.cons_append]
      simp only [hor]

theorem firstMentions_concat (ps : List PolicyRef) (p : PolicyRef) :
    firstMentions (ps ++ [p]) =
      firstMentions ps ++ if p.rule ∈ ps.map PolicyRef.rule then [] else [p] := by
  have hbefore :
      ps.zipIdx.filter (fun e => !(((ps ++ [p]).take e.2).map PolicyRef.rule).contains e.1.rule) =
        ps.zipIdx.filter fun e => !((ps.take e.2).map PolicyRef.rule).contains e.1.rule := by
    refine List.filter_congr fun e he => ?_
    have hi : e.2 < ps.length := by simpa using List.snd_lt_of_mem_zipIdx he
    rw [List.take_append_of_le_length (Nat.le_of_lt hi)]
  have hall : (ps ++ [p]).take (0 + ps.length) = ps := by simp
  rw [firstMentions, List.zipIdx_append, List.filter_append, List.map_append, hbefore,
    List.zipIdx_singleton, List.filter_singleton, hall, firstMentions]
  by_cases h : p.rule ∈ ps.map PolicyRef.rule <;> simp [h]

/-- Of the policies for one rule the one that comes first is kept, in its place. -/
theorem firstPerRule_eq_firstMentions (ps : List PolicyRef) :
    firstPerRule [] ps = firstMentions ps := by
  induction ps using List.reverseRecOn with
  | nil => rfl
  | append_singleton ps p ih => rw [firstPerRule_concat, firstMentions_concat, ih]; simp

theorem length_firstPerRule (ps : List PolicyRef) :
    (firstPerRule [] ps).length = (ps.map PolicyRef.rule).toFinset.card := by
  have hnodup : ((firstPerRule [] ps).map PolicyRef.rule).Nodup :=
    List.pairwise_map.mpr (pairwise_firstPerRule [] ps)
  have hsame : ((firstPerRule [] ps).map PolicyRef.rule).toFinset =
      (ps.map PolicyRef.rule).toFinset := by
    ext r
    have hfind := find?_firstPerRule (List.not_mem_nil (a := r)) ps
    have hsome : ((firstPerRule [] ps).find? (·.rule = r)).isSome ↔
        (ps.find? (·.rule = r)).isSome := by rw [hfind]
    simpa using hsome
  rw [← hsame, List.toFinset_card_of_nodup hnodup, List.length_map]

end Compliance
