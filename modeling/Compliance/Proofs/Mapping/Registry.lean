import Compliance.Mapping.Resolver
import Compliance.Proofs.Identifier
import Compliance.Proofs.Table
import Mathlib.Data.Finset.Card

/-!
# Attempts to register resolvers

Everywhere else the last of several documents counts; among resolvers it is the first.  An engine's
first resolver stays, every later attempt for the engine is refused, and a refusal leaves no trace,
however attempts for different engines are mixed.

* `ResolverSet.Attempt`, `ResolverSet.attempts` : what the attempts of a run give, and what they
  leave.
* `ResolverSet.get?_attempts` : under an engine a run leaves the resolver of the first attempt for
  it, unless there was one before.
* `ResolverSet.Account` : what the attempts give and leave, read off the run.
* `ResolverSet.first_attempt_counts` : every run goes by this account, at every point of it.
-/

namespace Compliance

open Compliance.Text (trim)

namespace ResolverSet

theorem nodup_engines (rs : ResolverSet) : rs.engines.Nodup :=
  rs.resolvers.nodup_keys

/-! ### Attempts -/

/-- A resolver that is to be registered for an engine. -/
structure Attempt where
  engine : EngineName
  resolver : Resolver

/-- What the attempts of a run give, and the set that they leave. -/
def attempts (rs : ResolverSet) : List Attempt → List (Except RegistryError Unit) × ResolverSet
  | [] => ([], rs)
  | a :: as =>
    let (answer, rs) := rs.register a.engine a.resolver
    let (answers, rs) := attempts rs as
    (answer :: answers, rs)

section

variable {rs : ResolverSet} {engine : EngineName} (r : Resolver)

theorem register_of_taken (h : (rs.resolvers.get? engine).isSome) :
    rs.register engine r = (.error (.duplicateEngine engine), rs) := by
  have hcontains : rs.resolvers.contains engine = true := h
  rw [register, if_pos hcontains]

theorem register_of_free (h : rs.resolvers.get? engine = none) :
    rs.register engine r =
      (.ok (), { rs with resolvers := rs.resolvers.insert engine r }) := by
  have hcontains : ¬ rs.resolvers.contains engine = true := by
    rw [Table.contains, h]
    exact Bool.false_ne_true
  rw [register, if_neg hcontains]

end

/-- **An engine's resolver stays**, and an engine without one gets the one that is registered if
this is for it. -/
theorem get?_register (rs : ResolverSet) (engine : EngineName) (r : Resolver) (e : EngineName) :
    (rs.register engine r).2.resolvers.get? e =
      (rs.resolvers.get? e).or (if engine = e then some r else none) := by
  cases h : rs.resolvers.get? engine with
  | some kept =>
    rw [register_of_taken r (by rw [h]; rfl)]
    by_cases he : engine = e
    · subst he
      rw [h, Option.some_or]
    · rw [if_neg he, Option.or_none]
  | none =>
    rw [register_of_free r h, Table.get?_insert]
    by_cases he : engine = e
    · subst he
      rw [if_pos rfl, if_pos rfl, h, Option.none_or]
    · rw [if_neg (Ne.symm he), if_neg he, Option.or_none]

theorem fallback_register (rs : ResolverSet) (engine : EngineName) (r : Resolver) :
    (rs.register engine r).2.fallback = rs.fallback := by
  rw [register]
  split <;> rfl

/-! ### Runs of attempts -/

/-- **Under an engine a run leaves its first resolver**: the one from before the run, or else that
of the first attempt for the engine. -/
theorem get?_attempts (rs : ResolverSet) (as : List Attempt) (e : EngineName) :
    (rs.attempts as).2.resolvers.get? e =
      (rs.resolvers.get? e).or ((as.find? (·.engine = e)).map Attempt.resolver) := by
  induction as generalizing rs with
  | nil => rw [attempts, List.find?_nil, Option.map_none, Option.or_none]
  | cons a as ih =>
    show ((rs.register a.engine a.resolver).2.attempts as).2.resolvers.get? e = _
    rw [ih, get?_register, Option.or_assoc, List.find?_cons]
    by_cases he : a.engine = e <;> simp [he]

theorem fallback_attempts (rs : ResolverSet) (as : List Attempt) :
    (rs.attempts as).2.fallback = rs.fallback := by
  induction as generalizing rs with
  | nil => rfl
  | cons a as ih =>
    show ((rs.register a.engine a.resolver).2.attempts as).2.fallback = rs.fallback
    rw [ih, fallback_register]

theorem attempts_append (rs : ResolverSet) (as more : List Attempt) :
    rs.attempts (as ++ more) =
      ((rs.attempts as).1 ++ ((rs.attempts as).2.attempts more).1,
        ((rs.attempts as).2.attempts more).2) := by
  induction as generalizing rs with
  | nil => rfl
  | cons a as ih => simp only [List.cons_append, attempts, ih]

theorem length_fst_attempts (rs : ResolverSet) (as : List Attempt) :
    (rs.attempts as).1.length = as.length := by
  induction as generalizing rs with
  | nil => rfl
  | cons a as ih => exact congrArg (· + 1) (ih _)

/-- Each attempt is judged against the set that the attempts before it leave. -/
theorem getElem?_fst_attempts (rs : ResolverSet) (before : List Attempt) (a : Attempt)
    (after : List Attempt) :
    (rs.attempts (before ++ a :: after)).1[before.length]? =
      some ((rs.attempts before).2.register a.engine a.resolver).1 := by
  rw [attempts_append, ← length_fst_attempts rs before, List.getElem?_append_right (Nat.le_refl _),
    Nat.sub_self]
  rfl

theorem snd_attempts_concat (rs : ResolverSet) (before : List Attempt) (a : Attempt) :
    (rs.attempts (before ++ [a])).2 =
      ((rs.attempts before).2.register a.engine a.resolver).2 := by
  rw [attempts_append]
  rfl

/-! ### The account of a run -/

/-- What becomes of a set without resolvers of its own when some are registered. -/
structure Account (fallback : Resolver) (as : List Attempt)
    (answers : List (Except RegistryError Unit)) (rs : ResolverSet) : Prop where
  length : answers.length = as.length
  /-- An attempt is refused exactly if there is an earlier one for its engine, and the refusal names
  the engine. -/
  refused : ∀ before a after, as = before ++ a :: after →
    (answers[before.length]? = some (.error (.duplicateEngine a.engine)) ↔
      ∃ b ∈ before, b.engine = a.engine)
  /-- Any other attempt succeeds. -/
  accepted : ∀ before a after, as = before ++ a :: after →
    (answers[before.length]? = some (.ok ()) ↔ ∀ b ∈ before, b.engine ≠ a.engine)
  /-- After an attempt that has not succeeded the set is the one before it. -/
  unchanged : ∀ before a after, as = before ++ a :: after →
    answers[before.length]? ≠ some (.ok ()) →
      (attempts { fallback } (before ++ [a])).2 = (attempts { fallback } before).2
  /-- The first attempt for an engine counts, and the fallback if there is none. -/
  select : ∀ e, rs.select e = ((as.find? (·.engine = e)).map Attempt.resolver).getD fallback
  fallback : rs.fallback = fallback
  /-- The engines are those of the attempts, each once. -/
  engines : ∀ e, e ∈ rs.engines ↔ ∃ a ∈ as, a.engine = e
  nodup : rs.engines.Nodup
  size : rs.size = (as.map Attempt.engine).toFinset.card

theorem get?_attempts_new (fallback : Resolver) (as : List Attempt) (e : EngineName) :
    (attempts { fallback } as).2.resolvers.get? e =
      (as.find? (·.engine = e)).map Attempt.resolver := by
  rw [get?_attempts]
  rfl

/-- The first attempt for an engine counts, and the fallback if there is none. -/
theorem select_attempts_new (fallback : Resolver) (as : List Attempt) (e : EngineName) :
    (attempts { fallback } as).2.select e =
      ((as.find? (·.engine = e)).map Attempt.resolver).getD fallback := by
  rw [ResolverSet.select, get?_attempts_new, fallback_attempts]

/-- An engine has a resolver of its own exactly if there has been an attempt for it. -/
theorem isSome_get?_attempts_new (fallback : Resolver) (as : List Attempt) (e : EngineName) :
    ((attempts { fallback } as).2.resolvers.get? e).isSome ↔ ∃ a ∈ as, a.engine = e := by
  rw [get?_attempts_new, Option.isSome_map, List.find?_isSome]
  simp

theorem mem_engines_attempts_new (fallback : Resolver) (as : List Attempt) (e : EngineName) :
    e ∈ (attempts { fallback } as).2.engines ↔ ∃ a ∈ as, a.engine = e := by
  rw [engines, Table.mem_keys_iff, isSome_get?_attempts_new]

/-- **What an attempt gives, and what it leaves**, after others. -/
theorem register_after (fallback : Resolver) (before : List Attempt) (a : Attempt) :
    let rs := (attempts { fallback } before).2
    ((∃ b ∈ before, b.engine = a.engine) ∧
      rs.register a.engine a.resolver = (.error (.duplicateEngine a.engine), rs)) ∨
    ((∀ b ∈ before, b.engine ≠ a.engine) ∧ (rs.register a.engine a.resolver).1 = .ok ()) := by
  intro rs
  by_cases htaken : ∃ b ∈ before, b.engine = a.engine
  · exact .inl ⟨htaken,
      register_of_taken _ ((isSome_get?_attempts_new fallback before _).mpr htaken)⟩
  · have hfree : rs.resolvers.get? a.engine = none := by
      rw [← Option.not_isSome_iff_eq_none, isSome_get?_attempts_new]
      exact htaken
    refine .inr ⟨fun b hb he => htaken ⟨b, hb, he⟩, ?_⟩
    rw [register_of_free _ hfree]

/-- **First come, first served.**  Every run of attempts goes by its account, whatever the fallback
and the resolvers are: an attempt is refused exactly if an earlier one was for the same engine, the
refusal names the engine and leaves the set exactly as it was, each engine has the resolver of the
first attempt for it and every other engine the fallback, and the engines are those of the attempts.
Since this is so of every run, it is so at every point of a run.  Two texts name one engine exactly
if they are the same once trimmed. -/
theorem first_attempt_counts (fallback : Resolver) (as : List Attempt) :
    Account fallback as (attempts { fallback } as).1 (attempts { fallback } as).2 ∧
    ∀ (name name' : String) (e e' : EngineName), Identifier.ofText .engine name = .ok e →
      Identifier.ofText .engine name' = .ok e' → (e = e' ↔ trim name = trim name') := by
  constructor
  · refine
      { length := length_fst_attempts _ as
        refused := ?_
        accepted := ?_
        unchanged := ?_
        select := select_attempts_new fallback as
        fallback := fallback_attempts _ as
        engines := mem_engines_attempts_new fallback as
        nodup := nodup_engines _
        size := ?_ }
    · rintro before a after rfl
      rw [getElem?_fst_attempts]
      rcases register_after fallback before a with ⟨htaken, heq⟩ | ⟨hfree, heq⟩
      · simp only [heq, htaken]
      · rw [heq]
        simpa using hfree
    · rintro before a after rfl
      rw [getElem?_fst_attempts]
      rcases register_after fallback before a with ⟨htaken, heq⟩ | ⟨hfree, heq⟩
      · rw [heq]
        simpa using htaken
      · simp only [heq, true_iff]
        exact hfree
    · rintro before a after rfl hanswer
      rw [getElem?_fst_attempts] at hanswer
      rcases register_after fallback before a with ⟨htaken, heq⟩ | ⟨hfree, heq⟩
      · rw [snd_attempts_concat, heq]
      · exact absurd (congrArg some heq) hanswer
    · have hengines : (attempts { fallback } as).2.engines.toFinset =
          (as.map Attempt.engine).toFinset := by
        ext e
        rw [List.mem_toFinset, mem_engines_attempts_new, List.mem_toFinset, List.mem_map]
      rw [← hengines, List.toFinset_card_of_nodup (nodup_engines _), engines, Table.keys,
        List.length_map, ResolverSet.size, Table.size]
  · intro name name' e e' he he'
    rw [Identifier.ext_iff, Identifier.text_of_ofText he, Identifier.text_of_ofText he']

/-- The name of one engine, with and without blanks: the second attempt is refused, and an attempt
for another engine afterwards succeeds. -/
theorem first_attempt_counts_sample :
    let opa : EngineName := ⟨"opa", by decide, by decide⟩
    let kyverno : EngineName := ⟨"kyverno", by decide, by decide⟩
    ∃ padded : EngineName, Identifier.ofText .engine " opa\t" = .ok padded ∧ padded = opa ∧
      let run := attempts { fallback := .basic 0 }
        [⟨opa, .basic 1⟩, ⟨padded, .basic 2⟩, ⟨kyverno, .basic 3⟩]
      run.1[1]? = some (.error (.duplicateEngine opa)) ∧ run.1[2]? = some (.ok ()) ∧
        run.2.select padded = .basic 1 ∧ run.2.size = 2 := by
  intro opa kyverno
  have hne : opa ≠ kyverno := by decide
  have hnamed : Identifier.ofText .engine opa.text = .ok opa := Identifier.ofText_text opa
  obtain ⟨padded, hpadded⟩ := Identifier.exists_ofText .engine (s := " opa\t") (by decide)
  obtain ⟨haccount, hnames⟩ := first_attempt_counts (.basic 0)
    [⟨opa, .basic 1⟩, ⟨padded, .basic 2⟩, ⟨kyverno, .basic 3⟩]
  obtain rfl : padded = opa := (hnames _ _ _ _ hpadded hnamed).mpr (by decide)
  refine ⟨opa, hpadded, rfl, ?_, ?_, ?_, ?_⟩
  · exact (haccount.refused [⟨opa, .basic 1⟩] ⟨opa, .basic 2⟩ _ rfl).mpr (by simp)
  · exact (haccount.accepted [⟨opa, .basic 1⟩, ⟨opa, .basic 2⟩] ⟨kyverno, .basic 3⟩ _ rfl).mpr
      (by simpa using hne)
  · exact (haccount.select opa).trans (by simp)
  · exact haccount.size.trans (by simp [hne])

end ResolverSet

end Compliance
