import Compliance.Client.Http
import Compliance.Proofs.Client.Delivery

/-!
# Fetching ahead what a configuration lists

A configuration names the policies to fetch at the start and how many of them may be asked for at
once.  A warm-up takes the policies from the configuration and the size of its requests from the
session, whose own size is another number unless somebody has set it to the same.  So the size in
the configuration is checked when the configuration is read, and is without effect afterwards.

* `Session.warmUp_eq` : a warm-up is a prefetch of what the configuration lists.
* `Session.Account.length_le_iff` : how long the longest request of a prefetch is.
* `Session.Honours` : requests that go by a size.
* `Session.warm_up_account` : the requests of a warm-up, and when they go by the configuration.
* `Session.configured_size_unheeded` : a session that asks for more at once than it may.
-/

namespace Compliance

namespace Session

variable {σ : Type} (src : Source σ)

theorem warmUp_eq (s : Session σ) (c : ClientConfig) :
    s.warmUp src c = s.prefetch src c.prefetch := by
  rw [warmUp]
  by_cases h : c.prefetch.isEmpty
  · rw [if_pos h, List.isEmpty_iff.mp h, prefetch, firstPerRule, chunks]
    rfl
  · rw [if_neg h]

/-! ### How long requests are -/

section

variable {size : Nat} {ps : List PolicyRef} {before after : Cache} {xs : List Exchange}
  {report : PrefetchReport}

theorem Account.length_asked (h : Account size ps before xs after report) :
    (xs.flatMap Exchange.asked).length = report.unique := by
  rw [h.asked, ← firstPerRule_eq_firstMentions, length_firstPerRule, h.unique]

/-- **The longest request** asks for as much as the size allows, or else for everything. -/
theorem Account.length_le_iff (h : Account size ps before xs after report) (bound : Nat) :
    (∀ x ∈ xs, x.asked.length ≤ bound) ↔ min size report.unique ≤ bound := by
  have hsum := h.length_asked
  constructor
  · intro hle
    -- only the last request may be shorter than the size, and a lone one asks for everything
    match xs, h, hsum with
    | [], _, hsum =>
      simp only [List.flatMap_nil, List.length_nil] at hsum
      omega
    | [x], _, hsum =>
      rw [List.flatMap_cons, List.flatMap_nil, List.append_nil] at hsum
      have hx := hle x (List.mem_cons_self ..)
      omega
    | x :: y :: rest, h, _ =>
      have hfull := h.full x (List.mem_cons_self ..)
      have hx := hle x (List.mem_cons_self ..)
      omega
  · intro hmin x hx
    have hsize := (h.within x hx).2
    obtain ⟨front, back, rfl⟩ := List.append_of_mem hx
    rw [List.flatMap_append, List.flatMap_cons, List.length_append, List.length_append] at hsum
    omega

/-- No request asks for more rules than a size, and there are as few requests for some rules as that
allows. -/
structure Honours (size rules : Nat) (xs : List Exchange) : Prop where
  within : ∀ x ∈ xs, x.asked.length ≤ size
  fewest : xs.length = (rules + size - 1) / size

/-- The requests for chunks of one size go by another exactly if they are no longer, and no more,
than it wants. -/
theorem Account.honours_iff (h : Account size ps before xs after report) (other : Nat) :
    Honours other report.unique xs ↔
      min size report.unique ≤ other ∧
        (report.unique + size - 1) / size = (report.unique + other - 1) / other := by
  constructor
  · rintro ⟨hwithin, hfewest⟩
    exact ⟨(h.length_le_iff other).mp hwithin, h.fewest.symm.trans hfewest⟩
  · rintro ⟨hmin, hcount⟩
    exact ⟨(h.length_le_iff other).mpr hmin, h.fewest.trans hcount⟩

end

/-! ### Warm-ups -/

/-- **A warm-up goes by the session's size.**  Whatever the source, it makes the requests of a
prefetch of the configured policies in chunks of the session's size, and a log records just these.
They go by the size in the configuration if the two sizes are the same, and in general exactly if
the longest chunk is no longer than that size and there are as many chunks as it would make. -/
theorem warm_up_account (s : Session σ) (c : ClientConfig) (log : List Exchange) :
    ∃ (xs : List Exchange) (w : σ) (after : Cache) (report : PrefetchReport),
      src.exchanges s.world (xs.map Exchange.asked) = (xs, w) ∧
      s.warmUp src c = ({ s with cache := after, world := w }, report) ∧
      (s.logged log).warmUp src.logged c =
        (({ s with cache := after, world := w } : Session σ).logged (log ++ xs), report) ∧
      Account s.batchSize c.prefetch s.cache xs after report ∧
      (s.batchSize = c.prefetchBatchSize →
        Honours c.prefetchBatchSize (c.prefetch.map PolicyRef.rule).toFinset.card xs) ∧
      (Honours c.prefetchBatchSize (c.prefetch.map PolicyRef.rule).toFinset.card xs ↔
        min s.batchSize report.unique ≤ c.prefetchBatchSize ∧
          (report.unique + s.batchSize - 1) / s.batchSize =
            (report.unique + c.prefetchBatchSize - 1) / c.prefetchBatchSize) := by
  let xs := (src.exchanges s.world (s.requests c.prefetch)).1
  have hxs : xs.map Exchange.asked = s.requests c.prefetch :=
    src.map_asked_exchanges s.world (s.requests c.prefetch)
  have hlength : (s.requests c.prefetch).length = xs.length := by rw [← hxs, List.length_map]
  have haccount := account_of_chunks s.batchSize_pos c.prefetch s.cache hxs
  have hiff := haccount.honours_iff c.prefetchBatchSize
  rw [← haccount.unique]
  refine ⟨xs, (src.exchanges s.world (s.requests c.prefetch)).2, _, _, by rw [hxs], ?_, ?_,
    haccount, fun hsize => ?_, hiff⟩
  · rw [warmUp_eq, prefetch_eq, ← hlength]
  · rw [warmUp_eq, prefetch_logged, prefetch_eq, ← hlength]
  · rw [hiff, hsize]
    exact ⟨Nat.min_le_left _ _, rfl⟩

/-! ### A size that is not heeded -/

/-- A configuration that lists two rules and wants them asked for one by one. -/
def oneByOne : ClientConfig where
  endpoint := ⟨"http", some { host := "localhost" }, "/", none, none⟩
  prefetchBatchSize := 1
  prefetch := [.sample, ⟨PolicyRef.sample.engine, ⟨"AC-2", by decide, by decide⟩⟩]

/-- **The configured size is not heeded**: a session of the usual size asks for both rules at once,
though the configuration is valid and wants two requests of one rule each. -/
theorem configured_size_unheeded :
    oneByOne.validate = .ok oneByOne ∧
    (((opened () 50 (by decide)).logged []).warmUp
        (Source.constant []).logged oneByOne).1.world.2.map
      Exchange.asked = [oneByOne.prefetch] ∧
    ¬ ∀ (s : Session Unit) (c : ClientConfig), c.validate = .ok c →
      Honours c.prefetchBatchSize (c.prefetch.map PolicyRef.rule).toFinset.card
        ((s.logged []).warmUp (Source.constant []).logged c).1.world.2 := by
  have hvalid : oneByOne.validate = .ok oneByOne := rfl
  have hasked : (((opened () 50 (by decide)).logged []).warmUp (Source.constant []).logged
      oneByOne).1.world.2.map Exchange.asked = [oneByOne.prefetch] := by
    have hone : (opened () 50 (by decide)).requests oneByOne.prefetch = [oneByOne.prefetch] := by
      have hfirst : firstPerRule [] oneByOne.prefetch = oneByOne.prefetch := by decide
      rw [requests, hfirst, oneByOne, chunks, List.drop_of_length_le (by decide), chunks]
      rfl
    rw [warmUp_eq, prefetch_logged, hone]
    rfl
  refine ⟨hvalid, hasked, fun h => ?_⟩
  obtain ⟨hwithin, -⟩ := h (opened () 50 (by decide)) oneByOne hvalid
  obtain ⟨x, hx, hprefetch⟩ := List.mem_map.mp (hasked ▸ List.mem_singleton_self oneByOne.prefetch)
  have hle := hwithin x hx
  rw [hprefetch] at hle
  exact absurd hle (by decide)

end Session

end Compliance
