import Compliance.Proofs.Client.Exchange
import Compliance.Proofs.Client.Run

/-!
# What the entries of a cache rest on

A session keeps what its source tells it for good, so it matters what it takes for an answer.  There
are two ways into the cache.  A prefetch goes by the rule that an item names, whether or not the
request names it too.  A retrieval goes by the rule that the request names, and takes the first item
of the reply for the answer, whichever rule the item names.  So a reply about other rules than those
asked for ends up in the cache, and nothing but the source's good conduct keeps it out.

* `Exchange.Delivers` : an answer to what was asked, about the rule it is wanted for.
* `Exchange.Brings` : what a session takes for one.
* `Exchange.AsAsked` : the conduct of a source that makes both the same.
* `Session.entries_brought` : the entries after every run, and the answers to single requests.
* `Session.other_rule_kept` : a source that answers about another rule.
-/

namespace Compliance

namespace Exchange

/-- The request names a rule, and the reply says something about it. -/
def Delivers (x : Exchange) (r : RuleId) (o : Resolution) : Prop :=
  (∃ p ∈ x.asked, p.rule = r) ∧ (r, o) ∈ x.outcomes

/-- Every item of the reply is about a rule that the request names. -/
def AsAsked (x : Exchange) : Prop :=
  ∀ item ∈ x.items, ∃ p ∈ x.asked, p.rule = item.rule

/-- The first item of the reply says something, about whichever rule. -/
def Opens (x : Exchange) (o : Resolution) : Prop :=
  ∃ item r, x.items.head? = some item ∧ said item = some (r, o)

/-- How an exchange brings an outcome under a rule. -/
inductive Brings (x : Exchange) (r : RuleId) (o : Resolution) : Prop where
  /-- The reply says it about the rule, which the request need not name. -/
  | labelled (answers : (r, o) ∈ x.outcomes)
  /-- The request is for the rule alone, and the reply opens with it, about whichever rule. -/
  | first {p : PolicyRef} (asked : x.asked = [p]) (rule : p.rule = r) (opens : x.Opens o)

/-- If the reply is about what was asked, then what it brings is delivered. -/
theorem Brings.delivers {x : Exchange} {r : RuleId} {o : Resolution} (h : x.Brings r o)
    (hx : x.AsAsked) : x.Delivers r o := by
  cases h with
  | labelled answers =>
    obtain ⟨item, hitem, rfl, -⟩ := mem_outcomes_iff.mp answers
    exact ⟨hx item hitem, answers⟩
  | @first p asked rule opens =>
    obtain ⟨item, r', hhead, hsaid⟩ := opens
    -- the item is about a rule that the request names, and it names only one
    have hitem : item ∈ x.items := List.mem_of_head? hhead
    obtain ⟨q, hq, hrule⟩ := hx item hitem
    rw [asked] at hq
    obtain rfl := List.mem_singleton.mp hq
    obtain ⟨-, herror, houtcome⟩ := said_eq_some_iff.mp hsaid
    have hr : item.rule = r := hrule.symm.trans rule
    refine ⟨⟨q, asked ▸ List.mem_singleton_self q, rule⟩, mem_outcomes_iff.mpr ?_⟩
    exact ⟨item, hitem, hr, herror, houtcome⟩

end Exchange

namespace Source

variable {σ : Type}

/-- The exchange in which a source is asked for one policy. -/
def single (src : Source σ) (w : σ) (p : PolicyRef) : Exchange :=
  ⟨[p], (src.fetch w [p]).1⟩

theorem singleOutcome_eq_ok_iff {p : PolicyRef} {items : List BatchItem} {o : Resolution} :
    singleOutcome p items = .ok o ↔
      ∃ item r, items.head? = some item ∧ Exchange.said item = some (r, o) := by
  cases items with
  | nil => simp [singleOutcome]
  | cons item rest =>
    obtain ⟨index, rule, outcome, error⟩ := item
    cases error <;> cases outcome <;> simp [singleOutcome, Exchange.said]

/-- **A single request succeeds with what the reply opens with.** -/
theorem fetchOne_eq_ok_iff (src : Source σ) (w : σ) (p : PolicyRef) (o : Resolution) :
    (src.fetchOne w p).1 = .ok o ↔ (src.single w p).Opens o := by
  rw [fetchOne, single, Exchange.Opens, Exchange.items]
  rcases src.fetch w [p] with ⟨items | items, w'⟩
  · simp
  · exact singleOutcome_eq_ok_iff

theorem fetchOne_logged (src : Source σ) (w : σ) (log : List Exchange) (p : PolicyRef) :
    src.logged.fetchOne (w, log) p =
      ((src.fetchOne w p).1, ((src.fetchOne w p).2, log ++ [src.single w p])) := by
  rw [fetchOne, fetchOne, single, fetch_logged]
  rcases src.fetch w [p] with ⟨items | e, w'⟩ <;> rfl

theorem fetchOne_eq_missing (src : Source σ) (w : σ) (p : PolicyRef)
    (hx : (src.single w p).AsAsked) (hok : (src.single w p).failed = false)
    (hnone : ∀ item ∈ (src.single w p).items, item.rule = p.rule →
      item.error = none ∧ item.outcome = none) :
    (src.fetchOne w p).1 = .error (.missingResult p.rule) := by
  rw [fetchOne]
  cases h : src.fetch w [p] with
  | mk reply w' =>
    have hsingle : src.single w p = ⟨[p], reply⟩ := by rw [single, h]
    rw [hsingle] at hx hok hnone
    cases reply with
    | error e => exact absurd hok (by simp [Exchange.failed])
    | ok items =>
      cases items with
      | nil => rfl
      | cons item rest =>
        have hitem : item ∈ item :: rest := List.mem_cons_self ..
        obtain ⟨q, hq, hrule⟩ := hx item hitem
        obtain rfl := List.mem_singleton.mp hq
        obtain ⟨herror, houtcome⟩ := hnone item hitem hrule.symm
        simp only [singleOutcome, herror, houtcome]

/-- A source that answers every request with the same items. -/
def constant (items : List BatchItem) : Source Unit where
  fetch w _ := (.ok items, w)

end Source

namespace Session

variable {σ : Type}

/-! ### Calls -/

/-- What a user asks of a session. -/
inductive Call where
  /-- Evidence is enriched. -/
  | retrieve (e : Evidence)
  /-- Policies are fetched ahead. -/
  | prefetch (ps : List PolicyRef)
  /-- From now on so many rules are asked for at once. -/
  | resize (n : Nat)

/-- A session that has not asked for anything yet. -/
def opened (w : σ) (n : Nat) (h : 0 < n) : Session σ :=
  { batchSize := n, world := w, batchSize_pos := h }

/-- The session after a call. -/
def call (src : Source σ) (s : Session σ) : Call → Session σ
  | .retrieve e => (s.retrieve src e).2
  | .prefetch ps => (s.prefetch src ps).1
  | .resize n => s.withBatchSize n

/-- The session after several calls. -/
def calls (src : Source σ) (s : Session σ) (cs : List Call) : Session σ :=
  cs.foldl (call src) s

theorem calls_cons (src : Source σ) (s : Session σ) (c : Call) (cs : List Call) :
    s.calls src (c :: cs) = (s.call src c).calls src cs := rfl

theorem mem_of_get?_writeAll {c : Cache} {os : List (RuleId × Resolution)} {r : RuleId}
    {o : Resolution} (h : (writeAll c os).get? r = some o) : c.get? r = some o ∨ (r, o) ∈ os := by
  rw [writeAll, Table.get?_foldl_insert] at h
  cases hfind : os.reverse.find? (·.1 = r) with
  | none =>
    rw [hfind] at h
    exact .inl h
  | some e =>
    rw [hfind, Option.map_some, Option.some_or] at h
    have hkey : e.1 = r := by simpa using List.find?_some hfind
    have he : e = (r, o) := Prod.ext hkey (Option.some.inj h)
    have hmem := List.mem_reverse.mp (List.mem_of_find?_eq_some hfind)
    exact .inr (he ▸ hmem)

/-- What a policy that is not cached resolves to, and the entry that its exchange brings. -/
theorem exists_resolve_logged (src : Source σ) {s : Session σ} {p : PolicyRef}
    (h : s.cache.get? p.rule = none) (log : List Exchange) :
    (s.logged log).resolve src.logged p =
      ((s.resolve src p).1, (s.resolve src p).2.logged (log ++ [src.single s.world p])) ∧
    ∀ r o, (s.resolve src p).2.cache.get? r = some o →
      s.cache.get? r = some o ∨ (src.single s.world p).Brings r o := by
  have hlogged : (s.logged log).cache.get? p.rule = none := h
  have hworld : (s.logged log).world = (s.world, log) := rfl
  rw [resolve, resolve, hlogged, h, hworld, src.fetchOne_logged]
  cases hfetch : src.fetchOne s.world p with
  | mk reply w =>
    cases reply with
    | error e => exact ⟨rfl, fun r o ho => .inl ho⟩
    | ok first =>
      refine ⟨rfl, fun r o ho => ?_⟩
      change (s.cache.insert p.rule first).get? r = some o at ho
      rw [Table.get?_insert] at ho
      -- the entry is the policy's rule's, whichever rule the first item is about
      by_cases hr : r = p.rule
      · rw [if_pos hr] at ho
        obtain rfl := Option.some.inj ho
        have hopens := (src.fetchOne_eq_ok_iff s.world p first).mp (by rw [hfetch])
        exact .inr (.first rfl hr.symm hopens)
      · rw [if_neg hr] at ho
        exact .inl ho

/-- **One call**: a log makes no difference to it, and an entry that was not there before is brought
by one of its exchanges. -/
theorem exists_call_logged (src : Source σ) (s : Session σ) (log : List Exchange) (c : Call) :
    ∃ xs : List Exchange,
      (s.logged log).call src.logged c = (s.call src c).logged (log ++ xs) ∧
      ∀ r o, (s.call src c).cache.get? r = some o →
        s.cache.get? r = some o ∨ ∃ x ∈ xs, x.Brings r o := by
  cases c with
  | retrieve e =>
    cases h : s.cache.get? e.policy.rule with
    | some o =>
      -- nothing is asked
      have hlogged : (s.logged log).cache.get? e.policy.rule = some o := h
      refine ⟨[], ?_, fun r o' ho => .inl ?_⟩
      · rw [call, call, retrieve, retrieve, resolve_of_cached src h,
          resolve_of_cached src.logged hlogged, List.append_nil]
      · rw [call, retrieve, resolve_of_cached src h] at ho
        exact ho
    | none =>
      obtain ⟨heq, hbrings⟩ := exists_resolve_logged src h log
      refine ⟨[src.single s.world e.policy], ?_, fun r o ho => ?_⟩
      · rw [call, retrieve, heq]
        rfl
      · refine (hbrings r o ho).imp_right fun hx => ?_
        exact ⟨_, List.mem_singleton_self _, hx⟩
  | prefetch ps =>
    refine ⟨(src.exchanges s.world (s.requests ps)).1, ?_, fun r o h => ?_⟩
    · exact congrArg Prod.fst (s.prefetch_logged src log ps)
    · rw [call, prefetch_eq] at h
      refine (mem_of_get?_writeAll h).imp_right fun ho => ?_
      obtain ⟨x, hx, ho⟩ := List.mem_flatMap.mp ho
      exact ⟨x, hx, .labelled ho⟩
  | resize n =>
    refine ⟨[], ?_, fun r o h => .inl h⟩
    rw [List.append_nil]
    rfl

/-- **Many calls**: the entries that were not there before are brought by the exchanges that the log
holds in the end. -/
theorem exists_calls_logged (src : Source σ) (s : Session σ) (log : List Exchange)
    (cs : List Call) :
    ∃ xs : List Exchange,
      (s.logged log).calls src.logged cs = (s.calls src cs).logged (log ++ xs) ∧
      ∀ r o, (s.calls src cs).cache.get? r = some o →
        s.cache.get? r = some o ∨ ∃ x ∈ xs, x.Brings r o := by
  induction cs generalizing s log with
  | nil =>
    refine ⟨[], ?_, fun r o h => .inl h⟩
    rw [List.append_nil]
    rfl
  | cons c cs ih =>
    obtain ⟨xs, heq, hfirst⟩ := exists_call_logged src s log c
    obtain ⟨ys, heqs, hrest⟩ := ih (s.call src c) (log ++ xs)
    refine ⟨xs ++ ys, ?_, fun r o h => ?_⟩
    · rw [calls_cons, calls_cons, heq, heqs, List.append_assoc]
    · rcases hrest r o h with h | ⟨x, hx, hbrings⟩
      · refine (hfirst r o h).imp_right fun ⟨x, hx, hbrings⟩ => ?_
        exact ⟨x, List.mem_append_left ys hx, hbrings⟩
      · exact .inr ⟨x, List.mem_append_right xs hx, hbrings⟩

/-! ### Whole runs -/

/-- **What the entries of a cache rest on.**  After every run from an empty cache each entry has
been brought by an exchange of the run.  If the items of every reply are about rules that its
request names, then each entry has even been delivered: an item without an error says it about the
rule, in reply to a request that names the rule.  A single request succeeds with what the reply
opens with, and under the same condition only with what is delivered for its rule; if the reply has
nothing to say about the rule, then the result is missing. -/
theorem entries_brought (src : Source σ) (w : σ) {n : Nat} (h : 0 < n) (cs : List Call) :
    (∃ xs : List Exchange,
      (opened (w, []) n h).calls src.logged cs =
        ((opened w n h).calls src cs).logged xs ∧
      (∀ r o, ((opened w n h).calls src cs).cache.get? r = some o →
        ∃ x ∈ xs, x.Brings r o) ∧
      ((∀ x ∈ xs, x.AsAsked) →
        ∀ r o, ((opened w n h).calls src cs).cache.get? r = some o →
          ∃ x ∈ xs, x.Delivers r o)) ∧
    ∀ p : PolicyRef,
      (∀ o, (src.fetchOne w p).1 = .ok o ↔ (src.single w p).Opens o) ∧
      ((src.single w p).AsAsked →
        (∀ o, (src.fetchOne w p).1 = .ok o → (src.single w p).Delivers p.rule o) ∧
        ((src.single w p).failed = false →
          (∀ item ∈ (src.single w p).items, item.rule = p.rule →
            item.error = none ∧ item.outcome = none) →
          (src.fetchOne w p).1 = .error (.missingResult p.rule))) := by
  constructor
  · obtain ⟨xs, heq, hbrings⟩ := exists_calls_logged src (opened w n h) [] cs
    have hentries : ∀ r o, ((opened w n h).calls src cs).cache.get? r = some o →
        ∃ x ∈ xs, x.Brings r o := fun r o h => (hbrings r o h).resolve_left (by simp [opened])
    refine ⟨xs, heq, hentries, fun hasked r o h => ?_⟩
    obtain ⟨x, hx, hbrought⟩ := hentries r o h
    exact ⟨x, hx, hbrought.delivers (hasked x hx)⟩
  · intro p
    refine ⟨src.fetchOne_eq_ok_iff w p, fun hasked => ⟨fun o ho => ?_, ?_⟩⟩
    · have hopens := (src.fetchOne_eq_ok_iff w p o).mp ho
      have hbrings : (src.single w p).Brings p.rule o := .first rfl rfl hopens
      exact hbrings.delivers hasked
    · exact src.fetchOne_eq_missing w p hasked

/-- A source that knows about one rule, whatever is asked. -/
def about (r : RuleId) : Source Unit :=
  .constant [.resolved 0 r (.unmapped r)]

/-- A session that has asked a source without a state, for one rule at a time. -/
def asking (src : Source Unit) (cs : List Call) : Session Unit :=
  (opened () 1 Nat.one_pos).calls src cs

/-- A rule that is asked for and answered about, and one about which there is nothing. -/
theorem entries_brought_sample :
    (∃ x : Exchange, x.Delivers PolicyRef.sample.rule (.unmapped PolicyRef.sample.rule)) ∧
    ((Source.constant []).fetchOne () .sample).1 =
      .error (.missingResult PolicyRef.sample.rule) := by
  obtain ⟨⟨xs, heq, -, hdelivered⟩, -⟩ :=
    entries_brought (about PolicyRef.sample.rule) () Nat.one_pos [.retrieve .sample]
  have hentry : (asking (about PolicyRef.sample.rule) [.retrieve .sample]).cache.get?
      PolicyRef.sample.rule = some (.unmapped PolicyRef.sample.rule) := rfl
  have hasked : ∀ x ∈ xs, x.AsAsked := by
    have hxs : xs = [(about PolicyRef.sample.rule).single () .sample] :=
      (congrArg (fun s => s.world.2) heq).symm
    rw [hxs]
    rintro x hx item hitem
    obtain rfl := List.mem_singleton.mp hx
    obtain rfl := List.mem_singleton.mp hitem
    exact ⟨.sample, List.mem_singleton_self _, rfl⟩
  obtain ⟨x, -, hx⟩ := hdelivered hasked _ _ hentry
  obtain ⟨-, hsingle⟩ := entries_brought (Source.constant []) () Nat.one_pos []
  obtain ⟨-, hsingle⟩ := hsingle .sample
  obtain ⟨-, hmissing⟩ := hsingle (by intro item hitem; cases hitem)
  exact ⟨⟨x, hx⟩, hmissing rfl (by intro item hitem; cases hitem)⟩

/-! ### Answers about another rule -/

/-- A rule that nobody asks for. -/
def otherRule : RuleId := ⟨"ZZ-9", by decide, by decide⟩

/-- **An answer about another rule is kept**: retrieved evidence gets the metadata of the other
rule, and keeps it in the cache under its own, while a prefetch makes an entry for a rule that no
request names. -/
theorem other_rule_kept :
    ((about otherRule).fetchOne () .sample).1 = .ok (.unmapped otherRule) ∧
    (asking (about otherRule) [.retrieve .sample]).cache.get? PolicyRef.sample.rule =
      some (.unmapped otherRule) ∧
    (asking (about otherRule) [.prefetch [.sample]]).cache.get? otherRule =
      some (.unmapped otherRule) ∧
    ¬ ∀ (src : Source Unit) (w : Unit) (n : Nat) (h : 0 < n) (cs : List Call)
        (xs : List Exchange),
      (opened (w, []) n h).calls src.logged cs = ((opened w n h).calls src cs).logged xs →
        ∀ r o, ((opened w n h).calls src cs).cache.get? r = some o →
          ∃ x ∈ xs, x.Delivers r o := by
  have hentry : (asking (about otherRule) [.retrieve .sample]).cache.get? PolicyRef.sample.rule =
      some (.unmapped otherRule) := rfl
  have hrequests : (opened () 1 Nat.one_pos).requests [.sample] = [[.sample]] := by
    rw [requests]
    simp [firstPerRule, chunks, opened]
  refine ⟨rfl, hentry, ?_, fun h => ?_⟩
  · rw [asking, calls_cons, call, prefetch_eq, hrequests]
    rfl
  · have hlog : (opened ((), []) 1 Nat.one_pos).calls (about otherRule).logged
          [.retrieve .sample] =
        (asking (about otherRule) [.retrieve .sample]).logged
          [(about otherRule).single () .sample] := rfl
    obtain ⟨x, hx, -, hanswers⟩ := h _ _ _ _ _ _ hlog _ _ hentry
    obtain rfl := List.mem_singleton.mp hx
    obtain ⟨item, hitem, hrule, -⟩ := Exchange.mem_outcomes_iff.mp hanswers
    obtain rfl := List.mem_singleton.mp hitem
    exact absurd hrule (by decide)

end Session

end Compliance
