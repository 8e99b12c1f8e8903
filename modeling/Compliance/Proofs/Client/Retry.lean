import Compliance.Client.Http
import Mathlib.Data.ENat.Lattice
import Mathlib.Logic.Relation

/-!
# How often a request is sent

A request is sent again only if nothing comes back for it, and only so many times; a response of any
kind is final.  What comes back for each attempt is taken as fixed in advance, for infinitely many
attempts, so that every course of events is covered.

* `Transport.scripted` : a transport on which that is fixed, and which records what is done with it.
* `leadingFailures` : how many attempts get nothing back before the first that does, if ever one
  does.
* `RetryPolicy.Decisive`, `RetryPolicy.Decisive.eq_min` : the attempt that decides.
* `RetryPolicy.send_scripted` : the attempts and the waits between them.
* `RetryPolicy.Loop`, `RetryPolicy.attempt` : the same in machine numbers, attempt by attempt;
  `RetryPolicy.exists_loop_send`, `RetryPolicy.counter_le` : it does the same, and its counter never
  passes the number of retries.
* `HttpClient.Decides` : what the last attempt comes to.
* `HttpClient.fetch_account` : whole requests, for every configuration.
-/

namespace Compliance

/-! ### Scripts -/

/-- What is done with a transport. -/
inductive Transport.Act where
  /-- A request is sent, and this comes back for it. -/
  | sent (r : HttpRequest) (d : Delivery)
  /-- So many nanoseconds are waited. -/
  | waited (nanoseconds : Nat)

/-- A transport on which it is fixed what comes back for each attempt.  Its state is the number of
attempts so far and all that has been done with it. -/
def Transport.scripted (script : Nat → Delivery) : Transport (Nat × List Transport.Act) where
  send w r := (script w.1, (w.1 + 1, w.2 ++ [.sent r (script w.1)]))
  wait w nanoseconds := (w.1, w.2 ++ [.waited nanoseconds])

/-- How many attempts get nothing back before the first that does; without end if none does. -/
noncomputable def leadingFailures (script : Nat → Delivery) : ℕ∞ :=
  ⨅ (k : Nat) (_ : script k ≠ .failure), (k : ℕ∞)

theorem leadingFailures_le {script : Nat → Delivery} {n : Nat} (h : script n ≠ .failure) :
    leadingFailures script ≤ n :=
  iInf₂_le n h

theorem le_leadingFailures {script : Nat → Delivery} {n : Nat}
    (h : ∀ k < n, script k = .failure) : (n : ℕ∞) ≤ leadingFailures script := by
  refine le_iInf₂ ?_
  intro k hk
  by_contra hlt
  exact hk (h k (by exact_mod_cast not_le.mp hlt))

namespace RetryPolicy

/-! ### The attempt that decides -/

/-- An attempt decides if all before it get nothing back, and if it gets something back itself or
there may be no more. -/
structure Decisive (script : Nat → Delivery) (max n : Nat) : Prop where
  before : ∀ k < n, script k = .failure
  within : n ≤ max
  last : script n ≠ .failure ∨ n = max

theorem exists_decisive (script : Nat → Delivery) (max : Nat) : ∃ n, Decisive script max n := by
  induction max with
  | zero => exact ⟨0, by simp, Nat.le_refl 0, .inr rfl⟩
  | succ max ih =>
    obtain ⟨n, hbefore, hwithin, hlast⟩ := ih
    by_cases hn : script n = .failure
    · -- there may be one more, after the last that there might be
      obtain rfl := hlast.resolve_left (by simpa using hn)
      refine ⟨n + 1, ?_, Nat.le_refl _, .inr rfl⟩
      intro k hk
      rcases Nat.lt_succ_iff_lt_or_eq.mp hk with hk | rfl
      · exact hbefore k hk
      · exact hn
    · exact ⟨n, hbefore, Nat.le_succ_of_le hwithin, .inl hn⟩

/-- The attempt that decides comes after the leading failures, or after as many as there may be. -/
theorem Decisive.eq_min {script : Nat → Delivery} {max n : Nat} (h : Decisive script max n) :
    (n : ℕ∞) = min (leadingFailures script) max := by
  obtain ⟨hbefore, hwithin, hlast⟩ := h
  refine le_antisymm (le_min (le_leadingFailures hbefore) (by exact_mod_cast hwithin)) ?_
  rcases hlast with hn | rfl
  · exact (min_le_left _ _).trans (leadingFailures_le hn)
  · exact min_le_right _ _

/-! ### Attempts and waits -/

variable {τ : Type} (p : RetryPolicy)

/-- The attempts for a request up to one of them, with a wait between any two. -/
def acts (script : Nat → Delivery) (r : HttpRequest) (n : Nat) : List Transport.Act :=
  (List.range n).flatMap (fun k => [.sent r (script k), .waited (p.delay k)]) ++
    [.sent r (script n)]

theorem acts_succ (script : Nat → Delivery) (r : HttpRequest) (n : Nat) :
    p.acts script r (n + 1) =
      p.acts script r n ++ [.waited (p.delay n), .sent r (script (n + 1))] := by
  simp [acts, List.range_succ]

theorem sendFrom_scripted {script : Nat → Delivery} {n : Nat} (h : Decisive script p.maxRetries n)
    (r : HttpRequest) {k left : Nat} (hleft : k + left = p.maxRetries) (hk : k ≤ n)
    {log : List Transport.Act} (hlog : log ++ [.sent r (script k)] = p.acts script r k) :
    p.sendFrom (.scripted script) r left (k, log) = (script n, (n + 1, p.acts script r n)) := by
  obtain ⟨hbefore, hwithin, hlast⟩ := h
  induction left generalizing k log with
  | zero =>
    obtain rfl : k = n := by omega
    simp only [sendFrom, Transport.scripted, hlog]
  | succ left ih =>
    rw [sendFrom]
    cases hd : script k with
    | response status body =>
      -- a response ends the attempts, so this one decides
      have hn : k = n := by
        by_contra hne
        have := hbefore k (by omega)
        rw [hd] at this
        cases this
      subst hn
      simp only [Transport.scripted, hd]
      rw [← hlog, hd]
    | failure =>
      have hne : k ≠ n := by
        rintro rfl
        rcases hlast with hlast | hlast
        · exact hlast hd
        · omega
      have hcounter : p.maxRetries - (left + 1) = k := by omega
      simp only [Transport.scripted, hd, hcounter]
      refine ih (by omega) (by omega) ?_
      rw [acts_succ, ← hlog, hd]
      simp

/-- **The attempts for a request, and the waits between them.** -/
theorem send_scripted {script : Nat → Delivery} {n : Nat} (h : Decisive script p.maxRetries n)
    (r : HttpRequest) :
    p.send (.scripted script) (0, []) r = (script n, (n + 1, p.acts script r n)) :=
  p.sendFrom_scripted h r (Nat.zero_add _) (Nat.zero_le n) (by simp [acts])

/-! ### Waits -/

theorem factor_mono : Monotone factor := by
  intro j k hjk
  rw [factor, factor]
  by_cases hk : k < 32
  · rw [if_pos hk, if_pos (Nat.lt_of_le_of_lt hjk hk)]
    exact Nat.pow_le_pow_right (by omega) hjk
  · rw [if_neg hk]
    split
    case isTrue hj =>
      have hpow : Nat.pow 2 j ≤ Nat.pow 2 31 := Nat.pow_le_pow_right (by omega) (by omega)
      exact hpow.trans (by decide)
    case isFalse => exact Nat.le_refl _

theorem delay_mono : Monotone p.delay := by
  intro j k hjk
  exact min_le_min_right _ (Nat.mul_le_mul_left _ (factor_mono hjk))

/-! ### Machine numbers -/

/-- The attempts with a counter of 32 bits, as far as they have come. -/
structure Loop (τ : Type) where
  /-- How often the request has been sent again. -/
  retry : UInt32
  world : τ

/-- By how much the first wait is multiplied: one bit, moved up by as many places as there have been
retries, or all bits if it would be lost. -/
def factor32 (retry : UInt32) : UInt32 :=
  if retry < 32 then 1 <<< retry else 0xffffffff

theorem toNat_factor32 (retry : UInt32) : (factor32 retry).toNat = factor retry.toNat := by
  rw [factor32, factor]
  by_cases h : retry < 32
  · have hlt : retry.toNat < 32 := by simpa [UInt32.lt_iff_toNat_lt] using h
    have hpow : 2 ^ retry.toNat < 2 ^ 32 := Nat.pow_lt_pow_right (by omega) hlt
    rw [if_pos h, if_pos hlt, UInt32.toNat_shiftLeft]
    simpa [Nat.mod_eq_of_lt hlt, Nat.shiftLeft_eq] using hpow
  · have hge : ¬ retry.toNat < 32 := by simpa [UInt32.lt_iff_toNat_lt] using h
    rw [if_neg h, if_neg hge]
    rfl

/-- One attempt: either it ends the loop, or the counter goes up and there is a wait. -/
def attempt (t : Transport τ) (r : HttpRequest) (l : Loop τ) : (Delivery × τ) ⊕ Loop τ :=
  match t.send l.world r with
  | (.response status body, w) => .inl (.response status body, w)
  | (.failure, w) =>
    if l.retry.toNat < p.maxRetries then
      .inr ⟨l.retry + 1, t.wait w (min (p.baseDelay * (factor32 l.retry).toNat) maxWait)⟩
    else .inl (.failure, w)

/-- One attempt of the loop leads to the next. -/
def GoesOn (t : Transport τ) (r : HttpRequest) (l l' : Loop τ) : Prop :=
  p.attempt t r l = .inr l'

variable {p} {t : Transport τ} {r : HttpRequest} {l l' : Loop τ}

theorem toNat_succ_retry (hmax : p.maxRetries < 0x100000000) {retry : UInt32}
    (h : retry.toNat < p.maxRetries) : (retry + 1).toNat = retry.toNat + 1 := by
  rw [UInt32.toNat_add]
  exact Nat.mod_eq_of_lt (by rw [UInt32.toNat_one]; omega)

theorem GoesOn.toNat_retry (hmax : p.maxRetries < 0x100000000) (h : p.GoesOn t r l l') :
    l.retry.toNat < p.maxRetries ∧ l'.retry.toNat = l.retry.toNat + 1 := by
  rw [GoesOn, attempt] at h
  split at h
  · cases h
  · split at h
    case isTrue hlt =>
      obtain rfl := Sum.inr.inj h
      exact ⟨hlt, toNat_succ_retry hmax hlt⟩
    case isFalse => cases h

/-- **The counter never passes the number of retries.** -/
theorem counter_le (hmax : p.maxRetries < 0x100000000) {w : τ}
    (h : Relation.ReflTransGen (p.GoesOn t r) ⟨0, w⟩ l) : l.retry.toNat ≤ p.maxRetries := by
  induction h with
  | refl => exact Nat.zero_le _
  | tail _ hstep _ =>
    obtain ⟨hlt, hnext⟩ := hstep.toNat_retry hmax
    omega

variable (t r)

/-- From a counter on that leaves so many retries. -/
theorem exists_loop_sendFrom (hmax : p.maxRetries < 0x100000000) {retry : UInt32} {left : Nat}
    (hleft : retry.toNat + left = p.maxRetries) (w : τ) :
    ∃ l, Relation.ReflTransGen (p.GoesOn t r) ⟨retry, w⟩ l ∧
      p.attempt t r l = .inl (p.sendFrom t r left w) := by
  induction left generalizing retry w with
  | zero =>
    refine ⟨⟨retry, w⟩, .refl, ?_⟩
    have hend : ¬ retry.toNat < p.maxRetries := by omega
    rw [attempt, sendFrom]
    rcases t.send w r with ⟨_ | ⟨status, body⟩, w'⟩
    · exact if_neg hend
    · rfl
  | succ left ih =>
    have hmore : retry.toNat < p.maxRetries := by omega
    cases hsend : t.send w r with
    | mk d w' =>
      cases d with
      | response status body =>
        refine ⟨⟨retry, w⟩, .refl, ?_⟩
        rw [attempt, sendFrom, hsend]
      | failure =>
        -- the counter and the number of retries that are left name the same wait
        have hcounter : p.maxRetries - (left + 1) = retry.toNat := by omega
        have hstep : p.GoesOn t r ⟨retry, w⟩ ⟨retry + 1, t.wait w' (p.delay retry.toNat)⟩ := by
          rw [GoesOn, attempt, hsend, toNat_factor32]
          exact if_pos hmore
        have hleft' : (retry + 1).toNat + left = p.maxRetries := by
          rw [toNat_succ_retry hmax hmore]
          omega
        obtain ⟨l, hreach, hl⟩ := ih hleft' (t.wait w' (p.delay retry.toNat))
        refine ⟨l, .head hstep hreach, ?_⟩
        rw [hl, sendFrom, hsend, hcounter]

/-- **The loop in machine numbers does the same.** -/
theorem exists_loop_send (hmax : p.maxRetries < 0x100000000) (w : τ) :
    ∃ l, Relation.ReflTransGen (p.GoesOn t r) ⟨0, w⟩ l ∧
      p.attempt t r l = .inl (p.send t w r) :=
  exists_loop_sendFrom t r hmax (Nat.zero_add _) w

end RetryPolicy

namespace HttpClient

/-! ### Whole requests -/

/-- What the last attempt comes to. -/
inductive Decides : Delivery → Except ClientError (List BatchItem) → Prop where
  /-- Nothing has come back. -/
  | failed : Decides .failure (.error (.transport endpoint))
  /-- The status is not a good one. -/
  | refused {status : Nat} {body : String} (bad : ¬ (200 ≤ status ∧ status < 300)) :
      Decides (.response status body) (.error (.refused endpoint status body))
  /-- The status is good, and the body is no answer to a batch. -/
  | undecodable {status : Nat} {body : String} {f : Codec.Failure}
      (good : 200 ≤ status ∧ status < 300) (unread : BatchAnswer.codec.decode body = .error f) :
      Decides (.response status body) (.error (.undecodable endpoint))
  /-- The status is good, and the body is an answer. -/
  | answered {status : Nat} {body : String} {answer : BatchAnswer}
      (good : 200 ≤ status ∧ status < 300) (read : BatchAnswer.codec.decode body = .ok answer) :
      Decides (.response status body) (.ok answer.items)

theorem decides_itemsOf (d : Delivery) : Decides d (itemsOf d) := by
  cases d with
  | failure => exact .failed
  | response status body =>
    rw [itemsOf]
    by_cases hstatus : 200 ≤ status ∧ status < 300
    · rw [if_pos hstatus]
      cases hread : BatchAnswer.codec.decode body with
      | ok answer => exact .answered hstatus hread
      | error f => exact .undecodable hstatus hread
    · rw [if_neg hstatus]
      exact .refused hstatus

theorem retry_of_ofConfig {config : ClientConfig} {c : HttpClient} (h : ofConfig config = .ok c) :
    c.retry = ⟨config.maxRetries, config.retryBaseDelayMs * 1000000⟩ := by
  rw [ofConfig] at h
  split at h
  · cases h
    rfl
  · split at h
    · cases h
      rfl
    · cases h

end HttpClient

end Compliance
