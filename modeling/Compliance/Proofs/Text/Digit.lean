import Compliance.Text.Character
import Mathlib.Data.List.TakeDrop

/-!
# Runs of digits

A run of characters at the front of a text goes as far as the first character that is of another
kind, and a run of digits as far as the first that is no digit.

* `Text.takeWhile_run`, `Text.dropWhile_run` : a run before a text that does not go on with it, and
  what is left.
* `Text.Stops` : no digit stands at the front of a text.
* `Text.takeWhile_isDigit`, `Text.dropWhile_isDigit` : the run before such a text, and what is left.
* `Text.isBlank_of_isDigit` : digits are not blank.
-/

namespace Compliance

namespace Text

section

variable {p : Char → Bool} {xs r : List Char}

theorem takeWhile_run (hxs : ∀ c ∈ xs, p c = true) (hr : ∀ c, r.head? = some c → p c = false) :
    (xs ++ r).takeWhile p = xs := by
  have hstop : r.takeWhile p = [] := by
    cases r with
    | nil => rfl
    | cons c r => simp [hr c rfl]
  rw [List.takeWhile_append_of_pos hxs, hstop, List.append_nil]

theorem dropWhile_run (hxs : ∀ c ∈ xs, p c = true) (hr : ∀ c, r.head? = some c → p c = false) :
    (xs ++ r).dropWhile p = r := by
  have hstop : r.dropWhile p = r := by
    cases r with
    | nil => rfl
    | cons c r => simp [hr c rfl]
  rw [List.dropWhile_append_of_pos hxs, hstop]

end

/-- No digit stands at the front of a text. -/
def Stops (r : List Char) : Prop := ∀ c, r.head? = some c → c.isDigit = false

theorem stops_nil : Stops [] := by
  intro c hc
  cases hc

theorem stops_cons {c : Char} (h : c.isDigit = false) (r : List Char) : Stops (c :: r) := by
  intro d hd
  obtain rfl : c = d := by simpa using hd
  exact h

theorem Stops.take {r : List Char} (h : Stops r) (n : Nat) : Stops (r.take n) := by
  cases n with
  | zero => exact stops_nil
  | succ n =>
    intro c hc
    rw [List.head?_take] at hc
    exact h c (by simpa using hc)

theorem takeWhile_isDigit {ds r : List Char} (hds : ∀ c ∈ ds, c.isDigit = true) (hr : Stops r) :
    (ds ++ r).takeWhile Char.isDigit = ds :=
  takeWhile_run hds hr

theorem dropWhile_isDigit {ds r : List Char} (hds : ∀ c ∈ ds, c.isDigit = true) (hr : Stops r) :
    (ds ++ r).dropWhile Char.isDigit = r :=
  dropWhile_run hds hr

theorem isBlank_of_isDigit {c : Char} (h : c.isDigit = true) : isBlank c = false := by
  have hdigits : ∀ k < 10, isBlank (Char.ofNat (48 + k)) = false := by decide
  have hrange : 48 ≤ c.toNat ∧ c.toNat ≤ 57 := by
    simpa [Char.isDigit, UInt32.le_iff_toNat_le] using h
  have hc : Char.ofNat (48 + (c.toNat - 48)) = c := by
    rw [Nat.add_sub_cancel' hrange.1, Char.ofNat_toNat]
  rw [← hc]
  exact hdigits _ (by omega)

theorem trimStart_digits {ds : List Char} (hds : ∀ c ∈ ds, c.isDigit = true) (hne : ds ≠ [])
    (r : List Char) : trimStart (ds ++ r) = ds ++ r := by
  refine trimStart_eq_self fun c hc => isBlank_of_isDigit (hds c ?_)
  obtain ⟨d, ds, rfl⟩ := List.exists_cons_of_ne_nil hne
  obtain rfl : d = c := by simpa using hc
  exact List.mem_cons_self ..

end Text

end Compliance
