import Compliance.Proofs.Text.Digit
import Compliance.Time.Rfc3339

/-!
# Instants read back from their text

The writer gives every part of a date and a time a fixed width, except for years out of the range of
four digits, which have a sign in front.  So the reader, which is freer, never takes more or less
than what was written for a part.

* `Rfc3339.number_append` : a run of digits is read up to its end.
* `Rfc3339.year_yearText`, `Rfc3339.fraction_fractionText` : the two parts of variable width.
* `Instant.read?_toText` : every instant is read back, leap seconds included.
-/

namespace Compliance.Time

open Compliance.Text (trimStart isBlank decimalValue Stops stops_nil stops_cons takeWhile_isDigit
  trimStart_digits)

namespace Rfc3339

/-! ### Numbers -/

/-- A run of digits is read up to its end, which is where the width ends or where no digit
follows. -/
theorem number_append {width : Nat} {ds r : List Char} (hds : ∀ c ∈ ds, c.isDigit = true)
    (hne : ds ≠ []) (hlength : ds.length ≤ width) (hend : ds.length = width ∨ Stops r) :
    number width (ds ++ r) = some (decimalValue ds, r) := by
  have hstops : Stops (r.take (width - ds.length)) := by
    rcases hend with rfl | hr
    · rw [Nat.sub_self, List.take_zero]
      exact stops_nil
    · exact hr.take _
  have htaken : ((ds ++ r).take width).takeWhile Char.isDigit = ds := by
    rw [List.take_append, List.take_of_length_le hlength]
    exact takeWhile_isDigit hds hstops
  have hnonempty : ds.isEmpty = false := by simpa using hne
  simp only [number, htaken, hnonempty, List.drop_left]
  rfl

theorem isDigit_of_mem_padded {width n : Nat} : ∀ c ∈ padded width n, c.isDigit = true := by
  intro c hc
  rcases List.mem_append.mp hc with hc | hc
  · rw [List.eq_of_mem_replicate hc]
    rfl
  · exact Nat.isDigit_of_mem_toDigits (by decide) (by decide) hc

theorem padded_ne_nil (width n : Nat) : padded width n ≠ [] := by
  simp [padded, Nat.toDigits_ne_nil]

theorem decimalValue_padded (width n : Nat) : decimalValue (padded width n) = n := by
  show Nat.ofDigitChars 10 (padded width n) 0 = n
  rw [padded, Nat.ofDigitChars_append, Nat.ofDigitChars_replicate_zero, Nat.mul_zero,
    Nat.ofDigitChars_ten_toDigits]

theorem length_padded {width n : Nat} (hwidth : 0 < width) (h : n < Nat.pow 10 width) :
    (padded width n).length = width := by
  have hlength := (Nat.length_toDigits_le_iff (by decide) hwidth).mpr h
  rw [padded, List.length_append, List.length_replicate]
  omega

theorem twoDigits_padded {n : Nat} (h : n < 100) (r : List Char) :
    twoDigits (padded 2 n ++ r) = some (n, r) := by
  have hlength : (padded 2 n).length = 2 := length_padded (by decide) h
  rw [twoDigits, trimStart_digits isDigit_of_mem_padded (padded_ne_nil 2 n),
    number_append isDigit_of_mem_padded (padded_ne_nil 2 n) (Nat.le_of_eq hlength)
      (.inl hlength),
    decimalValue_padded]

theorem mark_cons (c : Char) (hc : isBlank c = false) (r : List Char) :
    mark c (c :: r) = some r := by
  simp [mark, trimStart, hc]

theorem separator_cons (r : List Char) : separator ('T' :: r) = some r := rfl

/-! ### Parts of variable width -/

theorem year_padded {n : Nat} (h : n < 10000) (r : List Char) :
    year (padded 4 n ++ r) = some ((n : Int), r) := by
  have hlength : (padded 4 n).length = 4 := length_padded (by decide) h
  have hnumber : number 4 (padded 4 n ++ r) = some (n, r) := by
    rw [number_append isDigit_of_mem_padded (padded_ne_nil 4 n) (Nat.le_of_eq hlength)
      (.inl hlength), decimalValue_padded]
  obtain ⟨d, ds, hds⟩ := List.exists_cons_of_ne_nil (padded_ne_nil 4 n)
  have hd : d.isDigit = true := isDigit_of_mem_padded d (hds ▸ List.mem_cons_self ..)
  rw [year, trimStart_digits isDigit_of_mem_padded (padded_ne_nil 4 n)]
  -- a digit is not a sign
  rw [hds, List.cons_append] at hnumber ⊢
  split
  case h_1 heq => exact absurd hd (by rw [(List.cons.inj heq).1]; decide)
  case h_2 heq => exact absurd hd (by rw [(List.cons.inj heq).1]; decide)
  case h_3 => rw [hnumber]; rfl

/-- The digits of a year after its sign go on as far as there are any. -/
theorem number_padded_of_stops (n : Nat) {r : List Char} (hr : Stops r) :
    number (padded 4 n ++ r).length (padded 4 n ++ r) = some (n, r) := by
  have hlength : (padded 4 n).length ≤ (padded 4 n ++ r).length := by
    rw [List.length_append]
    exact Nat.le_add_right ..
  rw [number_append isDigit_of_mem_padded (padded_ne_nil 4 n) hlength (.inr hr),
    decimalValue_padded]

theorem year_yearText (y : Int) {r : List Char} (hr : Stops r) :
    year (Instant.yearText y ++ r) = some (y, r) := by
  rw [Instant.yearText]
  by_cases hy : 0 ≤ y ∧ y ≤ 9999
  · rw [if_pos hy, year_padded (by omega), Int.toNat_of_nonneg hy.1]
  · have hnumber := number_padded_of_stops y.natAbs hr
    rw [if_neg hy]
    by_cases hneg : y < 0
    · have htrim : trimStart ('-' :: (padded 4 y.natAbs ++ r)) = '-' :: (padded 4 y.natAbs ++ r) :=
        rfl
      rw [if_pos hneg, List.cons_append, year, htrim]
      simp only [hnumber, Option.map_some, Option.some.injEq, Prod.mk.injEq, and_true]
      omega
    · have htrim : trimStart ('+' :: (padded 4 y.natAbs ++ r)) = '+' :: (padded 4 y.natAbs ++ r) :=
        rfl
      rw [if_neg hneg, List.cons_append, year, htrim]
      simp only [hnumber, Option.map_some, Option.some.injEq, Prod.mk.injEq, and_true]
      omega

theorem fraction_digits {ds r : List Char} (hds : ∀ c ∈ ds, c.isDigit = true) (hne : ds ≠ [])
    (hlength : ds.length ≤ 9) (hr : Stops r) :
    fraction ('.' :: (ds ++ r)) = some (decimalValue ds * Nat.pow 10 (9 - ds.length), r) := by
  have hnonempty : ds.isEmpty = false := by simpa using hne
  rw [fraction, takeWhile_isDigit hds hr]
  simp only [hnonempty, List.take_of_length_le hlength, List.drop_left]
  rfl

theorem fraction_fractionText {n : Nat} (h : n < 1000000000) (r : List Char) :
    fraction (Instant.fractionText n ++ 'Z' :: r) = some (n, 'Z' :: r) := by
  have hr : Stops ('Z' :: r) := stops_cons rfl r
  have hgroup {width k bound unit : Nat} (hwidth : 0 < width ∧ width ≤ 9)
      (hbound : Nat.pow 10 width = bound) (hk : k < bound)
      (hunit : Nat.pow 10 (9 - width) = unit) (hn : k * unit = n) :
      fraction ('.' :: padded width k ++ 'Z' :: r) = some (n, 'Z' :: r) := by
    have hlength : (padded width k).length = width := length_padded hwidth.1 (hbound ▸ hk)
    rw [List.cons_append, fraction_digits isDigit_of_mem_padded (padded_ne_nil width k)
      (by omega) hr, decimalValue_padded, hlength, hunit, hn]
  rw [Instant.fractionText]
  split
  case isTrue hzero =>
    rw [hzero]
    rfl
  split
  case isTrue hmillis =>
    have hk : n / 1000000 < 1000 := by omega
    have hn : n / 1000000 * 1000000 = n := by omega
    exact hgroup (by decide) rfl hk rfl hn
  split
  case isTrue hmicros =>
    have hk : n / 1000 < 1000000 := by omega
    have hn : n / 1000 * 1000 = n := by omega
    exact hgroup (by decide) rfl hk rfl hn
  case isFalse => exact hgroup (by decide) rfl h rfl (Nat.mul_one n)

end Rfc3339

namespace Instant

open Rfc3339

/-! ### Whole instants -/

theorem ofLocal?_zero {date : Date} {second nanosecond : Nat} (hs : second < 86400)
    (hn : nanosecond < 2000000000) (hl : nanosecond < 1000000000 ∨ second % 60 = 59)
    (ho : -1440 < (0 : Int) ∧ (0 : Int) < 1440) :
    ofLocal? date second nanosecond 0 hs hn hl ho =
      some ⟨date, second, nanosecond, hs, hn, hl⟩ := by
  have huniversal : (second : Int) - 60 * 0 = second := by omega
  simp only [ofLocal?, huniversal]
  rw [dif_neg (by omega), dif_neg (by omega)]
  simp only [Int.toNat_natCast]

theorem eq_of_parts {t u : Instant} (hdate : t.date = u.date) (hsecond : t.second = u.second)
    (hnanosecond : t.nanosecond = u.nanosecond) : t = u := by
  cases t
  cases u
  simp_all

/-- A leap second is the surplus over the last second of its minute. -/
theorem secondOfMinute_eq_sixty_iff (t : Instant) :
    t.secondOfMinute = 60 ↔ 1000000000 ≤ t.nanosecond := by
  have hrange := t.nanosecond_range
  have hleap := t.leap_at_minute_end
  unfold secondOfMinute
  omega

/-- **Every instant is read back from its text**, in whichever year it lies, with its fraction of a
second, and in a leap second too. -/
theorem read?_toText (t : Instant) : read? t.toText = some t := by
  have htext : t.toText.toList = yearText t.date.year ++ '-' :: (padded 2 t.date.month ++
      '-' :: (padded 2 t.date.day ++ 'T' :: (padded 2 t.hour ++ ':' :: (padded 2 t.minute ++
      ':' :: (padded 2 t.secondOfMinute ++ (fractionText t.fraction ++ ['Z'])))))) := by
    simp [toText]
  have hyear (r : List Char) :
      year (yearText t.date.year ++ '-' :: r) = some (t.date.year, '-' :: r) :=
    year_yearText t.date.year (stops_cons rfl r)
  have hoffset : offset (trimStart ['Z']) = some (0, []) := rfl
  have hdays := daysInMonth_le t.date.year t.date.month
  have hmonth := t.date.month_range
  have hday := t.date.day_range
  have hsecond := t.second_range
  have hnanosecond := t.nanosecond_range
  have hleap := t.secondOfMinute_eq_sixty_iff
  have hhour : t.hour < 24 := by unfold hour; omega
  have hminute : t.minute < 60 := by unfold minute; omega
  have hsecondOfMinute : t.secondOfMinute ≤ 60 := by
    have := t.leap_at_minute_end
    unfold secondOfMinute
    omega
  have hfraction : t.fraction < 1000000000 := by unfold fraction; omega
  -- the parts are read off the text one by one
  rw [read?, htext]
  refine Option.bind_eq_some_iff.mpr ⟨_, hyear _, ?_⟩
  refine Option.bind_eq_some_iff.mpr ⟨_, mark_cons '-' (by decide) _, ?_⟩
  refine Option.bind_eq_some_iff.mpr ⟨_, twoDigits_padded (by omega) _, ?_⟩
  refine Option.bind_eq_some_iff.mpr ⟨_, mark_cons '-' (by decide) _, ?_⟩
  refine Option.bind_eq_some_iff.mpr ⟨_, twoDigits_padded (by omega) _, ?_⟩
  refine Option.bind_eq_some_iff.mpr ⟨_, separator_cons _, ?_⟩
  refine Option.bind_eq_some_iff.mpr ⟨_, twoDigits_padded (by omega) _, ?_⟩
  refine Option.bind_eq_some_iff.mpr ⟨_, mark_cons ':' (by decide) _, ?_⟩
  refine Option.bind_eq_some_iff.mpr ⟨_, twoDigits_padded (by omega) _, ?_⟩
  refine Option.bind_eq_some_iff.mpr ⟨_, mark_cons ':' (by decide) _, ?_⟩
  refine Option.bind_eq_some_iff.mpr ⟨_, twoDigits_padded (by omega) _, ?_⟩
  refine Option.bind_eq_some_iff.mpr ⟨_, fraction_fractionText hfraction [], ?_⟩
  refine Option.bind_eq_some_iff.mpr ⟨_, hoffset, ?_⟩
  refine Option.bind_eq_some_iff.mpr ⟨_, t.date.ofParts?_parts, ?_⟩
  refine Option.bind_eq_some_iff.mpr ⟨(), rfl, ?_⟩
  -- and make up the instant again
  rw [dif_pos ⟨⟨hhour, hminute, hsecondOfMinute⟩, hfraction, by decide⟩]
  by_cases hsixty : t.secondOfMinute = 60
  · rw [dif_pos hsixty, ofLocal?_zero]
    refine congrArg some (eq_of_parts rfl ?_ ?_)
    all_goals
      simp only [hour, minute, secondOfMinute, fraction] at hsixty ⊢
      omega
  · rw [dif_neg hsixty, ofLocal?_zero]
    refine congrArg some (eq_of_parts rfl ?_ ?_)
    all_goals
      simp only [hour, minute, secondOfMinute, fraction] at hsixty hleap ⊢
      omega

end Instant

end Compliance.Time
