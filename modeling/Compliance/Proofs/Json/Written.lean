import Compliance.Json.Reader
import Compliance.Json.Value
import Compliance.Proofs.Text.Digit

/-!
# Reading what was written

The readers of scalars take back the text that the writer makes of them, and stop where it ends.

* `Json.readString_quote` : every string, whatever characters it holds.
* `Json.readNumber_toString` : every natural number that fits into 64 bits, before a character
  that ends a value.
* `Json.Opens`, `Json.Ends` : how the text of a value begins, and what may follow it.
* `Json.itemsFrom`, `Json.membersFrom` : the text of an array or object from one of its parts on.
* `Json.nextItem_itemsFrom`, `Json.nextName_membersFrom` : the reader finds that part.
-/

namespace Compliance

namespace Json

open Compliance.Codec (Fault ok_bind)
open Compliance.Text (digitValue hexadecimalValue? Stops takeWhile_isDigit dropWhile_isDigit)

/-! ### Strings -/

private theorem hexadecimalValue?_control : ∀ n < 32,
    hexadecimalValue? ['0', '0', hexDigit (n / 16), hexDigit (n % 16)] = some n := by
  decide

theorem readString_escape (c : Char) (r : List Char) :
    readString (escape c ++ r) = push c (readString r) := by
  unfold escape
  -- the seven characters that are escaped by one letter
  iterate 7
    split
    case isTrue h => subst h; rfl
  split
  case isTrue h =>
    have hlow : isLowSurrogate c.toNat = false := by simp [isLowSurrogate]; omega
    have hhigh : isHighSurrogate c.toNat = false := by simp [isHighSurrogate]; omega
    simp only [List.cons_append, List.nil_append]
    rw [readString]
    simp [hexadecimalValue?_control c.toNat h, hlow, hhigh, Char.ofNat_toNat]
  case isFalse h =>
    simp only [List.cons_append, List.nil_append]
    rw [readString, if_neg h]
    all_goals simp_all

theorem readString_flatMap_escape (s r : List Char) :
    readString (s.flatMap escape ++ '"' :: r) = .ok (s, r) := by
  induction s with
  | nil => rfl
  | cons c s ih => simp [readString_escape, ih, push]

theorem readString_quote (s : String) (r : List Char) :
    ∃ cs, quote s ++ r = '"' :: cs ∧ readString cs = .ok (s.toList, r) := by
  refine ⟨s.toList.flatMap escape ++ '"' :: r, by simp [quote], ?_⟩
  exact readString_flatMap_escape s.toList r

/-! ### The ends of a value's text -/

theorem skipSpace_cons {c : Char} (h : isSpace c = false) (r : List Char) :
    skipSpace (c :: r) = c :: r := by
  simp [skipSpace, h]

/-- How the text of a value other than `null` begins. -/
def Opens (cs : List Char) : Prop :=
  ∃ c r, cs = c :: r ∧ isSpace c = false ∧ c ≠ ']' ∧ c ≠ 'n'

theorem Opens.append {cs : List Char} (h : Opens cs) (r : List Char) : Opens (cs ++ r) := by
  obtain ⟨c, cs, rfl, h⟩ := h
  exact ⟨c, cs ++ r, rfl, h⟩

theorem Opens.skipSpace_eq {cs : List Char} (h : Opens cs) : skipSpace cs = cs := by
  obtain ⟨c, cs, rfl, h, -⟩ := h
  exact skipSpace_cons h cs

/-- What may stand after a value: nothing, or what separates and closes values. -/
def Ends (r : List Char) : Prop := ∀ c, r.head? = some c → c = ',' ∨ c = ']' ∨ c = '}'

theorem ends_nil : Ends [] := by
  intro c h
  cases h

theorem ends_cons {c : Char} {r : List Char} (h : c = ',' ∨ c = ']' ∨ c = '}') : Ends (c :: r) := by
  intro d hd
  obtain rfl : c = d := by simpa using hd
  exact h

/-! ### Numbers -/

theorem opens_of_isDigit {d : Char} (hd : d.isDigit = true) (ds : List Char) :
    Opens (d :: ds) := by
  have hne : ∀ c, c.isDigit = false → d ≠ c := by
    rintro c hc rfl
    exact absurd hd (by simp [hc])
  refine ⟨d, ds, rfl, ?_, hne _ rfl, hne _ rfl⟩
  simp [isSpace, hne ' ' rfl, hne '\n' rfl, hne '\t' rfl, hne '\r' rfl]

theorem exists_toList_toString (n : Nat) :
    ∃ d ds, (toString n).toList = d :: ds ∧ d.isDigit = true := by
  rw [Nat.toString_eq_ofList_toDigits, String.toList_ofList]
  obtain ⟨d, ds, hds⟩ := List.exists_cons_of_ne_nil (@Nat.toDigits_ne_nil n 10)
  have hd : d ∈ Nat.toDigits 10 n := by simp [hds]
  exact ⟨d, ds, hds, Nat.isDigit_of_mem_toDigits (by decide) (by decide) hd⟩

theorem Ends.stops {r : List Char} (h : Ends r) : Stops r := by
  intro c hc
  rcases h c hc with rfl | rfl | rfl <;> rfl

theorem digits_append {ds r : List Char} (hds : ∀ c ∈ ds, c.isDigit = true) (hr : Ends r) :
    digits (ds ++ r) = (ds, r) := by
  rw [digits, List.span_eq_takeWhile_dropWhile, takeWhile_isDigit hds hr.stops,
    dropWhile_isDigit hds hr.stops]

theorem ofWhole_eq (ds : List Char) (m : Nat)
    (h : Nat.ofDigitChars 10 ds m < 0x10000000000000000) :
    Decimal.ofWhole ⟨m, 0⟩ ds = ⟨Nat.ofDigitChars 10 ds m, 0⟩ := by
  induction ds generalizing m with
  | nil => rfl
  | cons d ds ih =>
    have hd : d.toNat - '0'.toNat = digitValue d := rfl
    rw [Nat.ofDigitChars_cons, hd] at h ⊢
    -- a number is no smaller than the one that its first digits denote
    have hfits : 10 * m + digitValue d < 0x10000000000000000 := by
      rw [Nat.ofDigitChars_eq_ofDigitChars_zero] at h
      have hpow : 1 ≤ 10 ^ ds.length := Nat.one_le_pow _ _ (by decide)
      have := Nat.mul_le_mul_right (10 * m + digitValue d) hpow
      omega
    have happend : Decimal.append? ⟨m, 0⟩ d = some (10 * m + digitValue d) := if_pos hfits
    rw [Decimal.ofWhole_of_append? happend]
    exact ih _ h

theorem head?_toDigits_ne (n : Nat) (h : 0 < n) : (Nat.toDigits 10 n).head? ≠ some '0' := by
  induction n using Nat.strongRecOn with
  | ind n ih =>
    rw [Nat.toDigits_eq_if (by decide)]
    split
    case isTrue hn =>
      have : ∀ m < 10, 0 < m → m.digitChar ≠ '0' := by decide
      simpa using this n hn h
    case isFalse hn =>
      rw [List.head?_append, Option.or_of_isSome (by simp [List.isSome_head?])]
      exact ih (n / 10) (by omega) (by omega)

theorem afterWhole_of_ends (plain : Except Fault (Number × List Char)) (x : Decimal)
    {r : List Char} (h : Ends r) : afterWhole plain x r = plain := by
  cases r with
  | nil => rfl
  | cons c r => rcases h c rfl with rfl | rfl | rfl <;> rfl

theorem readNumber_zero {r : List Char} (hr : Ends r) :
    readNumber ('0' :: r) = .ok (.natural 0, r) := by
  have hd : (r.head?.map Char.isDigit).getD false = false := by
    cases r with
    | nil => rfl
    | cons c r => exact hr.stops c rfl
  show unsignedNumber false ('0' :: r) = _
  rw [unsignedNumber, hd]
  exact afterWhole_of_ends _ _ hr

theorem readNumber_digits {d : Char} {ds r : List Char} (hds : ∀ c ∈ d :: ds, c.isDigit = true)
    (hzero : d ≠ '0') (hfits : Nat.ofDigitChars 10 (d :: ds) 0 < 0x10000000000000000)
    (hr : Ends r) :
    readNumber (d :: ds ++ r) = .ok (.natural (Nat.ofDigitChars 10 (d :: ds) 0), r) := by
  have hd : d.isDigit = true := hds d (List.mem_cons_self ..)
  have hminus : d ≠ '-' := by
    rintro rfl
    exact absurd hd (by decide)
  have hspan := digits_append hds hr
  rw [List.cons_append] at hspan ⊢
  -- neither a sign nor a lone zero: the digits are collected, and nothing follows them
  rw [readNumber, unsignedNumber, if_pos hd, hspan]
  · simp only [ofWhole_eq _ _ hfits]
    exact afterWhole_of_ends _ _ hr
  all_goals simp_all

/-- A number that fits into 64 bits is read back from its text, before the end of a value. -/
theorem readNumber_toString (n : Nat) (h : n < 0x10000000000000000) {r : List Char}
    (hr : Ends r) : readNumber ((toString n).toList ++ r) = .ok (.natural n, r) := by
  rw [Nat.toString_eq_ofList_toDigits, String.toList_ofList]
  rcases Nat.eq_zero_or_pos n with rfl | hpos
  · exact readNumber_zero hr
  · obtain ⟨d, ds, hdigits⟩ := List.exists_cons_of_ne_nil (@Nat.toDigits_ne_nil n 10)
    have hvalue : Nat.ofDigitChars 10 (d :: ds) 0 = n := by
      rw [← hdigits, Nat.ofDigitChars_ten_toDigits]
    have hds : ∀ c ∈ d :: ds, c.isDigit = true := by
      intro c hc
      rw [← hdigits] at hc
      exact Nat.isDigit_of_mem_toDigits (by decide) (by decide) hc
    have hzero : d ≠ '0' := by
      have hhead := head?_toDigits_ne n hpos
      rw [hdigits] at hhead
      exact fun hd => hhead (congrArg some hd)
    have hread := readNumber_digits hds hzero (by rw [hvalue]; exact h) hr
    rw [hvalue] at hread
    rw [hdigits]
    exact hread

/-! ### Arrays and objects -/

/-- The text of an array from one of its items on, to the closing bracket. -/
def itemsFrom : Bool → List Json → List Char
  | _, [] => [']']
  | first, j :: js => (if first then [] else [',']) ++ j.renderChars ++ itemsFrom false js

theorem renderItems_eq (js : List Json) : renderItems js = itemsFrom true js := by
  induction js with
  | nil => rfl
  | cons j js ih =>
    cases js with
    | nil => simp [renderItems, itemsFrom]
    | cons k ks =>
      rw [renderItems, ih]
      · simp [itemsFrom]
      · rintro ⟨⟩

theorem ends_itemsFrom (js : List Json) (r : List Char) : Ends (itemsFrom false js ++ r) := by
  cases js with
  | nil => exact ends_cons (.inr (.inl rfl))
  | cons j js => exact ends_cons (.inl rfl)

theorem length_lt_length_itemsFrom (js : List Json) : js.length < (itemsFrom false js).length := by
  induction js with
  | nil => simp [itemsFrom]
  | cons j js ih =>
    simp only [itemsFrom, Bool.false_eq_true, if_false, List.length_append, List.length_cons]
    omega

theorem length_le_length_renderItems (js : List Json) : js.length ≤ (renderItems js).length := by
  rw [renderItems_eq]
  cases js with
  | nil => simp
  | cons j js =>
    have := length_lt_length_itemsFrom js
    simp only [itemsFrom, List.length_append, List.length_cons]
    omega

theorem nextItem_close (first : Bool) (r : List Char) :
    nextItem first (']' :: r) = .ok none := rfl

theorem nextItem_first {cs : List Char} (h : Opens cs) : nextItem true cs = .ok (some cs) := by
  obtain ⟨c, r, rfl, hspace, hbracket, -⟩ := h
  rw [nextItem, skipSpace_cons hspace]
  split
  case h_1 heq => cases heq
  case h_2 heq => exact absurd (List.cons.inj heq).1 hbracket
  case h_3 heq =>
    rw [← heq]
    rfl

theorem nextItem_comma {cs : List Char} (h : Opens cs) :
    nextItem false (',' :: cs) = .ok (some cs) := by
  obtain ⟨c, r, rfl, hspace, hbracket, -⟩ := h
  have hcomma : skipSpace (',' :: c :: r) = ',' :: c :: r := skipSpace_cons rfl (c :: r)
  rw [nextItem, hcomma]
  split
  case h_1 heq => cases heq
  case h_2 heq => exact absurd (List.cons.inj heq).1 (by decide)
  case h_3 heq =>
    obtain ⟨rfl, rfl⟩ := List.cons.inj heq
    rw [if_neg (by decide), if_pos rfl, skipSpace_cons hspace]
    split
    case h_1 heq => cases heq
    case h_2 heq => exact absurd (List.cons.inj heq).1 hbracket
    case h_3 => rfl

theorem nextItem_itemsFrom (first : Bool) {j : Json} (hj : Opens j.renderChars) (js : List Json)
    (r : List Char) :
    nextItem first (itemsFrom first (j :: js) ++ r) =
      .ok (some (j.renderChars ++ (itemsFrom false js ++ r))) := by
  have hopens := hj.append (itemsFrom false js ++ r)
  cases first
  case true =>
    simp only [itemsFrom, if_true, List.nil_append, List.append_assoc]
    exact nextItem_first hopens
  case false =>
    simp only [itemsFrom, Bool.false_eq_true, if_false, List.cons_append, List.nil_append,
      List.append_assoc]
    exact nextItem_comma hopens

/-- The text of an object from one of its members on, to the closing brace. -/
def membersFrom : Bool → List (String × Json) → List Char
  | _, [] => ['}']
  | first, (name, j) :: ms =>
    (if first then [] else [',']) ++ quote name ++ ':' :: j.renderChars ++ membersFrom false ms

theorem renderMembers_eq (ms : List (String × Json)) : renderMembers ms = membersFrom true ms := by
  induction ms with
  | nil => rfl
  | cons m ms ih =>
    cases ms with
    | nil => simp [renderMembers, membersFrom]
    | cons k ks =>
      rw [renderMembers, ih]
      · simp [membersFrom]
      · rintro ⟨⟩

theorem ends_membersFrom (ms : List (String × Json)) (r : List Char) :
    Ends (membersFrom false ms ++ r) := by
  cases ms with
  | nil => exact ends_cons (.inr (.inr rfl))
  | cons m ms => exact ends_cons (.inl rfl)

theorem length_le_length_membersFrom (first : Bool) (ms : List (String × Json)) :
    ms.length ≤ (membersFrom first ms).length := by
  induction ms generalizing first with
  | nil => simp
  | cons m ms ih =>
    have := ih false
    simp only [membersFrom, List.length_append, List.length_cons]
    omega

theorem nextName_membersFrom (first : Bool) (name : String) (j : Json)
    (ms : List (String × Json)) (r : List Char) :
    ∃ cs, nextName first (membersFrom first ((name, j) :: ms) ++ r) = .ok (some cs) ∧
      readString cs =
        .ok (name.toList, ':' :: (j.renderChars ++ (membersFrom false ms ++ r))) := by
  obtain ⟨cs, hquote, hread⟩ :=
    readString_quote name (':' :: (j.renderChars ++ (membersFrom false ms ++ r)))
  refine ⟨cs, ?_, hread⟩
  cases first
  all_goals
    simp only [membersFrom, List.append_assoc, List.cons_append, hquote]
    rfl

theorem colon_cons (r : List Char) : colon (':' :: r) = .ok r := rfl

theorem close_cons {c : Char} (h : isSpace c = false) (r : List Char) :
    close c (c :: r) = .ok r := by
  simp [close, skipSpace_cons h]

/-! ### Values of any kind -/

/-- Items that are read one by one are read as the items of an array, from any of them on. -/
theorem itemsWith_itemsFrom {item : List Char → Except Fault (Json × List Char)} {js : List Json}
    (hopens : ∀ j ∈ js, Opens j.renderChars)
    (hitem : ∀ j ∈ js, ∀ r, Ends r → item (j.renderChars ++ r) = .ok (j, r)) (rest : List Char)
    (fuel : Nat) (first : Bool) (hfuel : js.length < fuel) :
    itemsWith item fuel first (itemsFrom first js ++ rest) = .ok (js, rest) := by
  induction js generalizing fuel first with
  | nil =>
    obtain ⟨fuel, rfl⟩ := Nat.exists_eq_succ_of_ne_zero (by omega : fuel ≠ 0)
    rfl
  | cons j js ih =>
    obtain ⟨fuel, rfl⟩ := Nat.exists_eq_succ_of_ne_zero (by omega : fuel ≠ 0)
    obtain ⟨hj, hjs⟩ := List.forall_mem_cons.mp hopens
    -- the reader finds the item, and behind it either a comma or the closing bracket
    have hnext := nextItem_itemsFrom first hj js rest
    have hread := hitem j (List.mem_cons_self ..) _ (ends_itemsFrom js rest)
    have hmore := ih hjs (fun k hk => hitem k (List.mem_cons_of_mem j hk)) fuel false
      (by simpa using hfuel)
    simp only [itemsWith, hnext, ok_bind, hread, hmore]
    rfl

theorem readValue_string (depth : Nat) (s : String) (r : List Char) :
    readValue depth ((Json.string s).renderChars ++ r) = .ok (.string s, r) := by
  obtain ⟨cs, hquote, hread⟩ := readString_quote s r
  have hskip : skipSpace ('"' :: cs) = '"' :: cs := rfl
  rw [renderChars, hquote, readValue, hskip]
  simp only [hread, ok_bind, String.ofList_toList]
  rfl

theorem readValue_strings (depth : Nat) (ss : List String) (r : List Char) :
    readValue (depth + 1) ((Json.array (ss.map .string)).renderChars ++ r) =
      .ok (.array (ss.map .string), r) := by
  have hlength := length_le_length_renderItems (ss.map Json.string)
  have hopens : ∀ j ∈ ss.map Json.string, Opens j.renderChars := by
    intro j hj
    obtain ⟨s, -, rfl⟩ := List.mem_map.mp hj
    exact ⟨'"', _, rfl, rfl, by decide, by decide⟩
  have hread : ∀ j ∈ ss.map Json.string, ∀ r, Ends r →
      readValue depth (j.renderChars ++ r) = .ok (j, r) := by
    intro j hj r _
    obtain ⟨s, -, rfl⟩ := List.mem_map.mp hj
    exact readValue_string depth s r
  have hitems := itemsWith_itemsFrom hopens hread r
    ((renderItems (ss.map .string) ++ r).length + 1) true
    (by simp only [List.length_append]; omega)
  rw [← renderItems_eq] at hitems
  have hskip (cs : List Char) : skipSpace ('[' :: cs) = '[' :: cs := rfl
  rw [renderChars, List.cons_append, readValue, hskip]
  simp only [hitems, ok_bind]
  rfl

end Json

end Compliance
