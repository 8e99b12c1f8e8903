/-!
# Blank characters and digits

The characters with the Unicode property `White_Space`, and the removal of a run of them from
either end of a text. Identifiers, outcome names and procedure ids are compared in trimmed form.
Numbers are written in decimal and hexadecimal digits.

* `isBlank` : membership in the property's table.
* `trim` : a text without the blanks at its two ends.
* `isBlankText` : a text that trims to nothing.
* `decimalValue` : the number that a run of decimal digits denotes.
* `hexValue?` : the value of one hexadecimal digit.
-/

namespace Compliance.Text

/-- Whether a character has the Unicode property `White_Space`. -/
def isBlank (c : Char) : Bool :=
  ('\t' ≤ c && c ≤ '\r') || c == ' ' || c == '\u0085' || c == '\u00a0' || c == '\u1680' ||
    ('\u2000' ≤ c && c ≤ '\u200a') || c == '\u2028' || c == '\u2029' || c == '\u202f' ||
    c == '\u205f' || c == '\u3000'

/-- A list of characters without the blanks at its front. -/
def trimStart (cs : List Char) : List Char :=
  cs.dropWhile isBlank

/-- A list of characters without the blanks at its back. -/
def trimEnd (cs : List Char) : List Char :=
  (cs.reverse.dropWhile isBlank).reverse

/-- A text without the blanks at its two ends. -/
def trim (s : String) : String :=
  String.ofList (trimEnd (trimStart s.toList))

/-- Whether a text has no character that is not blank. -/
def isBlankText (s : String) : Bool :=
  trim s == ""

/-! ### Digits -/

/-- The value of a decimal digit. -/
def digitValue (c : Char) : Nat := c.toNat - '0'.toNat

/-- The number that a run of decimal digits denotes. -/
def decimalValue (ds : List Char) : Nat :=
  ds.foldl (fun n d => 10 * n + digitValue d) 0

/-- The value of a hexadecimal digit. -/
def hexValue? (c : Char) : Option Nat :=
  if '0' ≤ c ∧ c ≤ '9' then some (c.toNat - '0'.toNat)
  else if 'a' ≤ c ∧ c ≤ 'f' then some (c.toNat - 'a'.toNat + 10)
  else if 'A' ≤ c ∧ c ≤ 'F' then some (c.toNat - 'A'.toNat + 10)
  else none

/-- The number that a run of hexadecimal digits denotes, if they all are. -/
def hexadecimalValue? (ds : List Char) : Option Nat :=
  (ds.mapM hexValue?).map fun vs => vs.foldl (fun n d => 16 * n + d) 0

/-! ### Lemmas -/

theorem exists_eq_trimEnd_append (cs : List Char) :
    ∃ back, cs = trimEnd cs ++ back ∧ ∀ c ∈ back, isBlank c = true := by
  refine ⟨(cs.reverse.takeWhile isBlank).reverse, ?_, ?_⟩
  · have h := List.takeWhile_append_dropWhile (p := isBlank) (l := cs.reverse)
    have h' := congrArg List.reverse h
    simp only [List.reverse_append, List.reverse_reverse] at h'
    exact h'.symm
  · intro c hc
    exact List.all_eq_true.mp (List.all_takeWhile (p := isBlank) (l := cs.reverse)) c
      (List.mem_reverse.mp hc)

theorem trimEnd_getLast? (cs : List Char) (c : Char) (h : (trimEnd cs).getLast? = some c) :
    isBlank c = false := by
  unfold trimEnd at h
  rw [List.getLast?_reverse] at h
  have := List.head?_dropWhile_not (p := isBlank) cs.reverse
  rw [h] at this
  simpa using this

theorem trimStart_head? (cs : List Char) (c : Char) (h : (trimStart cs).head? = some c) :
    isBlank c = false := by
  have := List.head?_dropWhile_not (p := isBlank) cs
  unfold trimStart at h
  rw [h] at this
  simpa using this

theorem trimEnd_eq_self {cs : List Char} (h : ∀ c, cs.getLast? = some c → isBlank c = false) :
    trimEnd cs = cs := by
  unfold trimEnd
  rw [List.getLast?_eq_head?_reverse] at h
  cases hr : cs.reverse with
  | nil => simpa using hr
  | cons c r =>
    have hc := h c (by rw [hr]; rfl)
    rw [List.dropWhile_cons_of_neg (by simp [hc]), ← hr, List.reverse_reverse]

theorem trimStart_eq_self {cs : List Char} (h : ∀ c, cs.head? = some c → isBlank c = false) :
    trimStart cs = cs := by
  cases cs with
  | nil => rfl
  | cons c r => exact List.dropWhile_cons_of_neg (by simp [h c rfl])

private theorem head?_trimEnd {cs : List Char} {c : Char} (h : (trimEnd cs).head? = some c) :
    cs.head? = some c := by
  obtain ⟨back, hb, _⟩ := exists_eq_trimEnd_append cs
  rw [hb]
  cases ht : trimEnd cs with
  | nil => rw [ht] at h; cases h
  | cons d r => rw [ht] at h; simpa using h

@[simp] theorem trim_trim (s : String) : trim (trim s) = trim s := by
  unfold trim
  rw [String.toList_ofList, trimStart_eq_self, trimEnd_eq_self]
  · exact fun c hc => trimEnd_getLast? _ c hc
  · exact fun c hc => trimStart_head? _ c (head?_trimEnd hc)

end Compliance.Text
