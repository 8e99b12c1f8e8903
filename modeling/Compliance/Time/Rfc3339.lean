import Compliance.Text.Character
import Compliance.Time.Instant

/-!
# Date and time text

The notation of RFC 3339 for instants. The reader takes the notation with some freedom: blanks
before each part, a space or a small letter for the `T` and the `Z`, years of other lengths than
four digits, an offset without its colon, and a leap second at the end of any minute. The writer
always uses universal time, and 0, 3, 6 or 9 digits for the fraction of a second.

* `Instant.read?` : the instant that a text denotes.
* `Instant.toText` : the text of an instant.
-/

namespace Compliance.Time

open Compliance.Text (trimStart isBlank digitValue decimalValue)

namespace Rfc3339

/-- A number of one or more digits, at most `width` of them, and the rest of the text. -/
def number (width : Nat) (cs : List Char) : Option (Nat × List Char) :=
  let digits := (cs.take width).takeWhile Char.isDigit
  if digits.isEmpty then none else some (decimalValue digits, cs.drop digits.length)

/-- A number of at most two digits after blanks. -/
def twoDigits (cs : List Char) : Option (Nat × List Char) :=
  number 2 (trimStart cs)

/-- A year after blanks: up to four digits, or any number of them after a sign. -/
def year (cs : List Char) : Option (Int × List Char) :=
  match trimStart cs with
  | '-' :: r => (number r.length r).map fun (n, r') => (-(n : Int), r')
  | '+' :: r => (number r.length r).map fun (n, r') => ((n : Int), r')
  | r => (number 4 r).map fun (n, r') => ((n : Int), r')

/-- One given character after blanks. -/
def mark (c : Char) (cs : List Char) : Option (List Char) :=
  match trimStart cs with
  | d :: r => if d = c then some r else none
  | [] => none

/-- The separator between date and time. -/
def separator : List Char → Option (List Char)
  | 't' :: r | 'T' :: r | ' ' :: r => some r
  | _ => none

/-- The fraction of a second in nanoseconds: digits after the ninth do not count. -/
def fraction : List Char → Option (Nat × List Char)
  | '.' :: r =>
    let digits := r.takeWhile Char.isDigit
    if digits.isEmpty then none
    else
      let kept := digits.take 9
      some (decimalValue kept * Nat.pow 10 (9 - kept.length), r.drop digits.length)
  | r => some (0, r)

/-- Two digits with nothing before them, the first of them below `bound`. -/
def strictPair (bound : Nat) : List Char → Option (Nat × List Char)
  | a :: b :: r =>
    if a.isDigit && b.isDigit && digitValue a < bound then some (decimalValue [a, b], r)
    else none
  | _ => none

/-- The hours and minutes of an offset, with colons and blanks allowed between them. -/
def offsetMagnitude (cs : List Char) : Option (Nat × List Char) := do
  let (hours, r) ← strictPair 10 cs
  let (minutes, r) ← strictPair 6 (r.dropWhile fun c => c == ':' || isBlank c)
  return (60 * hours + minutes, r)

/-- How many minutes local time is ahead of universal time. -/
def offset : List Char → Option (Int × List Char)
  | 'Z' :: r | 'z' :: r => some (0, r)
  | '+' :: r => (offsetMagnitude r).map fun (n, r') => ((n : Int), r')
  | '-' :: r | '\u2212' :: r => (offsetMagnitude r).map fun (n, r') => (-(n : Int), r')
  | u :: t :: c :: r =>
    if u.toLower = 'u' && t.toLower = 't' && c.toLower = 'c' then some (0, r) else none
  | _ => none

/-- A number in decimal digits, with zeros in front to the given width. -/
def padded (width n : Nat) : List Char :=
  let digits := Nat.toDigits 10 n
  List.replicate (width - digits.length) '0' ++ digits

end Rfc3339

namespace Instant

open Rfc3339

/-- The instant that a text denotes. -/
def read? (text : String) : Option Instant := do
  let (y, r) ← year text.toList
  let (month, r) ← twoDigits (← mark '-' r)
  let (day, r) ← twoDigits (← mark '-' r)
  let (hour, r) ← twoDigits (← separator r)
  let (minute, r) ← twoDigits (← mark ':' r)
  let (second, r) ← twoDigits (← mark ':' r)
  let (nano, r) ← Rfc3339.fraction r
  let (ahead, r) ← offset (trimStart r)
  let date ← Date.ofParts? y month day
  guard (trimStart r).isEmpty
  if h : (hour < 24 ∧ minute < 60 ∧ second ≤ 60) ∧ nano < 1000000000 ∧
      (-1440 < ahead ∧ ahead < 1440) then
    if hl : second = 60 then
      ofLocal? date (hour * 3600 + minute * 60 + 59) (nano + 1000000000) ahead
        (by omega) (by omega) (by omega) h.2.2
    else
      ofLocal? date (hour * 3600 + minute * 60 + second) nano ahead
        (by omega) (by omega) (by omega) h.2.2
  else
    none

/-- The digits of a year: four of them, or a sign and at least four for a year out of their
range. -/
def yearText (y : Int) : List Char :=
  if 0 ≤ y ∧ y ≤ 9999 then padded 4 y.toNat
  else (if y < 0 then '-' else '+') :: padded 4 y.natAbs

/-- The fraction of a second in as few groups of three digits as hold it. -/
def fractionText (n : Nat) : List Char :=
  if n = 0 then []
  else if n % 1000000 = 0 then '.' :: padded 3 (n / 1000000)
  else if n % 1000 = 0 then '.' :: padded 6 (n / 1000)
  else '.' :: padded 9 n

/-- The text of an instant in universal time. -/
def toText (t : Instant) : String :=
  String.ofList <|
    yearText t.date.year ++ '-' :: padded 2 t.date.month ++ '-' :: padded 2 t.date.day ++
    'T' :: padded 2 t.hour ++ ':' :: padded 2 t.minute ++ ':' :: padded 2 t.secondOfMinute ++
    fractionText t.fraction ++ ['Z']

end Instant

end Compliance.Time
