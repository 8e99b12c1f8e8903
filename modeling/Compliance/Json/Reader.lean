import Compliance.Codec.Fault
import Compliance.Json.Value
import Compliance.Text.Character

/-!
# Reading JSON text

The lexical rules of JSON text, as functions that take a value's characters from the front of a
text and return the rest. The first fault from the left is the one reported. A value that no one
asks for is passed over under laxer rules than one that is read: its numbers may have any size, its
strings may hold unpaired surrogates, and it may nest to any depth.

* `readString`, `readNumber`, `literal` : the scalars.
* `skipValue` : passes over a value.
* `readValue` : reads any value, to a limited depth.
* `mismatch` : the fault of finding another kind of value than was asked for.
-/

namespace Compliance.Json

open Compliance.Codec (Fault)
open Compliance.Text (digitValue decimalValue hexadecimalValue?)

/-- Whether a character may stand between the parts of JSON text. -/
def isSpace (c : Char) : Bool :=
  c == ' ' || c == '\n' || c == '\t' || c == '\r'

/-- A text without the spaces at its front. -/
def skipSpace (cs : List Char) : List Char :=
  cs.dropWhile isSpace

/-- The rest of a text that begins with the given characters. -/
def literal : List Char → List Char → Except Fault (List Char)
  | [], cs => .ok cs
  | _ :: _, [] => .error .truncated
  | e :: es, c :: cs => if e = c then literal es cs else .error .malformed

/-! ### Strings -/

/-- The fault of an escape whose four digits are cut short: the text has ended if it holds fewer
than four more bytes. -/
def shortHex (cs : List Char) : Fault :=
  if (String.ofList cs).utf8ByteSize < 4 then .truncated else .malformed

/-- Whether a number is the first half of a surrogate pair. -/
def isHighSurrogate (n : Nat) : Bool := 0xD800 ≤ n && n ≤ 0xDBFF

/-- Whether a number is the second half of a surrogate pair. -/
def isLowSurrogate (n : Nat) : Bool := 0xDC00 ≤ n && n ≤ 0xDFFF

/-- The character of a surrogate pair. -/
def pairedChar (high low : Nat) : Char :=
  Char.ofNat (0x10000 + 1024 * (high - 0xD800) + (low - 0xDC00))

/-- The character that an escape of one letter stands for. -/
def unescape? : Char → Option Char
  | '"' => some '"'
  | '\\' => some '\\'
  | '/' => some '/'
  | 'b' => some '\x08'
  | 'f' => some '\x0c'
  | 'n' => some '\n'
  | 'r' => some '\r'
  | 't' => some '\t'
  | _ => none

/-- A read text with one character put in front. -/
def push (c : Char) :
    Except Fault (List Char × List Char) → Except Fault (List Char × List Char)
  | .ok (s, rest) => .ok (c :: s, rest)
  | .error f => .error f

/-- The characters of a string whose opening quotation mark has been read. -/
def readString : List Char → Except Fault (List Char × List Char)
  | [] => .error .truncated
  | '"' :: r => .ok ([], r)
  | ['\\'] => .error .truncated
  | '\\' :: 'u' :: a :: b :: c :: d :: r =>
    match hexadecimalValue? [a, b, c, d] with
    | none => .error .malformed
    | some n =>
      if isLowSurrogate n then .error .malformed
      else if isHighSurrogate n then
        match r with
        | [] => .error .truncated
        | ['\\'] => .error .truncated
        | '\\' :: 'u' :: e :: f :: g :: h :: r' =>
          match hexadecimalValue? [e, f, g, h] with
          | none => .error .malformed
          | some m =>
            if isLowSurrogate m then push (pairedChar n m) (readString r') else .error .malformed
        | '\\' :: 'u' :: short => .error (shortHex short)
        | _ => .error .malformed
      else push (Char.ofNat n) (readString r)
  | '\\' :: 'u' :: short => .error (shortHex short)
  | '\\' :: c :: r =>
    match unescape? c with
    | some c' => push c' (readString r)
    | none => .error .malformed
  | c :: r => if c.toNat < 32 then .error .malformed else push c (readString r)

/-- Passes over a string whose opening quotation mark has been read. -/
def skipString : List Char → Except Fault (List Char)
  | [] => .error .truncated
  | '"' :: r => .ok r
  | ['\\'] => .error .truncated
  | '\\' :: 'u' :: a :: b :: c :: d :: r =>
    if (hexadecimalValue? [a, b, c, d]).isSome then skipString r else .error .malformed
  | '\\' :: 'u' :: short => .error (shortHex short)
  | '\\' :: c :: r => if (unescape? c).isSome then skipString r else .error .malformed
  | c :: r => if c.toNat < 32 then .error .malformed else skipString r

/-! ### Numbers -/

/-- A number as far as the types read here tell numbers apart. -/
inductive Number where
  /-- An integer from 0 to 2⁶⁴ − 1, written without sign, point or exponent. -/
  | natural (n : Nat)
  /-- Any other number. -/
  | other
  deriving DecidableEq, Repr

/-- The digits at the front of a text, and the rest. -/
def digits (cs : List Char) : List Char × List Char :=
  cs.span Char.isDigit

/-- A decimal number: a significand below 2⁶⁴ times a power of ten. -/
structure Decimal where
  significand : Nat
  exponent : Int

/-- Appends a digit, if the significand has room for it. -/
def Decimal.append? (x : Decimal) (d : Char) : Option Nat :=
  let n := 10 * x.significand + digitValue d
  if n < 0x10000000000000000 then some n else none

/-- The decimal of the digits before the point: those without room count as zeros. -/
def Decimal.ofWhole : Decimal → List Char → Decimal
  | x, [] => x
  | x, d :: ds =>
    match x.append? d with
    | some n => ofWhole { x with significand := n } ds
    | none => { x with exponent := x.exponent + (d :: ds).length }

theorem Decimal.ofWhole_of_append? {x : Decimal} {d : Char} {n : Nat}
    (h : x.append? d = some n) (ds : List Char) :
    x.ofWhole (d :: ds) = Decimal.ofWhole { x with significand := n } ds := by
  show (match x.append? d with
    | some n => ofWhole { x with significand := n } ds
    | none => { x with exponent := x.exponent + (d :: ds).length }) = _
  rw [h]

/-- A decimal with the digits after the point: those without room are dropped. -/
def Decimal.ofFraction : Decimal → List Char → Decimal
  | x, [] => x
  | x, d :: ds =>
    match x.append? d with
    | some n => ofFraction ⟨n, x.exponent - 1⟩ ds
    | none => x

/-- The integer nearest to `n` that has at most 53 significant binary digits, ties to even. -/
def roundTo53Bits (n : Nat) : Nat :=
  let shift := n.log2 - 52
  let unit := Nat.pow 2 shift
  let q := n / unit
  let r := n % unit
  if 2 * r > unit ∨ (2 * r = unit ∧ q % 2 = 1) then (q + 1) * unit else q * unit

/-- Whether a decimal exceeds the largest double, its significand and its power of ten each being
rounded before they are multiplied. -/
def Decimal.isTooLarge (x : Decimal) : Bool :=
  x.significand ≠ 0 && 0 < x.exponent &&
    (308 < x.exponent ||
      Nat.pow 2 1024 - Nat.pow 2 970 ≤
        roundTo53Bits x.significand * roundTo53Bits (Nat.pow 10 x.exponent.toNat))

/-- The end of a number that is not a plain integer. -/
def finish (x : Decimal) (rest : List Char) : Except Fault (Number × List Char) :=
  if x.isTooLarge then .error .malformed else .ok (.other, rest)

/-- The exponent of a number, after its letter. -/
def exponent (x : Decimal) (cs : List Char) : Except Fault (Number × List Char) :=
  let (negative, r) : Bool × List Char :=
    match cs with
    | '+' :: r => (false, r)
    | '-' :: r => (true, r)
    | r => (false, r)
  match r with
  | [] => .error .truncated
  | c :: _ =>
    if c.isDigit then
      let (ds, rest) := digits r
      let e := decimalValue ds
      if e < 0x80000000 then
        finish { x with exponent := if negative then x.exponent - e else x.exponent + e } rest
      else if x.significand ≠ 0 && !negative then .error .malformed
      else .ok (.other, rest)
    else .error .malformed

/-- What follows the digits before the point; `plain` is the number if nothing does. -/
def afterWhole (plain : Except Fault (Number × List Char)) (x : Decimal) :
    List Char → Except Fault (Number × List Char)
  | '.' :: r =>
    match digits r with
    | ([], []) => .error .truncated
    | ([], _ :: _) => .error .malformed
    | (ds, 'e' :: rest) | (ds, 'E' :: rest) => exponent (x.ofFraction ds) rest
    | (ds, rest) => finish (x.ofFraction ds) rest
  | 'e' :: r | 'E' :: r => exponent x r
  | _ => plain

/-- A number without its sign; a signed one is never a natural number. -/
def unsignedNumber (signed : Bool) (cs : List Char) : Except Fault (Number × List Char) :=
  match cs with
  | [] => .error .truncated
  | '0' :: r =>
    if (r.head?.map Char.isDigit).getD false then .error .malformed
    else afterWhole (.ok (if signed then .other else .natural 0, r)) ⟨0, 0⟩ r
  | c :: _ =>
    if c.isDigit then
      let (ds, rest) := digits cs
      let x := Decimal.ofWhole ⟨0, 0⟩ ds
      let plain : Except Fault (Number × List Char) :=
        if x.exponent = 0 then .ok (if signed then .other else .natural x.significand, rest)
        else finish x rest
      afterWhole plain x rest
    else .error .malformed

/-- A number. -/
def readNumber : List Char → Except Fault (Number × List Char)
  | '-' :: r => unsignedNumber true r
  | cs => unsignedNumber false cs

/-- Passes over the exponent of a number, after its letter. -/
def skipExponent (cs : List Char) : Except Fault (List Char) :=
  let r := match cs with
    | '+' :: r | '-' :: r => r
    | r => r
  match digits r with
  | ([], _) => .error .malformed
  | (_, rest) => .ok rest

/-- Passes over what follows the digits before the point. -/
def skipAfterWhole : List Char → Except Fault (List Char)
  | '.' :: r =>
    match digits r with
    | ([], _) => .error .malformed
    | (_, 'e' :: rest) | (_, 'E' :: rest) => skipExponent rest
    | (_, rest) => .ok rest
  | 'e' :: r | 'E' :: r => skipExponent r
  | r => .ok r

/-- Passes over a number without its sign. -/
def skipUnsignedNumber (cs : List Char) : Except Fault (List Char) :=
  match cs with
  | '0' :: r =>
    if (r.head?.map Char.isDigit).getD false then .error .malformed else skipAfterWhole r
  | _ =>
    match digits cs with
    | ([], _) => .error .malformed
    | (_, rest) => skipAfterWhole rest

/-! ### Structure -/

/-- The rest of a text after the colon between a member's name and its value. -/
def colon (cs : List Char) : Except Fault (List Char) :=
  match skipSpace cs with
  | ':' :: r => .ok r
  | [] => .error .truncated
  | _ => .error .malformed

/-- Where the next item of an array begins; `none` at the closing bracket. -/
def nextItem (first : Bool) (cs : List Char) : Except Fault (Option (List Char)) :=
  match skipSpace cs with
  | [] => .error .truncated
  | ']' :: _ => .ok none
  | c :: r =>
    if first then .ok (some (c :: r))
    else if c = ',' then
      match skipSpace r with
      | [] => .error .truncated
      | ']' :: _ => .error .malformed
      | r' => .ok (some r')
    else .error .malformed

/-- The name of the next member of an object, begun; `none` at the closing brace. -/
def nextName (first : Bool) (cs : List Char) : Except Fault (Option (List Char)) :=
  match skipSpace cs with
  | [] => .error .truncated
  | '}' :: _ => .ok none
  | c :: r =>
    if first then
      if c = '"' then .ok (some r) else .error .malformed
    else if c = ',' then
      match skipSpace r with
      | [] => .error .truncated
      | '"' :: r' => .ok (some r')
      | _ => .error .malformed
    else .error .malformed

/-- The rest of a text after one closing character. -/
def close (c : Char) (cs : List Char) : Except Fault (List Char) :=
  match skipSpace cs with
  | [] => .error .truncated
  | d :: r => if d = c then .ok r else .error .malformed

mutual

/-- Passes over a value; `fuel` bounds the number of its parts. -/
def skipValueWith : Nat → List Char → Except Fault (List Char)
  | 0, _ => .error .malformed
  | fuel + 1, cs =>
    match skipSpace cs with
    | [] => .error .truncated
    | 'n' :: r => literal ['u', 'l', 'l'] r
    | 't' :: r => literal ['r', 'u', 'e'] r
    | 'f' :: r => literal ['a', 'l', 's', 'e'] r
    | '-' :: r => skipUnsignedNumber r
    | '"' :: r => skipString r
    | '[' :: r => skipItems fuel true r
    | '{' :: r => skipMembers fuel true r
    | c :: r => if c.isDigit then skipUnsignedNumber (c :: r) else .error .malformed

/-- Passes over the items of an array and its closing bracket. -/
def skipItems : Nat → Bool → List Char → Except Fault (List Char)
  | 0, _, _ => .error .malformed
  | fuel + 1, first, cs => do
    match ← nextItem first cs with
    | none => close ']' cs
    | some r => skipItems fuel false (← skipValueWith fuel r)

/-- Passes over the members of an object and its closing brace. -/
def skipMembers : Nat → Bool → List Char → Except Fault (List Char)
  | 0, _, _ => .error .malformed
  | fuel + 1, first, cs => do
    match ← nextName first cs with
    | none => close '}' cs
    | some r =>
      let r ← colon (← skipString r)
      skipMembers fuel false (← skipValueWith fuel r)

end

/-- Passes over a value. -/
def skipValue (cs : List Char) : Except Fault (List Char) :=
  skipValueWith (2 * cs.length + 2) cs

/-- The fault of finding, in place of what was asked for, the value at the front of a text: a
scalar is read to its end first, and may turn out to be broken. -/
def mismatch (cs : List Char) : Fault :=
  let faultOf {α : Type} : Except Fault α → Fault
    | .ok _ => .mismatch
    | .error f => f
  match skipSpace cs with
  | [] => .truncated
  | 'n' :: r => faultOf (literal ['u', 'l', 'l'] r)
  | 't' :: r => faultOf (literal ['r', 'u', 'e'] r)
  | 'f' :: r => faultOf (literal ['a', 'l', 's', 'e'] r)
  | '"' :: r => faultOf (readString r)
  | '[' :: _ | '{' :: _ => .mismatch
  | c :: r => if c = '-' || c.isDigit then faultOf (readNumber (c :: r)) else .malformed

/-! ### Any value -/

/-- Reads the items of an array with `item`, and its closing bracket; `fuel` bounds their
number. -/
def itemsWith {α : Type} (item : List Char → Except Fault (α × List Char)) :
    Nat → Bool → List Char → Except Fault (List α × List Char)
  | 0, _, _ => .error .malformed
  | fuel + 1, first, cs => do
    match ← nextItem first cs with
    | none => return ([], ← close ']' cs)
    | some r =>
      let (a, r) ← item r
      let (as, r) ← itemsWith item fuel false r
      return (a :: as, r)

/-- Reads the members of an object with `item`, and its closing brace; `fuel` bounds their
number. -/
def membersWith {α : Type} (item : List Char → Except Fault (α × List Char)) :
    Nat → Bool → List Char → Except Fault (List (String × α) × List Char)
  | 0, _, _ => .error .malformed
  | fuel + 1, first, cs => do
    match ← nextName first cs with
    | none => return ([], ← close '}' cs)
    | some r =>
      let (name, r) ← readString r
      let (a, r) ← item (← colon r)
      let (as, r) ← membersWith item fuel false r
      return ((String.ofList name, a) :: as, r)

/-- Reads any value that nests at most `depth` levels deep. -/
def readValue : Nat → List Char → Except Fault (Json × List Char)
  | depth, cs =>
    match skipSpace cs with
    | [] => .error .truncated
    | 'n' :: r => do return (.null, ← literal ['u', 'l', 'l'] r)
    | 't' :: r => do return (.bool true, ← literal ['r', 'u', 'e'] r)
    | 'f' :: r => do return (.bool false, ← literal ['a', 'l', 's', 'e'] r)
    | '"' :: r => do
      let (s, r) ← readString r
      return (.string (String.ofList s), r)
    | '[' :: r =>
      match depth with
      | 0 => .error .malformed
      | depth + 1 => do
        let (items, r) ← itemsWith (readValue depth) (r.length + 1) true r
        return (.array items, r)
    | '{' :: r =>
      match depth with
      | 0 => .error .malformed
      | depth + 1 => do
        let (members, r) ← membersWith (readValue depth) (r.length + 1) true r
        return (.object members, r)
    | c :: r =>
      if c = '-' || c.isDigit then do
        let cs := c :: r
        let (_, rest) ← readNumber cs
        return (.number (String.ofList (cs.take (cs.length - rest.length))), rest)
      else .error .malformed

/-- How many levels a value that is read may nest. -/
def maxDepth : Nat := 127

/-- The value of a whole text. -/
def parse (text : String) : Except Fault Json := do
  let (j, rest) ← readValue maxDepth text.toList
  if (skipSpace rest).isEmpty then .ok j else .error .malformed

end Compliance.Json
