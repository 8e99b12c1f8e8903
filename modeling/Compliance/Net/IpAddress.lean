import Compliance.Text.Character

/-!
# Internet addresses

Addresses of both versions and their text. Version 6 addresses are written with the longest run of
zero groups left out, and with the last two groups in the form of version 4 where the others mark
them as such.

* `IpAddress.read?` : the address that a text denotes.
* `IpAddress.toText` : the text of an address.
* `socketText` : an address with a port.
-/

namespace Compliance.Net

open Compliance.Text (decimalValue hexadecimalValue? hexValue?)

/-- An address: four octets or eight groups of sixteen bits. -/
inductive IpAddress where
  | v4 (a b c d : Nat)
  | v6 (groups : List Nat)
  deriving DecidableEq, Repr

namespace IpAddress

/-! ### Reading -/

/-- A decimal number of at most three digits, without a zero in front, that fits into an octet. -/
def octet (cs : List Char) : Option (Nat × List Char) :=
  let digits := cs.takeWhile Char.isDigit
  let n := decimalValue digits
  if digits.isEmpty || 3 < digits.length || 255 < n ||
      (1 < digits.length && digits.head? == some '0')
  then none
  else some (n, cs.drop digits.length)

/-- One given character. -/
def mark (c : Char) : List Char → Option (List Char)
  | d :: r => if d = c then some r else none
  | [] => none

/-- The four octets at the front of a text. -/
def octets (cs : List Char) : Option ((Nat × Nat × Nat × Nat) × List Char) := do
  let (a, r) ← octet cs
  let (b, r) ← octet (← mark '.' r)
  let (c, r) ← octet (← mark '.' r)
  let (d, r) ← octet (← mark '.' r)
  return ((a, b, c, d), r)

/-- A group of at most four hexadecimal digits. -/
def group (cs : List Char) : Option (Nat × List Char) := do
  let digits := cs.takeWhile fun c => (hexValue? c).isSome
  if digits.isEmpty || 4 < digits.length then none
  else return (← hexadecimalValue? digits, cs.drop digits.length)

/-- At most so many groups, of which the last two may be written as four octets; says whether they
are. -/
def groups : Nat → Bool → List Char → List Nat × Bool × List Char
  | 0, _, cs => ([], false, cs)
  | room + 1, isFirst, cs =>
    match if isFirst then some cs else mark ':' cs with
    | none => ([], false, cs)
    | some start =>
      match if room = 0 then none else octets start with
      | some ((a, b, c, d), rest) => ([256 * a + b, 256 * c + d], true, rest)
      | none =>
        match group start with
        | some (g, rest) =>
          let (gs, dotted, rest) := groups room false rest
          (g :: gs, dotted, rest)
        | none => ([], false, cs)

/-- The eight groups at the front of a text. -/
def eightGroups (cs : List Char) : Option (List Nat × List Char) :=
  let (front, dotted, rest) := groups 8 true cs
  if front.length = 8 then some (front, rest)
  else if dotted then none
  else
    match rest with
    | ':' :: ':' :: rest =>
      let (back, _, rest) := groups (7 - front.length) true rest
      some (front ++ List.replicate (8 - front.length - back.length) 0 ++ back, rest)
    | _ => none

/-- The version 6 address that a text denotes. -/
def readV6? (cs : List Char) : Option (List Nat) :=
  match eightGroups cs with
  | some (gs, []) => some gs
  | _ => none

/-- The address that a text denotes. -/
def read? (text : String) : Option IpAddress :=
  match octets text.toList with
  | some ((a, b, c, d), rest) => if rest.isEmpty then some (.v4 a b c d) else none
  | none => (readV6? text.toList).map .v6

/-! ### Writing -/

/-- The length of the longest run of zeros, and how many groups are after it; of runs of one length
the first counts. -/
def longestZeros : List Nat → Nat × Nat
  | [] => (0, 0)
  | g :: gs =>
    let here := ((g :: gs).takeWhile (· == 0)).length
    let (best, after) := longestZeros gs
    if best ≤ here then (here, gs.length + 1 - here) else (best, after)

/-- Groups in hexadecimal digits, set off by colons. -/
def groupsText (gs : List Nat) : String :=
  ":".intercalate (gs.map fun g => String.ofList (Nat.toDigits 16 g))

/-- Eight groups, with the longest run of at least two zeros left out. -/
def v6Text (gs : List Nat) : String :=
  let (zeros, after) := longestZeros gs
  if zeros < 2 then groupsText gs
  else groupsText (gs.take (gs.length - after - zeros)) ++ "::" ++
    groupsText (gs.drop (gs.length - after))

/-- Four octets, set off by points. -/
def v4Text (a b c d : Nat) : String :=
  ".".intercalate ([a, b, c, d].map toString)

/-- The text of an address. -/
def toText : IpAddress → String
  | v4 a b c d => v4Text a b c d
  | v6 [0, 0, 0, 0, 0, 0xffff, g, h] =>
    "::ffff:" ++ v4Text (g / 256) (g % 256) (h / 256) (h % 256)
  | v6 gs => v6Text gs

end IpAddress

/-- An address with a port. -/
def socketText (a : IpAddress) (port : Nat) : String :=
  match a with
  | .v4 .. => a.toText ++ ":" ++ toString port
  | .v6 _ => "[" ++ a.toText ++ "]:" ++ toString port

end Compliance.Net
