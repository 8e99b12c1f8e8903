import Compliance.Net.IpAddress

/-!
# Hosts of locators

The host part of a locator. Where the scheme is known, a host is a domain name or an address in one
of many spellings, and is brought to one form; elsewhere it is any text without the characters that
structure a locator.

* `Idna` : how names with characters outside of ASCII are written.
* `Host.ofSpecial?`, `Host.ofOther?` : the written form of a host, for the two kinds of schemes.
-/

namespace Compliance.Net

open Compliance.Text (decimalValue hexadecimalValue? hexValue?)

/-- The octets of a text. -/
def utf8 (c : Char) : List Nat :=
  (String.singleton c).toUTF8.toList.map UInt8.toNat

/-- An octet as a percent sign and two hexadecimal digits. -/
def percentOctet (n : Nat) : List Char :=
  let digit (d : Nat) : Char := (Nat.toDigits 16 d).headD '0' |>.toUpper
  ['%', digit (n / 16), digit (n % 16)]

/-- A text with some characters, and all that are not ASCII, written as percent signs and digits. -/
def percentEncode (escaped : Char → Bool) (cs : List Char) : List Char :=
  cs.flatMap fun c => if escaped c || 127 < c.toNat then (utf8 c).flatMap percentOctet else [c]

/-- Whether a character is a control character of ASCII. -/
def isControl (c : Char) : Bool := c.toNat < 32 || c.toNat == 127

/-- A text with its percent signs and digits replaced by the octets they stand for; `none` if the
octets are no text. -/
def percentDecode? (cs : List Char) : Option (List Char) :=
  (String.fromUTF8? ⟨(octets cs).toArray⟩).map String.toList
where
  /-- The octets of a text. -/
  octets : List Char → List UInt8
    | '%' :: a :: b :: r =>
      match hexadecimalValue? [a, b] with
      | some n => UInt8.ofNat n :: octets r
      | none => UInt8.ofNat 37 :: octets (a :: b :: r)
    | c :: r => (utf8 c).map UInt8.ofNat ++ octets r
    | [] => []

/-! ### International names -/

/-- How names with characters outside of ASCII are written in ASCII, which takes tables of all
characters that are not given here. -/
structure Idna where
  /-- The form of a name in ASCII; `none` if the name is not valid. -/
  toAscii? : List Char → Option (List Char)
  /-- A name in this form stays as it is. -/
  stable : ∀ {cs name : List Char}, toAscii? cs = some name → toAscii? name = some name

/-- No names but those in ASCII, which stay as they are. -/
def Idna.ascii : Idna where
  toAscii? cs := if cs.all (·.toNat ≤ 127) then some cs else none
  stable {cs name} h := by
    split at h
    case isTrue hcs =>
      obtain rfl := Option.some.inj h
      rw [if_pos hcs]
    case isFalse => cases h

namespace Host

/-- Whether a character structures a locator and may not stand in a host. -/
def isReserved (c : Char) : Bool :=
  c == '\x00' || c == '\t' || c == '\n' || c == '\r' || c == ' ' || c == '#' || c == '/' ||
    c == ':' || c == '<' || c == '>' || c == '?' || c == '@' || c == '[' || c == '\\' || c == ']' ||
    c == '^' || c == '|'

/-! ### Domain names -/

/-- The parts of a text between points. -/
def splitPoints (cs : List Char) : List (List Char) :=
  cs.splitOn '.'

/-- Whether a name in small letters has characters outside of ASCII, or a label that is marked as
the form in ASCII of another. -/
def isInternational (cs : List Char) : Bool :=
  cs.any (127 < ·.toNat) || (splitPoints cs).any (['x', 'n', '-', '-'].isPrefixOf ·)

/-- Whether a character may stand in a written name. -/
def isNameChar (c : Char) : Bool :=
  c.toNat ≤ 127 && c.toLower == c && !(isReserved c || isControl c || c == '%')

/-- The written form of a domain name, if all its characters are allowed. -/
def domainToAscii? (idna : Idna) (cs : List Char) : Option (List Char) :=
  let name := cs.map Char.toLower
  let written := if isInternational name then idna.toAscii? name else some name
  written.filter fun cs => cs.all isNameChar

/-! ### Addresses of version 4 -/

/-- The number that a part of an address denotes: in hexadecimal, octal or decimal digits. -/
def number? (cs : List Char) : Option Nat :=
  let digits (base : Nat) (cs : List Char) : Option Nat :=
    cs.foldlM (fun n c => do
      let v ← hexValue? c
      if v < base then some (base * n + v) else none) 0
  match cs with
  | [] => none
  | '0' :: 'x' :: r => digits 16 r
  | '0' :: c :: r => digits 8 (c :: r)
  | cs => digits 10 cs

/-- The parts of a name, without an empty one at the end. -/
def parts (cs : List Char) : List (List Char) :=
  let ps := splitPoints cs
  if 1 < ps.length && ps.getLast? == some [] then ps.dropLast else ps

/-- Whether a name has to be an address because its last part is a number. -/
def endsInNumber (cs : List Char) : Bool :=
  match (parts cs).getLast? with
  | some p => !p.isEmpty && (p.all Char.isDigit || (number? p).isSome)
  | none => false

/-- The address that a name denotes; its last part stands for all octets that are left. -/
def address? (cs : List Char) : Option IpAddress := do
  let ns ← (parts cs).mapM number?
  let last ← ns.getLast?
  let front := ns.dropLast
  guard (front.length < 4 && front.all (· < 256) && last < Nat.pow 256 (4 - front.length))
  let n := (front ++ (List.range (4 - front.length)).reverse.map fun i =>
    last / Nat.pow 256 i % 256)
  match n with
  | [a, b, c, d] => some (.v4 a b c d)
  | _ => none

/-! ### Hosts -/

/-- The written form of an address in brackets. -/
def bracketed? (cs : List Char) : Option String :=
  if cs.getLast? == some ']' then
    (IpAddress.readV6? (cs.drop 1).dropLast).map fun gs => "[" ++ IpAddress.v6Text gs ++ "]"
  else none

/-- The written form of a host where the scheme is a known one. -/
def ofSpecial? (idna : Idna) (cs : List Char) : Option String :=
  if cs.head? == some '[' then bracketed? cs
  else do
    let name ← domainToAscii? idna (← percentDecode? cs)
    if name.isEmpty then none
    else if endsInNumber name then (address? name).map IpAddress.toText
    else some (String.ofList name)

/-- The written form of a host under another scheme. -/
def ofOther? (cs : List Char) : Option String :=
  if cs.head? == some '[' then bracketed? cs
  else if cs.any isReserved then none
  else some (String.ofList (percentEncode isControl cs))

end Host

end Compliance.Net
