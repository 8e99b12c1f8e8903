import Compliance.Codec.Fault
import Compliance.Json.Reader
import Compliance.Table
import Compliance.Yaml.Reading

/-!
# Codecs

A codec says how the values of a type stand in the two notations: how they are written as JSON, how
they are read from the front of a JSON text, and how they are read from a node of a YAML document.

* `Codec` : the three of them.
* `string`, `natural`, `choice`, `list`, `nullable`, `attributes` : codecs of simple shapes.
* `Codec.map`, `parsed` : codecs for types made from others.
* `Codec.encode`, `Codec.decode` : a value as a whole JSON text.

Reading takes the number of levels that a value may still nest. The reader of a type goes through
the text from left to right, so the first fault decides.
-/

namespace Compliance

open Codec (Fault Failure here within)

/-- How the values of a type are written and read. -/
structure Codec (α : Type) where
  write : α → Json
  read : Nat → List Char → Except Failure (α × List Char)
  yaml : Yaml.Reading α

namespace Codec

variable {α β : Type}

/-- A failure at the place where the reading stands. -/
def fail (f : Fault) : Except Failure α :=
  .error ⟨f, []⟩

/-- The codec of a type whose values are made from those of another. -/
def map (c : Codec α) (forth : α → β) (back : β → α) : Codec β where
  write b := c.write (back b)
  read depth cs := do
    let (a, rest) ← c.read depth cs
    return (forth a, rest)
  yaml doc node n := do
    let (a, n) ← c.yaml doc node n
    return (forth a, n)

/-! ### Scalars -/

/-- Reads the string at the front of a text. -/
def readString (cs : List Char) : Except Failure (String × List Char) :=
  match Json.skipSpace cs with
  | '"' :: r => here do
    let (s, rest) ← Json.readString r
    return (String.ofList s, rest)
  | cs => fail (Json.mismatch cs)

/-- Texts. -/
def string : Codec String where
  write := .string
  read _ cs := readString cs
  yaml := Yaml.Reading.text

/-- The values that some texts denote. -/
def parsed (parse : String → Except Fault α) (print : α → String) : Codec α where
  write a := .string (print a)
  read _ cs := do
    let (s, rest) ← readString cs
    return (← here (parse s), rest)
  yaml := Yaml.Reading.text.bind parse

/-- A fault where there is no value. -/
def orMismatch : Option α → Except Fault α
  | some a => .ok a
  | none => .error .mismatch

/-- Natural numbers below a bound. -/
def natural (bound : Nat) : Codec Nat where
  write := Json.nat
  read _ cs :=
    let cs := Json.skipSpace cs
    if cs.head?.any (fun c => c == '-' || c.isDigit) then here do
      match ← Json.readNumber cs with
      | (.natural n, rest) => if n < bound then return (n, rest) else .error .mismatch
      | (.other, _) => .error .mismatch
    else fail (Json.mismatch cs)
  yaml := Yaml.Reading.natural bound

/-- Counts and sizes, which fit into 64 bits. -/
def count : Codec Nat := natural 0x10000000000000000

/-- A few values that have names. A name may also stand as the only member of an object, with
nothing as its value. -/
def choice (name : α → String) (named : String → Option α) : Codec α where
  write a := .string (name a)
  read depth cs :=
    match Json.skipSpace cs, depth with
    | [], _ => fail .truncated
    | '"' :: r, _ => here do
      let (s, rest) ← Json.readString r
      return (← orMismatch (named (String.ofList s)), rest)
    | '\x7b' :: _, 0 => fail .malformed
    | '\x7b' :: r, _ + 1 => do
      let (s, rest) ← readString r
      let a ← here (orMismatch (named s))
      let rest := Json.skipSpace (← here (Json.colon rest))
      match rest with
      | 'n' :: r => here do
        let rest ← Json.literal ['u', 'l', 'l'] r
        return (a, ← Json.close '\x7d' rest)
      | rest => fail (Json.mismatch rest)
    | _, _ => fail .malformed
  yaml := Yaml.Reading.choice named

/-! ### Collections -/

/-- A value or nothing. -/
def nullable (c : Codec α) : Codec (Option α) where
  write
    | some a => c.write a
    | none => .null
  read depth cs :=
    match Json.skipSpace cs with
    | 'n' :: r => here do return (none, ← Json.literal ['u', 'l', 'l'] r)
    | cs => do
      let (a, rest) ← c.read depth cs
      return (some a, rest)
  yaml := Yaml.Reading.nullable c.yaml

/-- Reads the items of a list, from the one with the given index to the closing bracket; `fuel`
bounds their number. -/
def readItems (item : List Char → Except Failure (α × List Char)) :
    Nat → Nat → List Char → Except Failure (List α × List Char)
  | 0, _, _ => fail .malformed
  | fuel + 1, index, cs => do
    match ← here (Json.nextItem (index = 0) cs) with
    | none => return ([], ← here (Json.close ']' cs))
    | some r =>
      let (a, r) ← within (.item index) (item r)
      let (as, r) ← readItems item fuel (index + 1) r
      return (a :: as, r)

/-- Lists. -/
def list (c : Codec α) : Codec (List α) where
  write as := .array (as.map c.write)
  read depth cs :=
    match Json.skipSpace cs, depth with
    | '[' :: _, 0 => fail .malformed
    | '[' :: r, depth + 1 => readItems (c.read depth) (r.length + 1) 0 r
    | cs, _ => fail (Json.mismatch cs)
  yaml := Yaml.Reading.list c.yaml

/-- Reads the members of an object to its closing brace; `fuel` bounds their number. -/
def readMembers (item : List Char → Except Failure (α × List Char)) :
    Nat → Bool → List Char → Except Failure (List (String × α) × List Char)
  | 0, _, _ => fail .malformed
  | fuel + 1, isFirst, cs => do
    match ← here (Json.nextName isFirst cs) with
    | none => return ([], ← here (Json.close '\x7d' cs))
    | some r =>
      let (name, r) ← here (Json.readString r)
      let name := String.ofList name
      let (a, r) ← within (.member name) (item (← here (Json.colon r)))
      let (as, r) ← readMembers item fuel false r
      return ((name, a) :: as, r)

/-- Tables from texts to values. -/
def table (c : Codec α) : Codec (Table String α) where
  write t := .object (t.entries.map fun (name, a) => (name, c.write a))
  read depth cs :=
    match Json.skipSpace cs, depth with
    | '\x7b' :: _, 0 => fail .malformed
    | '\x7b' :: r, depth + 1 => do
      let (members, rest) ← readMembers (c.read depth) (r.length + 1) true r
      return (Table.ofList members, rest)
    | cs, _ => fail (Json.mismatch cs)
  yaml doc node n := do
    let (members, n) ← Yaml.Reading.named c.yaml doc node n
    return (Table.ofList members, n)

/-! ### Whole texts -/

/-- The JSON text of a value. -/
def encode (c : Codec α) (a : α) : String :=
  (c.write a).render

/-- The value at the front of a JSON text, whatever follows it. -/
def decodeFront (c : Codec α) (text : String) : Except Failure α :=
  (c.read Json.maxDepth text.toList).map Prod.fst

/-- The value of a whole JSON text. -/
def decode (c : Codec α) (text : String) : Except Failure α := do
  let (a, rest) ← c.read Json.maxDepth text.toList
  if (Json.skipSpace rest).isEmpty then return a else fail .malformed

/-- The value of a whole YAML text. -/
def decodeYaml (c : Codec α) (text : String) : Except Fault α :=
  Yaml.read c.yaml text

end Codec

end Compliance
