import Compliance.Yaml.Cursor
import Compliance.Text.Character

/-!
# Anchors, tags and directives

The marks of a YAML text that are not content: the names of anchors and aliases, the tags of nodes
and the directives before a document.

* `anchorName`, `tag` : the properties of a node, from after their indicator.
* `directive` : a directive from after its percent sign to the end of its line.
-/

namespace Compliance.Yaml.Property

open Compliance.Text (decimalValue hexadecimalValue?)

/-- Whether a name of an anchor may end at the cursor. -/
def endsAnchor (c : Cursor) : Bool :=
  c.atWordEnd ||
    c.startsWith fun d => d == '?' || d == ':' || d == ',' || d == ']' || d == '\x7d' ||
      d == '%' || d == '@' || d == '\x60'

/-- The name of an anchor or an alias. -/
def anchorName (c : Cursor) : Option (String × Cursor) :=
  let (name, c) := c.takeWhile isNameChar
  if name.isEmpty || !endsAnchor c then none else some (String.ofList name, c)

/-! ### Tags -/

/-- The octet that a percent sign and two hexadecimal digits stand for. -/
def octet (c : Cursor) : Option (Nat × Cursor) :=
  match c.rest with
  | '%' :: a :: b :: _ => (hexadecimalValue? [a, b]).map (·, c.skip 3)
  | _ => none

/-- Reads so many octets that continue a character, whose bits so far are `n`. -/
def continuation : Nat → Nat → Cursor → Option (Nat × Cursor)
  | 0, n, c => some (n, c)
  | more + 1, n, c => do
    let (o, c) ← octet c
    guard (o / 64 = 2)
    continuation more (64 * n + o % 64) c

/-- The character that a sequence of escaped octets stands for. -/
def escapedChar (c : Cursor) : Option (Char × Cursor) := do
  let (o, c) ← octet c
  let (n, c) ←
    if o < 0x80 then some (o, c)
    else if o / 32 = 6 then continuation 1 (o % 32) c
    else if o / 16 = 14 then continuation 2 (o % 16) c
    else if o / 8 = 30 then continuation 3 (o % 8) c
    else none
  return (Char.ofNat n, c)

/-- Whether a character may stand in a tag; the flow indicators may in a verbatim one. -/
def isTagChar (verbatim : Bool) (d : Char) : Bool :=
  isNameChar d || d == ';' || d == '/' || d == '?' || d == ':' || d == '@' || d == '&' ||
    d == '=' || d == '+' || d == '$' || d == '.' || d == '!' || d == '~' || d == '*' ||
    d == '\x27' || d == '(' || d == ')' || d == '%' ||
    (verbatim && (d == ',' || d == '[' || d == ']'))

/-- The characters of a tag, in reverse. -/
def tagChars (verbatim : Bool) : Nat → Cursor → List Char → Option (List Char × Cursor)
  | 0, _, _ => none
  | fuel + 1, c, read =>
    match c.rest with
    | d :: _ =>
      if d == '%' then do
        let (e, c) ← escapedChar c
        tagChars verbatim fuel c (e :: read)
      else if isTagChar verbatim d then tagChars verbatim fuel (c.skip 1) (d :: read)
      else some (read, c)
    | [] => some (read, c)

/-- The text of a tag. -/
def tagText (verbatim : Bool) (c : Cursor) : Option (String × Cursor) :=
  (tagChars verbatim (c.rest.length + 1) c []).map fun (read, c) =>
    (String.ofList read.reverse, c)

/-- The text of a tag, which is not empty. -/
def someTagText (verbatim : Bool) (c : Cursor) : Option (String × Cursor) := do
  let (text, c) ← tagText verbatim c
  if text.isEmpty then none else some (text, c)

/-- A tag handle, or as much of one as stands at the cursor: an exclamation mark, a name and, if it
is a full handle, a second exclamation mark. -/
def handle (c : Cursor) : Option (String × Bool × Cursor) :=
  if c.startsWith (· == '!') then
    let (name, c) := (c.skip 1).takeWhile isNameChar
    if c.startsWith (· == '!') then some (String.ofList ('!' :: name ++ ['!']), true, c.skip 1)
    else some (String.ofList ('!' :: name), false, c)
  else none

/-- Whether a tag may end at the cursor. -/
def endsTag (inFlow : Bool) (c : Cursor) : Bool :=
  c.atWordEnd || (inFlow && c.startsWith (· == ','))

/-- The tag at a cursor, as a handle and a suffix: a verbatim tag has an empty handle, and so has
the lone exclamation mark. -/
def tag (inFlow : Bool) (c : Cursor) : Option (Token × Cursor) := do
  let (token, c) ←
    match c.rest with
    | '!' :: '<' :: _ => do
      let (text, c) ← someTagText true (c.skip 2)
      guard (c.startsWith (· == '>'))
      pure (Token.tag "" text, c.skip 1)
    | _ => do
      let (h, isFull, c) ← handle c
      if isFull then
        let (suffix, c) ← someTagText false c
        pure (Token.tag h suffix, c)
      else
        let (more, c) ← tagText false c
        let suffix := String.ofList (h.toList.drop 1) ++ more
        pure (if suffix.isEmpty then Token.tag "" "!" else Token.tag "!" suffix, c)
  if endsTag inFlow c then some (token, c) else none

/-! ### Directives -/

/-- A number of at most nine digits. -/
def versionNumber (c : Cursor) : Option (Nat × Cursor) :=
  let (digits, c) := c.takeWhile Char.isDigit
  if digits.isEmpty || 9 < digits.length then none
  else some (decimalValue digits, c)

/-- The value of a version directive. -/
def version (c : Cursor) : Option (Token × Cursor) := do
  let (major, c) ← versionNumber (c.skipWhile isBlank)
  guard (c.startsWith (· == '.'))
  let (minor, c) ← versionNumber (c.skip 1)
  return (.versionDirective major minor, c)

/-- The value of a tag directive. -/
def tagShorthand (c : Cursor) : Option (Token × Cursor) := do
  let (h, isFull, c) ← handle (c.skipWhile isBlank)
  guard (isFull || h == "!")
  guard (c.startsWith isBlank)
  let (expansion, c) ← someTagText true (c.skipWhile isBlank)
  guard c.atWordEnd
  return (.tagDirective h expansion, c)

/-- A directive from after its percent sign to the end of its line; its name is known. -/
def directive (c : Cursor) : Option (Token × Cursor) := do
  let (name, c) := c.takeWhile isNameChar
  guard c.atWordEnd
  let (token, c) ←
    if name == ['Y', 'A', 'M', 'L'] then version c
    else if name == ['T', 'A', 'G'] then tagShorthand c
    else none
  let c := c.skipComment
  guard c.atLineEnd
  return (token, c.skipBreak)

end Compliance.Yaml.Property
