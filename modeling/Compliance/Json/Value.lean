/-!
# JSON values and their compact text

* `Json` : a JSON value; a number is kept as its literal.
* `Json.render` : the text of a value without blanks between its parts.
* `quote` : the text of a string, escaping the quotation mark, the backslash and the control
  characters and no other.
-/

namespace Compliance

/-- A JSON value. Members keep their order, and a number keeps its literal. -/
inductive Json where
  | null
  | bool (value : Bool)
  | number (literal : String)
  | string (text : String)
  | array (items : List Json)
  | object (members : List (String × Json))

namespace Json

/-- The JSON number of a natural number. -/
def nat (n : Nat) : Json := .number (toString n)

/-- The lower-case hexadecimal digit of a number below 16. -/
def hexDigit (n : Nat) : Char :=
  if n < 10 then Char.ofNat ('0'.toNat + n) else Char.ofNat ('a'.toNat + (n - 10))

/-- How one character stands inside quotation marks. -/
def escape (c : Char) : List Char :=
  if c = '"' then ['\\', '"']
  else if c = '\\' then ['\\', '\\']
  else if c = '\x08' then ['\\', 'b']
  else if c = '\x0c' then ['\\', 'f']
  else if c = '\n' then ['\\', 'n']
  else if c = '\r' then ['\\', 'r']
  else if c = '\t' then ['\\', 't']
  else if c.toNat < 32 then ['\\', 'u', '0', '0', hexDigit (c.toNat / 16), hexDigit (c.toNat % 16)]
  else [c]

/-- The text of a string, in quotation marks. -/
def quote (s : String) : List Char :=
  '"' :: (s.toList.flatMap escape ++ ['"'])

mutual

/-- The characters of a value's compact text. -/
def renderChars : Json → List Char
  | .null => "null".toList
  | .bool true => "true".toList
  | .bool false => "false".toList
  | .number literal => literal.toList
  | .string text => quote text
  | .array items => '[' :: renderItems items
  | .object members => '{' :: renderMembers members

/-- The items of an array, separated by commas, and its closing bracket. -/
def renderItems : List Json → List Char
  | [] => [']']
  | [item] => renderChars item ++ [']']
  | item :: items => renderChars item ++ ',' :: renderItems items

/-- The members of an object, separated by commas, and its closing brace. -/
def renderMembers : List (String × Json) → List Char
  | [] => ['}']
  | [(name, value)] => quote name ++ ':' :: (renderChars value ++ ['}'])
  | (name, value) :: members =>
    quote name ++ ':' :: (renderChars value ++ ',' :: renderMembers members)

end

/-- The compact text of a value. -/
def render (j : Json) : String :=
  String.ofList j.renderChars

end Json

end Compliance
