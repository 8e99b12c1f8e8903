/-!
# Media types

The notation of a content type: two words around a slash, then parameters. Only as much is kept as
tells whether content is JSON.

* `MediaType.read?` : the media type that a text denotes.
* `MediaType.isJson` : whether content of the type is JSON.
-/

namespace Compliance.Net

/-- A media type in small letters. The suffix is what stands after the last plus sign of the second
word, if there is one, and the subtype what stands before it. -/
structure MediaType where
  type : String
  subtype : String
  suffix : Option String
  deriving DecidableEq, Repr

namespace MediaType

/-- Whether a character may stand in the words of a media type. -/
def isToken (c : Char) : Bool :=
  c.isAlphanum || c == '!' || c == '#' || c == '$' || c == '%' || c == '&' || c == '\x27' ||
    c == '+' || c == '-' || c == '.' || c == '^' || c == '_' || c == '\x60' || c == '|' || c == '~'

/-- Whether a character may stand in a quoted value of a parameter. -/
def isQuotable (c : Char) : Bool :=
  31 < c.toNat && c.toNat < 127

/-- Where the reading of parameters stands. -/
inductive Place where
  /-- Before a parameter. -/
  | start
  | name
  /-- Before a value. -/
  | equals
  | value
  /-- In a quoted value, of which something has been read or not. -/
  | quoted (isEmpty : Bool)
  | afterQuoted

/-- Whether a text, from a place within its parameters, is well formed to the end. -/
def parameters : Place → List Char → Bool
  | .start, [] | .value, [] | .equals, [] | .afterQuoted, [] => true
  | .name, [] | .quoted _, [] => false
  | .start, c :: cs =>
    if c == ' ' then parameters .start cs else isToken c && parameters .name cs
  | .name, c :: cs => if c == '=' then parameters .equals cs else isToken c && parameters .name cs
  | .equals, c :: cs =>
    if c == '\x22' then parameters (.quoted true) cs else isToken c && parameters .value cs
  | .value, c :: cs => if c == ';' then parameters .start cs else isToken c && parameters .value cs
  | .quoted isEmpty, c :: cs =>
    if c == '\x22' && !isEmpty then parameters .afterQuoted cs
    else isQuotable c && parameters (.quoted false) cs
  | .afterQuoted, c :: cs =>
    if c == ';' then parameters .start cs else c == ' ' && parameters .afterQuoted cs

/-- A word in small letters. -/
def lower (cs : List Char) : String := String.ofList (cs.map Char.toLower)

/-- The media type of its two words. A plus sign at the start of the second word is part of it. -/
def ofWords (type subtype : List Char) : MediaType :=
  let suffix := (subtype.drop 1).reverse.takeWhile (· != '+')
  if suffix.length < (subtype.drop 1).length then
    ⟨lower type, lower (subtype.take (subtype.length - suffix.length - 1)),
      some (lower suffix.reverse)⟩
  else ⟨lower type, lower subtype, none⟩

/-- The media type that a text denotes. -/
def read? (text : String) : Option MediaType :=
  let type := text.toList.takeWhile isToken
  match text.toList.drop type.length with
  | '/' :: rest =>
    let subtype := rest.takeWhile isToken
    if type.isEmpty then none
    else match rest.drop subtype.length with
      | [] => some (ofWords type subtype)
      | ';' :: rest =>
        if !subtype.isEmpty && parameters .start rest then some (ofWords type subtype) else none
      | _ => none
  | _ => none

/-- Whether content of the type is JSON. -/
def isJson (m : MediaType) : Bool :=
  m.type == "application" && (m.subtype == "json" || m.suffix == some "json")

end MediaType

/-- Whether a content type is that of JSON. -/
def isJsonContentType (text : String) : Bool :=
  match MediaType.read? text with
  | some m => m.isJson
  | none => false

end Compliance.Net
