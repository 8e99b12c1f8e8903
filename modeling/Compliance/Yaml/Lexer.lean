import Compliance.Yaml.Property
import Compliance.Yaml.Scalar

/-!
# Tokens of a YAML text

A scalar or a collection on one line may turn out, at the colon after it, to have been a key. Until
that is decided it is a candidate, and its tokens stay back: `key` and the start of a block mapping
have to be put before them. Indentation opens and closes blocks as the first token of each line is
met.

* `Lexer` : the state between two tokens.
* `Lexer.fetch` : reads one token, with those that its column implies.
* `tokens` : the tokens of a text; if the text is broken, those that are settled before the fault.
-/

namespace Compliance.Yaml

/-- A token that may turn out to begin a key. -/
structure KeyCandidate where
  position : Position
  /-- The number of tokens before it. -/
  token : Nat
  /-- Whether nothing else may stand in its place. -/
  required : Bool

/-- The state between two tokens. -/
structure Lexer where
  cursor : Cursor
  tokens : Array Token := #[]
  /-- The candidate of the innermost flow collection, or of the block if there is none. -/
  candidate : Option KeyCandidate := none
  /-- The candidates of the surrounding flow levels, from the inside out. -/
  outerCandidates : List (Option KeyCandidate) := []
  /-- The column of the innermost block. -/
  indent : Int := -1
  outerIndents : List Int := []
  /-- Whether a key may begin at the cursor. -/
  keyAllowed : Bool := true

namespace Lexer

/-- Whether the cursor is inside a flow collection. -/
def inFlow (l : Lexer) : Bool := !l.outerCandidates.isEmpty

/-- A state with one more token. -/
def emit (l : Lexer) (t : Token) : Lexer := { l with tokens := l.tokens.push t }

/-- A state with one more token and the cursor so many characters further. -/
def take (l : Lexer) (n : Nat) (t : Token) : Lexer :=
  { l.emit t with cursor := l.cursor.skip n }

/-! ### Candidates -/

/-- Whether a candidate can no longer be a key: keys stand on one line and are not too long. -/
def isStale (p : Position) (k : KeyCandidate) : Bool :=
  k.position.line < p.line || k.position.index + 1024 < p.index

/-- Gives up a candidate that is stale; a required one is missed. -/
def refresh (p : Position) : Option KeyCandidate → Option (Option KeyCandidate)
  | none => some none
  | some k =>
    if isStale p k then if k.required then none else some none
    else some (some k)

/-- Gives up the candidates that are stale. -/
def dropStale (l : Lexer) : Option Lexer := do
  let outer ← l.outerCandidates.mapM (refresh l.cursor.position)
  let inner ← refresh l.cursor.position l.candidate
  return { l with candidate := inner, outerCandidates := outer }

/-- Gives up the candidate of the current level; a required one is missed. -/
def dropCandidate (l : Lexer) : Option Lexer :=
  match l.candidate with
  | some k => if k.required then none else some { l with candidate := none }
  | none => some l

/-- Makes the token at the cursor a candidate, if a key may begin there. -/
def noteCandidate (l : Lexer) : Option Lexer :=
  if l.keyAllowed then do
    let l' ← l.dropCandidate
    return { l' with
      candidate :=
        some ⟨l.cursor.position, l.tokens.size, !l.inFlow && l.indent == l.cursor.column⟩ }
  else some l

/-- The number of tokens that are settled: a candidate and what follows it are not. -/
def settled (l : Lexer) : Nat :=
  (l.candidate :: l.outerCandidates).foldl
    (fun n k => match k with
      | some k => min n k.token
      | none => n)
    l.tokens.size

/-! ### Blocks -/

/-- Opens a block at a column beyond the current one, with its token put at the given place. -/
def openBlock (l : Lexer) (column : Nat) (place : Nat) (t : Token) : Lexer :=
  if !l.inFlow && l.indent < column then
    { l with
      indent := column, outerIndents := l.indent :: l.outerIndents,
      tokens := l.tokens.insertIdxIfInBounds place t }
  else l

/-- Opens a block at the cursor. -/
def openBlockHere (l : Lexer) (t : Token) : Lexer :=
  l.openBlock l.cursor.column l.tokens.size t

/-- Closes the blocks that begin beyond a column. -/
def closeBlocks (l : Lexer) (column : Int) : Lexer :=
  if l.inFlow then l
  else
    let closed := (l.indent :: l.outerIndents).takeWhile (column < ·)
    match (l.indent :: l.outerIndents).drop closed.length with
    | [] => l
    | indent :: outer =>
      { l with
        indent, outerIndents := outer,
        tokens := l.tokens ++ Array.replicate closed.length Token.blockEnd }

/-! ### Tokens -/

/-- Moves the cursor to the next token. Tabs do not count where they could be taken for
indentation. -/
def skipToToken : Nat → Lexer → Lexer
  | 0, l => l
  | fuel + 1, l =>
    let c := l.cursor
    let c := if c.column == 0 then (if c.startsWith (· == '\ufeff') then c.skip 1 else c) else c
    let tabs := l.inFlow || !l.keyAllowed
    let c := c.skipWhile (fun d => d == ' ' || (tabs && d == '\t'))
    let c := if c.startsWith (· == '#') then c.skipWhile (!isBreak ·) else c
    match c.readBreak? with
    | some (_, c) =>
      skipToToken fuel { l with cursor := c, keyAllowed := l.keyAllowed || !l.inFlow }
    | none => { l with cursor := c }

/-- The end of the text, which also ends its last line. -/
def streamEnd (l : Lexer) : Option Lexer := do
  let p := l.cursor.position
  let p := if p.column == 0 then p else p.newLine 0
  let l ← ({ l with cursor := { l.cursor with position := p } }.closeBlocks (-1)).dropCandidate
  return { l with keyAllowed := false }.emit .streamEnd

/-- A directive. -/
def directive (l : Lexer) : Option Lexer := do
  let l ← (l.closeBlocks (-1)).dropCandidate
  let (t, c) ← Property.directive (l.cursor.skip 1)
  return { l with keyAllowed := false, cursor := c }.emit t

/-- A line that starts or ends a document. -/
def documentMarker (l : Lexer) (t : Token) : Option Lexer := do
  let l ← (l.closeBlocks (-1)).dropCandidate
  return { l with keyAllowed := false }.take 3 t

/-- The start of a flow collection. -/
def flowStart (l : Lexer) (t : Token) : Option Lexer := do
  let l ← l.noteCandidate
  return { l with
    candidate := none
    outerCandidates := l.candidate :: l.outerCandidates
    keyAllowed := true }.take 1 t

/-- The end of a flow collection. -/
def flowEnd (l : Lexer) (t : Token) : Option Lexer := do
  let l ← l.dropCandidate
  let l := match l.outerCandidates with
    | outer :: more => { l with candidate := outer, outerCandidates := more }
    | [] => l
  return { l with keyAllowed := false }.take 1 t

/-- The comma between items of a flow collection. -/
def flowEntry (l : Lexer) : Option Lexer := do
  let l ← l.dropCandidate
  return { l with keyAllowed := true }.take 1 .flowEntry

/-- The dash before an item of a block sequence. -/
def blockEntry (l : Lexer) : Option Lexer := do
  guard (l.inFlow || l.keyAllowed)
  let l ← (l.openBlockHere .blockSequenceStart).dropCandidate
  return { l with keyAllowed := true }.take 1 .blockEntry

/-- The question mark before a key. -/
def explicitKey (l : Lexer) : Option Lexer := do
  guard (l.inFlow || l.keyAllowed)
  let l ← (l.openBlockHere .blockMappingStart).dropCandidate
  return { l with keyAllowed := !l.inFlow }.take 1 .key

/-- The colon before a value: it makes a key of the current candidate, if there is one. -/
def value (l : Lexer) : Option Lexer :=
  match l.candidate with
  | some k =>
    let l := { l with tokens := l.tokens.insertIdxIfInBounds k.token .key }
    let l := l.openBlock k.position.column k.token .blockMappingStart
    some ({ l with candidate := none, keyAllowed := false }.take 1 .value)
  | none => do
    guard (l.inFlow || l.keyAllowed)
    let l := l.openBlockHere .blockMappingStart
    return { l with keyAllowed := !l.inFlow }.take 1 .value

/-- A token that a key may begin with, read by `read`. -/
def content (l : Lexer) (read : Cursor → Option (Token × Cursor)) : Option Lexer := do
  let l ← l.noteCandidate
  let (t, c) ← read l.cursor
  return { l with keyAllowed := false, cursor := c }.emit t

/-- A block scalar. -/
def blockScalar (l : Lexer) (folded : Bool) : Option Lexer := do
  let l ← l.dropCandidate
  let (text, c) ← Scalar.block folded l.indent l.cursor
  return { l with keyAllowed := true, cursor := c }.emit
    (.scalar (if folded then .folded else .literal) text)

/-- A quoted scalar. -/
def quotedScalar (l : Lexer) (single : Bool) : Option Lexer :=
  l.content fun c => (Scalar.quoted single c).map fun (text, c) =>
    (.scalar (if single then .singleQuoted else .doubleQuoted) text, c)

/-- A plain scalar; the line after it may begin with a key. -/
def plainScalar (l : Lexer) : Option Lexer := do
  let l ← l.noteCandidate
  let (text, broken, c) ← Scalar.plain l.inFlow l.indent l.cursor
  return { l with keyAllowed := broken, cursor := c }.emit (.scalar .plain text)

/-- Whether a plain scalar may begin with a character that stands before the given cursor. -/
def beginsPlain (inFlow : Bool) (d : Char) (next : Cursor) : Bool :=
  if d == '-' then !next.startsWith isBlank
  else if d == '?' || d == ':' then !inFlow && !next.atWordEnd
  else !(isBlank d || isBreak d || Scalar.isFlowIndicator d ||
    d == '#' || d == '&' || d == '*' || d == '!' || d == '|' || d == '>' || d == '\x27' ||
    d == '\x22' || d == '%' || d == '@' || d == '\x60')

/-- Reads one token, with those that its column implies. -/
def fetch (l : Lexer) : Option Lexer := do
  let l ← (l.skipToToken (l.cursor.rest.length + 1)).dropStale
  let l := l.closeBlocks l.cursor.column
  let c := l.cursor
  let next := c.skip 1
  match c.rest with
  | [] => l.streamEnd
  | d :: _ =>
    if c.column == 0 && d == '%' then l.directive
    else if c.atMarker '-' then l.documentMarker .documentStart
    else if c.atMarker '.' then l.documentMarker .documentEnd
    else if d == '[' then l.flowStart .flowSequenceStart
    else if d == '\x7b' then l.flowStart .flowMappingStart
    else if d == ']' then l.flowEnd .flowSequenceEnd
    else if d == '\x7d' then l.flowEnd .flowMappingEnd
    else if d == ',' then l.flowEntry
    else if d == '-' && next.atWordEnd then l.blockEntry
    else if d == '?' && (l.inFlow || next.atWordEnd) then l.explicitKey
    else if d == ':' && (l.inFlow || next.atWordEnd) then l.value
    else if d == '*' then
      l.content fun c => (Property.anchorName (c.skip 1)).map fun (name, c) => (.alias name, c)
    else if d == '&' then
      l.content fun c => (Property.anchorName (c.skip 1)).map fun (name, c) => (.anchor name, c)
    else if d == '!' then l.content (Property.tag l.inFlow)
    else if d == '|' && !l.inFlow then l.blockScalar false
    else if d == '>' && !l.inFlow then l.blockScalar true
    else if d == '\x27' then l.quotedScalar true
    else if d == '\x22' then l.quotedScalar false
    else if beginsPlain l.inFlow d next then l.plainScalar
    else none

/-- Reads tokens to the end of the text or to the first fault; `fuel` bounds their number. -/
def run : Nat → Lexer → List Token
  | 0, l => (l.tokens.take l.settled).toList
  | fuel + 1, l =>
    match l.dropStale with
    | none => (l.tokens.take l.settled).toList
    | some l =>
      if l.tokens.back? == some .streamEnd then l.tokens.toList
      else match l.fetch with
        | none => (l.tokens.take l.settled).toList
        | some l => run fuel l

end Lexer

/-- The tokens of a text, ending with `streamEnd` if the whole text could be read. -/
def tokens (text : String) : List Token :=
  let cs := text.toList
  if cs.all isAllowed then Lexer.run (cs.length + 2) { cursor := { rest := cs } } else []

end Compliance.Yaml
