/-!
# Places and tokens in a YAML text

A cursor is the part of a text that has not been read, with the position where that part begins.
Positions matter in YAML: columns give block structure, and a key has to stand on one line.

* `isBreak`, `isBlank`, `isNameChar` : the character classes.
* `Cursor.skip`, `Cursor.skipWhile` : moving within a line.
* `Cursor.readBreak?` : moving to the next line.
* `Token` : the tokens. Block structure, which a text expresses by indentation, appears as tokens of
  its own.
-/

namespace Compliance.Yaml

/-- Whether a character ends a line. -/
def isBreak (c : Char) : Bool :=
  c == '\n' || c == '\r' || c == '\u0085' || c == '\u2028' || c == '\u2029'

/-- Whether a character separates words within a line. -/
def isBlank (c : Char) : Bool :=
  c == ' ' || c == '\t'

/-- Whether a character may stand in the name of an anchor, a directive or a tag handle. -/
def isNameChar (c : Char) : Bool :=
  c.isAlphanum || c == '_' || c == '-'

/-- Whether a character may stand in a YAML text at all. -/
def isAllowed (c : Char) : Bool :=
  let n := c.toNat
  n == 0x09 || n == 0x0a || n == 0x0d || (0x20 ≤ n && n ≤ 0x7e) || n == 0x85 ||
    (0xa0 ≤ n && n ≤ 0xd7ff) || (0xe000 ≤ n && n ≤ 0xfffd) || 0x10000 ≤ n

/-- How many characters stand before a place, and its line and column. -/
structure Position where
  index : Nat := 0
  line : Nat := 0
  column : Nat := 0
  deriving DecidableEq, Repr

/-- The position so many characters further on the same line. -/
def Position.advance (p : Position) (n : Nat) : Position :=
  { p with index := p.index + n, column := p.column + n }

/-- The position after a line break of so many characters. -/
def Position.newLine (p : Position) (width : Nat) : Position :=
  ⟨p.index + width, p.line + 1, 0⟩

/-- The unread part of a text and where it begins. -/
structure Cursor where
  position : Position := {}
  rest : List Char

namespace Cursor

/-- The column of the cursor. -/
def column (c : Cursor) : Nat := c.position.column

/-- Whether the next character exists and satisfies a test. -/
def startsWith (p : Char → Bool) (c : Cursor) : Bool :=
  match c.rest with
  | [] => false
  | d :: _ => p d

/-- Whether the cursor is at the end of a line or of the text. -/
def atLineEnd (c : Cursor) : Bool :=
  match c.rest with
  | [] => true
  | d :: _ => isBreak d

/-- Whether the cursor is at a blank or at the end of a line or of the text. -/
def atWordEnd (c : Cursor) : Bool :=
  match c.rest with
  | [] => true
  | d :: _ => isBlank d || isBreak d

/-- The cursor so many characters further on the same line. -/
def skip (c : Cursor) (n : Nat) : Cursor :=
  ⟨c.position.advance n, c.rest.drop n⟩

/-- The characters that satisfy a test, up to the first that does not, and the cursor after them.
The test holds of no line break. -/
def takeWhile (p : Char → Bool) (c : Cursor) : List Char × Cursor :=
  let taken := c.rest.takeWhile p
  (taken, c.skip taken.length)

/-- The cursor after the characters that satisfy a test, which holds of no line break. -/
def skipWhile (p : Char → Bool) (c : Cursor) : Cursor :=
  (c.takeWhile p).2

/-- The cursor after the blanks and the comment that may end a line. -/
def skipComment (c : Cursor) : Cursor :=
  let c := c.skipWhile isBlank
  if c.startsWith (· == '#') then c.skipWhile (!isBreak ·) else c

/-- The line break at the cursor, and the cursor on the next line. Breaks that belong to other
systems read as line feeds; the two separators of text keep their character. -/
def readBreak? (c : Cursor) : Option (Char × Cursor) :=
  match c.rest with
  | '\r' :: '\n' :: r => some ('\n', ⟨c.position.newLine 2, r⟩)
  | d :: r =>
    if isBreak d then
      some (if d == '\u2028' || d == '\u2029' then d else '\n', ⟨c.position.newLine 1, r⟩)
    else none
  | [] => none

/-- The cursor after the line break at it, if there is one. -/
def skipBreak (c : Cursor) : Cursor :=
  match c.readBreak? with
  | some (_, c') => c'
  | none => c

/-- Whether a line begins at the cursor with three of the given characters, set off from what
follows them. -/
def atMarker (mark : Char) (c : Cursor) : Bool :=
  c.column == 0 && (c.rest.take 3 == [mark, mark, mark]) && (c.skip 3).atWordEnd

/-- Whether a line begins at the cursor that starts or ends a document. -/
def atDocumentMarker (c : Cursor) : Bool :=
  c.atMarker '-' || c.atMarker '.'

end Cursor

/-! ### Tokens -/

/-- How a scalar is written. -/
inductive ScalarStyle where
  | plain
  | singleQuoted
  | doubleQuoted
  | literal
  | folded
  deriving DecidableEq, Repr

/-- A token of a YAML text. -/
inductive Token where
  | streamEnd
  | versionDirective (major minor : Nat)
  | tagDirective (handle expansion : String)
  | documentStart
  | documentEnd
  | blockSequenceStart
  | blockMappingStart
  | blockEnd
  | flowSequenceStart
  | flowSequenceEnd
  | flowMappingStart
  | flowMappingEnd
  | blockEntry
  | flowEntry
  | key
  | value
  | alias (name : String)
  | anchor (name : String)
  | tag (handle suffix : String)
  | scalar (style : ScalarStyle) (text : String)
  deriving DecidableEq, Repr

end Compliance.Yaml
