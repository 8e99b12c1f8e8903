import Compliance.Yaml.Cursor
import Compliance.Text.Character

/-!
# YAML scalars

The text of quoted, plain and block scalars. In the first two a run of line breaks folds: one break
becomes a space, and of several the first is dropped. Block scalars keep the indentation beyond
their own, and a header says whether their lines fold and which breaks stay at the end.

* `quoted`, `plain`, `block` : the text of a scalar at a cursor, and the cursor after it.

Characters that have been read are held in reverse.
-/

namespace Compliance.Yaml.Scalar

open Compliance.Text (digitValue hexadecimalValue?)

/-! ### Folding -/

/-- What stands between two words of a scalar: blanks, then any number of line breaks. -/
structure Gap where
  /-- Blanks before the first break. -/
  blanks : List Char := []
  /-- The breaks. -/
  breaks : List Char := []
  /-- Whether the gap began with an escaped break, which leaves no trace. -/
  escaped : Bool := false

/-- Whether a gap reaches another line. -/
def Gap.isBroken (g : Gap) : Bool :=
  g.escaped || !g.breaks.isEmpty

/-- What a gap contributes to the text. -/
def Gap.text (g : Gap) : List Char :=
  if g.escaped then g.breaks
  else match g.breaks with
    | [] => g.blanks
    | '\n' :: [] => [' ']
    | '\n' :: more => more
    | breaks => breaks

/-- Reads a gap, refusing a tab that stands in for indentation below the column `tabFrom`; `fuel`
bounds its length. -/
def gap (tabFrom : Nat) : Nat → Bool → Cursor → Option (Gap × Cursor)
  | 0, _, _ => none
  | fuel + 1, broken, c =>
    if c.startsWith isBlank then
      if broken && c.column < tabFrom && c.startsWith (· == '\t') then none
      else do
        let (g, c') ← gap tabFrom fuel broken (c.skip 1)
        return (if broken then g else { g with blanks := c.rest.take 1 ++ g.blanks }, c')
    else match c.readBreak? with
      | some (b, c) => do
        let (g, c') ← gap tabFrom fuel true c
        return ({ g with breaks := b :: g.breaks }, c')
      | none => some ({}, c)

/-! ### Quoted scalars -/

/-- The character with the code that so many hexadecimal digits give. -/
def escapedCode? (width : Nat) (cs : List Char) : Option Char := do
  let digits := cs.take width
  guard (digits.length = width)
  let n ← hexadecimalValue? digits
  if n.isValidChar then some (Char.ofNat n) else none

/-- The character of an escape, and how many characters after the backslash it takes. -/
def escape? : List Char → Option (Char × Nat)
  | '0' :: _ => some ('\x00', 1)
  | 'a' :: _ => some ('\x07', 1)
  | 'b' :: _ => some ('\x08', 1)
  | 't' :: _ | '\t' :: _ => some ('\t', 1)
  | 'n' :: _ => some ('\n', 1)
  | 'v' :: _ => some ('\x0b', 1)
  | 'f' :: _ => some ('\x0c', 1)
  | 'r' :: _ => some ('\r', 1)
  | 'e' :: _ => some ('\x1b', 1)
  | ' ' :: _ => some (' ', 1)
  | '\x22' :: _ => some ('\x22', 1)
  | '/' :: _ => some ('/', 1)
  | '\\' :: _ => some ('\\', 1)
  | 'N' :: _ => some ('\u0085', 1)
  | '_' :: _ => some ('\u00a0', 1)
  | 'L' :: _ => some ('\u2028', 1)
  | 'P' :: _ => some ('\u2029', 1)
  | 'x' :: r => (escapedCode? 2 r).map (·, 3)
  | 'u' :: r => (escapedCode? 4 r).map (·, 5)
  | 'U' :: r => (escapedCode? 8 r).map (·, 9)
  | _ => none

/-- Reads the characters of a quoted scalar up to a blank, a line break or the closing quotation
mark; says whether an escaped break ended them. -/
def quotedWord (single : Bool) : Nat → Cursor → List Char → Option (List Char × Bool × Cursor)
  | 0, _, _ => none
  | fuel + 1, c, read =>
    if c.atWordEnd then some (read, false, c)
    else match single, c.rest with
      | true, '\x27' :: '\x27' :: _ => quotedWord single fuel (c.skip 2) ('\x27' :: read)
      | true, '\x27' :: _ => some (read, false, c)
      | false, '\x22' :: _ => some (read, false, c)
      | false, '\\' :: r =>
        if (c.skip 1).startsWith isBreak then some (read, true, (c.skip 1).skipBreak)
        else match escape? r with
          | some (d, width) => quotedWord single fuel (c.skip (width + 1)) (d :: read)
          | none => none
      | _, d :: _ => quotedWord single fuel (c.skip 1) (d :: read)
      | _, [] => none

/-- Reads a quoted scalar from after its opening quotation mark to after the closing one. -/
def quotedFrom (single : Bool) : Nat → Cursor → List Char → Option (List Char × Cursor)
  | 0, _, _ => none
  | fuel + 1, c, read =>
    if c.atDocumentMarker || c.rest.isEmpty then none
    else do
      let (read, escaped, c) ← quotedWord single fuel c read
      if c.startsWith (· == if single then '\x27' else '\x22') then
        return (read, c.skip 1)
      else
        let (g, c) ← gap 0 fuel escaped c
        quotedFrom single fuel c ({ g with escaped }.text.reverse ++ read)

/-- The text of the quoted scalar at a cursor, and the cursor after it. -/
def quoted (single : Bool) (c : Cursor) : Option (String × Cursor) := do
  let (read, c) ← quotedFrom single (c.rest.length + 2) (c.skip 1) []
  return (String.ofList read.reverse, c)

/-! ### Plain scalars -/

/-- Whether a character is one of the indicators of flow collections. -/
def isFlowIndicator (d : Char) : Bool :=
  d == ',' || d == '[' || d == ']' || d == '{' || d == '}'

/-- Reads the characters of a plain scalar up to a blank, a line break or an indicator that ends
it. -/
def plainWord (inFlow : Bool) : Nat → Cursor → List Char → Option (List Char × Cursor)
  | 0, _, _ => none
  | fuel + 1, c, read =>
    if c.atWordEnd then some (read, c)
    else
      let next := c.skip 1
      let atColon := c.startsWith (· == ':')
      if inFlow && atColon && next.startsWith (fun d => isFlowIndicator d || d == '?') then none
      else if (atColon && next.atWordEnd) || (inFlow && c.startsWith isFlowIndicator) then
        some (read, c)
      else plainWord inFlow fuel next (c.rest.take 1 ++ read)

/-- Reads a plain scalar whose further lines begin at the given column or beyond; the gap is what
stands between what has been read and the cursor. Says whether a line break follows the scalar. -/
def plainFrom (inFlow : Bool) (column : Nat) :
    Nat → Gap → Cursor → List Char → Option (List Char × Bool × Cursor)
  | 0, _, _, _ => none
  | fuel + 1, g, c, read =>
    if c.atDocumentMarker || c.startsWith (· == '#') then some (read, g.isBroken, c)
    else do
      let (word, c') ← plainWord inFlow fuel c []
      if word.isEmpty then
        return (read, g.isBroken, c)
      else
        let read := word ++ (g.text.reverse ++ read)
        if c'.startsWith isBlank || c'.startsWith isBreak then
          let (g, c'') ← gap column fuel false c'
          if !inFlow && c''.column < column then
            return (read, g.isBroken, c'')
          else
            plainFrom inFlow column fuel g c'' read
        else
          return (read, false, c')

/-- The text of the plain scalar at a cursor in a block of the given indentation, whether a line
break follows it, and the cursor after it. -/
def plain (inFlow : Bool) (indent : Int) (c : Cursor) : Option (String × Bool × Cursor) := do
  let (read, broken, c) ←
    plainFrom inFlow (indent + 1).toNat (c.rest.length + 2) {} c []
  return (String.ofList read.reverse, broken, c)

/-! ### Block scalars -/

/-- Which line breaks stay at the end of a block scalar. -/
inductive Chomping where
  | strip
  | clip
  | keep
  deriving DecidableEq

/-- Reads a sign for the line breaks at the end of a block scalar. -/
def chomping? (c : Cursor) : Option (Chomping × Cursor) :=
  match c.rest with
  | '+' :: _ => some (.keep, c.skip 1)
  | '-' :: _ => some (.strip, c.skip 1)
  | _ => none

/-- Reads a digit for the indentation of a block scalar, 0 if there is none; the digit 0 is
refused. -/
def increment (c : Cursor) : Option (Nat × Cursor) :=
  match c.rest with
  | d :: _ =>
    if d == '0' then none
    else if d.isDigit then some (digitValue d, c.skip 1)
    else some (0, c)
  | [] => some (0, c)

/-- Reads the header of a block scalar. -/
def header (c : Cursor) : Option (Chomping × Nat × Cursor) :=
  match chomping? c with
  | some (chomping, c) => (increment c).map fun (n, c) => (chomping, n, c)
  | none =>
    match increment c with
    | none => none
    | some (n, c') =>
      if n == 0 then some (.clip, 0, c')
      else match chomping? c' with
        | some (chomping, c'') => some (chomping, n, c'')
        | none => some (.clip, n, c')

/-- Reads indentation and line breaks up to the first character that is neither. The indentation is
`indent`, or not yet known if that is 0; the deepest one met is reported. -/
def blockBreaks (indent : Nat) :
    Nat → Nat → Cursor → List Char → Option (Nat × List Char × Cursor)
  | 0, _, _, _ => none
  | fuel + 1, deepest, c, breaks =>
    let spaces := (c.rest.takeWhile (· == ' ')).length
    let c := c.skip (if indent = 0 then spaces else min spaces (indent - c.column))
    let deepest := max deepest c.column
    if (indent = 0 || c.column < indent) && c.startsWith (· == '\t') then none
    else match c.readBreak? with
      | some (b, c) => blockBreaks indent fuel deepest c (b :: breaks)
      | none => some (deepest, breaks, c)

/-- Reads the lines of a block scalar. `lead` is the break after the line before, `breaks` the
further ones in reverse, and `leadingBlank` says whether that line began with a blank. -/
def blockLines (folded : Bool) (indent : Nat) :
    Nat → List Char → List Char → Bool → Cursor → List Char →
      Option (List Char × List Char × List Char × Cursor)
  | 0, _, _, _, _, _ => none
  | fuel + 1, lead, breaks, leadingBlank, c, read =>
    if c.column == indent && !c.rest.isEmpty then
      let blank := c.startsWith isBlank
      let joined :=
        if folded && lead == ['\n'] && !leadingBlank && !blank then
          if breaks.isEmpty then [' '] else []
        else lead
      let (line, c) := c.takeWhile (!isBreak ·)
      let read := line.reverse ++ (breaks ++ (joined ++ read))
      let (lead, c) := match c.readBreak? with
        | some (b, c) => ([b], c)
        | none => ([], c)
      match blockBreaks indent fuel 0 c [] with
      | some (_, breaks, c) => blockLines folded indent fuel lead breaks blank c read
      | none => none
    else some (read, lead, breaks, c)

/-- The text of the block scalar at a cursor in a block of the given indentation, and the cursor
after it. -/
def block (folded : Bool) (outer : Int) (c : Cursor) : Option (String × Cursor) := do
  let (chomping, extra, c) ← header (c.skip 1)
  let c := c.skipComment
  guard c.atLineEnd
  let c := c.skipBreak
  let fuel := c.rest.length + 2
  let given := if extra = 0 then 0 else (max outer 0).toNat + extra
  let (deepest, breaks, c) ← blockBreaks given fuel 0 c []
  let indent := if given = 0 then max deepest (max (outer + 1).toNat 1) else given
  let (read, lead, breaks, c) ← blockLines folded indent fuel [] breaks false c []
  let read := match chomping with
    | .strip => read
    | .clip => lead ++ read
    | .keep => breaks ++ (lead ++ read)
  return (String.ofList read.reverse, c)

end Compliance.Yaml.Scalar
