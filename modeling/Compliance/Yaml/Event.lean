import Compliance.Yaml.Lexer

/-!
# Events of a YAML text

The structure of the documents of a text, as the sequence of their nodes' beginnings and ends. The
grammar is a machine with a stack: the top of the stack says what may come next, and each step
turns a few tokens into one event.

* `Event` : the events.
* `Grammar.step` : the next event.
* `events` : the events of a text, ending with `streamEnd` if the whole text follows the grammar.
-/

namespace Compliance.Yaml

/-- The anchor and the tag of a node. -/
structure Properties where
  anchor : Option String := none
  tag : Option String := none

/-- The properties that a scalar with text of its own keeps: a lone exclamation mark is no tag for
it. -/
def Properties.forScalar (p : Properties) : Properties :=
  if p.tag == some "!" then { p with tag := none } else p

/-- A step through the documents of a text. -/
inductive Event where
  | streamEnd
  | documentStart
  | documentEnd
  | alias (anchor : String)
  | scalar (properties : Properties) (style : ScalarStyle) (text : String)
  | sequenceStart (properties : Properties)
  | sequenceEnd
  | mappingStart (properties : Properties)
  | mappingEnd

/-- What may come next. -/
inductive Expectation where
  /-- A document or the end of the text; the first document needs no marker. -/
  | documentStart (isFirst : Bool)
  | documentContent
  | documentEnd
  /-- A node; in a block mapping a sequence of entries may stand without indentation. -/
  | blockNode
  | blockSequenceStart
  | blockSequenceItem
  | indentlessSequenceItem
  | blockMappingStart
  | blockMappingKey
  | blockMappingValue
  | flowSequenceItem (isFirst : Bool)
  | pairKey
  | pairValue
  | pairEnd
  | flowMappingKey (isFirst : Bool)
  | flowMappingValue
  | flowMappingNoValue

/-- A machine that reads the tokens of a text. -/
structure Grammar where
  /-- What may come next, and after that. -/
  stack : List Expectation := [.documentStart true]
  tokens : List Token
  /-- The tag handles of the current document and what they stand for. -/
  handles : List (String × String) := []

namespace Grammar

/-- A machine that has passed the first token. -/
def next (g : Grammar) : Grammar := { g with tokens := g.tokens.drop 1 }

/-- A machine that has met what it expected, and goes on to expect the given things. -/
def expect (g : Grammar) (es : List Expectation) : Grammar :=
  { g with stack := es ++ g.stack.drop 1 }

/-- The event of a node that is left out. -/
def absent : Event := .scalar {} .plain ""

/-! ### Directives and properties -/

/-- Reads the directives before a document. -/
def directives : List Token → Bool → List (String × String) →
    Option (List (String × String) × List Token)
  | .versionDirective major minor :: ts, hasVersion, handles =>
    if hasVersion || major != 1 || !(minor == 1 || minor == 2) then none
    else directives ts true handles
  | .tagDirective handle expansion :: ts, hasVersion, handles =>
    if handles.any (·.1 == handle) then none
    else directives ts hasVersion (handles ++ [(handle, expansion)])
  | ts, _, handles => some (handles, ts)

/-- The handles that need no directive. -/
def defaultHandles : List (String × String) :=
  [("!", "!"), ("!!", "tag:yaml.org,2002:")]

/-- The full tag of a handle and a suffix. -/
def expand (handles : List (String × String)) (handle suffix : String) : Option String :=
  if handle.isEmpty then some suffix
  else ((handles ++ defaultHandles).find? (·.1 == handle)).map (·.2 ++ suffix)

/-- Reads the properties of a node; the outer result is missing at a handle that is not known. -/
def properties (g : Grammar) : Option (Properties × Grammar) :=
  match g.tokens with
  | .anchor a :: .tag h s :: _ =>
    (expand g.handles h s).map fun t => (⟨some a, some t⟩, g.next.next)
  | .anchor a :: _ => some (⟨some a, none⟩, g.next)
  | .tag h s :: .anchor a :: _ =>
    (expand g.handles h s).map fun t => (⟨some a, some t⟩, g.next.next)
  | .tag h s :: _ => (expand g.handles h s).map fun t => (⟨none, some t⟩, g.next)
  | _ => some ({}, g)

/-! ### Nodes -/

/-- The event that begins a node, or is one; `followUp` is what comes after the node. -/
def node (g : Grammar) (block indentless : Bool) (followUp : List Expectation) :
    Option (Event × Grammar) :=
  match g.tokens with
  | [] => none
  | .alias a :: _ => some (.alias a, (g.expect followUp).next)
  | _ =>
    match g.properties with
    | none => none
    | some (p, g) =>
      match g.tokens with
      | [] => none
      | .scalar style text :: _ =>
        some (.scalar p.forScalar style text, (g.expect followUp).next)
      | .flowSequenceStart :: _ =>
        some (.sequenceStart p, (g.expect (.flowSequenceItem true :: followUp)).next)
      | .flowMappingStart :: _ =>
        some (.mappingStart p, (g.expect (.flowMappingKey true :: followUp)).next)
      | .blockEntry :: _ =>
        if indentless then
          some (.sequenceStart p, g.expect (.indentlessSequenceItem :: followUp))
        else absentNode p g
      | .blockSequenceStart :: _ =>
        if block then some (.sequenceStart p, g.expect (.blockSequenceStart :: followUp))
        else absentNode p g
      | .blockMappingStart :: _ =>
        if block then some (.mappingStart p, g.expect (.blockMappingStart :: followUp))
        else absentNode p g
      | _ => absentNode p g
where
  /-- A node of which only the properties are written. -/
  absentNode (p : Properties) (g : Grammar) : Option (Event × Grammar) :=
    if p.anchor.isSome || p.tag.isSome then some (.scalar p .plain "", g.expect followUp) else none

/-- The event of a node that is left out, before what comes after it. -/
def leaveOut (g : Grammar) (followUp : List Expectation) : Option (Event × Grammar) :=
  some (absent, g.expect followUp)

/-- The event that ends a collection. -/
def finish (g : Grammar) (e : Event) : Option (Event × Grammar) :=
  some (e, g.expect [])

/-! ### Steps -/

/-- A document or the end of the text. -/
def documentStart (g : Grammar) (isFirst : Bool) : Option (Event × Grammar) :=
  let g := if isFirst then g else { g with tokens := g.tokens.dropWhile (· == .documentEnd) }
  match g.tokens with
  | [] => none
  | .streamEnd :: _ => some (.streamEnd, { g with stack := [] })
  | t :: _ =>
    let isMarked := match t with
      | .versionDirective .. | .tagDirective .. | .documentStart => true
      | _ => false
    if isFirst && !isMarked then
      some (.documentStart, { g.expect [.blockNode, .documentEnd] with handles := [] })
    else
      match directives g.tokens false [] with
      | some (handles, .documentStart :: tokens) =>
        some (.documentStart,
          { g.expect [.documentContent, .documentEnd] with handles, tokens })
      | _ => none

/-- The content of a document that may be empty. -/
def documentContent (g : Grammar) : Option (Event × Grammar) :=
  match g.tokens with
  | [] => none
  | .versionDirective .. :: _ | .tagDirective .. :: _ | .documentStart :: _ | .documentEnd :: _
  | .streamEnd :: _ => g.leaveOut []
  | _ => g.node true false []

/-- The end of a document, which need not be marked. -/
def documentEnd (g : Grammar) : Option (Event × Grammar) :=
  match g.tokens with
  | [] => none
  | .documentEnd :: _ => some (.documentEnd, (g.expect [.documentStart false]).next)
  | _ => some (.documentEnd, g.expect [.documentStart false])

/-- An item of a block sequence or its end. -/
def blockSequenceItem (g : Grammar) : Option (Event × Grammar) :=
  match g.tokens with
  | .blockEntry :: ts =>
    match ts with
    | [] => none
    | .blockEntry :: _ | .blockEnd :: _ => g.next.leaveOut [.blockSequenceItem]
    | _ => g.next.node true false [.blockSequenceItem]
  | .blockEnd :: _ => g.next.finish .sequenceEnd
  | _ => none

/-- An item of a sequence without indentation or its end. -/
def indentlessSequenceItem (g : Grammar) : Option (Event × Grammar) :=
  match g.tokens with
  | [] => none
  | .blockEntry :: ts =>
    match ts with
    | [] => none
    | .blockEntry :: _ | .key :: _ | .value :: _ | .blockEnd :: _ =>
      g.next.leaveOut [.indentlessSequenceItem]
    | _ => g.next.node true false [.indentlessSequenceItem]
  | _ => g.finish .sequenceEnd

/-- A key of a block mapping or the mapping's end. -/
def blockMappingKey (g : Grammar) : Option (Event × Grammar) :=
  match g.tokens with
  | .key :: ts =>
    match ts with
    | [] => none
    | .key :: _ | .value :: _ | .blockEnd :: _ => g.next.leaveOut [.blockMappingValue]
    | _ => g.next.node true true [.blockMappingValue]
  | .blockEnd :: _ => g.next.finish .mappingEnd
  | _ => none

/-- A value of a block mapping. -/
def blockMappingValue (g : Grammar) : Option (Event × Grammar) :=
  match g.tokens with
  | [] => none
  | .value :: ts =>
    match ts with
    | [] => none
    | .key :: _ | .value :: _ | .blockEnd :: _ => g.next.leaveOut [.blockMappingKey]
    | _ => g.next.node true true [.blockMappingKey]
  | _ => g.leaveOut [.blockMappingKey]

/-- Passes the comma before an item of a flow collection, unless it is the first or the collection
ends. -/
def separator (g : Grammar) (isFirst : Bool) (closing : Token) : Option Grammar :=
  match g.tokens with
  | [] => none
  | t :: _ =>
    if isFirst || t == closing then some g
    else if t == .flowEntry then some g.next
    else none

/-- An item of a flow sequence or its end. -/
def flowSequenceItem (g : Grammar) (isFirst : Bool) : Option (Event × Grammar) :=
  match g.separator isFirst .flowSequenceEnd with
  | none => none
  | some g =>
    match g.tokens with
    | .flowSequenceEnd :: _ => g.next.finish .sequenceEnd
    | .key :: _ =>
      some (.mappingStart {}, (g.expect [.pairKey, .flowSequenceItem false]).next)
    | _ => g.node false false [.flowSequenceItem false]

/-- The key of a pair that stands as an item of a flow sequence. A pair without a key loses the
token that follows. -/
def pairKey (g : Grammar) : Option (Event × Grammar) :=
  match g.tokens with
  | [] => none
  | .value :: _ | .flowEntry :: _ | .flowSequenceEnd :: _ => g.next.leaveOut [.pairValue]
  | _ => g.node false false [.pairValue]

/-- The value of a pair that stands as an item of a flow sequence. -/
def pairValue (g : Grammar) : Option (Event × Grammar) :=
  match g.tokens with
  | [] => none
  | .value :: ts =>
    match ts with
    | [] => none
    | .flowEntry :: _ | .flowSequenceEnd :: _ => g.next.leaveOut [.pairEnd]
    | _ => g.next.node false false [.pairEnd]
  | _ => g.leaveOut [.pairEnd]

/-- A key of a flow mapping or the mapping's end. -/
def flowMappingKey (g : Grammar) (isFirst : Bool) : Option (Event × Grammar) :=
  match g.separator isFirst .flowMappingEnd with
  | none => none
  | some g =>
    match g.tokens with
    | .flowMappingEnd :: _ => g.next.finish .mappingEnd
    | .key :: ts =>
      match ts with
      | [] => none
      | .value :: _ | .flowEntry :: _ | .flowMappingEnd :: _ => g.next.leaveOut [.flowMappingValue]
      | _ => g.next.node false false [.flowMappingValue]
    | _ => g.node false false [.flowMappingNoValue]

/-- A value of a flow mapping. -/
def flowMappingValue (g : Grammar) : Option (Event × Grammar) :=
  match g.tokens with
  | [] => none
  | .value :: ts =>
    match ts with
    | [] => none
    | .flowEntry :: _ | .flowMappingEnd :: _ => g.next.leaveOut [.flowMappingKey false]
    | _ => g.next.node false false [.flowMappingKey false]
  | _ => g.leaveOut [.flowMappingKey false]

/-- The next event; none after the last one and where the tokens do not follow the grammar. -/
def step (g : Grammar) : Option (Event × Grammar) :=
  match g.stack with
  | [] => none
  | e :: _ =>
    match e with
    | .documentStart isFirst => g.documentStart isFirst
    | .documentContent => g.documentContent
    | .documentEnd => g.documentEnd
    | .blockNode => g.node true false []
    | .blockSequenceStart => g.next.blockSequenceItem
    | .blockSequenceItem => g.blockSequenceItem
    | .indentlessSequenceItem => g.indentlessSequenceItem
    | .blockMappingStart => g.next.blockMappingKey
    | .blockMappingKey => g.blockMappingKey
    | .blockMappingValue => g.blockMappingValue
    | .flowSequenceItem isFirst => g.flowSequenceItem isFirst
    | .pairKey => g.pairKey
    | .pairValue => g.pairValue
    | .pairEnd => g.finish .mappingEnd
    | .flowMappingKey isFirst => g.flowMappingKey isFirst
    | .flowMappingValue => g.flowMappingValue
    | .flowMappingNoValue => if g.tokens.isEmpty then none else g.leaveOut [.flowMappingKey false]

/-- The events up to the last one or to the first fault; `fuel` bounds their number. -/
def run : Nat → Grammar → List Event
  | 0, _ => []
  | fuel + 1, g =>
    match g.step with
    | none => []
    | some (e, g) => e :: run fuel g

end Grammar

/-- The events of a text, ending with `streamEnd` if the whole text follows the grammar. -/
def events (text : String) : List Event :=
  let ts := tokens text
  Grammar.run (4 * ts.length + 8) { tokens := ts }

end Compliance.Yaml
