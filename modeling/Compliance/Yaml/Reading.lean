import Compliance.Codec.Fault
import Compliance.Text.Character
import Compliance.Yaml.Document

/-!
# Reading YAML nodes

How the nodes of a document read as texts, numbers, lists and choices. A text takes any scalar as it
is written; other types look at the style and the tag. Reading follows aliases and counts them, and
a document may have only so many followed that its size is multiplied by a hundred at most.

* `Reading α` : a reader of nodes as values of a type.
* `read` : a value from the first document of a text, which has to be the only one.
-/

namespace Compliance.Yaml

open Compliance.Codec (Fault)
open Compliance.Text (digitValue decimalValue hexValue?)

/-- A reader of nodes: it takes the document, a node and the number of aliases followed so far. -/
abbrev Reading (α : Type) := Document → Node → Nat → Except Fault (α × Nat)

namespace Reading

/-- A reader that follows an alias before it reads. -/
def following {α : Type} (r : Reading α) : Reading α := fun doc node n =>
  match node with
  | .alias target =>
    if 100 * doc.size < n + 1 then .error .mismatch
    else match doc.targets.find? (·.1 == target) with
      | some (_, node) => r doc node (n + 1)
      | none => .error .malformed
  | node => r doc node n

/-- A reader whose values are checked or changed. -/
def bind {α β : Type} (r : Reading α) (f : α → Except Fault β) : Reading β := fun doc node n => do
  let (a, n) ← r doc node n
  return (← f a, n)

/-! ### Scalars -/

/-- Whether a plain scalar of this text is written for "nothing". -/
def isNullWord (text : String) : Bool :=
  text == "~" || text == "null" || text == "Null" || text == "NULL"

/-- The tag of "nothing". -/
def nullTag : String := "tag:yaml.org,2002:null"

/-- The tag of integers. -/
def intTag : String := "tag:yaml.org,2002:int"

/-- Any scalar, as its text. -/
def text : Reading String := following fun _ node n =>
  match node with
  | .scalar _ _ text => .ok (text, n)
  | _ => .error .mismatch

/-- The number that digits denote in a base. -/
def digits? (base : Nat) (cs : List Char) : Option Nat :=
  if cs.isEmpty then none
  else cs.foldlM (fun n d => do
    let v ← hexValue? d
    if v < base then some (base * n + v) else none) 0

/-- The natural number that a text denotes: decimal digits without a zero in front, or digits in
another base after `0x`, `0o` or `0b`; a plus sign may stand before either. -/
def natural? (text : String) : Option Nat :=
  let cs := match text.toList with
    | '+' :: r => r
    | r => r
  match cs with
  | '0' :: 'x' :: r => digits? 16 r
  | '0' :: 'o' :: r => digits? 8 r
  | '0' :: 'b' :: r => digits? 2 r
  | '0' :: _ :: _ => none
  | cs => digits? 10 cs

/-- A natural number below a bound: a plain scalar, or a literal block with the tag of integers. -/
def natural (bound : Nat) : Reading Nat := following fun _ node n =>
  match node with
  | .scalar tag style text =>
    if style == .plain || (style == .literal && tag == some intTag) then
      match natural? text with
      | some v => if v < bound then .ok (v, n) else .error .mismatch
      | none => .error .mismatch
    else .error .mismatch
  | _ => .error .mismatch

/-- One of some names: the text of a scalar, or the name of its own tag if the scalar itself says
nothing. -/
def choice {α : Type} (named : String → Option α) : Reading α := following fun _ node n =>
  let pick (name : String) : Except Fault (α × Nat) :=
    match named name with
    | some a => .ok (a, n)
    | none => .error .mismatch
  match node with
  | .scalar (some tag) style text =>
    match tag.toList with
    | '!' :: name =>
      if style == .plain && (text.isEmpty || isNullWord text) then pick (String.ofList name)
      else .error .mismatch
    | _ => pick text
  | .scalar none _ text => pick text
  | _ => .error .mismatch

/-- A value or nothing. -/
def nullable {α : Type} (r : Reading α) : Reading (Option α) := following fun doc node n =>
  let present : Except Fault (Option α × Nat) := do
    let (a, n) ← r doc node n
    return (some a, n)
  match node with
  | .scalar (some tag) .plain text =>
    if tag == nullTag then if isNullWord text then .ok (none, n) else .error .mismatch
    else present
  | .scalar none .plain text => if text.isEmpty || isNullWord text then .ok (none, n) else present
  | _ => present

/-! ### Collections -/

/-- Reads nodes in their order. -/
def items {α : Type} (r : Reading α) (doc : Document) :
    List Node → Nat → Except Fault (List α × Nat)
  | [], n => .ok ([], n)
  | node :: nodes, n => do
    let (a, n) ← r doc node n
    let (as, n) ← items r doc nodes n
    return (a :: as, n)

/-- The nodes of a sequence; a plain scalar without text has none. -/
def sequence : Reading (List Node) := following fun _ node n =>
  match node with
  | .sequence nodes => .ok (nodes, n)
  | .scalar _ .plain "" => .ok ([], n)
  | _ => .error .mismatch

/-- A list. -/
def list {α : Type} (r : Reading α) : Reading (List α) := fun doc node n => do
  let (nodes, n) ← sequence doc node n
  items r doc nodes n

/-- The members of a mapping; a plain scalar without text has none. -/
def mapping : Reading (List (Node × Node)) := following fun _ node n =>
  match node with
  | .mapping members => .ok (members, n)
  | .scalar _ .plain "" => .ok ([], n)
  | _ => .error .mismatch

/-- Reads the members of a mapping, with a text as the key of each. -/
def pairs {α : Type} (r : Reading α) (doc : Document) :
    List (Node × Node) → Nat → Except Fault (List (String × α) × Nat)
  | [], n => .ok ([], n)
  | (key, value) :: members, n => do
    let (name, n) ← text doc key n
    let (a, n) ← r doc value n
    let (as, n) ← pairs r doc members n
    return ((name, a) :: as, n)

/-- Values that have names. -/
def named {α : Type} (r : Reading α) : Reading (List (String × α)) := fun doc node n => do
  let (members, n) ← mapping doc node n
  pairs r doc members n

mutual

/-- Passes over a node without following aliases. -/
def skip : Node → Except Fault Unit
  | .cut => .error .malformed
  | .alias _ | .scalar .. => .ok ()
  | .sequence nodes => skipItems nodes
  | .mapping members => skipMembers members

/-- Passes over nodes. -/
def skipItems : List Node → Except Fault Unit
  | [] => .ok ()
  | node :: nodes => do
    skip node
    skipItems nodes

/-- Passes over the members of a mapping. -/
def skipMembers : List (Node × Node) → Except Fault Unit
  | [] => .ok ()
  | (key, value) :: members => do
    skip key
    skip value
    skipMembers members

end

end Reading

/-- A value from the first document of a text, which has to be the only one. -/
def read {α : Type} (r : Reading α) (text : String) : Except Fault α := do
  let doc := Document.ofText text
  let (a, _) ← r doc doc.root 0
  if doc.isWhole then .ok a else .error .malformed

end Compliance.Yaml
