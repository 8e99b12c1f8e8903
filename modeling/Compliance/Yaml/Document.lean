import Compliance.Yaml.Event

/-!
# YAML documents

The node of a document, with its aliases. A text that breaks off leaves a document that is whole up
to that point: what lies before a fault can still be read.

An alias stands for the node that its anchor names. Anchors are numbered as they come, a name that
is given a second time keeps its place in the count, and a number stands for the last node that
received it.

* `Node` : a node, cut off where the text breaks.
* `Document.ofText` : the first document of a text.
-/

namespace Compliance.Yaml

/-- A node of a document. -/
inductive Node where
  /-- The place where the text breaks off. -/
  | cut
  | alias (target : Nat)
  | scalar (tag : Option String) (style : ScalarStyle) (text : String)
  | sequence (items : List Node)
  | mapping (members : List (Node × Node))

/-- A document of a text. -/
structure Document where
  root : Node
  /-- The nodes that aliases stand for, the latest first. -/
  targets : List (Nat × Node)
  /-- The number of events of the document. -/
  size : Nat
  /-- Whether the document is whole and the only one of its text. -/
  isWhole : Bool

/-! ### Anchors -/

/-- An event with its anchor or alias as a number. -/
inductive Part where
  | alias (target : Nat)
  | scalar (anchor : Option Nat) (tag : Option String) (style : ScalarStyle) (text : String)
  | sequenceStart (anchor : Option Nat)
  | sequenceEnd
  | mappingStart (anchor : Option Nat)
  | mappingEnd

/-- The anchors met so far, the latest first, with their numbers. -/
abbrev Anchors := List (String × Nat)

/-- The number of an anchor that is met now, and the anchors after it. -/
def Anchors.number (as : Anchors) : Option String → Option Nat × Anchors
  | none => (none, as)
  | some name => (some as.length, (name, as.length) :: as.filter (·.1 != name))

/-- The parts of the first document of a text, and whether it ends as it should: it is the only one,
and none of its aliases is unknown. -/
def parts : List Event → Anchors → List Part × Bool
  | [], _ => ([], false)
  | e :: es, as =>
    match e with
    | .streamEnd => ([], true)
    | .documentStart => parts es as
    | .documentEnd =>
      match es with
      | .streamEnd :: _ => ([], true)
      | _ => ([], false)
    | .alias name =>
      match as.find? (·.1 == name) with
      | some (_, n) => (parts es as).map (.alias n :: ·) id
      | none => ([], false)
    | .scalar p style text =>
      let (n, as) := as.number p.anchor
      (parts es as).map (.scalar n p.tag style text :: ·) id
    | .sequenceStart p =>
      let (n, as) := as.number p.anchor
      (parts es as).map (.sequenceStart n :: ·) id
    | .mappingStart p =>
      let (n, as) := as.number p.anchor
      (parts es as).map (.mappingStart n :: ·) id
    | .sequenceEnd => (parts es as).map (.sequenceEnd :: ·) id
    | .mappingEnd => (parts es as).map (.mappingEnd :: ·) id

/-! ### Nodes -/

/-- The nodes that anchors name, the latest first; a node comes after those inside it. -/
abbrev Targets := List (Nat × Node)

/-- The targets with a node that may have an anchor. -/
def Targets.name (ts : Targets) (anchor : Option Nat) (n : Node) : Targets :=
  match anchor with
  | some a => (a, n) :: ts
  | none => ts

mutual

/-- The node at the front of some parts, with the targets inside it; `fuel` bounds its size. -/
def nodeOf : Nat → List Part → Node × Targets × List Part
  | 0, ps => (.cut, [], ps)
  | fuel + 1, ps =>
    match ps with
    | .alias n :: ps => (.alias n, [], ps)
    | .scalar anchor tag style text :: ps =>
      let node := Node.scalar tag style text
      (node, Targets.name [] anchor node, ps)
    | .sequenceStart anchor :: ps =>
      let (items, ts, ps) := itemsOf fuel ps
      let node := Node.sequence items
      (node, ts ++ Targets.name [] anchor node, ps)
    | .mappingStart anchor :: ps =>
      let (members, ts, ps) := membersOf fuel ps
      let node := Node.mapping members
      (node, ts ++ Targets.name [] anchor node, ps)
    | _ => (.cut, [], ps)

/-- The items of a sequence up to its end, the latest targets first. -/
def itemsOf : Nat → List Part → List Node × Targets × List Part
  | 0, ps => ([.cut], [], ps)
  | fuel + 1, ps =>
    match ps with
    | [] => ([.cut], [], [])
    | .sequenceEnd :: ps => ([], [], ps)
    | ps =>
      let (item, ts, ps) := nodeOf fuel ps
      let (items, ts', ps) := itemsOf fuel ps
      (item :: items, ts' ++ ts, ps)

/-- The members of a mapping up to its end, the latest targets first. -/
def membersOf : Nat → List Part → List (Node × Node) × Targets × List Part
  | 0, ps => ([(.cut, .cut)], [], ps)
  | fuel + 1, ps =>
    match ps with
    | [] => ([(.cut, .cut)], [], [])
    | .mappingEnd :: ps => ([], [], ps)
    | ps =>
      let (key, ts, ps) := nodeOf fuel ps
      let (value, ts', ps) := nodeOf fuel ps
      let (members, ts'', ps) := membersOf fuel ps
      ((key, value) :: members, ts'' ++ ts' ++ ts, ps)

end

/-- The first document of a text. A text without documents has one whose node is left out. -/
def Document.ofText (text : String) : Document :=
  let (ps, isWhole) := parts (events text) []
  let ps := if ps.isEmpty && isWhole then [.scalar none none .plain ""] else ps
  let (root, targets, _) := nodeOf (2 * ps.length + 1) ps
  { root, targets, size := ps.length, isWhole }

end Compliance.Yaml
