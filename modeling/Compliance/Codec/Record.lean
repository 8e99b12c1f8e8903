import Compliance.Codec.Basic

/-!
# Codecs of records

A record is written as an object of its fields. It is read from an object in any order, with unknown
members passed over and none given twice, or in JSON also from an array of its fields in order. A
field may be absent if it has a value for that case.

* `Fields` : the names and codecs of a record's fields.
* `Fields.codec` : the codec of the record, as a tuple of its fields' values.
-/

namespace Compliance.Codec

/-- The fields of a record whose values form the tuple type. -/
inductive Fields : Type → Type 1 where
  | nil : Fields Unit
  /-- A field: its name, its codec, its value where it is absent, and which values are not
  written. -/
  | cons {α β : Type} (name : String) (codec : Codec α) (absent : Option α) (omits : α → Bool)
      (rest : Fields β) : Fields (α × β)

namespace Fields

variable {α τ : Type}

/-- Fields after one that has to be given. -/
def required (name : String) (c : Codec α) (rest : Fields τ) : Fields (α × τ) :=
  .cons name c none (fun _ => false) rest

/-- Fields after one that has a value where it is absent. -/
def defaulted (name : String) (c : Codec α) (absent : α) (rest : Fields τ) : Fields (α × τ) :=
  .cons name c (some absent) (fun _ => false) rest

/-- Fields after one that may be nothing, which is not written then. -/
def optional (name : String) (c : Codec α) (rest : Fields τ) : Fields (Option α × τ) :=
  .cons name (nullable c) (some none) Option.isNone rest

/-! ### Collected values -/

/-- The values of fields that have been read so far. -/
def Slots : {τ : Type} → Fields τ → Type
  | _, .nil => Unit
  | _, .cons (α := α) _ _ _ _ rest => Option α × rest.Slots

/-- No values yet. -/
def unread : {τ : Type} → (fs : Fields τ) → fs.Slots
  | _, .nil => ()
  | _, .cons _ _ _ _ rest => (none, rest.unread)

/-- The record of the values that have been read; a field without one takes its value for that
case. -/
def complete : {τ : Type} → (fs : Fields τ) → fs.Slots → Except Fault τ
  | _, .nil, _ => .ok ()
  | _, .cons _ _ absent _ rest, slots =>
    let (slot, slots) : Option _ × rest.Slots := slots
    do return (← orMismatch (slot <|> absent), ← rest.complete slots)

/-- Finds the field of a name and hands its codec to `readAs`, which gives its value; the field must
not have one yet. Without such a field `otherwise` is the result. -/
def assign {σ : Type} (readAs : {α : Type} → Codec α → Except Failure (α × σ))
    (otherwise : Except Failure σ) (given : String) :
    {τ : Type} → (fs : Fields τ) → fs.Slots → Except Failure (fs.Slots × σ)
  | _, .nil, _ => do return ((), ← otherwise)
  | _, .cons name c _ _ rest, slots =>
    let (slot, slots) : Option _ × rest.Slots := slots
    if name = given then
      if slot.isSome then fail .mismatch
      else do
        let (a, s) ← readAs c
        return ((some a, slots), s)
    else do
      let (slots, s) ← rest.assign readAs otherwise given slots
      return ((slot, slots), s)

/-! ### JSON -/

/-- The members that are written for a record. -/
def members : {τ : Type} → Fields τ → τ → List (String × Json)
  | _, .nil, _ => []
  | _, .cons name c _ omits rest, (a, b) =>
    if omits a then rest.members b else (name, c.write a) :: rest.members b

/-- Reads the members of an object to its closing brace; `fuel` bounds their number. -/
def readMembers {τ : Type} (fs : Fields τ) (depth : Nat) :
    Nat → Bool → fs.Slots → List Char → Except Failure (fs.Slots × List Char)
  | 0, _, _, _ => fail .malformed
  | fuel + 1, isFirst, slots, cs => do
    match ← here (Json.nextName isFirst cs) with
    | none => return (slots, cs)
    | some r =>
      let (name, r) ← here (Json.readString r)
      let name := String.ofList name
      let (slots, r) ← fs.assign
        (fun c => do within (.member name) (c.read depth (← here (Json.colon r))))
        (here do Json.skipValue (← Json.colon r))
        name slots
      readMembers fs depth fuel false slots r

/-- Reads the fields in order from the items of an array, of which `index` have been read, up to its
closing bracket. -/
def readItems (depth : Nat) :
    {τ : Type} → Fields τ → Nat → List Char → Except Failure (τ × List Char)
  | _, .nil, _, cs => .ok ((), cs)
  | _, .cons _ c absent _ rest, index, cs => do
    match ← here (Json.nextItem (index = 0) cs) with
    | none =>
      let a ← here (orMismatch absent)
      let (b, cs) ← rest.readItems depth index cs
      return ((a, b), cs)
    | some r =>
      let (a, r) ← within (.item index) (c.read depth r)
      let (b, r) ← rest.readItems depth (index + 1) r
      return ((a, b), r)

/-- Reads a record from an object or an array. -/
def readRecord {τ : Type} (fs : Fields τ) (depth : Nat) (cs : List Char) :
    Except Failure (τ × List Char) :=
  match Json.skipSpace cs, depth with
  | '\x7b' :: _, 0 | '[' :: _, 0 => fail .malformed
  | '\x7b' :: r, depth + 1 => do
    let (slots, r) ← fs.readMembers depth (r.length + 1) true fs.unread r
    let a ← here (fs.complete slots)
    return (a, ← here (Json.close '\x7d' r))
  | '[' :: r, depth + 1 => do
    let (a, r) ← fs.readItems depth 0 r
    return (a, ← here (Json.close ']' r))
  | cs, _ => fail (Json.mismatch cs)

/-! ### YAML -/

/-- Reads the members of a mapping in order. -/
def readNodes {τ : Type} (fs : Fields τ) (doc : Yaml.Document) :
    List (Yaml.Node × Yaml.Node) → fs.Slots → Nat → Except Failure (fs.Slots × Nat)
  | [], slots, n => .ok (slots, n)
  | (key, value) :: more, slots, n => do
    let (name, n) ← here (Yaml.Reading.text doc key n)
    let (slots, n) ← fs.assign (fun c => here (c.yaml doc value n))
      (here do Yaml.Reading.skip value; return n) name slots
    readNodes fs doc more slots n

/-- Reads a record from a mapping. -/
def readMapping {τ : Type} (fs : Fields τ) : Yaml.Reading τ := fun doc node n => do
  let (members, n) ← Yaml.Reading.mapping doc node n
  match fs.readNodes doc members fs.unread n with
  | .ok (slots, n) => return (← fs.complete slots, n)
  | .error f => .error f.fault

/-- The codec of a record, as the tuple of its fields' values. -/
def codec {τ : Type} (fs : Fields τ) : Codec τ where
  write a := .object (fs.members a)
  read := fs.readRecord
  yaml := fs.readMapping

end Fields

end Compliance.Codec
