import Compliance.Codec.Record

/-!
# What readers can give

Whatever text a reader is given, it never makes up a value: the items of a list come from the reader
of the items, a number is below its bound, and each field of a record comes from the field's own
reader or is the value that the field takes without one.

* `Codec.decode_eq_ok_iff`, `Codec.decodeYaml_eq_ok_iff`, `Codec.decode_parsed_eq_ok_iff`,
  `Codec.decodeYaml_parsed_eq_ok_iff` : when a whole text is read.
* `Codec.Yields` : a reader gives a value for some text.
* `Codec.Yields.lt_of_natural`, `Codec.Yields.of_list`, `Codec.Yields.exists_of_map` : where the
  parts of such a value come from.
* `Codec.Fields.Held` : the same for the fields of a record.
* `Codec.Fields.held_of_yields` : a record that is read holds such fields.
* `Codec.Fields.assign_required_eq_ok_iff`, `Codec.Fields.complete_required_eq_ok_iff` : what
  becomes of a first field that has to be given, and of the fields after it.
* `Codec.YieldsYaml`, `Codec.Fields.yieldsYaml_of_required` : in YAML, too, such a field comes from
  its reader.
-/

namespace Compliance.Codec

variable {α β τ : Type}

/-- The reader gives a value for some text. -/
def Yields (c : Codec α) (a : α) : Prop :=
  ∃ depth cs rest, c.read depth cs = .ok (a, rest)

theorem decode_eq_ok_iff {c : Codec α} {text : String} {a : α} :
    c.decode text = .ok a ↔
      ∃ rest, c.read Json.maxDepth text.toList = .ok (a, rest) ∧
        (Json.skipSpace rest).isEmpty = true := by
  rw [decode]
  constructor
  · intro h
    obtain ⟨⟨b, rest⟩, hread, hend⟩ := bind_eq_ok_iff.mp h
    simp only at hend
    split at hend
    case isTrue hempty =>
      obtain rfl := Except.ok.inj hend
      exact ⟨rest, hread, hempty⟩
    case isFalse => cases hend
  · rintro ⟨rest, hread, hempty⟩
    rw [hread]
    exact if_pos hempty

theorem decodeYaml_eq_ok_iff {c : Codec α} {text : String} {a : α} :
    c.decodeYaml text = .ok a ↔
      (∃ n, c.yaml (.ofText text) (Yaml.Document.ofText text).root 0 = .ok (a, n)) ∧
        (Yaml.Document.ofText text).isWhole = true := by
  rw [decodeYaml, Yaml.read]
  constructor
  · intro h
    obtain ⟨⟨b, n⟩, hread, hwhole⟩ := bind_eq_ok_iff.mp h
    simp only at hwhole
    split at hwhole
    case isTrue hdocument =>
      obtain rfl := Except.ok.inj hwhole
      exact ⟨⟨n, hread⟩, hdocument⟩
    case isFalse => cases hwhole
  · rintro ⟨⟨n, hread⟩, hdocument⟩
    rw [hread]
    exact if_pos hdocument

theorem decode_parsed_eq_ok_iff {parse : String → Except Fault α} {print : α → String}
    {text : String} {a : α} :
    (parsed parse print).decode text = .ok a ↔
      ∃ s, string.decode text = .ok s ∧ parse s = .ok a := by
  simp only [decode_eq_ok_iff]
  constructor
  · rintro ⟨rest, hread, hempty⟩
    obtain ⟨⟨s, rest'⟩, hs, hread⟩ := bind_eq_ok_iff.mp hread
    obtain ⟨b, hparse, hb⟩ := bind_eq_ok_iff.mp hread
    obtain ⟨rfl, rfl⟩ := Prod.mk.inj (Except.ok.inj hb)
    exact ⟨s, ⟨rest', hs, hempty⟩, here_eq_ok_iff.mp hparse⟩
  · rintro ⟨s, ⟨rest, hs, hempty⟩, hparse⟩
    change readString text.toList = .ok (s, rest) at hs
    refine ⟨rest, ?_, hempty⟩
    simp only [parsed, hs, ok_bind, hparse, here_ok]
    rfl

theorem yaml_parsed_eq_ok_iff {parse : String → Except Fault α} {print : α → String}
    {doc : Yaml.Document} {node : Yaml.Node} {a : α} {n m : Nat} :
    (parsed parse print).yaml doc node n = .ok (a, m) ↔
      ∃ s, string.yaml doc node n = .ok (s, m) ∧ parse s = .ok a := by
  simp only [parsed, string, Yaml.Reading.bind, bind_eq_ok_iff]
  constructor
  · rintro ⟨⟨s, k⟩, hs, b, hparse, hb⟩
    cases hb
    exact ⟨s, hs, hparse⟩
  · rintro ⟨s, hs, hparse⟩
    exact ⟨(s, m), hs, a, hparse, rfl⟩

theorem decodeYaml_parsed_eq_ok_iff {parse : String → Except Fault α} {print : α → String}
    {text : String} {a : α} :
    (parsed parse print).decodeYaml text = .ok a ↔
      ∃ s, string.decodeYaml text = .ok s ∧ parse s = .ok a := by
  simp only [decodeYaml_eq_ok_iff, yaml_parsed_eq_ok_iff]
  constructor
  · rintro ⟨⟨n, s, hs, hparse⟩, hwhole⟩
    exact ⟨s, ⟨⟨n, hs⟩, hwhole⟩, hparse⟩
  · rintro ⟨s, ⟨⟨n, hs⟩, hwhole⟩, hparse⟩
    exact ⟨⟨n, s, hs, hparse⟩, hwhole⟩

namespace Yields

theorem of_decode {c : Codec α} {text : String} {a : α} (h : c.decode text = .ok a) :
    c.Yields a := by
  obtain ⟨rest, hread, -⟩ := decode_eq_ok_iff.mp h
  exact ⟨_, _, rest, hread⟩

theorem exists_of_map {c : Codec α} {forth : α → β} {back : β → α} {b : β}
    (h : (c.map forth back).Yields b) : ∃ a, c.Yields a ∧ forth a = b := by
  obtain ⟨depth, cs, rest, h⟩ := h
  obtain ⟨⟨a, r⟩, hread, hb⟩ := bind_eq_ok_iff.mp h
  obtain ⟨rfl, -⟩ := Prod.mk.inj (Except.ok.inj hb)
  exact ⟨a, ⟨depth, cs, r, hread⟩, rfl⟩

theorem lt_of_natural {bound n : Nat} (h : (natural bound).Yields n) : n < bound := by
  obtain ⟨depth, cs, rest, h⟩ := h
  simp only [natural] at h
  split at h
  · rw [here_eq_ok_iff] at h
    obtain ⟨⟨number, r⟩, -, h⟩ := bind_eq_ok_iff.mp h
    split at h
    · split at h
      case isTrue hlt =>
        obtain ⟨rfl, -⟩ := Prod.mk.inj (Except.ok.inj h)
        exact hlt
      case isFalse => cases h
    · cases h
  · cases h

theorem of_readItems {c : Codec α} {depth : Nat} {fuel index : Nat} {cs rest : List Char}
    {as : List α} (h : readItems (c.read depth) fuel index cs = .ok (as, rest)) :
    ∀ a ∈ as, c.Yields a := by
  induction fuel generalizing index cs rest as with
  | zero => cases h
  | succ fuel ih =>
    rw [readItems] at h
    obtain ⟨next, -, h⟩ := bind_eq_ok_iff.mp h
    cases next with
    | none =>
      obtain ⟨r, -, h⟩ := bind_eq_ok_iff.mp h
      obtain ⟨rfl, -⟩ := Prod.mk.inj (Except.ok.inj h)
      simp
    | some r =>
      obtain ⟨⟨a, r'⟩, hitem, h⟩ := bind_eq_ok_iff.mp h
      obtain ⟨⟨as', r''⟩, hmore, h⟩ := bind_eq_ok_iff.mp h
      obtain ⟨rfl, -⟩ := Prod.mk.inj (Except.ok.inj h)
      rw [within_eq_ok_iff] at hitem
      intro b hb
      rcases List.mem_cons.mp hb with rfl | hb
      · exact ⟨depth, r, r', hitem⟩
      · exact ih hmore b hb

theorem of_list {c : Codec α} {as : List α} (h : (list c).Yields as) : ∀ a ∈ as, c.Yields a := by
  obtain ⟨depth, cs, rest, h⟩ := h
  simp only [list] at h
  split at h
  · cases h
  · exact of_readItems h
  · cases h

end Yields

/-- The reader gives a value for some node of a YAML document. -/
def YieldsYaml (c : Codec α) (a : α) : Prop :=
  ∃ doc node n n', c.yaml doc node n = .ok (a, n')

namespace YieldsYaml

theorem of_decodeYaml {c : Codec α} {text : String} {a : α} (h : c.decodeYaml text = .ok a) :
    c.YieldsYaml a := by
  obtain ⟨⟨n, hread⟩, -⟩ := decodeYaml_eq_ok_iff.mp h
  exact ⟨_, _, _, n, hread⟩

theorem exists_of_map {c : Codec α} {forth : α → β} {back : β → α} {b : β}
    (h : (c.map forth back).YieldsYaml b) : ∃ a, c.YieldsYaml a ∧ forth a = b := by
  obtain ⟨doc, node, n, n', h⟩ := h
  obtain ⟨⟨a, m⟩, hread, hb⟩ := bind_eq_ok_iff.mp h
  obtain ⟨rfl, -⟩ := Prod.mk.inj (Except.ok.inj hb)
  exact ⟨a, ⟨doc, node, n, m, hread⟩, rfl⟩

theorem exists_of_parsed {parse : String → Except Fault α} {print : α → String} {a : α}
    (h : (parsed parse print).YieldsYaml a) : ∃ s, parse s = .ok a := by
  obtain ⟨doc, node, n, n', h⟩ := h
  obtain ⟨s, -, hparse⟩ := yaml_parsed_eq_ok_iff.mp h
  exact ⟨s, hparse⟩

end YieldsYaml

namespace Fields

/-! ### Records -/

/-- Each field holds what its reader gives for some text, or the value that it takes where it is
absent. -/
def Held : {τ : Type} → Fields τ → τ → Prop
  | _, .nil, _ => True
  | _, .cons _ c absent _ rest, (a, b) => (c.Yields a ∨ absent = some a) ∧ rest.Held b

theorem Held.of_required {name : String} {c : Codec α} {rest : Fields τ} {a : α} {b : τ}
    (h : (required name c rest).Held (a, b)) : c.Yields a ∧ rest.Held b := by
  obtain ⟨ha, hb⟩ := h
  rcases ha with ha | ha
  · exact ⟨ha, hb⟩
  · cases ha

/-- The values that have been read so far come from the readers of their fields. -/
def SlotsHeld : {τ : Type} → (fs : Fields τ) → fs.Slots → Prop
  | _, .nil, _ => True
  | _, .cons (α := α) _ c _ _ rest, slots =>
    let (slot, slots) : Option α × rest.Slots := slots
    (∀ a, slot = some a → c.Yields a) ∧ rest.SlotsHeld slots

theorem slotsHeld_unread (fs : Fields τ) : fs.SlotsHeld fs.unread := by
  induction fs with
  | nil => trivial
  | cons name c absent omits rest ih =>
    refine ⟨fun a h => ?_, ih⟩
    cases h

theorem held_of_complete {fs : Fields τ} {slots : fs.Slots} {a : τ} (hslots : fs.SlotsHeld slots)
    (h : fs.complete slots = .ok a) : fs.Held a := by
  induction fs with
  | nil => trivial
  | cons name c absent omits rest ih =>
    obtain ⟨slot, slots⟩ := slots
    obtain ⟨hslot, hslots⟩ := hslots
    obtain ⟨a, ha, h⟩ := bind_eq_ok_iff.mp h
    obtain ⟨b, hb, h⟩ := bind_eq_ok_iff.mp h
    obtain rfl := Except.ok.inj h
    refine ⟨?_, ih hslots hb⟩
    -- only a field without a value of its own takes the one for its absence
    cases slot with
    | some x =>
      obtain rfl := Except.ok.inj ha
      exact .inl (hslot x rfl)
    | none =>
      cases absent with
      | some x => exact .inr (congrArg some (Except.ok.inj ha))
      | none => cases ha

theorem slotsHeld_of_assign {σ : Type} {readAs : {α : Type} → Codec α → Except Failure (α × σ)}
    (hread : ∀ {α : Type} (c : Codec α) (a : α) (s : σ), readAs c = .ok (a, s) → c.Yields a)
    {otherwise : Except Failure σ} {given : String} {fs : Fields τ} {slots slots' : fs.Slots}
    {s : σ} (hslots : fs.SlotsHeld slots)
    (h : fs.assign readAs otherwise given slots = .ok (slots', s)) : fs.SlotsHeld slots' := by
  induction fs generalizing s with
  | nil => trivial
  | cons name c absent omits rest ih =>
    obtain ⟨slot, slots⟩ := slots
    obtain ⟨hslot, hslots⟩ := hslots
    simp only [assign] at h
    -- the value either goes into the first slot or leaves it alone
    by_cases hname : name = given
    · rw [if_pos hname] at h
      split at h
      · cases h
      · obtain ⟨⟨a, s'⟩, ha, h⟩ := bind_eq_ok_iff.mp h
        obtain ⟨rfl, -⟩ := Prod.mk.inj (Except.ok.inj h)
        refine ⟨fun x hx => ?_, hslots⟩
        obtain rfl := Option.some.inj hx
        exact hread c a s' ha
    · rw [if_neg hname] at h
      obtain ⟨⟨slots'', s'⟩, hrest, h⟩ := bind_eq_ok_iff.mp h
      obtain ⟨rfl, -⟩ := Prod.mk.inj (Except.ok.inj h)
      exact ⟨hslot, ih hslots hrest⟩

theorem slotsHeld_of_readMembers {fs : Fields τ} {depth fuel : Nat} {first : Bool}
    {slots slots' : fs.Slots} {cs rest : List Char} (hslots : fs.SlotsHeld slots)
    (h : fs.readMembers depth fuel first slots cs = .ok (slots', rest)) :
    fs.SlotsHeld slots' := by
  induction fuel generalizing first slots cs with
  | zero => cases h
  | succ fuel ih =>
    rw [readMembers] at h
    obtain ⟨next, -, h⟩ := bind_eq_ok_iff.mp h
    cases next with
    | none =>
      obtain ⟨rfl, -⟩ := Prod.mk.inj (Except.ok.inj h)
      exact hslots
    | some r =>
      obtain ⟨⟨name, r'⟩, -, h⟩ := bind_eq_ok_iff.mp h
      obtain ⟨⟨slots'', r''⟩, hassign, h⟩ := bind_eq_ok_iff.mp h
      refine ih (slotsHeld_of_assign (fun c a s hc => ?_) hslots hassign) h
      obtain ⟨value, -, hc⟩ := bind_eq_ok_iff.mp hc
      exact ⟨depth, value, s, within_eq_ok_iff.mp hc⟩

theorem held_of_readItems {fs : Fields τ} {depth index : Nat} {cs rest : List Char} {a : τ}
    (h : fs.readItems depth index cs = .ok (a, rest)) : fs.Held a := by
  induction fs generalizing index cs rest with
  | nil => trivial
  | cons name c absent omits fs ih =>
    rw [readItems] at h
    obtain ⟨next, -, h⟩ := bind_eq_ok_iff.mp h
    cases next with
    | none =>
      obtain ⟨x, hx, h⟩ := bind_eq_ok_iff.mp h
      obtain ⟨⟨y, r⟩, hy, h⟩ := bind_eq_ok_iff.mp h
      obtain ⟨rfl, -⟩ := Prod.mk.inj (Except.ok.inj h)
      refine ⟨.inr ?_, ih hy⟩
      cases absent with
      | some z => exact congrArg some (Except.ok.inj hx)
      | none => cases hx
    | some r =>
      obtain ⟨⟨x, r'⟩, hx, h⟩ := bind_eq_ok_iff.mp h
      obtain ⟨⟨y, r''⟩, hy, h⟩ := bind_eq_ok_iff.mp h
      obtain ⟨rfl, -⟩ := Prod.mk.inj (Except.ok.inj h)
      exact ⟨.inl ⟨depth, r, r', within_eq_ok_iff.mp hx⟩, ih hy⟩

/-- **The fields of a record come from their own readers**, whether the record stands as an object
or as an array. -/
theorem held_of_yields {fs : Fields τ} {a : τ} (h : fs.codec.Yields a) : fs.Held a := by
  obtain ⟨depth, cs, rest, h⟩ := h
  change fs.readRecord depth cs = .ok (a, rest) at h
  unfold readRecord at h
  split at h
  · cases h
  · cases h
  · obtain ⟨⟨slots, r⟩, hmembers, h⟩ := bind_eq_ok_iff.mp h
    obtain ⟨b, hb, h⟩ := bind_eq_ok_iff.mp h
    obtain ⟨r', -, h⟩ := bind_eq_ok_iff.mp h
    obtain ⟨rfl, -⟩ := Prod.mk.inj (Except.ok.inj h)
    exact held_of_complete (slotsHeld_of_readMembers fs.slotsHeld_unread hmembers)
      (here_eq_ok_iff.mp hb)
  · obtain ⟨⟨b, r⟩, hitems, h⟩ := bind_eq_ok_iff.mp h
    obtain ⟨r', -, h⟩ := bind_eq_ok_iff.mp h
    obtain ⟨rfl, -⟩ := Prod.mk.inj (Except.ok.inj h)
    exact held_of_readItems hitems
  · cases h

/-! ### Records in YAML -/

/-- The value of the first field, if it has been read. -/
def firstSlot {name : String} {c : Codec α} {rest : Fields τ}
    (slots : (required name c rest).Slots) : Option α :=
  let (slot, _) : Option α × rest.Slots := slots
  slot

section

variable {name : String} {c : Codec α} {rest : Fields τ}

/-- The values of the fields after the first. -/
def laterSlots (slots : (required name c rest).Slots) : rest.Slots :=
  let (_, slots) : Option α × rest.Slots := slots
  slots

/-- A member is either for the first field, which must not have been read before, or it goes to the
others. -/
theorem assign_required_eq_ok_iff {σ : Type}
    {readAs : {α : Type} → Codec α → Except Failure (α × σ)} {otherwise : Except Failure σ}
    {given : String} {slots slots' : (required name c rest).Slots} {s : σ} :
    (required name c rest).assign readAs otherwise given slots = .ok (slots', s) ↔
      if name = given then
        firstSlot slots = none ∧ laterSlots slots' = laterSlots slots ∧
          ∃ a, readAs c = .ok (a, s) ∧ firstSlot slots' = some a
      else
        firstSlot slots' = firstSlot slots ∧
          rest.assign readAs otherwise given (laterSlots slots) = .ok (laterSlots slots', s) := by
  obtain ⟨slot, slots⟩ := slots
  obtain ⟨slot', slots'⟩ := slots'
  simp only [required, assign]
  by_cases hname : name = given
  · rw [if_pos hname, if_pos hname]
    cases slot with
    | some a => simp [firstSlot, fail]
    | none =>
      simp only [Option.isSome_none, Bool.false_eq_true, if_false, bind_eq_ok_iff]
      constructor
      · rintro ⟨⟨a, s'⟩, ha, h⟩
        cases h
        exact ⟨rfl, rfl, a, ha, rfl⟩
      · rintro ⟨-, hlater, a, ha, hfirst⟩
        obtain rfl : slots' = slots := hlater
        obtain rfl : slot' = some a := hfirst
        exact ⟨(a, s), ha, rfl⟩
  · rw [if_neg hname, if_neg hname]
    simp only [bind_eq_ok_iff]
    constructor
    · rintro ⟨⟨more, s'⟩, hrest, h⟩
      cases h
      exact ⟨rfl, hrest⟩
    · rintro ⟨hfirst, hrest⟩
      obtain rfl : slot' = slot := hfirst
      exact ⟨(slots', s), hrest, rfl⟩

/-- A record is complete if its first field has been read and the others are complete. -/
theorem complete_required_eq_ok_iff {slots : (required name c rest).Slots} {a : α} {b : τ} :
    (required name c rest).complete slots = .ok (a, b) ↔
      firstSlot slots = some a ∧ rest.complete (laterSlots slots) = .ok b := by
  obtain ⟨slot, slots⟩ := slots
  simp only [required, complete, bind_eq_ok_iff]
  constructor
  · rintro ⟨x, hx, y, hy, h⟩
    cases h
    cases slot with
    | some z => exact ⟨congrArg some (Except.ok.inj hx), hy⟩
    | none => cases hx
  · rintro ⟨hfirst, hy⟩
    obtain rfl : slot = some a := hfirst
    exact ⟨a, rfl, b, hy, rfl⟩

theorem readMapping_eq_ok_iff {fs : Fields τ} {doc : Yaml.Document} {node : Yaml.Node} {n m : Nat}
    {a : τ} : fs.readMapping doc node n = .ok (a, m) ↔
      ∃ members k slots, Yaml.Reading.mapping doc node n = .ok (members, k) ∧
        fs.readNodes doc members fs.unread k = .ok (slots, m) ∧ fs.complete slots = .ok a := by
  simp only [readMapping, bind_eq_ok_iff]
  constructor
  · rintro ⟨⟨members, k⟩, hmembers, h⟩
    simp only at h
    split at h
    case h_1 slots k' hread =>
      obtain ⟨b, hb, h⟩ := bind_eq_ok_iff.mp h
      cases h
      exact ⟨members, k, slots, hmembers, hread, hb⟩
    case h_2 => cases h
  · rintro ⟨members, k, slots, hmembers, hread, ha⟩
    refine ⟨(members, k), hmembers, ?_⟩
    simp only [hread, ha, ok_bind]
    rfl

/-- What happens to the members of a mapping, one after the other. -/
theorem readNodes_cons_eq_ok_iff {fs : Fields τ} {doc : Yaml.Document} {key value : Yaml.Node}
    {members : List (Yaml.Node × Yaml.Node)} {slots slots' : fs.Slots} {n m : Nat} :
    fs.readNodes doc ((key, value) :: members) slots n = .ok (slots', m) ↔
      ∃ given k mid k', Yaml.Reading.text doc key n = .ok (given, k) ∧
        fs.assign (fun c => here (c.yaml doc value k))
          (here do Yaml.Reading.skip value; return k) given slots = .ok (mid, k') ∧
        fs.readNodes doc members mid k' = .ok (slots', m) := by
  simp only [readNodes, bind_eq_ok_iff, here_eq_ok_iff]
  constructor
  · rintro ⟨⟨given, k⟩, hkey, ⟨mid, k'⟩, hassign, hread⟩
    exact ⟨given, k, mid, k', hkey, hassign, hread⟩
  · rintro ⟨given, k, mid, k', hkey, hassign, hread⟩
    exact ⟨(given, k), hkey, (mid, k'), hassign, hread⟩

theorem firstSlot_of_assign {σ : Type} {readAs : {α : Type} → Codec α → Except Failure (α × σ)}
    {P : α → Prop} (hread : ∀ a s, readAs c = .ok (a, s) → P a) {otherwise : Except Failure σ}
    {given : String} {slots slots' : (required name c rest).Slots} {s : σ}
    (hslots : ∀ a, firstSlot slots = some a → P a)
    (h : (required name c rest).assign readAs otherwise given slots = .ok (slots', s)) :
    ∀ a, firstSlot slots' = some a → P a := by
  rw [assign_required_eq_ok_iff] at h
  split at h
  · obtain ⟨-, -, a, ha, hslot⟩ := h
    intro b hb
    obtain rfl := Option.some.inj (hslot.symm.trans hb)
    exact hread a s ha
  · rw [h.1]
    exact hslots

theorem firstSlot_of_readNodes {doc : Yaml.Document} {members : List (Yaml.Node × Yaml.Node)}
    {slots slots' : (required name c rest).Slots} {n n' : Nat}
    (hslots : ∀ a, firstSlot slots = some a → c.YieldsYaml a)
    (h : (required name c rest).readNodes doc members slots n = .ok (slots', n')) :
    ∀ a, firstSlot slots' = some a → c.YieldsYaml a := by
  induction members generalizing slots n with
  | nil =>
    obtain ⟨rfl, -⟩ := Prod.mk.inj (Except.ok.inj h)
    exact hslots
  | cons member members ih =>
    obtain ⟨given, k, mid, k', -, hassign, hread⟩ := readNodes_cons_eq_ok_iff.mp h
    refine ih (firstSlot_of_assign (fun a s ha => ?_) hslots hassign) hread
    exact ⟨doc, member.2, k, s, here_eq_ok_iff.mp ha⟩

theorem yieldsYaml_of_required {a : α} {b : τ}
    (h : (required name c rest).codec.YieldsYaml (a, b)) : c.YieldsYaml a := by
  obtain ⟨doc, node, n, n', h⟩ := h
  obtain ⟨members, k, slots, -, hread, hcomplete⟩ := readMapping_eq_ok_iff.mp h
  refine firstSlot_of_readNodes (fun a ha => by cases ha) hread a ?_
  exact (complete_required_eq_ok_iff.mp hcomplete).1

end

end Fields

end Compliance.Codec
