import Compliance.Proofs.Codec.Yields

/-!
# Fields that are parsed

Some fields of a record are made from a text, and such a text may be refused.  A record whose first
field is one of these is read from a YAML text exactly where the record with the text itself in the
field is read and the text is not refused, and nothing else in the record depends on it.

* `Codec.decodeYaml_map_eq_ok_iff` : when a text is read as what is made from another value.
* `Codec.Fields.SameText` : what has been read of two records, of which one has a text where the
  other has what is parsed from it.
* `Codec.Fields.decodeYaml_parsed_first_eq_ok_iff` : the whole records.
-/

namespace Compliance.Codec

variable {α β τ : Type}

theorem decodeYaml_map_eq_ok_iff {c : Codec α} {forth : α → β} {back : β → α} {text : String}
    {b : β} : (c.map forth back).decodeYaml text = .ok b ↔
      ∃ a, c.decodeYaml text = .ok a ∧ forth a = b := by
  simp only [decodeYaml_eq_ok_iff, map, bind_eq_ok_iff]
  constructor
  · rintro ⟨⟨n, ⟨a, m⟩, hread, hb⟩, hwhole⟩
    cases hb
    exact ⟨a, ⟨⟨m, hread⟩, hwhole⟩, rfl⟩
  · rintro ⟨a, ⟨⟨n, hread⟩, hwhole⟩, rfl⟩
    exact ⟨⟨n, (a, n), hread, rfl⟩, hwhole⟩

namespace Fields

/-! ### The first field and the others -/

section

variable {name : String} {c : Codec α} {rest : Fields τ}

/-- A value for the first field, if it has been read, and those of the others. -/
def withFirst (slot : Option α) (slots : rest.Slots) : (required name c rest).Slots :=
  (slot, slots)

theorem slots_ext {slots slots' : (required name c rest).Slots}
    (hfirst : firstSlot slots = firstSlot slots') (hlater : laterSlots slots = laterSlots slots') :
    slots = slots' :=
  Prod.ext hfirst hlater

theorem firstSlot_readNodes {doc : Yaml.Document} {members : List (Yaml.Node × Yaml.Node)} {a : α}
    {slots slots' : (required name c rest).Slots} {n m : Nat} (hslots : firstSlot slots = some a)
    (h : (required name c rest).readNodes doc members slots n = .ok (slots', m)) :
    firstSlot slots' = some a := by
  induction members generalizing slots n with
  | nil =>
    cases h
    exact hslots
  | cons member members ih =>
    obtain ⟨given, k, mid, k', -, hassign, hread⟩ := readNodes_cons_eq_ok_iff.mp h
    rw [assign_required_eq_ok_iff] at hassign
    refine ih ?_ hread
    split at hassign
    · rw [hslots] at hassign
      cases hassign.1
    · rw [hassign.1, hslots]

end

/-! ### A text and what is parsed from it -/

section

variable {name : String} {rest : Fields τ} {parse : String → Except Fault α} {print : α → String}

theorem eq_of_rel {slot : Option String} {read read' : Option α}
    (h : Option.Rel (fun s a => parse s = .ok a) slot read)
    (h' : Option.Rel (fun s a => parse s = .ok a) slot read') : read = read' := by
  cases h with
  | none => cases h'; rfl
  | some hparse =>
    cases h' with
    | some hparse' => exact congrArg some (Except.ok.inj (hparse.symm.trans hparse'))

/-- What has been read of two records: the first field of one is parsed from the text in that of the
other, or both have not been read, and the other fields are the same. -/
structure SameText (parse : String → Except Fault α) {print : α → String}
    (slots : (required name string rest).Slots)
    (slots' : (required name (parsed parse print) rest).Slots) : Prop where
  first : Option.Rel (fun s a => parse s = .ok a) (firstSlot slots) (firstSlot slots')
  later : laterSlots slots = laterSlots slots'

section

variable {doc : Yaml.Document} {slots : (required name string rest).Slots}
  {slots' : (required name (parsed parse print) rest).Slots}

theorem SameText.eq {slots'' : (required name (parsed parse print) rest).Slots}
    (h : SameText parse slots slots') (h' : SameText parse slots slots'') : slots' = slots'' :=
  slots_ext (eq_of_rel h.first h'.first) (h.later.symm.trans h'.later)

theorem SameText.firstSlot_eq_none_iff (h : SameText parse slots slots') :
    firstSlot slots' = none ↔ firstSlot slots = none := by
  have hfirst := h.first
  cases hs : firstSlot slots <;> cases hs' : firstSlot slots' <;> simp_all

theorem SameText.firstSlot_eq_some_iff (h : SameText parse slots slots') {a : α} :
    firstSlot slots' = some a ↔ ∃ s, firstSlot slots = some s ∧ parse s = .ok a := by
  have hfirst := h.first
  cases hs : firstSlot slots <;> cases hs' : firstSlot slots' <;> simp_all

theorem SameText.exists_parse (h : SameText parse slots slots') {s : String}
    (hs : firstSlot slots = some s) : ∃ a, parse s = .ok a ∧ firstSlot slots' = some a := by
  have hfirst := h.first
  cases hs' : firstSlot slots' <;> simp_all

/-- There is such a record unless the text is refused. -/
theorem exists_sameText (h : ∀ s, firstSlot slots = some s → ∃ a, parse s = .ok a) :
    ∃ slots' : (required name (parsed parse print) rest).Slots, SameText parse slots slots' := by
  cases hs : firstSlot slots with
  | none => exact ⟨withFirst none (laterSlots slots), by rw [hs]; exact .none, rfl⟩
  | some s =>
    obtain ⟨a, ha⟩ := h s hs
    exact ⟨withFirst (some a) (laterSlots slots), by rw [hs]; exact .some ha, rfl⟩

/-- Two such records take the same members, unless the text is refused. -/
theorem SameText.assign_eq_ok_iff {value : Yaml.Node} {given : String} {k m : Nat}
    {next' : (required name (parsed parse print) rest).Slots} (h : SameText parse slots slots') :
    (required name (parsed parse print) rest).assign (fun c => here (c.yaml doc value k))
        (here do Yaml.Reading.skip value; return k) given slots' = .ok (next', m) ↔
      ∃ next, (required name string rest).assign (fun c => here (c.yaml doc value k))
          (here do Yaml.Reading.skip value; return k) given slots = .ok (next, m) ∧
        SameText parse next next' := by
  simp only [assign_required_eq_ok_iff, here_eq_ok_iff, yaml_parsed_eq_ok_iff]
  -- a member for the first field is read as a text by both, and one parses it then
  by_cases hname : name = given
  · simp only [if_pos hname]
    constructor
    · rintro ⟨hunread, hkept, a, ⟨s, hs, hparse⟩, hnext⟩
      refine ⟨withFirst (some s) (laterSlots slots),
        ⟨h.firstSlot_eq_none_iff.mp hunread, rfl, s, hs, rfl⟩, ?_, ?_⟩
      · rw [hnext]
        exact .some hparse
      · exact h.later.trans hkept.symm
    · rintro ⟨next, ⟨hunread, hkept, s, hs, hnext⟩, hsame⟩
      obtain ⟨a, hparse, hnext'⟩ := hsame.exists_parse hnext
      exact ⟨h.firstSlot_eq_none_iff.mpr hunread, hsame.later.symm.trans (hkept.trans h.later), a,
        ⟨s, hs, hparse⟩, hnext'⟩
  · simp only [if_neg hname]
    constructor
    · rintro ⟨hkept, hassign⟩
      refine ⟨withFirst (firstSlot slots) (laterSlots next'), ⟨rfl, ?_⟩, ?_, rfl⟩
      · rw [h.later]
        exact hassign
      · rw [hkept]
        exact h.first
    · rintro ⟨next, ⟨hkept, hassign⟩, hfirst, hlater⟩
      rw [hkept] at hfirst
      rw [h.later, hlater] at hassign
      exact ⟨eq_of_rel hfirst h.first, hassign⟩

theorem SameText.readNodes_eq_ok_iff {members : List (Yaml.Node × Yaml.Node)} {n m : Nat}
    {last' : (required name (parsed parse print) rest).Slots} (h : SameText parse slots slots') :
    (required name (parsed parse print) rest).readNodes doc members slots' n = .ok (last', m) ↔
      ∃ last, (required name string rest).readNodes doc members slots n = .ok (last, m) ∧
        SameText parse last last' := by
  induction members generalizing slots slots' n with
  | nil =>
    constructor
    · rintro ⟨⟩
      exact ⟨slots, rfl, h⟩
    · rintro ⟨last, ⟨⟩, hlast⟩
      rw [hlast.eq h]
      rfl
  | cons member members ih =>
    obtain ⟨key, value⟩ := member
    simp only [readNodes_cons_eq_ok_iff]
    constructor
    · rintro ⟨given, k, mid', k', hkey, hassign, hread⟩
      obtain ⟨mid, hassign, hmid⟩ := h.assign_eq_ok_iff.mp hassign
      obtain ⟨last, hread, hlast⟩ := (ih hmid).mp hread
      exact ⟨last, ⟨given, k, mid, k', hkey, hassign, hread⟩, hlast⟩
    · rintro ⟨last, ⟨given, k, mid, k', hkey, hassign, hread⟩, hlast⟩
      -- a text that has been read stays, and the one that is left at the end is not refused
      obtain ⟨mid', hmid⟩ : ∃ mid' : (required name (parsed parse print) rest).Slots,
          SameText parse mid mid' := by
        refine exists_sameText fun s hs => ?_
        obtain ⟨a, hparse, -⟩ := hlast.exists_parse (firstSlot_readNodes hs hread)
        exact ⟨a, hparse⟩
      exact ⟨given, k, mid', k', hkey, h.assign_eq_ok_iff.mpr ⟨mid, hassign, hmid⟩,
        (ih hmid).mpr ⟨last, hread, hlast⟩⟩

end

/-- **A record is read with what is parsed from a text exactly where it is read with the text** and
the text is not refused; nothing else in the record depends on it. -/
theorem decodeYaml_parsed_first_eq_ok_iff {β : Type} {rest : Fields β} {text : String} {a : α}
    {b : β} :
    (required name (parsed parse print) rest).codec.decodeYaml text = .ok (a, b) ↔
      ∃ s, (required name string rest).codec.decodeYaml text = .ok (s, b) ∧ parse s = .ok a := by
  have hunread : SameText parse (required name string rest).unread
      (required name (parsed parse print) rest).unread := ⟨.none, rfl⟩
  simp only [decodeYaml_eq_ok_iff, codec, readMapping_eq_ok_iff, hunread.readNodes_eq_ok_iff,
    complete_required_eq_ok_iff]
  constructor
  · rintro ⟨⟨n, members, k, slots', hmembers, ⟨slots, hread, hsame⟩, hfirst, hrest⟩, hwhole⟩
    obtain ⟨s, hs, hparse⟩ := hsame.firstSlot_eq_some_iff.mp hfirst
    rw [← hsame.later] at hrest
    exact ⟨s, ⟨⟨n, members, k, slots, hmembers, hread, hs, hrest⟩, hwhole⟩, hparse⟩
  · rintro ⟨s, ⟨⟨n, members, k, slots, hmembers, hread, hs, hrest⟩, hwhole⟩, hparse⟩
    obtain ⟨slots', hsame⟩ : ∃ slots' : (required name (parsed parse print) rest).Slots,
        SameText parse slots slots' := by
      refine exists_sameText fun s' hs' => ⟨a, ?_⟩
      obtain rfl := Option.some.inj (hs.symm.trans hs')
      exact hparse
    refine ⟨⟨n, members, k, slots', hmembers, ⟨slots, hread, hsame⟩,
      hsame.firstSlot_eq_some_iff.mpr ⟨s, hs, hparse⟩, ?_⟩, hwhole⟩
    rw [← hsame.later]
    exact hrest

end

end Fields

end Compliance.Codec
