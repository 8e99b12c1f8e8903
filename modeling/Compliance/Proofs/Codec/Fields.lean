import Compliance.Codec.Record
import Compliance.Proofs.Codec.RoundTrip

/-!
# Records read back from their text

The reader of a record collects the values of the fields in slots, one member after the other.  The
members that are written for a record fill the slots of exactly those fields that are written, and a
field that is not written has to take its value without one.

* `Fields.Readable` : the condition on the values of a record's fields.
* `Fields.Absorbs` : the members that lead from some slots to others.
* `Fields.absorbs_members` : the members of a record lead from no values to all of them.
* `Fields.Readable.readsBack` : a record of readable fields is read back.
-/

namespace Compliance.Codec.Fields

open Compliance.Json (Ends)

variable {α τ : Type}

/-- The names of the fields. -/
def names : {τ : Type} → Fields τ → List String
  | _, .nil => []
  | _, .cons name _ _ _ rest => name :: rest.names

/-- Each field is read back, or it is not written and its value is the one it takes then. -/
def Readable (depth : Nat) : {τ : Type} → Fields τ → τ → Prop
  | _, .nil, _ => True
  | _, .cons _ c absent omits rest, (a, b) =>
    (if omits a then absent = some a else c.ReadsBack depth a) ∧ rest.Readable depth b

theorem readable_optional {name : String} {c : Codec α} {rest : Fields τ} {depth : Nat}
    {a : Option α} {b : τ} (ha : ∀ x, a = some x → c.ReadsBack depth x)
    (hb : rest.Readable depth b) : (optional name c rest).Readable depth (a, b) := by
  cases a with
  | none => exact ⟨rfl, hb⟩
  | some x => exact ⟨(ha x rfl).some, hb⟩

/-- The slots after all that is written of a record has been read. -/
def filled : {τ : Type} → (fs : Fields τ) → τ → fs.Slots
  | _, .nil, _ => ()
  | _, .cons _ _ _ omits rest, (a, b) => (if omits a then none else some a, rest.filled b)

theorem complete_filled {fs : Fields τ} {depth : Nat} {a : τ} (h : fs.Readable depth a) :
    fs.complete (fs.filled a) = .ok a := by
  induction fs with
  | nil => rfl
  | cons name c absent omits rest ih =>
    obtain ⟨a, b⟩ := a
    obtain ⟨ha, hb⟩ := h
    have hslot : orMismatch ((if omits a then none else some a) <|> absent) = .ok a := by
      by_cases ho : omits a = true
      · rw [if_pos ho] at ha ⊢
        rw [ha]
        rfl
      · rw [if_neg ho]
        rfl
    simp only [filled, complete, hslot, ih hb, ok_bind]
    rfl

theorem mem_names_of_mem_members {fs : Fields τ} {a : τ} {m : String × Json}
    (h : m ∈ fs.members a) : m.1 ∈ fs.names := by
  induction fs with
  | nil => cases h
  | cons name c absent omits rest ih =>
    obtain ⟨a, b⟩ := a
    rw [members] at h
    split at h
    · exact List.mem_cons_of_mem _ (ih h)
    · rcases List.mem_cons.mp h with rfl | h
      · exact List.mem_cons_self ..
      · exact List.mem_cons_of_mem _ (ih h)

/-! ### One member -/

/-- Reads the value of a member, from the colon on, into the slot of its name. -/
def readMember (fs : Fields τ) (depth : Nat) (name : String) (slots : fs.Slots) (cs : List Char) :
    Except Failure (fs.Slots × List Char) :=
  fs.assign (fun c => do within (.member name) (c.read depth (← here (Json.colon cs))))
    (here do Json.skipValue (← Json.colon cs)) name slots

theorem readMember_self {c : Codec α} {depth : Nat} {a : α} (h : c.ReadsBack depth a)
    (name : String) (absent : Option α) (omits : α → Bool) (rest : Fields τ) (slots : rest.Slots)
    {r : List Char} (hr : Ends r) :
    (cons name c absent omits rest).readMember depth name (none, slots)
        (':' :: ((c.write a).renderChars ++ r)) =
      .ok ((some a, slots), r) := by
  have hread := h.read r hr
  simp only [readMember, assign, if_true, Json.colon_cons, here_ok, ok_bind, hread, within_ok]
  rfl

theorem readMember_of_ne {name given : String} (h : name ≠ given) (c : Codec α) (absent : Option α)
    (omits : α → Bool) {rest : Fields τ} {depth : Nat} {slots slots' : rest.Slots}
    {cs r : List Char} (hrest : rest.readMember depth given slots cs = .ok (slots', r))
    (slot : Option α) :
    (cons name c absent omits rest).readMember depth given (slot, slots) cs =
      .ok ((slot, slots'), r) := by
  rw [readMember] at hrest
  simp only [readMember, assign, if_neg h, hrest, ok_bind]
  rfl

/-! ### All members -/

/-- Reading some members one after the other leads from slots to slots. -/
inductive Absorbs (fs : Fields τ) (depth : Nat) :
    fs.Slots → List (String × Json) → fs.Slots → Prop where
  | nil (slots : fs.Slots) : Absorbs fs depth slots [] slots
  | cons {slots slots' slots'' : fs.Slots} {name : String} {j : Json}
      {ms : List (String × Json)}
      (read : ∀ r, Ends r →
        fs.readMember depth name slots (':' :: (j.renderChars ++ r)) = .ok (slots', r))
      (more : Absorbs fs depth slots' ms slots'') :
      Absorbs fs depth slots ((name, j) :: ms) slots''

/-- A field in front of the others keeps its slot while members of other names are read. -/
theorem Absorbs.cons_field {rest : Fields τ} {depth : Nat} {slots slots' : rest.Slots}
    {ms : List (String × Json)} (h : rest.Absorbs depth slots ms slots') {name : String}
    (hname : ∀ m ∈ ms, name ≠ m.1) (c : Codec α) (absent : Option α) (omits : α → Bool)
    (slot : Option α) :
    (Fields.cons name c absent omits rest).Absorbs depth (slot, slots) ms (slot, slots') := by
  induction h with
  | nil slots => exact .nil _
  | @cons slots slots' slots'' given j ms read more ih =>
    have hne : name ≠ given := hname (given, j) (List.mem_cons_self ..)
    have hmore := ih fun m hm => hname m (List.mem_cons_of_mem _ hm)
    exact .cons (fun r hr => readMember_of_ne hne c absent omits (read r hr) slot) hmore

/-- **The members of a record fill its slots.** -/
theorem absorbs_members {fs : Fields τ} {depth : Nat} {a : τ} (h : fs.Readable depth a)
    (hnames : fs.names.Nodup) : fs.Absorbs depth fs.unread (fs.members a) (fs.filled a) := by
  induction fs with
  | nil => exact .nil _
  | cons name c absent omits rest ih =>
    obtain ⟨a, b⟩ := a
    obtain ⟨ha, hb⟩ := h
    obtain ⟨hname, hrest⟩ := List.nodup_cons.mp hnames
    have hmore := ih hb hrest
    have hne : ∀ m ∈ rest.members b, name ≠ m.1 := by
      rintro m hm rfl
      exact hname (mem_names_of_mem_members hm)
    rw [members, filled, unread]
    by_cases ho : omits a = true
    · rw [if_pos ho, if_pos ho]
      exact hmore.cons_field hne c absent omits none
    · rw [if_neg ho] at ha
      rw [if_neg ho, if_neg ho]
      -- the field's own member comes first, and no later one has its name
      exact .cons (fun r hr => readMember_self ha name absent omits rest rest.unread hr)
        (hmore.cons_field hne c absent omits (some a))

theorem Absorbs.readMembers_eq {fs : Fields τ} {depth : Nat} {slots slots' : fs.Slots}
    {ms : List (String × Json)} (h : fs.Absorbs depth slots ms slots') (first : Bool)
    (rest : List Char) (fuel : Nat) (hfuel : ms.length < fuel) :
    fs.readMembers depth fuel first slots (Json.membersFrom first ms ++ rest) =
      .ok (slots', '}' :: rest) := by
  induction h generalizing first fuel with
  | nil slots =>
    obtain ⟨fuel, rfl⟩ := Nat.exists_eq_succ_of_ne_zero (by omega : fuel ≠ 0)
    rfl
  | @cons slots slots' slots'' name j ms read more ih =>
    obtain ⟨fuel, rfl⟩ := Nat.exists_eq_succ_of_ne_zero (by omega : fuel ≠ 0)
    obtain ⟨cs, hnext, hname⟩ := Json.nextName_membersFrom first name j ms rest
    have hread := read _ (Json.ends_membersFrom ms rest)
    have hmore := ih false fuel (by simpa using hfuel)
    rw [readMember] at hread
    simp only [readMembers, hnext, here_ok, ok_bind, hname, String.ofList_toList, hread, hmore]

/-- **A record is read back** one level deeper than its fields, if no two fields share a name. -/
theorem Readable.readsBack {fs : Fields τ} {depth : Nat} {a : τ} (h : fs.Readable depth a)
    (hnames : fs.names.Nodup) : fs.codec.ReadsBack (depth + 1) a where
  opens := ⟨'{', _, rfl, rfl, by decide, by decide⟩
  read rest _ := by
    have hlength := Json.length_le_length_membersFrom true (fs.members a)
    have hread := (absorbs_members h hnames).readMembers_eq true rest
      ((Json.membersFrom true (fs.members a) ++ rest).length + 1)
      (by simp only [List.length_append] at hlength ⊢; omega)
    have hskip (r : List Char) : Json.skipSpace ('{' :: r) = '{' :: r := rfl
    have hclose : Json.close '}' ('}' :: rest) = .ok rest := Json.close_cons rfl rest
    simp only [codec, Json.renderChars, Json.renderMembers_eq, List.cons_append, readRecord, hskip,
      hread, ok_bind, complete_filled h, here_ok, hclose]
    rfl

end Compliance.Codec.Fields
