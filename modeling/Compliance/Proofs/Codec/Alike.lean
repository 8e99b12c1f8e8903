import Compliance.Codec.Record

/-!
# Readers that take the same texts

A field that is absent takes the value that its record has for that case, and this value may depend
on when the text is read.  Whether the text can be read does not depend on it, nor does the reason
why not: two records of fields that differ in such values alone are read from the same texts, up to
the same place, and refuse all others for the same reason.

* `Codec.Alike` : results that succeed together, or fail for the same reason.
* `Codec.ReadsAlike` : codecs that take the same texts.
* `Codec.Fields.Matches` : fields that differ in their values for absence at most.
* `Codec.Fields.Matches.readsAlike` : the records of such fields take the same texts.

What has been read so far may differ in its values, so the induction over the members carries which
fields have been given, and nothing else about them.
-/

namespace Compliance.Codec

/-! ### Results -/

/-- Two computations that succeed with related results, or fail for the same reason. -/
inductive Alike {ε α β : Type} (R : α → β → Prop) : Except ε α → Except ε β → Prop where
  | ok {a : α} {b : β} (h : R a b) : Alike R (.ok a) (.ok b)
  | error (e : ε) : Alike R (.error e) (.error e)

namespace Alike

variable {ε α β γ δ : Type} {R : α → β → Prop} {S : γ → δ → Prop}

theorem bind {x : Except ε α} {y : Except ε β} {f : α → Except ε γ} {g : β → Except ε δ}
    (h : Alike R x y) (hfg : ∀ a b, R a b → Alike S (f a) (g b)) : Alike S (x >>= f) (y >>= g) := by
  cases h with
  | ok h => exact hfg _ _ h
  | error e => exact .error e

theorem bind_same (x : Except ε α) {f : α → Except ε γ} {g : α → Except ε δ}
    (hfg : ∀ a, Alike S (f a) (g a)) : Alike S (x >>= f) (x >>= g) := by
  cases x with
  | ok a => exact hfg a
  | error e => exact .error e

theorem within {x : Except Failure α} {y : Except Failure β} (step : Step) (h : Alike R x y) :
    Alike R (Codec.within step x) (Codec.within step y) := by
  cases h with
  | ok h => exact .ok h
  | error e => exact .error (e.within step)

theorem mapError {ε' : Type} {x : Except ε α} {y : Except ε β} (f : ε → ε') (h : Alike R x y) :
    Alike R (x.mapError f) (y.mapError f) := by
  cases h with
  | ok h => exact .ok h
  | error e => exact .error (f e)

theorem here {x : Except Fault α} {y : Except Fault β} (h : Alike R x y) :
    Alike R (Codec.here x) (Codec.here y) := by
  cases h with
  | ok h => exact .ok h
  | error e => exact .error (Failure.mk e [])

theorem orMismatch {x : Option α} {y : Option β} (h : x.isSome = y.isSome) :
    Alike (fun _ _ => True) (Codec.orMismatch x) (Codec.orMismatch y) := by
  cases x <;> cases y
  case none.none => exact .error _
  case some.some => exact .ok trivial
  all_goals cases h

end Alike

/-! ### Codecs -/

/-- Two readings end at the same place. -/
def SameRest {α β σ : Type} (a : α × σ) (b : β × σ) : Prop := a.2 = b.2

/-- Two codecs take the same texts, up to the same places. -/
def ReadsAlike {α : Type} (c c' : Codec α) : Prop :=
  ∀ depth cs, Alike SameRest (c.read depth cs) (c'.read depth cs)

theorem ReadsAlike.refl {α : Type} (c : Codec α) : c.ReadsAlike c := by
  intro depth cs
  cases c.read depth cs with
  | ok a => exact .ok rfl
  | error e => exact .error e

theorem ReadsAlike.map {α β : Type} {c c' : Codec α} (h : c.ReadsAlike c') (forth : α → β)
    (back : β → α) : (c.map forth back).ReadsAlike (c'.map forth back) := by
  intro depth cs
  exact .bind (h depth cs) fun _ _ hrest => .ok hrest

theorem ReadsAlike.decodeFront {α : Type} {c c' : Codec α} (h : c.ReadsAlike c') (text : String) :
    Alike (fun _ _ => True) (c.decodeFront text) (c'.decodeFront text) := by
  rw [Codec.decodeFront, Codec.decodeFront]
  have hread := h Json.maxDepth text.toList
  generalize c.read Json.maxDepth text.toList = x at hread
  generalize c'.read Json.maxDepth text.toList = y at hread
  cases hread with
  | ok _ => exact .ok trivial
  | error e => exact .error e

namespace Fields

variable {τ : Type}

/-! ### Fields -/

/-- Fields with codecs that take the same texts, and with values for the same cases of absence. -/
inductive Matches : {τ : Type} → Fields τ → Fields τ → Prop where
  | nil : Matches .nil .nil
  | cons {α β : Type} (name : String) {c c' : Codec α} {absent absent' : Option α}
      (omits : α → Bool) {rest rest' : Fields β} (reads : c.ReadsAlike c')
      (absence : absent.isSome = absent'.isSome) (h : Matches rest rest') :
      Matches (.cons name c absent omits rest) (.cons name c' absent' omits rest')

/-- Which of the fields have been given. -/
def given : {τ : Type} → (fs : Fields τ) → fs.Slots → List Bool
  | _, .nil, _ => []
  | _, .cons (α := α) _ _ _ _ rest, slots =>
    let (slot, slots) : Option α × rest.Slots := slots
    slot.isSome :: rest.given slots

variable {fs fs' : Fields τ}

theorem Matches.given_unread (h : fs.Matches fs') : fs.given fs.unread = fs'.given fs'.unread := by
  induction h with
  | nil => rfl
  | cons name omits reads absence h ih => exact congrArg (false :: ·) ih

theorem Matches.complete (h : fs.Matches fs') {slots : fs.Slots} {slots' : fs'.Slots}
    (hgiven : fs.given slots = fs'.given slots') :
    Alike (fun _ _ => True) (fs.complete slots) (fs'.complete slots') := by
  induction h with
  | nil => exact .ok trivial
  | @cons α β name c c' absent absent' omits rest rest' reads absence h ih =>
    obtain ⟨slot, slots⟩ := slots
    obtain ⟨slot', slots'⟩ := slots'
    obtain ⟨hslot, hslots⟩ := List.cons.inj hgiven
    have hvalue : (slot <|> absent).isSome = (slot' <|> absent').isSome := by
      simp only [Option.orElse_eq_orElse, Option.orElse_eq_or, Option.isSome_or, hslot, absence]
    exact .bind (.orMismatch hvalue) fun _ _ _ => .bind (ih hslots) fun _ _ _ => .ok trivial

/-- A member goes to the field of its name on both sides, if that has not been given. -/
theorem Matches.assign {σ : Type}
    {readAs readAs' : {α : Type} → Codec α → Except Failure (α × σ)}
    (hread : ∀ {α : Type} {c c' : Codec α}, c.ReadsAlike c' →
      Alike SameRest (readAs c) (readAs' c'))
    (otherwise : Except Failure σ) (name : String) (h : fs.Matches fs') {slots : fs.Slots}
    {slots' : fs'.Slots} (hgiven : fs.given slots = fs'.given slots') :
    Alike (fun a b => fs.given a.1 = fs'.given b.1 ∧ a.2 = b.2)
      (fs.assign readAs otherwise name slots) (fs'.assign readAs' otherwise name slots') := by
  induction h with
  | nil => exact .bind_same otherwise fun _ => .ok ⟨rfl, rfl⟩
  | @cons α β field c c' absent absent' omits rest rest' reads absence h ih =>
    obtain ⟨slot, slots⟩ := slots
    obtain ⟨slot', slots'⟩ := slots'
    obtain ⟨hslot, hslots⟩ := List.cons.inj hgiven
    simp only [Fields.assign]
    by_cases hname : field = name
    · rw [if_pos hname, if_pos hname, hslot]
      by_cases hfull : slot'.isSome = true
      · rw [if_pos hfull, if_pos hfull]
        exact .error _
      · rw [if_neg hfull, if_neg hfull]
        refine .bind (hread reads) fun a b hrest => .ok ⟨?_, hrest⟩
        exact congrArg (true :: ·) hslots
    · rw [if_neg hname, if_neg hname]
      refine .bind (ih hslots) fun a b hmore => .ok ⟨?_, hmore.2⟩
      exact List.cons_eq_cons.mpr ⟨hslot, hmore.1⟩

theorem Matches.readMembers (h : fs.Matches fs') (depth fuel : Nat) (first : Bool)
    {slots : fs.Slots} {slots' : fs'.Slots} (hgiven : fs.given slots = fs'.given slots')
    (cs : List Char) :
    Alike (fun a b => fs.given a.1 = fs'.given b.1 ∧ a.2 = b.2)
      (fs.readMembers depth fuel first slots cs) (fs'.readMembers depth fuel first slots' cs) := by
  induction fuel generalizing first slots slots' cs with
  | zero => exact .error _
  | succ fuel ih =>
    rw [Fields.readMembers, Fields.readMembers]
    refine .bind_same _ fun next => ?_
    cases next with
    | none => exact .ok ⟨hgiven, rfl⟩
    | some r =>
      refine .bind_same _ fun name => .bind (h.assign (fun hc => ?_) _ _ hgiven) ?_
      · exact .bind_same _ fun r => (hc depth r).within _
      · rintro ⟨slots, r⟩ ⟨slots', r'⟩ ⟨hgiven, hrest⟩
        obtain rfl : r = r' := hrest
        exact ih false hgiven r

theorem Matches.readItems (h : fs.Matches fs') (depth index : Nat) (cs : List Char) :
    Alike SameRest (fs.readItems depth index cs) (fs'.readItems depth index cs) := by
  induction h generalizing index cs with
  | nil => exact .ok rfl
  | @cons α β name c c' absent absent' omits rest rest' reads absence h ih =>
    rw [Fields.readItems, Fields.readItems]
    refine .bind_same _ fun next => ?_
    cases next with
    | none =>
      refine .bind (Alike.orMismatch absence).here fun _ _ _ => ?_
      exact .bind (ih index cs) fun _ _ hrest => .ok hrest
    | some r =>
      refine .bind ((reads depth r).within _) ?_
      rintro ⟨a, r⟩ ⟨b, r'⟩ hrest
      obtain rfl : r = r' := hrest
      exact .bind (ih (index + 1) r) fun _ _ hrest => .ok hrest

/-- **The values for absence do not decide what is read**, whether a record stands as an object or
as an array. -/
theorem Matches.readsAlike (h : fs.Matches fs') : fs.codec.ReadsAlike fs'.codec := by
  intro depth cs
  change Alike SameRest (fs.readRecord depth cs) (fs'.readRecord depth cs)
  unfold readRecord
  split
  · exact .error _
  · exact .error _
  · refine .bind (h.readMembers _ _ true h.given_unread _) ?_
    rintro ⟨slots, r⟩ ⟨slots', r'⟩ ⟨hgiven, hrest⟩
    obtain rfl : r = r' := hrest
    exact .bind (h.complete hgiven).here fun _ _ _ => .bind_same _ fun _ => .ok rfl
  · refine .bind (h.readItems _ 0 _) ?_
    rintro ⟨a, r⟩ ⟨b, r'⟩ hrest
    obtain rfl : r = r' := hrest
    exact .bind_same _ fun _ => .ok rfl
  · exact .error _

end Fields

end Compliance.Codec
