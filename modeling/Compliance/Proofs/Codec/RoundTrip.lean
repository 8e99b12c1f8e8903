import Compliance.Codec.Basic
import Compliance.Proofs.Json.Written
import Compliance.Proofs.Table

/-!
# Values read back from their text

A codec reads a value back if its reader, put before the text of the value and anything that may
follow a value, gives the value and what follows.  How deep the reader may go is part of the
statement: each array or object around a value takes one level.

* `Codec.ReadsBack` : a codec reads back one value.
* `Codec.readsBack_string`, `Codec.readsBack_natural`, `Codec.readsBack_choice`, … : the values of
  simple shapes.
* `Codec.ReadsBack.map`, `Codec.ReadsBack.list`, `Codec.ReadsBack.table` : values made from others.
* `Codec.ReadsBack.decode_encode` : reading back a whole text.
-/

namespace Compliance.Codec

open Compliance.Json (Opens Ends)

variable {α β : Type}

/-- The reader, allowed to go `depth` levels deep, takes a value back from its text. -/
structure ReadsBack (c : Codec α) (depth : Nat) (a : α) : Prop where
  opens : Opens (c.write a).renderChars
  read : ∀ rest, Ends rest → c.read depth ((c.write a).renderChars ++ rest) = .ok (a, rest)

/-! ### Scalars -/

theorem opens_quote (s : String) : Opens (Json.quote s) :=
  ⟨'"', _, rfl, rfl, by decide, by decide⟩

theorem readString_quote (s : String) (r : List Char) :
    readString (Json.quote s ++ r) = .ok (s, r) := by
  obtain ⟨cs, hquote, hread⟩ := Json.readString_quote s r
  have hskip : Json.skipSpace ('"' :: cs) = '"' :: cs := rfl
  rw [hquote, readString, hskip]
  simp only [hread, ok_bind, String.ofList_toList]
  rfl

theorem readsBack_string (depth : Nat) (s : String) : string.ReadsBack depth s where
  opens := opens_quote s
  read rest _ := readString_quote s rest

theorem readsBack_parsed {parse : String → Except Fault α} {print : α → String} {a : α}
    (h : parse (print a) = .ok a) (depth : Nat) : (parsed parse print).ReadsBack depth a where
  opens := opens_quote (print a)
  read rest _ := by
    have hread := readString_quote (print a) rest
    simp only [parsed, Json.renderChars, hread, h, ok_bind, here_ok]
    rfl

theorem readsBack_choice {name : α → String} {named : String → Option α} {a : α}
    (h : named (name a) = some a) (depth : Nat) : (choice name named).ReadsBack depth a where
  opens := opens_quote (name a)
  read rest _ := by
    obtain ⟨cs, hquote, hread⟩ := Json.readString_quote (name a) rest
    have hskip : Json.skipSpace ('"' :: cs) = '"' :: cs := rfl
    simp only [choice, Json.renderChars, hquote, hskip, hread, String.ofList_toList, h, orMismatch,
      ok_bind]
    rfl

theorem readsBack_natural {bound n : Nat} (hn : n < bound) (hbound : bound ≤ 0x10000000000000000)
    (depth : Nat) : (natural bound).ReadsBack depth n := by
  obtain ⟨d, ds, htext, hd⟩ := Json.exists_toList_toString n
  have hopens : Opens (toString n).toList := htext ▸ Json.opens_of_isDigit hd ds
  refine ⟨hopens, fun rest hrest => ?_⟩
  have hread := Json.readNumber_toString n (by omega) hrest
  have hskip := (hopens.append rest).skipSpace_eq
  have hhead : ((toString n).toList ++ rest).head?.any (fun c => c == '-' || c.isDigit) = true := by
    rw [htext]
    simp [hd]
  show (natural bound).read depth ((toString n).toList ++ rest) = .ok (n, rest)
  simp only [natural, hskip, hhead, if_true, hread, ok_bind, if_pos hn]
  rfl

/-! ### Values made from others -/

theorem ReadsBack.map {c : Codec α} {forth : α → β} {back : β → α} {depth : Nat} {b : β}
    (hb : c.ReadsBack depth (back b)) (h : forth (back b) = b) :
    (c.map forth back).ReadsBack depth b where
  opens := hb.opens
  read rest hrest := by
    have hread := hb.read rest hrest
    simp only [Codec.map, hread, ok_bind, h]
    rfl

theorem ReadsBack.some {c : Codec α} {depth : Nat} {a : α} (ha : c.ReadsBack depth a) :
    (nullable c).ReadsBack depth (some a) where
  opens := ha.opens
  read rest hrest := by
    have hread := ha.read rest hrest
    obtain ⟨d, r, htext, hspace, -, hnull⟩ := ha.opens
    rw [htext] at hread
    have hskip : Json.skipSpace (d :: (r ++ rest)) = d :: (r ++ rest) :=
      Json.skipSpace_cons hspace (r ++ rest)
    simp only [nullable, htext, List.cons_append, hskip]
    split
    case h_1 heq => exact absurd (List.cons.inj heq).1 hnull
    case h_2 =>
      simp only [List.cons_append] at hread
      simp only [hread, ok_bind]
      rfl

/-- The items of a list are read back from any of them on. -/
theorem readItems_itemsFrom {c : Codec α} {depth : Nat} {as : List α}
    (h : ∀ a ∈ as, c.ReadsBack depth a) (rest : List Char) (fuel index : Nat)
    (hfuel : as.length < fuel) :
    readItems (c.read depth) fuel index (Json.itemsFrom (index = 0) (as.map c.write) ++ rest) =
      .ok (as, rest) := by
  induction as generalizing fuel index with
  | nil =>
    obtain ⟨fuel, rfl⟩ := Nat.exists_eq_succ_of_ne_zero (by omega : fuel ≠ 0)
    have hclose : Json.close ']' (']' :: rest) = .ok rest := Json.close_cons rfl rest
    simp only [List.map_nil, Json.itemsFrom, List.cons_append, List.nil_append, readItems,
      Json.nextItem_close, here_ok, ok_bind, hclose]
    rfl
  | cons a as ih =>
    obtain ⟨fuel, rfl⟩ := Nat.exists_eq_succ_of_ne_zero (by omega : fuel ≠ 0)
    have ha := h a (List.mem_cons_self ..)
    have hnext := Json.nextItem_itemsFrom (index = 0) ha.opens (as.map c.write) rest
    have hread := ha.read _ (Json.ends_itemsFrom (as.map c.write) rest)
    have hrest := ih (fun b hb => h b (List.mem_cons_of_mem a hb)) fuel (index + 1)
      (by simpa using hfuel)
    have hindex : decide (index + 1 = 0) = false := by simp
    rw [hindex] at hrest
    simp only [List.map_cons, readItems, hnext, here_ok, ok_bind, hread, within_ok, hrest]
    rfl

/-- **A list is read back** one level deeper than its items. -/
theorem ReadsBack.list {c : Codec α} {depth : Nat} {as : List α}
    (h : ∀ a ∈ as, c.ReadsBack depth a) : (list c).ReadsBack (depth + 1) as where
  opens := ⟨'[', _, rfl, rfl, by decide, by decide⟩
  read rest _ := by
    have hlength := Json.length_le_length_renderItems (as.map c.write)
    have hitems := readItems_itemsFrom h rest
      ((Json.renderItems (as.map c.write) ++ rest).length + 1) 0
      (by simp only [List.length_append, List.length_map] at hlength ⊢; omega)
    have hskip (r : List Char) : Json.skipSpace ('[' :: r) = '[' :: r := rfl
    simp only [decide_true, ← Json.renderItems_eq] at hitems
    simp only [Codec.list, Json.renderChars, List.cons_append, hskip, hitems]

theorem readMembers_membersFrom {c : Codec α} {depth : Nat} {es : List (String × α)}
    (h : ∀ e ∈ es, c.ReadsBack depth e.2) (rest : List Char) (fuel : Nat) (first : Bool)
    (hfuel : es.length < fuel) :
    readMembers (c.read depth) fuel first
        (Json.membersFrom first (es.map fun (name, a) => (name, c.write a)) ++ rest) =
      .ok (es, rest) := by
  induction es generalizing fuel first with
  | nil =>
    obtain ⟨fuel, rfl⟩ := Nat.exists_eq_succ_of_ne_zero (by omega : fuel ≠ 0)
    rfl
  | cons e es ih =>
    obtain ⟨fuel, rfl⟩ := Nat.exists_eq_succ_of_ne_zero (by omega : fuel ≠ 0)
    obtain ⟨name, a⟩ := e
    obtain ⟨ha, hes⟩ := List.forall_mem_cons.mp h
    let ms := es.map fun (name, a) => (name, c.write a)
    obtain ⟨cs, hnext, hname⟩ := Json.nextName_membersFrom first name (c.write a) ms rest
    have hread := ha.read _ (Json.ends_membersFrom ms rest)
    have hmore := ih hes fuel false (by simpa using hfuel)
    simp only [List.map_cons, readMembers, ms, hnext, here_ok, ok_bind, hname, Json.colon_cons,
      hread, within_ok, hmore, String.ofList_toList]
    rfl

/-- **A table is read back** one level deeper than its values. -/
theorem ReadsBack.table {c : Codec α} {depth : Nat} {t : Table String α}
    (h : ∀ e ∈ t.entries, c.ReadsBack depth e.2) : (table c).ReadsBack (depth + 1) t where
  opens := ⟨'\x7b', _, rfl, rfl, by decide, by decide⟩
  read rest _ := by
    let ms := t.entries.map fun (name, a) => (name, c.write a)
    have hlength := Json.length_le_length_membersFrom true ms
    have hmembers := readMembers_membersFrom h rest
      ((Json.membersFrom true ms ++ rest).length + 1) true
      (by simp only [ms, List.length_append, List.length_map] at hlength ⊢; omega)
    have hskip (r : List Char) : Json.skipSpace ('\x7b' :: r) = '\x7b' :: r := rfl
    simp only [Codec.table, Json.renderChars, Json.renderMembers_eq, List.cons_append, hskip]
    rw [hmembers, ok_bind, Table.ofList_entries]
    rfl

/-! ### Whole texts -/

/-- **A value is decoded from its text.** -/
theorem ReadsBack.decode_encode {c : Codec α} {a : α} (h : c.ReadsBack Json.maxDepth a) :
    c.decode (c.encode a) = .ok a := by
  have hread := h.read [] Json.ends_nil
  rw [List.append_nil] at hread
  rw [decode, encode, Json.render, String.toList_ofList, hread]
  rfl

theorem ReadsBack.decodeFront_encode {c : Codec α} {a : α} (h : c.ReadsBack Json.maxDepth a) :
    c.decodeFront (c.encode a) = .ok a := by
  have hread := h.read [] Json.ends_nil
  rw [List.append_nil] at hread
  rw [decodeFront, encode, Json.render, String.toList_ofList, hread]
  rfl

end Compliance.Codec
