import Compliance.Proofs.WireType
import Mathlib.Data.List.TakeWhile

/-!
# Texts with blanks around them

An identifier is made from a text without the blanks around it, whether it is made by the program or
read from a document.  So two texts that are paddings of one make the same identifier, and an
identifier's own text makes the identifier again.

* `Text.Pads` : a text with blanks before and after it.
* `Text.trim_eq_empty_iff` : what is trimmed to nothing is blank throughout.
* `Text.trim_eq_trim_iff` : texts are the same once trimmed exactly if both pad one text.
* `Identifier.ofText_congr` : such texts make the same identifier, or both make none.
* `Identifier.ofText_text` : identifiers are fixed points.
* `Identifier.decode_eq_ok_iff_ofText`, `Identifier.decodeYaml_eq_ok_iff_ofText` : the readers
  accept what can be made from the text that they read.
* `IdentifierKind.ignoresPadding` : all this, for each kind of identifier.
-/

namespace Compliance

open Compliance.Text (trim isBlank)

namespace Text

/-! ### Padding -/

/-- The second text is the first with blanks before and after it. -/
def Pads (s t : String) : Prop :=
  ∃ front back : List Char, (∀ c ∈ front, isBlank c) ∧ (∀ c ∈ back, isBlank c) ∧
    t.toList = front ++ s.toList ++ back

theorem trimStart_of_blank {cs : List Char} (h : ∀ c ∈ cs, isBlank c) : trimStart cs = [] :=
  List.dropWhile_eq_nil_iff.mpr h

theorem trimStart_append_of_blank {front cs : List Char} (h : ∀ c ∈ front, isBlank c) :
    trimStart (front ++ cs) = trimStart cs :=
  List.dropWhile_append_of_pos h

theorem trimEnd_append_of_blank {cs back : List Char} (h : ∀ c ∈ back, isBlank c) :
    trimEnd (cs ++ back) = trimEnd cs := by
  have hreverse : ∀ c ∈ back.reverse, isBlank c := fun c hc => h c (List.mem_reverse.mp hc)
  rw [trimEnd, List.reverse_append, List.dropWhile_append_of_pos hreverse, ← trimEnd]

/-- **Padding is trimmed off.** -/
theorem Pads.trim_eq {s t : String} (h : Pads s t) : trim t = trim s := by
  obtain ⟨front, back, hfront, hback, ht⟩ := h
  rw [trim, ht, List.append_assoc, trimStart_append_of_blank hfront, trim]
  congr 1
  by_cases hs : ∀ c ∈ s.toList, isBlank c
  · -- nothing is left of a blank text, and nothing of the blanks behind it
    rw [trimStart_append_of_blank hs, trimStart_of_blank hback, trimStart_of_blank hs]
  · have hstart : trimStart (s.toList ++ back) = trimStart s.toList ++ back := by
      have hne : trimStart s.toList ≠ [] := fun hnil => hs (List.dropWhile_eq_nil_iff.mp hnil)
      rw [trimStart] at hne
      rw [trimStart, List.dropWhile_append, if_neg (by simpa using hne), ← trimStart]
    rw [hstart, trimEnd_append_of_blank hback]

theorem pads_trim (s : String) : Pads (trim s) s := by
  obtain ⟨back, hback, hblank⟩ := exists_eq_trimEnd_append (trimStart s.toList)
  refine ⟨s.toList.takeWhile isBlank, back, ?_, hblank, ?_⟩
  · intro c hc
    exact List.all_eq_true.mp List.all_takeWhile c hc
  · rw [trim, String.toList_ofList, List.append_assoc, ← hback]
    exact List.takeWhile_append_dropWhile.symm

theorem trim_eq_empty_iff {s : String} : trim s = "" ↔ ∀ c ∈ s.toList, isBlank c := by
  constructor
  · intro h
    obtain ⟨front, back, hfront, hback, hs⟩ := pads_trim s
    rw [h, String.toList_empty, List.append_nil] at hs
    rw [hs]
    intro c hc
    exact (List.mem_append.mp hc).elim (hfront c) (hback c)
  · intro h
    rw [trim, trimStart_of_blank h]
    rfl

/-- Texts are the same once trimmed exactly if they are paddings of one text. -/
theorem trim_eq_trim_iff {s t : String} : trim s = trim t ↔ ∃ core, Pads core s ∧ Pads core t := by
  constructor
  · intro h
    exact ⟨trim s, pads_trim s, h ▸ pads_trim t⟩
  · rintro ⟨core, hs, ht⟩
    rw [hs.trim_eq, ht.trim_eq]

end Text

namespace Identifier

variable {kind : IdentifierKind} {s t : String} {a : Identifier kind}

/-! ### Identifiers of texts -/

theorem ofText_eq_ok_iff : ofText kind s = .ok a ↔ trim s ≠ "" ∧ a.text = trim s := by
  rw [← ofText?_eq_some_iff, ofText]
  cases ofText? kind s <;> simp

theorem text_of_ofText (h : ofText kind s = .ok a) : a.text = trim s :=
  (ofText_eq_ok_iff.mp h).2

theorem exists_ofText (kind : IdentifierKind) (h : trim s ≠ "") :
    ∃ a : Identifier kind, ofText kind s = .ok a :=
  ⟨⟨trim s, Text.trim_trim s, h⟩, ofText_eq_ok_iff.mpr ⟨h, rfl⟩⟩

/-- **Identifiers are fixed points.** -/
@[simp] theorem ofText_text (a : Identifier kind) : ofText kind a.text = .ok a := by
  rw [ofText, ofText?_text]

@[simp] theorem ofText_trim (kind : IdentifierKind) (s : String) :
    ofText kind (trim s) = ofText kind s := by
  simp only [ofText, ofText?, Text.trim_trim]

/-- **Texts that differ in the blanks around them have the same identifier**, or none for the same
reason. -/
theorem ofText_congr (kind : IdentifierKind) (h : trim s = trim t) :
    ofText kind s = ofText kind t := by
  rw [← ofText_trim, h, ofText_trim]

/-! ### Identifiers in documents -/

theorem decode_eq_ok_iff_ofText {text : String} :
    (Identifier.codec kind).decode text = .ok a ↔
      ∃ s, Codec.string.decode text = .ok s ∧ ofText kind s = .ok a := by
  simp only [decode_eq_ok_iff, ofText_eq_ok_iff]

theorem read_eq_ok_iff_ofText :
    (match ofText? kind s with
      | some a => .ok a
      | none => .error (.blankIdentifier kind) : Except Codec.Fault (Identifier kind)) = .ok a ↔
      ofText kind s = .ok a := by
  rw [ofText]
  cases ofText? kind s <;> simp

theorem decodeYaml_eq_ok_iff_ofText {text : String} :
    (Identifier.codec kind).decodeYaml text = .ok a ↔
      ∃ s, Codec.string.decodeYaml text = .ok s ∧ ofText kind s = .ok a := by
  rw [Identifier.codec, Codec.decodeYaml_parsed_eq_ok_iff]
  exact exists_congr fun s => and_congr_right fun _ => read_eq_ok_iff_ofText

end Identifier

/-! ### Identifiers of one kind -/

/-- Identifiers of a kind take no notice of blanks, wherever they come from. -/
structure IdentifierKind.IgnoresPadding (kind : IdentifierKind) : Prop where
  /-- Texts that differ in blanks alone have the same identifier, or both have none. -/
  made : ∀ s t, trim s = trim t → Identifier.ofText kind s = Identifier.ofText kind t
  /-- In a document there is an identifier where there is a string that has it. -/
  decoded : ∀ text (a : Identifier kind), (Identifier.codec kind).decode text = .ok a ↔
    ∃ s, Codec.string.decode text = .ok s ∧ Identifier.ofText kind s = .ok a
  decodedYaml : ∀ text (a : Identifier kind), (Identifier.codec kind).decodeYaml text = .ok a ↔
    ∃ s, Codec.string.decodeYaml text = .ok s ∧ Identifier.ofText kind s = .ok a
  /-- An identifier's own text has that identifier. -/
  fixed : ∀ a : Identifier kind, Identifier.ofText kind a.text = .ok a

theorem IdentifierKind.ignoresPadding (kind : IdentifierKind) : kind.IgnoresPadding where
  made _ _ := Identifier.ofText_congr kind
  decoded _ _ := Identifier.decode_eq_ok_iff_ofText
  decodedYaml _ _ := Identifier.decodeYaml_eq_ok_iff_ofText
  fixed := Identifier.ofText_text

end Compliance
