import Compliance.Identifier

/-!
# The order of texts is the order of their bytes

Texts are compared by code points.  Other programs compare the same texts by the bytes of their
UTF-8 form, and the two orders agree.

* `Text.bytes` : the UTF-8 form of a text.
* `Text.ByteLT` : the order of texts by those bytes, the first difference deciding.
* `Text.compare_eq_lt_iff` : a text comes before another exactly when its bytes do.
-/

namespace Compliance

namespace Text

/-- The UTF-8 form of a text. -/
def bytes (s : String) : List UInt8 := s.toUTF8.data.toList

/-- The order of texts by their bytes. -/
def ByteLT (s t : String) : Prop := List.Lex (· < ·) (bytes s) (bytes t)

theorem bytes_eq_flatMap (s : String) : bytes s = s.toList.flatMap String.utf8EncodeChar := by
  rw [bytes, String.toUTF8_eq_toByteArray, ← String.utf8Encode_toList, List.utf8Encode,
    List.toList_data_toByteArray]

/-! ### Single characters -/

private theorem lex_cons {m n : Nat} {xs ys : List UInt8} (hn : n < 256) (h : m ≤ n)
    (hr : m = n → List.Lex (· < ·) xs ys) :
    List.Lex (· < ·) (UInt8.ofNat m :: xs) (UInt8.ofNat n :: ys) := by
  rcases Nat.lt_or_eq_of_le h with h | rfl
  · refine .rel ?_
    simpa [UInt8.lt_iff_toNat_lt, Nat.mod_eq_of_lt hn, Nat.mod_eq_of_lt (Nat.lt_trans h hn)] using h
  · exact .cons (hr rfl)

/-- A smaller character has smaller bytes, whatever follows. -/
theorem lex_utf8EncodeChar {c d : Char} (h : c < d) (r r' : List UInt8) :
    List.Lex (· < ·) (String.utf8EncodeChar c ++ r) (String.utf8EncodeChar d ++ r') := by
  have hcd : c.val.toNat < d.val.toNat := h
  have hd : d.val.toNat < 0x110000 := by
    have := d.valid; simp only [UInt32.isValidChar, Nat.isValidChar] at this; omega
  simp only [String.utf8EncodeChar]
  -- forms of one length differ first where the code points do; a longer form has a larger lead
  repeat' split
  all_goals first
    | omega
    | simp only [List.cons_append, List.nil_append]
      repeat refine lex_cons (by omega) (by omega) fun _ => ?_
      exfalso; omega

/-! ### Texts -/

private theorem lex_append_left {xs ys : List UInt8} (p : List UInt8)
    (h : List.Lex (· < ·) xs ys) : List.Lex (· < ·) (p ++ xs) (p ++ ys) := by
  induction p with
  | nil => exact h
  | cons _ _ ih => exact .cons ih

theorem lex_flatMap_utf8EncodeChar {cs ds : List Char} (h : List.Lex (· < ·) cs ds) :
    List.Lex (· < ·) (cs.flatMap String.utf8EncodeChar) (ds.flatMap String.utf8EncodeChar) := by
  induction h with
  | nil =>
    rename_i d ds
    obtain ⟨b, bs, hb⟩ := List.exists_cons_of_ne_nil (String.utf8EncodeChar_ne_nil (c := d))
    simp [hb]
  | rel hcd => exact lex_utf8EncodeChar hcd _ _
  | cons _ ih => exact lex_append_left _ ih

theorem byteLT_of_lex {s t : String} (h : List.Lex (· < ·) s.toList t.toList) : ByteLT s t := by
  rw [ByteLT, bytes_eq_flatMap, bytes_eq_flatMap]
  exact lex_flatMap_utf8EncodeChar h

theorem byteLT_asymm {s t : String} (h : ByteLT s t) : ¬ ByteLT t s :=
  List.lex_asymm (fun h => UInt8.lt_asymm h) h

private theorem compare_eq_lt_iff_lex (s t : String) :
    compare s t = .lt ↔ List.Lex (· < ·) s.toList t.toList :=
  compareOfLessAndEq_eq_lt

/-- A text comes before another exactly when its bytes do. -/
theorem compare_eq_lt_iff (s t : String) : compare s t = .lt ↔ ByteLT s t := by
  refine ⟨fun h => byteLT_of_lex ((compare_eq_lt_iff_lex s t).1 h), fun h => ?_⟩
  cases hc : compare s t with
  | lt => rfl
  | eq =>
    obtain rfl : s = t := Std.LawfulEqOrd.eq_of_compare hc
    exact absurd h (byteLT_asymm h)
  | gt =>
    have hts := (compare_eq_lt_iff_lex t s).1 (Std.OrientedCmp.lt_of_gt hc)
    exact absurd h (byteLT_asymm (byteLT_of_lex hts))

end Text

end Compliance
