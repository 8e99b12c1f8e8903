import Compliance.Net.IpAddress
import Compliance.Proofs.Text.Digit
import Mathlib.Algebra.Group.Nat.Defs
import Mathlib.Data.List.Induction
import Mathlib.Data.List.TakeWhile

/-!
# The text of an address is read back

The text of a version 6 address leaves out zeros and is still read as the address: the reader finds
the groups before the gap, those after it, and how many are missing between them.

* `Text.hexadecimalValue?_toDigits`, `Text.hexadecimalValue?_lt` : numbers in hexadecimal digits.
* `IpAddress.groups_append` : groups set off by colons are read as themselves.
* `IpAddress.eq_of_longestZeros` : the groups that the text of an address leaves out are zeros.
* `IpAddress.readV6?_gap`, `IpAddress.readV6?_v6Text` : the text of eight groups is read as these
  groups, with a gap or without.
* `IpAddress.IsGroups`, `IpAddress.isGroups_of_readV6?` : what is read are eight groups.
-/

namespace Compliance

/-! ### Hexadecimal digits -/

namespace Text

theorem hexValue?_digitChar : ∀ d < 16, hexValue? (Nat.digitChar d) = some d := by
  decide

theorem hexValue?_lt {c : Char} {v : Nat} (h : hexValue? c = some v) : v < 16 := by
  have hle : ∀ a b : Char, a ≤ b → a.toNat ≤ b.toNat := fun a b hab => hab
  unfold hexValue? at h
  split at h
  case isTrue hc =>
    have := hle _ _ hc.2
    simp at h this
    omega
  split at h
  case isTrue hc =>
    have := hle _ _ hc.2
    simp at h this
    omega
  split at h
  case isTrue hc =>
    have := hle _ _ hc.2
    simp at h this
    omega
  cases h

theorem hexadecimalValue?_concat (ds : List Char) (d : Char) :
    hexadecimalValue? (ds ++ [d]) = do
      let n ← hexadecimalValue? ds
      let v ← hexValue? d
      return 16 * n + v := by
  unfold hexadecimalValue?
  rw [List.mapM_append]
  cases ds.mapM hexValue? with
  | none => rfl
  | some vs => cases hd : hexValue? d <;> simp [hd]

theorem hexadecimalValue?_toDigits (n : Nat) : hexadecimalValue? (Nat.toDigits 16 n) = some n := by
  induction n using Nat.strongRecOn with
  | _ n ih =>
    rw [Nat.toDigits_eq_if (by decide)]
    split
    case isTrue h => simp [hexadecimalValue?, hexValue?_digitChar n h]
    case isFalse h =>
      rw [hexadecimalValue?_concat, ih (n / 16) (by omega),
        hexValue?_digitChar (n % 16) (Nat.mod_lt n (by decide))]
      simp only [Option.bind_eq_bind, Option.bind_some, Option.pure_def, Option.some.injEq]
      omega

theorem hexadecimalValue?_lt {ds : List Char} {n : Nat} (h : hexadecimalValue? ds = some n) :
    n < 16 ^ ds.length := by
  induction ds using List.reverseRecOn generalizing n with
  | nil =>
    obtain rfl : 0 = n := by simpa [hexadecimalValue?] using h
    decide
  | append_singleton ds d ih =>
    rw [hexadecimalValue?_concat] at h
    simp only [Option.bind_eq_bind, Option.bind_eq_some_iff, Option.pure_def,
      Option.some.injEq] at h
    obtain ⟨m, hm, v, hv, rfl⟩ := h
    have hm := ih hm
    have hv := hexValue?_lt hv
    rw [List.length_append, List.length_singleton, Nat.pow_succ]
    omega

theorem isSome_hexValue?_of_mem_toDigits {n : Nat} {c : Char} (h : c ∈ Nat.toDigits 16 n) :
    (hexValue? c).isSome := by
  induction n using Nat.strongRecOn with
  | _ n ih =>
    rw [Nat.toDigits_eq_if (by decide)] at h
    split at h
    case isTrue hn =>
      rw [List.mem_singleton.mp h, hexValue?_digitChar n hn]
      rfl
    case isFalse hn =>
      rcases List.mem_append.mp h with h | h
      · exact ih (n / 16) (by omega) h
      · rw [List.mem_singleton.mp h, hexValue?_digitChar _ (Nat.mod_lt n (by decide))]
        rfl

end Text

namespace Net

namespace IpAddress

open Compliance.Text

/-! ### Groups -/

/-- Groups in digits, each after a colon. -/
def marked (gs : List Nat) : List Char :=
  gs.flatMap fun g => ':' :: Nat.toDigits 16 g

theorem toList_groupsText_cons (g : Nat) (gs : List Nat) :
    (groupsText (g :: gs)).toList = Nat.toDigits 16 g ++ marked gs := by
  rw [groupsText, String.toList_intercalate]
  induction gs generalizing g with
  | nil => simp [marked]
  | cons g' gs ih =>
    have hih := ih g'
    simp only [List.map_cons] at hih ⊢
    rw [List.intercalate_cons_cons, hih]
    simp [marked]

theorem toList_groupsText_nil : (groupsText []).toList = [] := by
  simp [groupsText]

/-- The characters of groups. -/
def InGroups (c : Char) : Prop := c = ':' ∨ (hexValue? c).isSome

theorem inGroups_of_mem_marked {gs : List Nat} {c : Char} (h : c ∈ marked gs) : InGroups c := by
  obtain ⟨g, -, hc⟩ := List.mem_flatMap.mp h
  rcases List.mem_cons.mp hc with rfl | hc
  · exact .inl rfl
  · exact .inr (isSome_hexValue?_of_mem_toDigits hc)

theorem inGroups_of_mem_groupsText {gs : List Nat} {c : Char} (h : c ∈ (groupsText gs).toList) :
    InGroups c := by
  cases gs with
  | nil =>
    rw [toList_groupsText_nil] at h
    cases h
  | cons g gs =>
    rw [toList_groupsText_cons] at h
    rcases List.mem_append.mp h with h | h
    · exact .inr (isSome_hexValue?_of_mem_toDigits h)
    · exact inGroups_of_mem_marked h

theorem ne_dot_of_inGroups {c : Char} (h : InGroups c) : c ≠ '.' := by
  rintro rfl
  rcases h with h | h <;> revert h <;> decide

theorem octets_eq_none {cs : List Char} (h : ∀ c ∈ cs, c ≠ '.') : octets cs = none := by
  unfold octets
  cases hoctet : octet cs with
  | none => rfl
  | some found =>
    obtain ⟨a, r⟩ := found
    have hr : mark '.' r = none := by
      have hsub : ∀ c ∈ r, c ∈ cs := by
        dsimp only [octet] at hoctet
        split at hoctet
        · cases hoctet
        · obtain ⟨-, rfl⟩ := Prod.mk.inj (Option.some.inj hoctet)
          exact fun c hc => List.mem_of_mem_drop hc
      cases r with
      | nil => rfl
      | cons c r => exact if_neg (h c (hsub c (List.mem_cons_self ..)))
    simp [hr]

theorem group_append {g : Nat} (hg : g < 0x10000) {r : List Char}
    (hr : ∀ c, r.head? = some c → hexValue? c = none) :
    group (Nat.toDigits 16 g ++ r) = some (g, r) := by
  have hdigits : (Nat.toDigits 16 g ++ r).takeWhile (fun c => (hexValue? c).isSome) =
      Nat.toDigits 16 g := by
    refine takeWhile_run (fun c => isSome_hexValue?_of_mem_toDigits) fun c hc => ?_
    rw [hr c hc]
    rfl
  have hlength : (Nat.toDigits 16 g).length ≤ 4 :=
    (Nat.length_toDigits_le_iff (by decide) (by decide)).mpr hg
  dsimp only [group]
  rw [hdigits, List.drop_left]
  simp [Nat.toDigits_ne_nil, Nat.not_lt.mpr hlength, hexadecimalValue?_toDigits]

/-- What may follow groups: nothing, or a gap. -/
def Closes (r : List Char) : Prop := r = [] ∨ ∃ r', r = ':' :: ':' :: r'

theorem groups_of_closes {r : List Char} (h : Closes r) (room : Nat) :
    groups room false r = ([], false, r) := by
  cases room with
  | zero => rfl
  | succ room =>
    rcases h with rfl | ⟨r', rfl⟩
    · rfl
    · have hoctets : octets (':' :: r') = none := rfl
      have hgroup : group (':' :: r') = none := rfl
      simp [groups, mark, hoctets, hgroup]

theorem head?_marked_append {gs : List Nat} {r : List Char} (hr : Closes r) :
    ∀ c, (marked gs ++ r).head? = some c → hexValue? c = none := by
  intro c hc
  have hcolon : ∀ c' : Char, some ':' = some c' → hexValue? c' = none := by
    rintro c' heq
    cases heq
    rfl
  cases gs with
  | nil =>
    rcases hr with rfl | ⟨r', rfl⟩
    · cases hc
    · exact hcolon c hc
  | cons g gs => exact hcolon c hc

/-- A first group and others after colons are read as themselves. -/
theorem groups_toDigits_append {room : Nat} {isFirst : Bool} {g : Nat} {gs : List Nat}
    {start r : List Char} (hg : g < 0x10000) (hr : Closes r) (hdots : ∀ c ∈ r, c ≠ '.')
    (hstart : (if isFirst then some start else mark ':' start) =
      some (Nat.toDigits 16 g ++ (marked gs ++ r)))
    (hgs : groups room false (marked gs ++ r) = (gs, false, r)) :
    groups (room + 1) isFirst start = (g :: gs, false, r) := by
  have hnone : octets (Nat.toDigits 16 g ++ (marked gs ++ r)) = none := by
    refine octets_eq_none fun c hc => ?_
    rcases List.mem_append.mp hc with hc | hc
    · exact ne_dot_of_inGroups (.inr (isSome_hexValue?_of_mem_toDigits hc))
    rcases List.mem_append.mp hc with hc | hc
    · exact ne_dot_of_inGroups (inGroups_of_mem_marked hc)
    · exact hdots c hc
  rw [groups, hstart]
  simp only [hnone, ite_self, group_append hg (head?_marked_append hr), hgs]

theorem groups_marked_append {room : Nat} {gs : List Nat} {r : List Char}
    (hlength : gs.length ≤ room) (hgs : ∀ g ∈ gs, g < 0x10000) (hr : Closes r)
    (hdots : ∀ c ∈ r, c ≠ '.') : groups room false (marked gs ++ r) = (gs, false, r) := by
  induction gs generalizing room with
  | nil => exact groups_of_closes hr room
  | cons g gs ih =>
    obtain ⟨hg, hgs⟩ := List.forall_mem_cons.mp hgs
    obtain ⟨room, rfl⟩ : ∃ m, room = m + 1 := ⟨room - 1, by simp at hlength; omega⟩
    refine groups_toDigits_append hg hr hdots ?_ (ih (by simpa using hlength) hgs)
    simp [marked, mark]

/-- **Groups set off by colons are read as themselves**, as far as there is room for them. -/
theorem groups_append {room : Nat} {gs : List Nat} {r : List Char} (hlength : gs.length ≤ room)
    (hgs : ∀ g ∈ gs, g < 0x10000) (hr : Closes r) (hdots : ∀ c ∈ r, c ≠ '.') :
    groups room true ((groupsText gs).toList ++ r) = (gs, false, r) := by
  cases gs with
  | nil =>
    rw [toList_groupsText_nil, List.nil_append]
    cases room with
    | zero => rfl
    | succ room =>
      have hgroup : group r = none := by
        rcases hr with rfl | ⟨r', rfl⟩ <;> rfl
      simp [groups, octets_eq_none hdots, hgroup]
  | cons g gs =>
    obtain ⟨hg, hgs⟩ := List.forall_mem_cons.mp hgs
    obtain ⟨room, rfl⟩ : ∃ m, room = m + 1 := ⟨room - 1, by simp at hlength; omega⟩
    rw [toList_groupsText_cons, List.append_assoc]
    exact groups_toDigits_append hg hr hdots rfl
      (groups_marked_append (by simpa using hlength) hgs hr hdots)

/-! ### Gaps -/

/-- **What is left out are zeros.** -/
theorem eq_of_longestZeros {gs : List Nat} {zeros after : Nat}
    (h : longestZeros gs = (zeros, after)) :
    zeros + after ≤ gs.length ∧
      gs = gs.take (gs.length - after - zeros) ++
        (List.replicate zeros 0 ++ gs.drop (gs.length - after)) := by
  induction gs generalizing zeros after with
  | nil =>
    cases h
    exact ⟨Nat.le_refl _, rfl⟩
  | cons g gs ih =>
    simp only [longestZeros] at h
    split at h
    case isTrue =>
      obtain ⟨rfl, rfl⟩ := Prod.mk.inj h
      -- the run is at the front
      have hle : ((g :: gs).takeWhile (· == 0)).length ≤ (g :: gs).length :=
        (List.takeWhile_prefix _).length_le
      have hrun : (g :: gs).takeWhile (· == 0) =
          List.replicate ((g :: gs).takeWhile (· == 0)).length 0 := by
        refine List.eq_replicate_iff.mpr ⟨rfl, fun n hn => ?_⟩
        simpa using List.mem_takeWhile_imp hn
      generalize hn : ((g :: gs).takeWhile (· == 0)).length = n at hle hrun ⊢
      rw [List.length_cons] at hle ⊢
      have hafter : gs.length + 1 - (gs.length + 1 - n) = n := by omega
      rw [hafter, Nat.sub_self, List.take_zero, List.nil_append]
      refine ⟨by omega, ?_⟩
      have hsplit : (g :: gs).takeWhile (· == 0) ++ (g :: gs).dropWhile (· == 0) = g :: gs :=
        List.takeWhile_append_dropWhile
      have hdrop : (g :: gs).drop n = (g :: gs).dropWhile (· == 0) := by
        conv_lhs => rw [← hsplit, ← hn, List.drop_left]
      rw [← hrun, hdrop, hsplit]
    case isFalse =>
      obtain ⟨hle, heq⟩ := ih (Prod.ext (Prod.mk.inj h).1 (Prod.mk.inj h).2)
      rw [List.length_cons]
      have htake : gs.length + 1 - after - zeros = gs.length - after - zeros + 1 := by omega
      have hdrop : gs.length + 1 - after = gs.length - after + 1 := by omega
      refine ⟨by omega, ?_⟩
      rw [htake, hdrop, List.take_succ_cons, List.drop_succ_cons, List.cons_append, ← heq]

/-! ### Addresses -/

/-- The groups of an address. -/
structure IsGroups (gs : List Nat) : Prop where
  length : gs.length = 8
  lt : ∀ g ∈ gs, g < 0x10000

theorem inGroups_of_mem_v6Text {gs : List Nat} {c : Char} (h : c ∈ (v6Text gs).toList) :
    InGroups c := by
  simp only [v6Text] at h
  split at h
  · exact inGroups_of_mem_groupsText h
  · simp only [String.toList_append, List.mem_append] at h
    rcases h with (h | h) | h
    · exact inGroups_of_mem_groupsText h
    · left
      simpa using h
    · exact inGroups_of_mem_groupsText h

theorem readV6?_groupsText {gs : List Nat} (h : IsGroups gs) :
    readV6? (groupsText gs).toList = some gs := by
  have hread := groups_append (Nat.le_of_eq h.length) h.lt (.inl rfl) (r := [])
    (fun c hc => by cases hc)
  rw [List.append_nil] at hread
  simp [readV6?, eightGroups, hread, h.length]

/-- Zeros are read for a gap between groups. -/
theorem readV6?_gap {front back : List Nat} (hlength : front.length + back.length < 8)
    (hfront : ∀ g ∈ front, g < 0x10000) (hback : ∀ g ∈ back, g < 0x10000) :
    readV6? (groupsText front ++ "::" ++ groupsText back).toList =
      some (front ++ (List.replicate (8 - front.length - back.length) 0 ++ back)) := by
  -- the reader stops at the gap, and starts anew after it
  have hreadFront : groups 8 true
      ((groupsText front).toList ++ ':' :: ':' :: (groupsText back).toList) =
        (front, false, ':' :: ':' :: (groupsText back).toList) := by
    refine groups_append (by omega) hfront (.inr ⟨_, rfl⟩) fun c hc => ?_
    rcases List.mem_cons.mp hc with rfl | hc
    · decide
    rcases List.mem_cons.mp hc with rfl | hc
    · decide
    · exact ne_dot_of_inGroups (inGroups_of_mem_groupsText hc)
  have hreadBack : groups (7 - front.length) true (groupsText back).toList =
      (back, false, []) := by
    have hread : groups (7 - front.length) true ((groupsText back).toList ++ []) =
        (back, false, []) :=
      groups_append (by omega) hback (.inl rfl) fun c hc => by cases hc
    rwa [List.append_nil] at hread
  have htext : (groupsText front ++ "::" ++ groupsText back).toList =
      (groupsText front).toList ++ ':' :: ':' :: (groupsText back).toList := by
    simp
  have hne : front.length ≠ 8 := by omega
  simp only [readV6?, eightGroups, htext, hreadFront, hreadBack, if_neg hne]
  simp

/-- **The text of an address is read as the address.** -/
theorem readV6?_v6Text {gs : List Nat} (h : IsGroups gs) :
    readV6? (v6Text gs).toList = some gs := by
  simp only [v6Text]
  split
  case isTrue => exact readV6?_groupsText h
  case isFalse hzeros =>
    obtain ⟨hlength, hlt⟩ := h
    obtain ⟨hle, heq⟩ := eq_of_longestZeros (show longestZeros gs = _ from rfl)
    generalize (longestZeros gs).1 = zeros at *
    generalize (longestZeros gs).2 = after at *
    generalize hfront : gs.take (gs.length - after - zeros) = front at *
    generalize hback : gs.drop (gs.length - after) = back at *
    have hfrontLength : front.length = 8 - after - zeros := by
      rw [← hfront, List.length_take]
      omega
    have hbackLength : back.length = after := by
      rw [← hback, List.length_drop]
      omega
    have hgap : 8 - front.length - back.length = zeros := by omega
    rw [readV6?_gap (by omega) (fun g hg => hlt g (List.mem_of_mem_take (hfront ▸ hg)))
      (fun g hg => hlt g (List.mem_of_mem_drop (hback ▸ hg))), hgap, ← heq]

/-! ### What is read -/

theorem group_lt {cs r : List Char} {g : Nat} (h : group cs = some (g, r)) : g < 0x10000 := by
  dsimp only [group] at h
  split at h
  · cases h
  case isFalse hdigits =>
    simp only [Bool.or_eq_true, decide_eq_true_eq, not_or] at hdigits
    simp only [Option.bind_eq_bind, Option.bind_eq_some_iff, Option.pure_def, Option.some.injEq,
      Prod.mk.injEq] at h
    obtain ⟨n, hn, rfl, -⟩ := h
    calc n < 16 ^ _ := hexadecimalValue?_lt hn
      _ ≤ 16 ^ 4 := Nat.pow_le_pow_right (by decide) (by omega)

theorem octet_lt {cs r : List Char} {n : Nat} (h : octet cs = some (n, r)) : n < 256 := by
  dsimp only [octet] at h
  split at h
  · cases h
  case isFalse hdigits =>
    simp only [Bool.or_eq_true, decide_eq_true_eq, not_or] at hdigits
    obtain ⟨rfl, -⟩ := Prod.mk.inj (Option.some.inj h)
    omega

theorem octets_lt {cs r : List Char} {a b c d : Nat} (h : octets cs = some ((a, b, c, d), r)) :
    a < 256 ∧ b < 256 ∧ c < 256 ∧ d < 256 := by
  simp only [octets, Option.bind_eq_bind, Option.bind_eq_some_iff, Option.pure_def,
    Option.some.injEq, Prod.mk.injEq, Prod.exists] at h
  obtain ⟨a', _, ha, _, _, b', _, hb, _, _, c', _, hc, _, _, d', _, hd,
    ⟨rfl, rfl, rfl, rfl⟩, _⟩ := h
  exact ⟨octet_lt ha, octet_lt hb, octet_lt hc, octet_lt hd⟩

/-- No more groups are read than there is room for, and each fits into sixteen bits. -/
theorem groups_spec (room : Nat) (isFirst : Bool) (cs : List Char) :
    (groups room isFirst cs).1.length ≤ room ∧ ∀ g ∈ (groups room isFirst cs).1, g < 0x10000 := by
  have hnone : ([] : List Nat).length ≤ room ∧ ∀ g ∈ ([] : List Nat), g < 0x10000 := by simp
  induction room generalizing isFirst cs with
  | zero => exact hnone
  | succ room ih =>
    rw [groups]
    split
    case h_1 => exact hnone
    case h_2 start _ =>
      split
      case h_1 a b c d rest hoctets =>
        split at hoctets
        case isTrue => cases hoctets
        case isFalse hroom =>
          obtain ⟨ha, hb, hc, hd⟩ := octets_lt hoctets
          refine ⟨by simp; omega, fun g hg => ?_⟩
          simp only [List.mem_cons, List.not_mem_nil, or_false] at hg
          omega
      case h_2 =>
        split
        case h_1 g rest hgroup =>
          obtain ⟨hlength, hlt⟩ := ih false rest (by simp)
          refine ⟨by simpa using hlength, ?_⟩
          exact List.forall_mem_cons.mpr ⟨group_lt hgroup, hlt⟩
        case h_2 => exact hnone

/-- **What is read are the groups of an address.** -/
theorem isGroups_of_readV6? {cs : List Char} {gs : List Nat} (h : readV6? cs = some gs) :
    IsGroups gs := by
  unfold readV6? at h
  split at h
  case h_2 => cases h
  case h_1 gs' height =>
    obtain rfl := Option.some.inj h
    obtain ⟨hlength, hlt⟩ := groups_spec 8 true cs
    unfold eightGroups at height
    generalize groups 8 true cs = front at *
    obtain ⟨front, dotted, rest⟩ := front
    simp only at height hlength hlt
    split at height
    case isTrue hfront =>
      obtain ⟨rfl, -⟩ := Prod.mk.inj (Option.some.inj height)
      exact ⟨hfront, hlt⟩
    case isFalse hfront =>
      split at height
      · cases height
      split at height
      case h_2 => cases height
      case h_1 rest =>
        obtain ⟨hback, hbackLt⟩ := groups_spec (7 - front.length) true rest
        obtain ⟨rfl, -⟩ := Prod.mk.inj (Option.some.inj height)
        refine ⟨?_, fun g hg => ?_⟩
        · simp only [List.length_append, List.length_replicate]
          omega
        · simp only [List.mem_append, List.mem_replicate] at hg
          rcases hg with (hg | ⟨-, rfl⟩) | hg
          · exact hlt g hg
          · decide
          · exact hbackLt g hg

end IpAddress

end Net

end Compliance
