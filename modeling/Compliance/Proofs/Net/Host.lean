import Compliance.Net.Host
import Compliance.Proofs.Net.IpAddress
import Mathlib.Data.Bool.AllAny

/-!
# Written hosts

A host is brought to one form when it is read, and that form stays as it is when it is read again.
Most spellings of a host are lost on the way, so the proof is about what is left: a name of ASCII
characters that is in small letters already, or an address whose text is read back.

* `Plain` : a character that is not escaped; only such characters are in escaped texts.
* `Host.InName` : a character of a written name.
* `Host.inName_of_domainToAscii?`, `Host.domainToAscii?_eq_self` : written names are in such
  characters, and stay as they are.
* `Host.written_v4Text` : the text of a version 4 address is read as itself.
* `Host.Written`, `Host.written_of_ofSpecial?` : what is known about a host that has been read.
-/

namespace Compliance

namespace Net

/-! ### Characters of ASCII -/

theorem of_ascii {P : Char → Prop} (h : ∀ n < 128, P (Char.ofNat n)) {c : Char}
    (hc : c.toNat ≤ 127) : P c := by
  have := h c.toNat (by omega)
  rwa [Char.ofNat_toNat] at this

theorem utf8EncodeChar_of_ascii {c : Char} (hc : c.toNat ≤ 127) :
    String.utf8EncodeChar c = [c.toUInt8] := by
  refine String.utf8EncodeChar_eq_singleton ?_
  rw [Char.utf8Size_eq_one_iff, UInt32.le_iff_toNat_le]
  exact hc

theorem utf8_of_ascii {c : Char} (hc : c.toNat ≤ 127) : utf8 c = [c.toNat] := by
  have hoctet : c.toUInt8.toNat = c.toNat := by
    show c.toNat % 256 = c.toNat
    omega
  have hbytes : [c.toUInt8].toByteArray = ⟨#[c.toUInt8]⟩ := rfl
  rw [utf8, String.toUTF8_eq_toByteArray, String.toByteArray_singleton, List.utf8Encode_singleton,
    utf8EncodeChar_of_ascii hc, hbytes]
  simp [ByteArray.toList, ByteArray.toList.loop, ByteArray.size, ByteArray.get!, hoctet]

theorem lt_of_mem_utf8 {c : Char} {n : Nat} (h : n ∈ utf8 c) : n < 256 := by
  obtain ⟨b, -, rfl⟩ := List.mem_map.mp h
  exact b.toNat_lt

theorem utf8_ne_nil (c : Char) : utf8 c ≠ [] := by
  have hloop : ∀ (b : ByteArray) (i : Nat) (r : List UInt8),
      (ByteArray.toList.loop b i r).length = r.length + (b.size - i) := by
    intro b i r
    fun_induction ByteArray.toList.loop b i r with
    | case1 i r hi ih =>
      rw [ih, List.length_cons]
      omega
    | case2 i r hi =>
      rw [List.length_reverse]
      omega
  have hsize : 0 < (String.singleton c).toUTF8.size := by
    rw [String.toUTF8_eq_toByteArray, String.toByteArray_singleton, List.utf8Encode_singleton,
      List.size_toByteArray, String.length_utf8EncodeChar]
    exact c.utf8Size_pos
  intro hnil
  have hlength := congrArg List.length hnil
  rw [utf8, List.length_map, ByteArray.toList, hloop] at hlength
  simp only [List.length_nil] at hlength
  omega

/-! ### Escapes -/

/-- A character that stands as it is where others are escaped. -/
def Plain (escaped : Char → Bool) (c : Char) : Prop := c.toNat ≤ 127 ∧ escaped c = false

/-- The characters of escapes. -/
def escapeChars : List Char :=
  ['%', '0', '1', '2', '3', '4', '5', '6', '7', '8', '9', 'A', 'B', 'C', 'D', 'E', 'F']

theorem mem_escapeChars_of_mem_percentOctet {n : Nat} (hn : n < 256) {c : Char}
    (h : c ∈ percentOctet n) : c ∈ escapeChars := by
  have hdigit : ∀ d < 16, ((Nat.toDigits 16 d).headD '0').toUpper ∈ escapeChars := by decide
  simp only [percentOctet, List.mem_cons, List.not_mem_nil, or_false] at h
  rcases h with rfl | rfl | rfl
  · decide
  · exact hdigit (n / 16) (by omega)
  · exact hdigit (n % 16) (by omega)

variable {escaped : Char → Bool} {cs : List Char} {c : Char}

theorem percentEncode_eq_self (h : ∀ c ∈ cs, Plain escaped c) : percentEncode escaped cs = cs := by
  induction cs with
  | nil => rfl
  | cons c cs ih =>
    obtain ⟨⟨hascii, hescaped⟩, hcs⟩ := List.forall_mem_cons.mp h
    have hnot : ¬(escaped c || decide (127 < c.toNat)) = true := by
      simp [hescaped, Nat.not_lt.mpr hascii]
    have ih := ih hcs
    rw [percentEncode] at ih ⊢
    rw [List.flatMap_cons, if_neg hnot, ih, List.singleton_append]

/-- In an escaped text there are characters that are not escaped and those of escapes. -/
theorem mem_percentEncode (h : c ∈ percentEncode escaped cs) :
    (c ∈ cs ∧ Plain escaped c) ∨ c ∈ escapeChars := by
  obtain ⟨d, hd, hc⟩ := List.mem_flatMap.mp h
  split at hc
  case isTrue =>
    obtain ⟨n, hn, hc⟩ := List.mem_flatMap.mp hc
    exact .inr (mem_escapeChars_of_mem_percentOctet (lt_of_mem_utf8 hn) hc)
  case isFalse hplain =>
    obtain rfl := List.mem_singleton.mp hc
    simp only [Bool.or_eq_true, decide_eq_true_eq, not_or, Nat.not_lt] at hplain
    exact .inl ⟨hd, hplain.2, by simpa using hplain.1⟩

theorem percentEncode_ne_nil (h : cs ≠ []) : percentEncode escaped cs ≠ [] := by
  obtain ⟨c, cs, rfl⟩ := List.exists_cons_of_ne_nil h
  rw [percentEncode, List.flatMap_cons]
  intro hnil
  have hnil := (List.append_eq_nil_iff.mp hnil).1
  split at hnil
  · obtain ⟨n, ns, hns⟩ := List.exists_cons_of_ne_nil (utf8_ne_nil c)
    rw [hns] at hnil
    cases hnil
  · cases hnil

/-- Where the characters of escapes are not escaped themselves, an escaped text is plain. -/
theorem plain_of_mem_percentEncode (hescape : escapeChars.any escaped = false)
    (h : c ∈ percentEncode escaped cs) : Plain escaped c := by
  have hascii : ∀ c ∈ escapeChars, c.toNat ≤ 127 := List.all_iff_forall_prop.mp (by decide)
  rcases mem_percentEncode h with ⟨-, hplain⟩ | hc
  · exact hplain
  · exact ⟨hascii c hc, by simpa using List.any_eq_false.mp hescape c hc⟩

theorem percentDecode?_eq_self (h : ∀ c ∈ cs, c.toNat ≤ 127 ∧ c ≠ '%') :
    percentDecode? cs = some cs := by
  have hoctets : percentDecode?.octets cs = cs.flatMap String.utf8EncodeChar := by
    induction cs with
    | nil => rfl
    | cons c cs ih =>
      obtain ⟨⟨hascii, hne⟩, hcs⟩ := List.forall_mem_cons.mp h
      have hstep : percentDecode?.octets (c :: cs) =
          (utf8 c).map UInt8.ofNat ++ percentDecode?.octets cs := by
        rw [percentDecode?.octets]
        intro a b r heq
        exact absurd heq hne
      rw [hstep, ih hcs, utf8_of_ascii hascii, List.flatMap_cons, utf8EncodeChar_of_ascii hascii]
      rfl
  have hbytes : (⟨(cs.flatMap String.utf8EncodeChar).toArray⟩ : ByteArray) =
      (String.ofList cs).toByteArray := by
    rw [String.toByteArray_ofList]
    exact ByteArray.ext List.data_toByteArray.symm
  have hvalid : (String.ofList cs).toByteArray.IsValidUTF8 := (String.ofList cs).isValidUTF8
  rw [percentDecode?, hoctets, hbytes, String.fromUTF8?, dif_pos hvalid]
  exact congrArg some (String.toList_ofList)

/-! ### Lists with separators -/

theorem eq_or_mem_of_mem_intercalate {x c : Char} {ls : List (List Char)} :
    c ∈ [x].intercalate ls → c = x ∨ ∃ l ∈ ls, c ∈ l := by
  induction ls with
  | nil => simp
  | cons l ls ih =>
    intro h
    cases ls with
    | nil => exact .inr ⟨l, List.mem_singleton_self l, by simpa using h⟩
    | cons l' ls =>
      rw [List.intercalate_cons_cons] at h
      rcases List.mem_append.mp h with h | h
      · rcases List.mem_append.mp h with h | h
        · exact .inr ⟨l, List.mem_cons_self .., h⟩
        · exact .inl (List.mem_singleton.mp h)
      · rcases ih h with h | ⟨m, hm, h⟩
        · exact .inl h
        · exact .inr ⟨m, List.mem_cons_of_mem _ hm, h⟩

namespace Host

open Compliance.Text (hexValue?)

/-! ### Names -/

/-- A character of ASCII that is in its small form. -/
def IsSmall (c : Char) : Prop := c.toNat ≤ 127 ∧ c.toLower = c

/-- A character of a written name. -/
structure InName (c : Char) : Prop where
  small : IsSmall c
  allowed : (isReserved c || isControl c || c == '%') = false

theorem isNameChar_iff {c : Char} : isNameChar c = true ↔ InName c := by
  simp only [isNameChar, Bool.and_eq_true, decide_eq_true_eq, beq_iff_eq, Bool.not_eq_true']
  constructor
  · rintro ⟨hsmall, hallowed⟩
    exact ⟨hsmall, hallowed⟩
  · rintro ⟨hsmall, hallowed⟩
    exact ⟨hsmall, hallowed⟩

theorem map_toLower_of_inName {name : List Char} (h : ∀ c ∈ name, InName c) :
    name.map Char.toLower = name :=
  (List.map_congr_left fun c hc => (h c hc).small.2).trans (List.map_id _)

/-! ### Domain names -/

variable {idna : Idna}

theorem domainToAscii?_eq_some_iff {cs name : List Char} :
    domainToAscii? idna cs = some name ↔
      (if isInternational (cs.map Char.toLower) then idna.toAscii? (cs.map Char.toLower)
        else some (cs.map Char.toLower)) = some name ∧ ∀ c ∈ name, InName c := by
  simp only [domainToAscii?, Option.filter_eq_some_iff, List.all_eq_true, isNameChar_iff]

/-- **A written name is in characters of written names.** -/
theorem inName_of_domainToAscii? {cs name : List Char} (h : domainToAscii? idna cs = some name) :
    ∀ c ∈ name, InName c :=
  (domainToAscii?_eq_some_iff.mp h).2

theorem domainToAscii?_of_inName {name : List Char} (h : ∀ c ∈ name, InName c)
    (hplain : ¬ isInternational name = true) : domainToAscii? idna name = some name := by
  rw [domainToAscii?_eq_some_iff, map_toLower_of_inName h, if_neg hplain]
  exact ⟨rfl, h⟩

/-- **A written name stays as it is.** -/
theorem domainToAscii?_eq_self {cs name : List Char} (h : domainToAscii? idna cs = some name) :
    domainToAscii? idna name = some name := by
  obtain ⟨hwritten, hname⟩ := domainToAscii?_eq_some_iff.mp h
  by_cases hinternational : isInternational name = true
  · -- only an international name is written as one
    have hsource : isInternational (cs.map Char.toLower) = true := by
      by_contra hplain
      rw [if_neg hplain] at hwritten
      rw [Option.some.inj hwritten] at hplain
      exact hplain hinternational
    rw [if_pos hsource] at hwritten
    rw [domainToAscii?_eq_some_iff, map_toLower_of_inName hname, if_pos hinternational]
    exact ⟨idna.stable hwritten, hname⟩
  · exact domainToAscii?_of_inName hname hinternational

/-! ### Addresses of version 4 -/

theorem number?_toDigits : ∀ n < 256, number? (Nat.toDigits 10 n) = some n := by
  decide +kernel

theorem address?_eq_some {cs : List Char} {x : IpAddress} (h : address? cs = some x) :
    ∃ a < 256, ∃ b < 256, ∃ c < 256, ∃ d < 256, x = .v4 a b c d := by
  simp only [address?, Option.bind_eq_bind, Option.bind_eq_some_iff, guard] at h
  obtain ⟨ns, -, last, -, _, hchecked, h⟩ := h
  split at hchecked
  case isFalse => cases hchecked
  case isTrue hguard =>
    simp only [Bool.and_eq_true, List.all_eq_true, decide_eq_true_eq] at hguard
    -- the octets in front are in range, and those that the last part stands for are remainders
    have hlt : ∀ n ∈ ns.dropLast ++ (List.range (4 - ns.dropLast.length)).reverse.map
        (fun i => last / Nat.pow 256 i % 256), n < 256 := by
      intro n hn
      rcases List.mem_append.mp hn with hn | hn
      · exact hguard.1.2 n hn
      · obtain ⟨i, -, rfl⟩ := List.mem_map.mp hn
        exact Nat.mod_lt _ (by decide)
    split at h
    case h_2 => cases h
    case h_1 a b c d heq =>
      rw [heq] at hlt
      simp only [List.mem_cons, List.not_mem_nil, or_false, forall_eq_or_imp, forall_eq] at hlt
      exact ⟨a, hlt.1, b, hlt.2.1, c, hlt.2.2.1, d, hlt.2.2.2, (Option.some.inj h).symm⟩

section

variable {a b c d : Nat}

theorem toList_v4Text (a b c d : Nat) :
    (IpAddress.v4Text a b c d).toList = ['.'].intercalate ([a, b, c, d].map (Nat.toDigits 10)) := by
  rw [IpAddress.v4Text, String.toList_intercalate]
  simp

theorem isDigit_of_mem_toDigits {n : Nat} {x : Char} (h : x ∈ Nat.toDigits 10 n) :
    x.isDigit = true :=
  Nat.isDigit_of_mem_toDigits (by decide) (by decide) h

theorem splitPoints_v4Text (a b c d : Nat) :
    splitPoints (IpAddress.v4Text a b c d).toList = [a, b, c, d].map (Nat.toDigits 10) := by
  rw [splitPoints, toList_v4Text]
  refine List.splitOn_intercalate '.' (fun l hl hdot => ?_) (by simp)
  obtain ⟨n, -, rfl⟩ := List.mem_map.mp hl
  exact absurd (isDigit_of_mem_toDigits hdot) (by decide)

theorem parts_v4Text (a b c d : Nat) :
    parts (IpAddress.v4Text a b c d).toList = [a, b, c, d].map (Nat.toDigits 10) := by
  simp [parts, splitPoints_v4Text, Nat.toDigits_ne_nil]

theorem endsInNumber_v4Text (a b c d : Nat) :
    endsInNumber (IpAddress.v4Text a b c d).toList = true := by
  have hdigits : (Nat.toDigits 10 d).all Char.isDigit = true := by
    rw [List.all_eq_true]
    exact fun x hx => isDigit_of_mem_toDigits hx
  simp [endsInNumber, parts_v4Text, Nat.toDigits_ne_nil, hdigits]

theorem address?_v4Text (ha : a < 256) (hb : b < 256) (hc : c < 256) (hd : d < 256) :
    address? (IpAddress.v4Text a b c d).toList = some (.v4 a b c d) := by
  simp [address?, parts_v4Text, number?_toDigits, ha, hb, hc, hd, List.range_succ,
    Nat.mod_eq_of_lt hd, guard]

theorem inName_of_mem_v4Text {x : Char} (h : x ∈ (IpAddress.v4Text a b c d).toList) :
    InName x := by
  have hdigit : ∀ n < 128, (Char.ofNat n).isDigit = true →
      ((Char.ofNat n).toNat ≤ 127 ∧ (Char.ofNat n).toLower = Char.ofNat n) ∧
        (isReserved (Char.ofNat n) || isControl (Char.ofNat n) || Char.ofNat n == '%') = false := by
    decide
  rw [toList_v4Text] at h
  rcases eq_or_mem_of_mem_intercalate h with rfl | ⟨l, hl, hx⟩
  · exact ⟨⟨by decide, by decide⟩, by decide⟩
  · obtain ⟨n, -, rfl⟩ := List.mem_map.mp hl
    have hx := isDigit_of_mem_toDigits hx
    have hascii : x.toNat ≤ 127 := by
      simp only [Char.isDigit, Bool.and_eq_true, decide_eq_true_eq, UInt32.le_iff_toNat_le] at hx
      exact Nat.le_trans hx.2 (by decide)
    obtain ⟨hsmall, hallowed⟩ := of_ascii (P := fun x => x.isDigit = true →
      (x.toNat ≤ 127 ∧ x.toLower = x) ∧ (isReserved x || isControl x || x == '%') = false)
      hdigit hascii hx
    exact ⟨hsmall, hallowed⟩

theorem not_isInternational_v4Text (a b c d : Nat) :
    ¬ isInternational (IpAddress.v4Text a b c d).toList = true := by
  rw [isInternational, Bool.or_eq_true, not_or, splitPoints_v4Text]
  constructor
  · rw [List.any_eq_true]
    rintro ⟨x, hx, hbeyond⟩
    have := (inName_of_mem_v4Text hx).small.1
    simp only [decide_eq_true_eq] at hbeyond
    omega
  · rw [List.any_eq_true]
    rintro ⟨label, hlabel, hmarked⟩
    obtain ⟨n, -, rfl⟩ := List.mem_map.mp hlabel
    have hmem : 'x' ∈ Nat.toDigits 10 n :=
      (List.isPrefixOf_iff_prefix.mp hmarked).subset (List.mem_cons_self ..)
    exact absurd (isDigit_of_mem_toDigits hmem) (by decide)

end

/-! ### Hosts -/

/-- The written form of a host: a name or an address in brackets, which is read as itself. -/
structure Written (idna : Idna) (h : String) : Prop where
  read : ofSpecial? idna h.toList = some h
  form : (h.toList ≠ [] ∧ ∀ c ∈ h.toList, InName c) ∨
    ∃ body, h.toList = '[' :: (body ++ [']']) ∧ ∀ c ∈ body, IpAddress.InGroups c

theorem Written.ne_nil {h : String} (hw : Written idna h) : h.toList ≠ [] := by
  rcases hw.form with ⟨hne, -⟩ | ⟨body, hbody, -⟩
  · exact hne
  · rw [hbody]
    exact List.cons_ne_nil _ _

theorem ofSpecial?_of_written {name : List Char} (hne : name ≠ [])
    (hself : domainToAscii? idna name = some name) :
    ofSpecial? idna name =
      if endsInNumber name then (address? name).map IpAddress.toText
      else some (String.ofList name) := by
  have h := inName_of_domainToAscii? hself
  have hdecode : percentDecode? name = some name := by
    refine percentDecode?_eq_self fun c hc => ⟨(h c hc).small.1, ?_⟩
    rintro rfl
    exact absurd (h _ hc).allowed (by decide)
  have hhead : (name.head? == some '[') = false := by
    rw [beq_eq_false_iff_ne]
    intro hhead
    exact absurd (h _ (List.mem_of_mem_head? hhead)).allowed (by decide)
  simp [ofSpecial?, hhead, hdecode, hself, hne]

/-- The text of a version 4 address is read as itself. -/
theorem written_v4Text {a b c d : Nat} (ha : a < 256) (hb : b < 256) (hc : c < 256)
    (hd : d < 256) : Written idna (IpAddress.v4Text a b c d) := by
  have hin : ∀ x ∈ (IpAddress.v4Text a b c d).toList, InName x := fun x => inName_of_mem_v4Text
  have hne : (IpAddress.v4Text a b c d).toList ≠ [] := by
    rw [toList_v4Text]
    simp [Nat.toDigits_ne_nil, List.intercalate_cons_cons]
  refine ⟨?_, .inl ⟨hne, hin⟩⟩
  have hself : domainToAscii? idna (IpAddress.v4Text a b c d).toList =
      some (IpAddress.v4Text a b c d).toList :=
    domainToAscii?_of_inName hin (not_isInternational_v4Text a b c d)
  rw [ofSpecial?_of_written hne hself, endsInNumber_v4Text, if_pos rfl, address?_v4Text ha hb hc hd]
  rfl

theorem written_bracketed {gs : List Nat} (h : IpAddress.IsGroups gs) :
    Written idna ("[" ++ IpAddress.v6Text gs ++ "]") := by
  have htext : ("[" ++ IpAddress.v6Text gs ++ "]").toList =
      '[' :: ((IpAddress.v6Text gs).toList ++ [']']) := by
    simp
  refine ⟨?_, .inr ⟨_, htext, fun c => IpAddress.inGroups_of_mem_v6Text⟩⟩
  have hhead : (('[' :: ((IpAddress.v6Text gs).toList ++ [']'])).head? == some '[') = true := rfl
  rw [htext, ofSpecial?, if_pos hhead, bracketed?]
  simp [List.getLast?_cons, IpAddress.readV6?_v6Text h]

/-- **What is read is a written host.** -/
theorem written_of_ofSpecial? {cs : List Char} {h : String}
    (hread : ofSpecial? idna cs = some h) : Written idna h := by
  rw [ofSpecial?] at hread
  split at hread
  case isTrue =>
    rw [bracketed?] at hread
    split at hread
    · obtain ⟨gs, hgs, rfl⟩ := Option.map_eq_some_iff.mp hread
      exact written_bracketed (IpAddress.isGroups_of_readV6? hgs)
    · cases hread
  case isFalse =>
    simp only [Option.bind_eq_bind, Option.bind_eq_some_iff] at hread
    obtain ⟨decoded, -, name, hname, hread⟩ := hread
    have hin := inName_of_domainToAscii? hname
    split at hread
    · cases hread
    case isFalse hne =>
      rw [List.isEmpty_iff] at hne
      split at hread
      case isTrue =>
        obtain ⟨x, hx, rfl⟩ := Option.map_eq_some_iff.mp hread
        obtain ⟨a, ha, b, hb, c, hc, d, hd, rfl⟩ := address?_eq_some hx
        exact written_v4Text ha hb hc hd
      case isFalse hends =>
        obtain rfl := Option.some.inj hread
        refine ⟨?_, .inl ?_⟩
        · have hself := domainToAscii?_eq_self hname
          rw [String.toList_ofList, ofSpecial?_of_written hne hself, if_neg hends]
        · rw [String.toList_ofList]
          exact ⟨hne, hin⟩

end Host

end Net

end Compliance
