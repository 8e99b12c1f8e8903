import Compliance.Net.Url
import Compliance.Proofs.Net.Host

/-!
# The text of an authority is read back

An authority is read part by part: a user up to the last at sign, a host up to a colon that is not
in brackets, a port up to the path.  In a written authority no part has a character that would end
it early.

* `Url.Inner` : a character that stands inside an authority.
* `Authority.Written` : what is known about an authority that has been read.
* `Url.userInfo_at`, `Url.userInfo_append`, `Url.hostChars_append`, `Url.port?_append` : the parts
  are read as themselves.
* `Url.authority?_toText` : so is the whole authority.
* `Url.written_of_authority?` : what is read is a written authority.
-/

namespace Compliance

namespace Net

/-- The written form of an authority under a known scheme. -/
structure Authority.Written (idna : Idna) (k : Url.SchemeKind) (a : Authority) : Prop where
  user : ∀ c ∈ a.user.toList, Plain Url.inUser c
  password : ∀ p, a.password = some p → p.toList ≠ [] ∧ ∀ c ∈ p.toList, Plain Url.inUser c
  host : Host.Written idna a.host
  /-- A port is named only if it is not the scheme's own. -/
  port : ∀ n, a.port = some n → n ≤ 65535 ∧ Url.SchemeKind.known n ≠ k

namespace Url

open Compliance.Text (takeWhile_run)

variable {idna : Idna}

/-! ### Characters of authorities -/

/-- A visible character that does not end an authority, and is no at sign. -/
structure Inner (c : Char) : Prop where
  visible : 32 < c.toNat
  ascii : c.toNat ≤ 127
  inside : ∀ n, endsAuthority (.known n) c = false
  notAt : c ≠ '@'

theorem inner_of_ascii {P : Char → Prop}
    (h : ∀ n < 128, P (Char.ofNat n) → 32 < (Char.ofNat n).toNat ∧
      endsAuthority (.known 80) (Char.ofNat n) = false ∧ Char.ofNat n ≠ '@')
    {c : Char} (hc : c.toNat ≤ 127) (hP : P c) : Inner c := by
  obtain ⟨hvisible, hinside, hat⟩ := of_ascii (P := fun c => P c → 32 < c.toNat ∧
    endsAuthority (.known 80) c = false ∧ c ≠ '@') h hc hP
  exact ⟨hvisible, hc, fun _ => hinside, hat⟩

theorem inner_of_plain {c : Char} (h : Plain inUser c) : Inner c :=
  inner_of_ascii (P := fun c => inUser c = false) (by decide) h.1 h.2

theorem inner_of_inName {c : Char} (h : Host.InName c) : Inner c :=
  inner_of_ascii
    (P := fun c => (Host.isReserved c || isControl c || c == '%') = false) (by decide)
    h.small.1 h.allowed

theorem inner_of_inGroups {c : Char} (h : IpAddress.InGroups c) : Inner c := by
  have hascii : c.toNat ≤ 127 := by
    rcases h with rfl | h
    · decide
    have hle : ∀ a b : Char, a ≤ b → a.toNat ≤ b.toNat := fun a b hab => hab
    unfold Text.hexValue? at h
    split at h
    case isTrue hc => exact Nat.le_trans (hle _ _ hc.2) (by decide)
    split at h
    case isTrue hc => exact Nat.le_trans (hle _ _ hc.2) (by decide)
    split at h
    case isTrue hc => exact Nat.le_trans (hle _ _ hc.2) (by decide)
    cases h
  exact inner_of_ascii (P := fun c => c = ':' ∨ (Text.hexValue? c).isSome) (by decide) hascii h

theorem inner_of_isDigit {c : Char} (h : c.isDigit = true) : Inner c := by
  have hascii : c.toNat ≤ 127 := by
    simp only [Char.isDigit, Bool.and_eq_true, decide_eq_true_eq, UInt32.le_iff_toNat_le] at h
    exact Nat.le_trans h.2 (by decide)
  exact inner_of_ascii (P := fun c => c.isDigit = true) (by decide) hascii h

theorem inner_of_mem_host {h : String} (hw : Host.Written idna h) {c : Char} (hc : c ∈ h.toList) :
    Inner c := by
  rcases hw.form with ⟨-, hname⟩ | ⟨body, hbody, hgroups⟩
  · exact inner_of_inName (hname c hc)
  · have hbrackets : Inner '[' ∧ Inner ']' :=
      ⟨⟨by decide, by decide, fun _ => rfl, by decide⟩,
        ⟨by decide, by decide, fun _ => rfl, by decide⟩⟩
    rw [hbody] at hc
    rcases List.mem_cons.mp hc with rfl | hc
    · exact hbrackets.1
    rcases List.mem_append.mp hc with hc | hc
    · exact inner_of_inGroups (hgroups c hc)
    · rw [List.mem_singleton.mp hc]
      exact hbrackets.2

/-! ### The parts of the text -/

/-- The text of a password. -/
def passwordText : Option String → List Char
  | some p => ':' :: p.toList
  | none => []

/-- The text of a user and a password, if there is either. -/
def userText (user : String) (password : Option String) : List Char :=
  if user.isEmpty && password.isNone then [] else user.toList ++ passwordText password ++ ['@']

/-- The text of a port. -/
def portText : Option Nat → List Char
  | some n => ':' :: Nat.toDigits 10 n
  | none => []

theorem toList_toText_authority (a : Authority) :
    a.toText.toList = userText a.user a.password ++ (a.host.toList ++ portText a.port) := by
  obtain ⟨user, password, host, port⟩ := a
  by_cases huser : user.isEmpty <;> cases password <;> cases port <;>
    simp [Authority.toText, userText, passwordText, portText, huser]

theorem inner_of_mem_portText {port : Option Nat} {c : Char} (h : c ∈ portText port) : Inner c := by
  cases port with
  | none => cases h
  | some n =>
    rcases List.mem_cons.mp h with rfl | h
    · exact inner_of_inGroups (.inl rfl)
    · exact inner_of_isDigit (Nat.isDigit_of_mem_toDigits (by decide) (by decide) h)

theorem authority_toText_ne_nil {k : SchemeKind} {a : Authority} (ha : a.Written idna k) :
    a.toText.toList ≠ [] := by
  rw [toList_toText_authority]
  simp [ha.host.ne_nil]

theorem inside_of_mem_toText {k : SchemeKind} {a : Authority} (ha : a.Written idna k) {c : Char}
    (h : c ∈ a.toText.toList) :
    32 < c.toNat ∧ c.toNat ≤ 127 ∧ ∀ n, endsAuthority (.known n) c = false := by
  have hinner : ∀ {c}, Inner c →
      32 < c.toNat ∧ c.toNat ≤ 127 ∧ ∀ n, endsAuthority (.known n) c = false := fun h =>
    ⟨h.visible, h.ascii, h.inside⟩
  rw [toList_toText_authority] at h
  rcases List.mem_append.mp h with h | h
  · rw [userText] at h
    split at h
    · cases h
    rcases List.mem_append.mp h with h | h
    · rcases List.mem_append.mp h with h | h
      · exact hinner (inner_of_plain (ha.user c h))
      · cases hpassword : a.password with
        | none =>
          rw [hpassword] at h
          cases h
        | some p =>
          rw [hpassword] at h
          rcases List.mem_cons.mp h with rfl | h
          · exact hinner (inner_of_inGroups (.inl rfl))
          · exact hinner (inner_of_plain ((ha.password p hpassword).2 c h))
    · rw [List.mem_singleton.mp h]
      exact ⟨by decide, by decide, fun _ => rfl⟩
  · rcases List.mem_append.mp h with h | h
    · exact hinner (inner_of_mem_host ha.host h)
    · exact hinner (inner_of_mem_portText h)

/-! ### Reading the parts -/

theorem escape_eq_self {escaped : Char → Bool} {s : String}
    (h : ∀ c ∈ s.toList, Plain escaped c) : escape escaped s.toList = s := by
  rw [escape, percentEncode_eq_self h, String.ofList_toList]

section

variable {n : Nat} {rest r : List Char}

/-- An authority goes up to what ends it. -/
theorem takeWhile_authority {cs : List Char} (hcs : ∀ c ∈ cs, endsAuthority (.known n) c = false)
    (hr : ∀ c, r.head? = some c → endsAuthority (.known n) c = true) :
    (cs ++ r).takeWhile (!endsAuthority (.known n) ·) = cs := by
  refine takeWhile_run (fun c hc => ?_) fun c hc => ?_
  · rw [hcs c hc]
    rfl
  · rw [hr c hc]
    rfl

theorem notAt_of_inner (hrest : ∀ c ∈ rest, Inner c) : ∀ c ∈ rest.reverse, (c != '@') = true :=
  fun c hc => bne_iff_ne.mpr (hrest c (List.mem_reverse.mp hc)).notAt

theorem userInfo_of_inner (hrest : ∀ c ∈ rest, Inner c)
    (hr : ∀ c, r.head? = some c → endsAuthority (.known n) c = true) :
    userInfo (.known n) (rest ++ r) = some ("", none, rest ++ r) := by
  have hauthority := takeWhile_authority (fun c hc => (hrest c hc).inside n) hr
  have htail := takeWhile_run (r := []) (notAt_of_inner hrest) (fun c hc => by cases hc)
  rw [List.append_nil] at htail
  simp only [userInfo, hauthority, htail, List.length_reverse, if_true]

/-- What stands before the last at sign is taken apart at its first colon. -/
theorem userInfo_at {info : List Char} (hinfo : ∀ c ∈ info, endsAuthority (.known n) c = false)
    (hne : info ≠ []) (hrest : ∀ c ∈ rest, Inner c)
    (hr : ∀ c, r.head? = some c → endsAuthority (.known n) c = true) :
    userInfo (.known n) (info ++ '@' :: (rest ++ r)) =
      let user := info.takeWhile (· != ':')
      let password := info.drop (user.length + 1)
      some (escape inUser user, if password.isEmpty then none else some (escape inUser password),
        rest ++ r) := by
  have htext : info ++ '@' :: (rest ++ r) = (info ++ '@' :: rest) ++ r := by simp
  have hauthority : ((info ++ '@' :: rest) ++ r).takeWhile (!endsAuthority (.known n) ·) =
      info ++ '@' :: rest := by
    refine takeWhile_authority (fun c hc => ?_) hr
    rcases List.mem_append.mp hc with hc | hc
    · exact hinfo c hc
    rcases List.mem_cons.mp hc with rfl | hc
    · rfl
    · exact (hrest c hc).inside n
  have htail : (info ++ '@' :: rest).reverse.takeWhile (· != '@') = rest.reverse := by
    rw [List.reverse_append, List.reverse_cons, List.append_assoc]
    refine takeWhile_run (notAt_of_inner hrest) fun c hc => ?_
    obtain rfl : '@' = c := by simpa using hc
    rfl
  have hlength : (info ++ '@' :: rest).length = info.length + rest.length + 1 := by
    rw [List.length_append, List.length_cons, Nat.add_assoc]
  have hshort : rest.length ≠ (info ++ '@' :: rest).length := by omega
  have htake : (info ++ '@' :: rest).take ((info ++ '@' :: rest).length - rest.length - 1) =
      info := by
    rw [show (info ++ '@' :: rest).length - rest.length - 1 = info.length by omega, List.take_left]
  have hdrop : ((info ++ '@' :: rest) ++ r).drop (info.length + 1) = rest ++ r := by
    rw [List.append_assoc, ← List.drop_drop, List.drop_left]
    rfl
  have hempty : info.isEmpty = false := List.isEmpty_eq_false_iff.mpr hne
  rw [htext]
  simp only [userInfo, hauthority, htail, List.length_reverse, if_neg hshort, htake, hdrop, hempty]
  rfl

/-- **A user and a password are read back**, up to the last at sign. -/
theorem userInfo_append {user : String} {password : Option String}
    (huser : ∀ c ∈ user.toList, Plain inUser c)
    (hpassword : ∀ p, password = some p → p.toList ≠ [] ∧ ∀ c ∈ p.toList, Plain inUser c)
    (hrest : ∀ c ∈ rest, Inner c)
    (hr : ∀ c, r.head? = some c → endsAuthority (.known n) c = true) :
    userInfo (.known n) (userText user password ++ (rest ++ r)) =
      some (user, password, rest ++ r) := by
  by_cases hempty : (user.isEmpty && password.isNone) = true
  · obtain ⟨hu, hp⟩ := Bool.and_eq_true_iff.mp hempty
    obtain rfl := String.isEmpty_iff.mp hu
    obtain rfl := Option.isNone_iff_eq_none.mp hp
    have hnone : userText "" none = [] := rfl
    rw [hnone, List.nil_append]
    exact userInfo_of_inner hrest hr
  have htext : userText user password ++ (rest ++ r) =
      (user.toList ++ passwordText password) ++ '@' :: (rest ++ r) := by
    rw [userText, if_neg hempty, List.append_assoc _ ['@']]
    rfl
  have hinfo : ∀ c ∈ user.toList ++ passwordText password, endsAuthority (.known n) c = false := by
    intro c hc
    rcases List.mem_append.mp hc with hc | hc
    · exact (inner_of_plain (huser c hc)).inside n
    · cases password with
      | none => cases hc
      | some p =>
        rcases List.mem_cons.mp hc with rfl | hc
        · rfl
        · exact (inner_of_plain ((hpassword p rfl).2 c hc)).inside n
  have hne : user.toList ++ passwordText password ≠ [] := by
    intro hnil
    obtain ⟨hu, hp⟩ := List.append_eq_nil_iff.mp hnil
    obtain rfl := String.toList_eq_nil_iff.mp hu
    cases password with
    | none => exact hempty rfl
    | some p => cases hp
  -- the user goes up to the first colon, which is that of the password
  have hname : (user.toList ++ passwordText password).takeWhile (· != ':') = user.toList := by
    refine takeWhile_run (fun c hc => ?_) fun c hc => ?_
    · rw [bne_iff_ne]
      rintro rfl
      exact absurd (huser _ hc).2 (by decide)
    · cases password with
      | none => cases hc
      | some p =>
        obtain rfl : ':' = c := by simpa [passwordText] using hc
        rfl
  have hsecond : (user.toList ++ passwordText password).drop (user.toList.length + 1) =
      (passwordText password).drop 1 := by
    rw [← List.drop_drop, List.drop_left]
  rw [htext, userInfo_at hinfo hne hrest hr]
  simp only [hname, hsecond, escape_eq_self huser]
  cases password with
  | none => rfl
  | some p =>
    obtain ⟨hne, hplain⟩ := hpassword p rfl
    simp [passwordText, hne, escape_eq_self hplain]

end

section

variable {n : Nat} {r : List Char}

theorem hostChars_name {name : List Char} (hname : ∀ c ∈ name, Host.InName c)
    (hstop : hostChars (.known n) false r = []) :
    hostChars (.known n) false (name ++ r) = name := by
  induction name with
  | nil => exact hstop
  | cons c name ih =>
    obtain ⟨hc, hname⟩ := List.forall_mem_cons.mp hname
    have hinside := (inner_of_inName hc).inside n
    have hne : ∀ d, (Host.isReserved d || isControl d || d == '%') = true → c ≠ d := by
      rintro d hd rfl
      exact absurd hd (by rw [hc.allowed]; decide)
    have hcolon := hne ':' rfl
    have hbracket : (c == '[') = false := beq_eq_false_iff_ne.mpr (hne '[' rfl)
    simp [hostChars, hinside, hcolon, hbracket, ih hname]

/-- Colons between brackets do not end a host. -/
theorem hostChars_groups {body : List Char} (hbody : ∀ c ∈ body, IpAddress.InGroups c)
    (hstop : hostChars (.known n) false r = []) :
    hostChars (.known n) true (body ++ ']' :: r) = body ++ [']'] := by
  induction body with
  | nil =>
    have hinside : endsAuthority (.known n) ']' = false := rfl
    simp [hostChars, hinside, hstop]
  | cons c body ih =>
    obtain ⟨hc, hbody⟩ := List.forall_mem_cons.mp hbody
    have hinside := (inner_of_inGroups hc).inside n
    have hbracket : (c != ']') = true := by
      rw [bne_iff_ne]
      rintro rfl
      rcases hc with hc | hc <;> revert hc <;> decide
    simp [hostChars, hinside, hbracket, ih hbody]

/-- **A host is read up to the colon or the path after it.** -/
theorem hostChars_append {h : String} (hw : Host.Written idna h)
    (hr : ∀ c, r.head? = some c → endsAuthority (.known n) c = true ∨ c = ':') :
    hostChars (.known n) false (h.toList ++ r) = h.toList := by
  have hstop : hostChars (.known n) false r = [] := by
    cases r with
    | nil => rfl
    | cons c r =>
      have hc : (endsAuthority (.known n) c || (c == ':' && !false)) = true := by
        rcases hr c rfl with h | rfl
        · rw [h, Bool.true_or]
        · rfl
      rw [hostChars, if_pos hc]
  rcases hw.form with ⟨-, hname⟩ | ⟨body, hbody, hgroups⟩
  · exact hostChars_name hname hstop
  · have hinside : endsAuthority (.known n) '[' = false := rfl
    rw [hbody, List.cons_append, List.append_assoc]
    simp [hostChars, hinside, hostChars_groups hgroups hstop]

end

/-- **A port is read up to the path after it.** -/
theorem port?_append {n : Nat} (hn : n ≤ 65535) (r : List Char) :
    port? (Nat.toDigits 10 n ++ '/' :: r) = some (some n, '/' :: r) := by
  have hdigits : (Nat.toDigits 10 n ++ '/' :: r).takeWhile Char.isDigit = Nat.toDigits 10 n :=
    Text.takeWhile_isDigit
      (fun c hc => Nat.isDigit_of_mem_toDigits (by decide) (by decide) hc) (Text.stops_cons rfl r)
  have hvalue : Text.decimalValue (Nat.toDigits 10 n) = n := Nat.ofDigitChars_ten_toDigits
  simp [port?, hdigits, hvalue, Nat.toDigits_ne_nil, Nat.not_lt.mpr hn]

/-- **An authority is read back**, up to the path after it. -/
theorem authority?_toText {n : Nat} {a : Authority} (ha : a.Written idna (.known n))
    (r : List Char) :
    authority? idna (.known n) (a.toText.toList ++ '/' :: r) = some (a, '/' :: r) := by
  have hhost := ha.host
  have hslash : endsAuthority (.known n) '/' = true := rfl
  have hrest : ∀ c ∈ a.host.toList ++ portText a.port, Inner c := by
    intro c hc
    rcases List.mem_append.mp hc with hc | hc
    · exact inner_of_mem_host hhost hc
    · exact inner_of_mem_portText hc
  have huser := userInfo_append (n := n) (r := '/' :: r) ha.user ha.password hrest
    (fun c hc => by
      obtain rfl : '/' = c := by simpa using hc
      exact hslash)
  have hchars : hostChars (.known n) false (a.host.toList ++ (portText a.port ++ '/' :: r)) =
      a.host.toList := by
    refine hostChars_append hhost fun c hc => ?_
    cases hport : a.port with
    | none =>
      rw [hport] at hc
      obtain rfl : '/' = c := by simpa [portText] using hc
      exact .inl hslash
    | some m =>
      rw [hport] at hc
      obtain rfl : ':' = c := by simpa [portText] using hc
      exact .inr rfl
  have hne : a.host.toList.isEmpty = false := by
    rw [List.isEmpty_eq_false_iff]
    exact hhost.ne_nil
  have hspecial : (SchemeKind.known n).isSpecial = true := rfl
  rw [toList_toText_authority, List.append_assoc, authority?, huser]
  simp only [List.append_assoc, Option.bind_eq_bind, Option.bind_some, hchars, List.drop_left,
    hspecial, hne, if_true, hhost.read]
  obtain ⟨user, password, host, port⟩ := a
  cases port with
  | none => simp [portText]
  | some m =>
    obtain ⟨hm, hown⟩ := ha.port m rfl
    have hown : m ≠ n := fun h => hown (congrArg SchemeKind.known h)
    simp [portText, port?_append hm, hown]

/-! ### What is read -/

theorem plain_of_mem_escape {escaped : Char → Bool} {cs : List Char} {c : Char}
    (hescape : escapeChars.any escaped = false) (h : c ∈ (escape escaped cs).toList) :
    Plain escaped c := by
  rw [escape, String.toList_ofList] at h
  exact plain_of_mem_percentEncode hescape h

theorem plain_of_userInfo {k : SchemeKind} {cs rest : List Char} {user : String}
    {password : Option String} (h : userInfo k cs = some (user, password, rest)) :
    (∀ c ∈ user.toList, Plain inUser c) ∧
      ∀ p, password = some p → p.toList ≠ [] ∧ ∀ c ∈ p.toList, Plain inUser c := by
  have hnone : (∀ c ∈ "".toList, Plain inUser c) ∧
      ∀ p, (none : Option String) = some p → p.toList ≠ [] ∧ ∀ c ∈ p.toList, Plain inUser c := by
    simp
  have hescape : ∀ {cs : List Char}, ∀ c ∈ (escape inUser cs).toList, Plain inUser c :=
    fun c hc => plain_of_mem_escape (by decide) hc
  dsimp only [userInfo] at h
  split at h
  · obtain ⟨rfl, rfl, -⟩ := (by simpa using h : "" = user ∧ none = password ∧ cs = rest)
    exact hnone
  split at h
  · split at h
    · cases h
    · simp only [Option.some.injEq, Prod.mk.injEq] at h
      obtain ⟨rfl, rfl, -⟩ := h
      exact hnone
  · simp only [Option.some.injEq, Prod.mk.injEq] at h
    obtain ⟨rfl, rfl, -⟩ := h
    refine ⟨hescape, fun p hp => ?_⟩
    split at hp
    · cases hp
    case isFalse hne =>
      obtain rfl := Option.some.inj hp
      rw [List.isEmpty_iff] at hne
      refine ⟨?_, hescape⟩
      rw [escape, String.toList_ofList]
      exact percentEncode_ne_nil hne

theorem le_of_port? {cs rest : List Char} {port : Option Nat} (h : port? cs = some (port, rest)) :
    ∀ n, port = some n → n ≤ 65535 := by
  dsimp only [port?] at h
  split at h
  · cases h
  case isFalse hsmall =>
    simp only [Bool.or_eq_true, decide_eq_true_eq, not_or, Nat.not_lt] at hsmall
    simp only [Option.some.injEq, Prod.mk.injEq] at h
    obtain ⟨rfl, -⟩ := h
    intro n hn
    split at hn
    · cases hn
    · obtain rfl := Option.some.inj hn
      exact hsmall.2

/-- **What is read is a written authority.** -/
theorem written_of_authority? {n : Nat} {cs rest : List Char} {a : Authority}
    (h : authority? idna (.known n) cs = some (a, rest)) : a.Written idna (.known n) := by
  have hspecial : (SchemeKind.known n).isSpecial = true := rfl
  simp only [authority?, Option.bind_eq_bind, Option.bind_eq_some_iff, hspecial, if_true,
    Prod.exists] at h
  obtain ⟨user, password, afterUser, huser, written, hwritten, h⟩ := h
  obtain ⟨huser, hpassword⟩ := plain_of_userInfo huser
  have hhost : Host.Written idna written := by
    split at hwritten
    · cases hwritten
    · exact Host.written_of_ofSpecial? hwritten
  split at h
  · cases h
  split at h
  case h_1 afterHost _ =>
    obtain ⟨⟨port, afterPort⟩, hport, ha⟩ := Option.bind_eq_some_iff.mp h
    simp only [Option.pure_def, Option.some.injEq, Prod.mk.injEq] at ha
    obtain ⟨rfl, -⟩ := ha
    refine ⟨huser, hpassword, hhost, fun m hm => ?_⟩
    dsimp only at hm
    split at hm
    · cases hm
    case isFalse hown =>
      rw [hm] at hown
      refine ⟨le_of_port? hport m hm, fun h => hown ?_⟩
      rw [Option.map_some, h]
      exact beq_self_eq_true _
  case h_2 =>
    simp only [Option.pure_def, Option.some.injEq, Prod.mk.injEq] at h
    obtain ⟨rfl, -⟩ := h
    exact ⟨huser, hpassword, hhost, fun m hm => by cases hm⟩

end Url

end Net

end Compliance
