import Compliance.Proofs.Net.Authority

/-!
# The text of a locator is read back

The written form of a locator is a fixed point: its text denotes the locator itself.  That takes a
path without dot segments, and parts in which every character that means something to the reader has
been escaped.  A part may be replaced by another in written form, and the text still denotes what it
should.

* `Url.pathChars`, `Url.WrittenPath` : a path as its segments.
* `Url.pathText_pathChars`, `Url.writtenPath_pathText` : written paths are read as themselves, and
  what is read is a written path.
* `Url.Written` : what is known about a locator with a known scheme that has been read.
* `Url.read?_toText` : **a written locator is read back from its text**.
* `Url.written_of_read?` : what is read is a written locator.
-/

namespace Compliance

namespace Net

namespace Url

open Compliance.Text (takeWhile_run dropWhile_run)

variable {idna : Idna} {n : Nat}

/-! ### Paths -/

/-- The text of a path, from its segments. -/
def pathChars (segments : List (List Char)) : List Char :=
  segments.flatMap ('/' :: ·)

/-- The written form of a segment. -/
structure WrittenSegment (s : List Char) : Prop where
  plain : ∀ c ∈ s, Plain inPath c ∧ c ≠ '/' ∧ c ≠ '\\'
  notAbove : isDoubleDot (String.ofList s) = false
  notHere : isSingleDot (String.ofList s) = false

/-- The written form of a path. -/
def WrittenPath (p : String) : Prop :=
  ∃ segments, segments ≠ [] ∧ p.toList = pathChars segments ∧ ∀ s ∈ segments, WrittenSegment s

theorem writtenSegment_nil : WrittenSegment [] :=
  ⟨by simp, by decide +kernel, by decide +kernel⟩

theorem WrittenSegment.isSlash_eq {s : List Char} (h : WrittenSegment s) :
    ∀ c ∈ s, isSlash (.known n) c = false := by
  intro c hc
  obtain ⟨-, hslash, hback⟩ := h.plain c hc
  show (c == '/' || c == '\\') = false
  rw [Bool.or_eq_false_iff, beq_eq_false_iff_ne, beq_eq_false_iff_ne]
  exact ⟨hslash, hback⟩

theorem splitSlashes_pathChars {s : List Char} {segments : List (List Char)}
    (hs : WrittenSegment s) (hsegments : ∀ s ∈ segments, WrittenSegment s) :
    splitSlashes (.known n) (s ++ pathChars segments) = s :: segments := by
  induction segments generalizing s with
  | nil =>
    rw [pathChars, List.flatMap_nil, List.append_nil]
    exact List.splitOnP_eq_singleton hs.isSlash_eq
  | cons t segments ih =>
    obtain ⟨ht, hsegments⟩ := List.forall_mem_cons.mp hsegments
    rw [pathChars, List.flatMap_cons, List.cons_append, splitSlashes,
      List.splitOnP_append_cons_of_forall_mem hs.isSlash_eq '/' rfl]
    exact congrArg _ (ih ht hsegments)

/-- Where there are no dot segments, all segments stay. -/
theorem resolveDots_eq {above segments : List String}
    (h : ∀ s ∈ segments, isDoubleDot s = false ∧ isSingleDot s = false) :
    resolveDots above segments = above.reverse ++ segments := by
  induction segments generalizing above with
  | nil => simp [resolveDots]
  | cons s segments ih =>
    obtain ⟨⟨habove, hhere⟩, hsegments⟩ := List.forall_mem_cons.mp h
    simp [resolveDots, habove, hhere, ih hsegments]

/-- What is left when dot segments are resolved are other segments, and empty ones. -/
theorem of_mem_resolveDots {above segments : List String} {s : String}
    (h : s ∈ resolveDots above segments) :
    s ∈ above ∨ s = "" ∨ (s ∈ segments ∧ isDoubleDot s = false ∧ isSingleDot s = false) := by
  induction segments generalizing above with
  | nil => exact .inl (by simpa [resolveDots] using h)
  | cons t segments ih =>
    simp only [resolveDots] at h
    have hup : ∀ {above' : List String}, (∀ s ∈ above', s ∈ above ∨ s = "") →
        s ∈ resolveDots above' segments →
        s ∈ above ∨ s = "" ∨
          (s ∈ t :: segments ∧ isDoubleDot s = false ∧ isSingleDot s = false) := by
      intro above' habove h
      rcases ih h with h | h | ⟨h, hdots⟩
      · exact (habove s h).imp_right .inl
      · exact .inr (.inl h)
      · exact .inr (.inr ⟨List.mem_cons_of_mem _ h, hdots⟩)
    have hdrop : ∀ s ∈ above.drop 1, s ∈ above := fun s hs => List.mem_of_mem_drop hs
    split at h
    · refine hup (fun s hs => ?_) h
      split at hs
      · rcases List.mem_cons.mp hs with rfl | hs
        · exact .inr rfl
        · exact .inl (hdrop s hs)
      · exact .inl (hdrop s hs)
    split at h
    · refine hup (fun s hs => ?_) h
      split at hs
      · exact (List.mem_cons.mp hs).symm
      · exact .inl hs
    case isFalse habove hhere =>
      rcases ih h with h | h | ⟨h, hdots⟩
      · rcases List.mem_cons.mp h with rfl | h
        · exact .inr (.inr ⟨List.mem_cons_self .., by simpa using habove, by simpa using hhere⟩)
        · exact .inl h
      · exact .inr (.inl h)
      · exact .inr (.inr ⟨List.mem_cons_of_mem _ h, hdots⟩)

theorem cons_intercalate (segments : List (List Char)) (hne : segments ≠ []) :
    '/' :: ['/'].intercalate segments = pathChars segments := by
  induction segments with
  | nil => exact absurd rfl hne
  | cons s segments ih =>
    cases segments with
    | nil => simp [pathChars]
    | cons t segments =>
      rw [List.intercalate_cons_cons, pathChars, List.flatMap_cons, ← pathChars, ← ih (by simp)]
      simp

theorem toList_pathText (cs : List Char) :
    (pathText (.known n) cs).toList = '/' ::
      ['/'].intercalate ((resolveDots [] ((splitSlashes (.known n) cs).map (escape inPath))).map
        String.toList) := by
  have hfile : (SchemeKind.known n == .file) = false := rfl
  simp [pathText, hfile, String.toList_intercalate]

/-- **A written path is read as itself.** -/
theorem pathText_pathChars {s : List Char} {segments : List (List Char)} (hs : WrittenSegment s)
    (hsegments : ∀ s ∈ segments, WrittenSegment s) :
    (pathText (.known n) (s ++ pathChars segments)).toList = pathChars (s :: segments) := by
  have hall := List.forall_mem_cons.mpr ⟨hs, hsegments⟩
  have hescape : (s :: segments).map (escape inPath) = (s :: segments).map String.ofList := by
    refine List.map_congr_left fun t ht => ?_
    rw [escape, percentEncode_eq_self fun c hc => ((hall t ht).plain c hc).1]
  have hdots : ∀ t ∈ (s :: segments).map String.ofList, isDoubleDot t = false ∧
      isSingleDot t = false := by
    intro _ hmem
    obtain ⟨t, ht, rfl⟩ := List.mem_map.mp hmem
    exact ⟨(hall t ht).notAbove, (hall t ht).notHere⟩
  have hlists : ((s :: segments).map String.ofList).map String.toList = s :: segments := by
    rw [List.map_map]
    exact (List.map_congr_left fun t _ => String.toList_ofList).trans (List.map_id _)
  rw [toList_pathText, splitSlashes_pathChars hs hsegments, hescape, resolveDots_eq hdots,
    List.reverse_nil, List.nil_append, hlists, cons_intercalate _ (List.cons_ne_nil _ _)]

theorem notSlash_of_mem_splitSlashes {cs s : List Char} (h : s ∈ splitSlashes (.known n) cs) :
    ∀ c ∈ s, isSlash (.known n) c = false := by
  rw [splitSlashes] at h
  induction cs generalizing s with
  | nil =>
    obtain rfl : s = [] := by simpa using h
    intro c hc
    cases hc
  | cons d cs ih =>
    rw [List.splitOnP_cons_eq_if_modifyHead] at h
    split at h
    case isTrue =>
      rcases List.mem_cons.mp h with rfl | h
      · intro c hc
        cases hc
      · exact ih h
    case isFalse hd =>
      obtain ⟨t, ts, hts⟩ := List.exists_cons_of_ne_nil
        (List.splitOnP_ne_nil (isSlash (.known n)) cs)
      rw [hts] at h ih
      rcases List.mem_cons.mp h with rfl | h
      · intro c hc
        rcases List.mem_cons.mp hc with rfl | hc
        · simpa using hd
        · exact ih (List.mem_cons_self ..) c hc
      · exact ih (List.mem_cons_of_mem _ h)

/-- **What is read is a written path.** -/
theorem writtenPath_pathText (cs : List Char) : WrittenPath (pathText (.known n) cs) := by
  let segments := (resolveDots [] ((splitSlashes (.known n) cs).map (escape inPath))).map
    String.toList
  have hsegments : ∀ s ∈ segments, WrittenSegment s := by
    intro _ hmem
    obtain ⟨s, hs, rfl⟩ := List.mem_map.mp hmem
    rcases of_mem_resolveDots hs with hs | rfl | ⟨hs, habove, hhere⟩
    · cases hs
    · exact writtenSegment_nil
    · obtain ⟨t, ht, rfl⟩ := List.mem_map.mp hs
      refine ⟨fun c hc => ⟨plain_of_mem_escape (by decide) hc, ?_⟩, by simpa using habove,
        by simpa using hhere⟩
      rw [escape, String.toList_ofList] at hc
      have hmarks : ∀ c ∈ escapeChars, c ≠ '/' ∧ c ≠ '\\' :=
        List.all_iff_forall_prop.mp (by decide)
      rcases mem_percentEncode hc with ⟨hc, -⟩ | hc
      · have hslash : (c == '/' || c == '\\') = false := notSlash_of_mem_splitSlashes ht c hc
        rwa [Bool.or_eq_false_iff, beq_eq_false_iff_ne, beq_eq_false_iff_ne] at hslash
      · exact hmarks c hc
  by_cases hne : segments = []
  · -- a path without segments is that with one empty one
    refine ⟨[[]], List.cons_ne_nil _ _, ?_, by simpa using writtenSegment_nil⟩
    rw [toList_pathText]
    show '/' :: ['/'].intercalate segments = _
    rw [hne]
    rfl
  · exact ⟨segments, hne, (toList_pathText cs).trans (cons_intercalate segments hne), hsegments⟩

theorem WrittenPath.plain {p : String} (hp : WrittenPath p) {c : Char} (h : c ∈ p.toList) :
    32 < c.toNat ∧ c.toNat ≤ 127 ∧ c ≠ '?' ∧ c ≠ '#' := by
  have hplain : ∀ {c}, Plain inPath c → 32 < c.toNat ∧ c.toNat ≤ 127 ∧ c ≠ '?' ∧ c ≠ '#' := by
    intro c hc
    obtain ⟨hvisible, hquery, hfragment⟩ := of_ascii
      (P := fun c => inPath c = false → 32 < c.toNat ∧ c ≠ '?' ∧ c ≠ '#') (by decide) hc.1 hc.2
    exact ⟨hvisible, hc.1, hquery, hfragment⟩
  obtain ⟨segments, -, hp, hsegments⟩ := hp
  rw [hp] at h
  obtain ⟨s, hs, h⟩ := List.mem_flatMap.mp h
  rcases List.mem_cons.mp h with rfl | h
  · exact ⟨by decide, by decide, by decide, by decide⟩
  · exact hplain ((hsegments s hs).plain c h).1

/-- A written path begins with a slash, and the rest is read as the path. -/
theorem WrittenPath.exists_cons {p : String} (hp : WrittenPath p) :
    ∃ r, p.toList = '/' :: r ∧ pathAfterAuthority (.known n) ('/' :: r) = p := by
  obtain ⟨segments, hne, hp, hsegments⟩ := hp
  obtain ⟨s, segments, rfl⟩ := List.exists_cons_of_ne_nil hne
  obtain ⟨hs, hsegments⟩ := List.forall_mem_cons.mp hsegments
  refine ⟨s ++ pathChars segments, hp, ?_⟩
  rw [pathAfterAuthority, if_pos (show isSlash (.known n) '/' = true from rfl),
    ← String.toList_inj, pathText_pathChars hs hsegments, hp]

theorem writtenPath_pathAfterAuthority (cs : List Char) :
    WrittenPath (pathAfterAuthority (.known n) cs) := by
  cases cs with
  | nil =>
    have hroot : (pathAfterAuthority (.known n) []).toList = pathChars [[]] :=
      String.toList_ofList (l := ['/'])
    exact ⟨[[]], List.cons_ne_nil _ _, hroot, by simpa using writtenSegment_nil⟩
  | cons c cs => exact writtenPath_pathText _

/-! ### Locators -/

/-- The written form of a locator with a known scheme. -/
structure Written (idna : Idna) (u : Url) : Prop where
  known : ∃ n, schemeKind u.scheme = .known n
  authority : ∃ a, u.authority = some a ∧ a.Written idna (schemeKind u.scheme)
  path : WrittenPath u.path
  query : ∀ q, u.query = some q → ∀ c ∈ q.toList, Plain (inQuery (.known 80)) c
  fragment : ∀ f, u.fragment = some f → ∀ c ∈ f.toList, Plain inFragment c

theorem scheme_of_known {s : String} (h : schemeKind s = .known n) :
    s ∈ ["http", "ws", "https", "wss", "ftp"] := by
  unfold schemeKind at h
  split at h <;> simp_all

theorem scheme?_append {s : String} (h : schemeKind s = .known n) (r : List Char) :
    scheme? (s.toList ++ ':' :: r) = some (s, r) := by
  have hnames : ∀ s ∈ ["http", "ws", "https", "wss", "ftp"],
      s.toList.all (fun c => c.isAlphanum || c == '+' || c == '-' || c == '.') = true ∧
        s.toList.map Char.toLower = s.toList ∧ s.toList.head?.any Char.isAlpha = true := by
    decide +kernel
  obtain ⟨hname, hlower, halpha⟩ := hnames s (scheme_of_known h)
  have htake : (s.toList ++ ':' :: r).takeWhile
      (fun c => c.isAlphanum || c == '+' || c == '-' || c == '.') = s.toList := by
    refine takeWhile_run (List.all_eq_true.mp hname) fun c hc => ?_
    obtain rfl : ':' = c := by simpa using hc
    rfl
  simp [scheme?, htake, hlower, halpha]

/-- The text of a query or a fragment, after its mark. -/
def partText (mark : Char) : Option String → List Char
  | some s => mark :: s.toList
  | none => []

theorem toList_toText {u : Url} {a : Authority} (ha : u.authority = some a) :
    u.toText.toList = u.scheme.toList ++ ':' :: '/' :: '/' ::
      (a.toText.toList ++ (u.path.toList ++
        (partText '?' u.query ++ partText '#' u.fragment))) := by
  obtain ⟨scheme, authority, path, query, fragment⟩ := u
  obtain rfl : authority = some a := ha
  cases query <;> cases fragment <;> simp [toText, partText]

theorem strip_eq_self {cs : List Char} (h : ∀ c ∈ cs, 32 < c.toNat) : strip cs = cs := by
  have hdrop : ∀ cs : List Char, (∀ c ∈ cs, 32 < c.toNat) →
      cs.dropWhile (fun c => decide (c.toNat ≤ 32)) = cs := by
    intro cs h
    cases cs with
    | nil => rfl
    | cons c cs =>
      refine List.dropWhile_cons_of_neg ?_
      simpa using h c (List.mem_cons_self ..)
  have hreverse : ∀ c ∈ cs.reverse, 32 < c.toNat := fun c hc => h c (List.mem_reverse.mp hc)
  rw [strip, hdrop cs h, hdrop _ hreverse, List.reverse_reverse]

theorem visible_of_mem_partText {mark : Char} (hmark : 32 < mark.toNat) {escaped : Char → Bool}
    (hescaped : ∀ n < 128, escaped (Char.ofNat n) = false → 32 < (Char.ofNat n).toNat)
    {s : Option String} (hs : ∀ t, s = some t → ∀ c ∈ t.toList, Plain escaped c) {c : Char}
    (h : c ∈ partText mark s) : 32 < c.toNat := by
  cases s with
  | none => cases h
  | some t =>
    rcases List.mem_cons.mp h with rfl | h
    · exact hmark
    · obtain ⟨hascii, hplain⟩ := hs t rfl c h
      exact of_ascii (P := fun c => escaped c = false → 32 < c.toNat) hescaped hascii hplain

theorem Written.visible {u : Url} (hu : Written idna u) : ∀ c ∈ u.toText.toList, 32 < c.toNat := by
  obtain ⟨n, hn⟩ := hu.known
  obtain ⟨a, ha, hwritten⟩ := hu.authority
  have hscheme : ∀ s ∈ ["http", "ws", "https", "wss", "ftp"],
      s.toList.all (fun c => decide (32 < c.toNat)) = true := by
    decide +kernel
  intro c hc
  rw [toList_toText ha] at hc
  simp only [List.mem_append, List.mem_cons] at hc
  rcases hc with hc | rfl | rfl | rfl | hc | hc | hc | hc
  · exact List.all_iff_forall_prop.mp (hscheme _ (scheme_of_known hn)) c hc
  · decide
  · decide
  · decide
  · exact (inside_of_mem_toText hwritten hc).1
  · exact (hu.path.plain hc).1
  · exact visible_of_mem_partText (by decide) (by decide) hu.query hc
  · exact visible_of_mem_partText (by decide) (by decide) hu.fragment hc

/-- The text of a written locator after its scheme: what stands before the query is free of the
marks of a query and a fragment, and the query of that of a fragment. -/
theorem Written.marks {u : Url} (hu : Written idna u) {a : Authority} (ha : u.authority = some a) :
    (∀ c ∈ '/' :: '/' :: (a.toText.toList ++ u.path.toList),
      (c != '?') = true ∧ (c != '#') = true) ∧
      ∀ c ∈ partText '?' u.query, (c != '#') = true := by
  obtain ⟨a', ha', hwritten⟩ := hu.authority
  obtain rfl : a = a' := Option.some.inj (ha.symm.trans ha')
  have hinside : ∀ c, endsAuthority (.known 80) c = false →
      (c != '?') = true ∧ (c != '#') = true := by
    intro c hc
    rw [bne_iff_ne, bne_iff_ne]
    constructor <;> rintro rfl <;> revert hc <;> decide
  constructor
  · intro c hc
    simp only [List.mem_append, List.mem_cons] at hc
    rcases hc with rfl | rfl | hc | hc
    · decide
    · decide
    · exact hinside c ((inside_of_mem_toText hwritten hc).2.2 80)
    · rw [bne_iff_ne, bne_iff_ne]
      exact (hu.path.plain hc).2.2
  · intro c hc
    rw [bne_iff_ne]
    cases hquery : u.query with
    | none =>
      rw [hquery] at hc
      cases hc
    | some q =>
      rw [hquery] at hc
      rcases List.mem_cons.mp hc with rfl | hc
      · decide
      · rintro rfl
        exact absurd (hu.query q hquery _ hc).2 (by decide)

theorem bne_of_head?_partText {mark : Char} {s : Option String} {c : Char}
    (h : (partText mark s).head? = some c) : (c != mark) = false := by
  cases s with
  | none => cases h
  | some t =>
    obtain rfl : mark = c := by simpa [partText] using h
    exact bne_self_eq_false mark

/-- A part in its written form is read after its mark. -/
theorem readPart (mark : Char) (escaped : Char → Bool) {s : Option String}
    (hs : ∀ t, s = some t → ∀ c ∈ t.toList, Plain escaped c) :
    (if (partText mark s).isEmpty then none
      else some (escape escaped ((partText mark s).drop 1))) = s := by
  cases s with
  | none => rfl
  | some t => exact congrArg some (escape_eq_self (hs t rfl))

theorem dropWhile_slashes {k : SchemeKind} {a : Authority} (ha : a.Written idna k) (r : List Char) :
    ('/' :: '/' :: (a.toText.toList ++ r)).dropWhile (fun c => c == '/' || c == '\\') =
      a.toText.toList ++ r := by
  obtain ⟨c, cs, hcs⟩ := List.exists_cons_of_ne_nil (authority_toText_ne_nil ha)
  have hc : (c == '/' || c == '\\') = false := by
    have hinside := (inside_of_mem_toText ha (hcs ▸ List.mem_cons_self ..)).2.2 80
    have hends : endsAuthority (.known 80) c = (c == '/' || c == '\\' || c == '?' || c == '#') :=
      rfl
    rw [hends] at hinside
    simp_all
  rw [hcs]
  simp [hc]

/-- **A written locator is read back from its text.** -/
theorem read?_toText {u : Url} (hu : Written idna u) : read? idna u.toText = some u := by
  obtain ⟨n, hn⟩ := hu.known
  obtain ⟨a, ha, hwritten⟩ := hu.authority
  obtain ⟨hbefore, hquery⟩ := hu.marks ha
  obtain ⟨r, hpath, hread⟩ := hu.path.exists_cons (n := n)
  rw [hn] at hwritten
  generalize hfront : '/' :: '/' :: (a.toText.toList ++ u.path.toList) = front at hbefore
  have htext : u.toText.toList = u.scheme.toList ++ ':' ::
      ((front ++ partText '?' u.query) ++ partText '#' u.fragment) := by
    rw [toList_toText ha, ← hfront]
    simp
  have hclean : u.toText.toList.filter (fun c => c != '\t' && c != '\n' && c != '\r') =
      u.toText.toList := by
    refine List.filter_eq_self.mpr fun c hc => ?_
    have hvisible := hu.visible c hc
    simp only [Bool.and_eq_true, bne_iff_ne]
    refine ⟨⟨?_, ?_⟩, ?_⟩ <;> rintro rfl <;> revert hvisible <;> decide
  have hfragment : ∀ c ∈ front ++ partText '?' u.query, (c != '#') = true := fun c hc =>
    (List.mem_append.mp hc).elim (fun hc => (hbefore c hc).2) (hquery c)
  have hauthority : authority? idna (.known n) (front.dropWhile fun c => c == '/' || c == '\\') =
      some (a, '/' :: r) := by
    rw [← hfront, dropWhile_slashes hwritten, hpath]
    exact authority?_toText hwritten r
  simp only [read?, strip_eq_self hu.visible, hclean]
  simp only [htext, scheme?_append hn, Option.bind_eq_bind, Option.bind_some, hn,
    dropWhile_run hfragment (fun _ => bne_of_head?_partText),
    takeWhile_run hfragment (fun _ => bne_of_head?_partText),
    dropWhile_run (fun c hc => (hbefore c hc).1) (fun _ => bne_of_head?_partText),
    takeWhile_run (fun c hc => (hbefore c hc).1) (fun _ => bne_of_head?_partText), hauthority,
    hread]
  have hqueryRead := readPart '?' (inQuery (.known n)) hu.query
  have hfragmentRead := readPart '#' inFragment hu.fragment
  simp only [hqueryRead, hfragmentRead, ← ha]
  rfl

/-- **What is read is a written locator**, if its scheme is a known one. -/
theorem written_of_read? {text : String} {u : Url} (h : read? idna text = some u)
    (hknown : schemeKind u.scheme = .known n) : Written idna u := by
  simp only [read?, Option.bind_eq_bind, Option.bind_eq_some_iff, Prod.exists] at h
  obtain ⟨scheme, cs, -, h⟩ := h
  have hscheme : u.scheme = scheme := by
    repeat' split at h
    all_goals
      simp only [Option.pure_def, Option.bind_eq_some_iff, Option.some.injEq] at h
      first
        | exact congrArg Url.scheme h.symm
        | obtain ⟨_, -, h⟩ := h
          exact congrArg Url.scheme h.symm
  rw [hscheme] at hknown
  rw [hknown] at h
  obtain ⟨⟨a, rest⟩, ha, h⟩ := Option.bind_eq_some_iff.mp h
  obtain rfl := Option.some.inj h
  have hmark : ∀ {escaped : Char → Bool} {cs : List Char}, escapeChars.any escaped = false →
      ∀ s, (if cs.isEmpty then none else some (escape escaped (cs.drop 1))) = some s →
        ∀ c ∈ s.toList, Plain escaped c := by
    intro escaped cs hescape s hs c hc
    split at hs
    · cases hs
    · obtain rfl := Option.some.inj hs
      exact plain_of_mem_escape hescape hc
  have hquery : escapeChars.any (inQuery (.known 80)) = false := by decide
  exact
    { known := ⟨n, hknown⟩
      authority := ⟨a, rfl, hknown ▸ written_of_authority? ha⟩
      path := writtenPath_pathAfterAuthority rest
      query := hmark hquery
      fragment := hmark (by decide) }

end Url

end Net

end Compliance
