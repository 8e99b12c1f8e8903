import Compliance.Client.Http
import Compliance.Proofs.Codec.Yields
import Compliance.Proofs.Net.Url
import Mathlib.Data.List.DropRight

/-!
# Where batches are asked for

A request for a batch goes to the text of the endpoint with a path appended to it.  Whether that
path ends up in the path of the locator depends on what the endpoint's text ends with: a query or a
fragment takes all that follows.  Since the text of a locator is read back, it can be said what the
request addresses in each case.

* `ClientConfig.exists_read?_of_load` : the endpoint of a loaded configuration has been read from a
  text.
* `HttpClient.extended`, `HttpClient.lastExtended` : a text, and the last part of a locator, with
  the path of the endpoint for batches at the end.
* `HttpClient.extended_toText` : the text to which requests go is that of such a locator.
* `HttpClient.batch_url` : what the requests of a client address.
-/

namespace Compliance

open Net (Idna Url Plain)
open Net.Url (WrittenPath WrittenSegment Written pathChars partText)

/-! ### Endpoints -/

theorem Files.yieldsYaml_of_document {α : Type} {text : String → Option String} {c : Codec α}
    {path : String} {a : α} (h : Files.document { text } c path = .ok a) : c.YieldsYaml a := by
  simp only [Files.document] at h
  split at h
  case h_1 => cases h
  case h_2 content _ =>
    cases hdecode : c.decodeYaml content with
    | error fault =>
      rw [hdecode] at h
      cases h
    | ok b =>
      rw [hdecode] at h
      obtain rfl : b = a := Except.ok.inj h
      exact .of_decodeYaml hdecode

namespace ClientConfig

variable {idna : Idna}

theorem eq_of_validate {c config : ClientConfig} (h : c.validate = .ok config) : c = config := by
  rw [validate] at h
  split at h
  · cases h
  split at h
  · cases h
  · exact Except.ok.inj h

theorem exists_read?_of_yieldsYaml {config : ClientConfig} (h : (codec idna).YieldsYaml config) :
    ∃ text, Url.read? idna text = some config.endpoint := by
  rw [codec] at h
  obtain ⟨⟨endpoint, fields⟩, hfields, rfl⟩ := h.exists_of_map
  obtain ⟨text, htext⟩ := (Codec.Fields.yieldsYaml_of_required hfields).exists_of_parsed
  cases hread : Url.read? idna text with
  | none =>
    rw [hread] at htext
    cases htext
  | some u =>
    rw [hread] at htext
    exact ⟨text, hread.trans (congrArg some (Except.ok.inj htext))⟩

theorem exists_read?_of_load {text : String → Option String} {path : String}
    {config : ClientConfig} (h : load idna { text } path = .ok config) :
    ∃ text, Url.read? idna text = some config.endpoint := by
  obtain ⟨c, hc, hvalid⟩ := Codec.bind_eq_ok_iff.mp h
  obtain rfl := eq_of_validate hvalid
  cases hdocument : Files.document { text } (codec idna) path with
  | error e =>
    rw [hdocument] at hc
    cases hc
  | ok c' =>
    rw [hdocument] at hc
    obtain rfl : c' = c := Except.ok.inj hc
    exact exists_read?_of_yieldsYaml (Files.yieldsYaml_of_document hdocument)

end ClientConfig

namespace HttpClient

variable {idna : Idna}

/-! ### Texts with a path at the end -/

/-- A text with the path of the endpoint for batches in place of the slashes at its end. -/
def extended (s : String) : String := trimSlashes s ++ "/v1/metadata/batch"

theorem toList_trimSlashes (s : String) :
    (trimSlashes s).toList = s.toList.rdropWhile (· == '/') :=
  String.toList_ofList

theorem mem_of_mem_trimSlashes {s : String} {c : Char} (h : c ∈ (trimSlashes s).toList) :
    c ∈ s.toList := by
  rw [toList_trimSlashes] at h
  exact (List.rdropWhile_prefix _ _).subset h

theorem toList_extended {s t : String} {cs : List Char} {c : Char}
    (hs : s.toList = cs ++ c :: t.toList) (hc : c ≠ '/') :
    (extended s).toList = cs ++ c :: (extended t).toList := by
  have htrim : ∀ ds : List Char, (cs ++ c :: ds).rdropWhile (· == '/') =
      cs ++ c :: ds.rdropWhile (· == '/') := by
    intro ds
    induction ds using List.reverseRecOn with
    | nil =>
      have hne : ¬(c == '/') = true := by simpa using hc
      rw [List.rdropWhile_concat, if_neg hne, List.rdropWhile_nil]
    | append_singleton ds d ih =>
      rw [← List.cons_append, ← List.append_assoc, List.rdropWhile_concat, List.rdropWhile_concat]
      by_cases hd : (d == '/') = true
      · rw [if_pos hd, if_pos hd, ih]
      · rw [if_neg hd, if_neg hd, List.append_assoc, List.cons_append]
  rw [extended, extended, String.toList_append, String.toList_append, toList_trimSlashes,
    toList_trimSlashes, hs, htrim]
  simp

theorem extended_ne (s : String) : extended s ≠ s := by
  intro h
  have hlast : s.toList.getLast? = some 'h' := by
    rw [← h, extended, String.toList_append, List.getLast?_append]
    rfl
  obtain ⟨cs, hcs⟩ : ∃ cs, s.toList = cs ++ ['h'] := List.getLast?_eq_some_iff.mp hlast
  have htrim : trimSlashes s = s := by
    rw [← String.toList_inj, toList_trimSlashes, hcs, List.rdropWhile_concat, if_neg (by decide)]
  have hlength := congrArg String.length h
  rw [extended, htrim, String.length_append] at hlength
  exact absurd hlength (by simp)

theorem plain_of_mem_extended {escaped : Char → Bool} {s : String}
    (hpath : ∀ c ∈ "/v1/metadata/batch".toList, Plain escaped c)
    (hs : ∀ c ∈ s.toList, Plain escaped c) : ∀ c ∈ (extended s).toList, Plain escaped c := by
  intro c hc
  rw [extended, String.toList_append] at hc
  rcases List.mem_append.mp hc with hc | hc
  · exact hs c (mem_of_mem_trimSlashes hc)
  · exact hpath c hc

/-! ### Paths -/

/-- The segments of the path of the endpoint for batches. -/
def batchSegments : List (List Char) :=
  [['v', '1'], ['m', 'e', 't', 'a', 'd', 'a', 't', 'a'], ['b', 'a', 't', 'c', 'h']]

/-- Without the slashes at its end a path has fewer segments. -/
theorem exists_rdropWhile_pathChars {segments : List (List Char)}
    (h : ∀ s ∈ segments, ∀ c ∈ s, c ≠ '/') :
    ∃ kept, (∀ s ∈ kept, s ∈ segments) ∧
      (pathChars segments).rdropWhile (· == '/') = pathChars kept := by
  induction segments using List.reverseRecOn with
  | nil => exact ⟨[], by simp, rfl⟩
  | append_singleton segments s ih =>
    have hlast : pathChars (segments ++ [s]) = pathChars segments ++ '/' :: s := by
      simp [pathChars]
    rcases List.eq_nil_or_concat' s with rfl | ⟨s', c, rfl⟩
    · -- an empty segment at the end is trimmed
      obtain ⟨kept, hkept, htrim⟩ := ih fun s hs => h s (List.mem_append_left _ hs)
      refine ⟨kept, fun s hs => List.mem_append_left _ (hkept s hs), ?_⟩
      rw [hlast, List.rdropWhile_concat, if_pos (beq_self_eq_true _), htrim]
    · refine ⟨segments ++ [s' ++ [c]], fun s hs => hs, ?_⟩
      have hc : ¬(c == '/') = true := by
        simpa using h (s' ++ [c]) (List.mem_append_right _ (List.mem_singleton_self _)) c (by simp)
      rw [hlast, ← List.cons_append, ← List.append_assoc, List.rdropWhile_concat, if_neg hc]

/-- **A written path that goes on with another stays a written path.** -/
theorem writtenPath_extended {p : String} (hp : WrittenPath p) : WrittenPath (extended p) := by
  obtain ⟨segments, -, htext, hsegments⟩ := hp
  obtain ⟨kept, hkept, htrim⟩ := exists_rdropWhile_pathChars
    fun s hs c hc => ((hsegments s hs).plain c hc).2.1
  have hbatch : ∀ s ∈ batchSegments, WrittenSegment s := by
    have hplain : ∀ c ∈ batchSegments.flatten,
        (c.toNat ≤ 127 ∧ Url.inPath c = false) ∧ c ≠ '/' ∧ c ≠ '\\' :=
      List.all_iff_forall_prop.mp (by decide +kernel)
    have hdots : ∀ s ∈ batchSegments, Url.isDoubleDot (String.ofList s) = false ∧
        Url.isSingleDot (String.ofList s) = false := by
      decide +kernel
    exact fun s hs =>
      ⟨fun c hc => hplain c (List.mem_flatten_of_mem hs hc), (hdots s hs).1, (hdots s hs).2⟩
  refine ⟨kept ++ batchSegments, by simp [batchSegments], ?_, fun s hs => ?_⟩
  · have hsuffix : "/v1/metadata/batch".toList = pathChars batchSegments := by decide +kernel
    rw [extended, String.toList_append, toList_trimSlashes, htext, htrim, hsuffix, pathChars,
      pathChars, pathChars, List.flatMap_append]
  · rcases List.mem_append.mp hs with hs | hs
    · exact hsegments s (hkept s hs)
    · exact hbatch s hs

/-! ### Locators -/

/-- A locator whose last part goes on with the path of the endpoint for batches. -/
def lastExtended (u : Url) : Url :=
  match u.fragment, u.query with
  | some f, _ => { u with fragment := some (extended f) }
  | none, some q => { u with query := some (extended q) }
  | none, none => { u with path := extended u.path }

theorem scheme_lastExtended (u : Url) : (lastExtended u).scheme = u.scheme := by
  rw [lastExtended]
  split <;> rfl

theorem authority_lastExtended (u : Url) : (lastExtended u).authority = u.authority := by
  rw [lastExtended]
  split <;> rfl

/-- The path goes on exactly if nothing comes after it. -/
theorem path_lastExtended_iff (u : Url) :
    (lastExtended u).path = extended u.path ↔ u.query = none ∧ u.fragment = none := by
  obtain ⟨scheme, authority, path, query, fragment⟩ := u
  cases fragment <;> cases query <;> simp [lastExtended, (extended_ne path).symm]

/-- **A written locator that goes on stays a written locator.** -/
theorem written_lastExtended {u : Url} (hu : Written idna u) : Written idna (lastExtended u) := by
  have hfragment : ∀ c ∈ "/v1/metadata/batch".toList, c.toNat ≤ 127 ∧ Url.inFragment c = false :=
    List.all_iff_forall_prop.mp (by decide +kernel)
  have hquery : ∀ c ∈ "/v1/metadata/batch".toList,
      c.toNat ≤ 127 ∧ Url.inQuery (.known 80) c = false :=
    List.all_iff_forall_prop.mp (by decide +kernel)
  rw [lastExtended]
  split
  case h_1 f hf =>
    refine { hu with fragment := fun g hg => ?_ }
    obtain rfl := Option.some.inj hg
    exact plain_of_mem_extended hfragment (hu.fragment f hf)
  case h_2 q _ hq =>
    refine { hu with query := fun r hr => ?_ }
    obtain rfl := Option.some.inj hr
    exact plain_of_mem_extended hquery (hu.query q hq)
  case h_3 => exact { hu with path := writtenPath_extended hu.path }

/-- **The text to which requests go is that of the locator with its last part extended.** -/
theorem extended_toText {u : Url} (hu : Written idna u) :
    extended u.toText = (lastExtended u).toText := by
  obtain ⟨a, ha, hwritten⟩ := hu.authority
  have htext := Url.toList_toText ha
  rw [← String.toList_inj, Url.toList_toText ((authority_lastExtended u).trans ha)]
  obtain ⟨scheme, authority, path, query, fragment⟩ := u
  cases fragment with
  | some f =>
    have hs : (Url.toText ⟨scheme, authority, path, query, some f⟩).toList =
        (scheme.toList ++ ':' :: '/' :: '/' :: (a.toText.toList ++ (path.toList ++
          partText '?' query))) ++ '#' :: f.toList := by
      simp [htext, partText]
    rw [toList_extended hs (by decide)]
    simp [lastExtended, partText]
  | none =>
    cases query with
    | some q =>
      have hs : (Url.toText ⟨scheme, authority, path, some q, none⟩).toList =
          (scheme.toList ++ ':' :: '/' :: '/' :: (a.toText.toList ++ path.toList)) ++
            '?' :: q.toList := by
        simp [htext, partText]
      rw [toList_extended hs (by decide)]
      simp [lastExtended, partText]
    | none =>
      -- the slashes of the path end where the authority does
      obtain ⟨cs, c, hc⟩ : ∃ cs c, a.toText.toList = cs ++ [c] := by
        rcases List.eq_nil_or_concat' a.toText.toList with hnil | hlast
        · exact absurd hnil (Url.authority_toText_ne_nil hwritten)
        · exact hlast
      have hne : c ≠ '/' := by
        have hinside := (Url.inside_of_mem_toText hwritten (c := c) (by simp [hc])).2.2 80
        rintro rfl
        exact absurd hinside (by decide)
      have hs : (Url.toText ⟨scheme, authority, path, none, none⟩).toList =
          (scheme.toList ++ ':' :: '/' :: '/' :: cs) ++ c :: path.toList := by
        simp [htext, partText, hc]
      rw [toList_extended hs hne]
      simp [lastExtended, partText, hc]

/-! ### Requests -/

/-- **What the requests of a client address**, however international names are written.  The
endpoint of a configuration is read from a text, whether the configuration is loaded from a file or
made for that endpoint.  If the scheme of the endpoint is that of the web, each request of the
client goes to a text that denotes a locator with the same scheme and authority.  The last part of
the endpoint that there is, the fragment or else the query or else the path, goes on with the path
of the endpoint for batches in place of the slashes at its end.  So the request addresses that path
under the endpoint exactly if the endpoint has neither a query nor a fragment. -/
theorem batch_url {config : ClientConfig} {c : HttpClient}
    (hconfig : (∃ text path, ClientConfig.load idna { text } path = .ok config) ∨
      ∃ text, Url.read? idna text = some config.endpoint)
    (hscheme : config.endpoint.scheme = "http" ∨ config.endpoint.scheme = "https")
    (hc : ofConfig config = .ok c) (ps : List PolicyRef) :
    ∃ v, Url.read? idna (c.request ps).url = some v ∧ v = lastExtended config.endpoint ∧
      v.scheme = config.endpoint.scheme ∧ v.authority = config.endpoint.authority ∧
      (v.path = trimSlashes config.endpoint.path ++ "/v1/metadata/batch" ↔
        config.endpoint.query = none ∧ config.endpoint.fragment = none) := by
  obtain ⟨text, hread⟩ : ∃ text, Url.read? idna text = some config.endpoint := by
    rcases hconfig with ⟨text, path, hload⟩ | hread
    · exact ClientConfig.exists_read?_of_load hload
    · exact hread
  obtain ⟨n, hknown⟩ : ∃ n, Url.schemeKind config.endpoint.scheme = .known n := by
    rcases hscheme with h | h <;> rw [h]
    · exact ⟨80, rfl⟩
    · exact ⟨443, rfl⟩
  have hwritten := Url.written_of_read? hread hknown
  have hbase : c.baseUrl = config.endpoint := by
    simp only [ofConfig] at hc
    split at hc
    · exact congrArg baseUrl (Except.ok.inj hc).symm
    split at hc
    · exact congrArg baseUrl (Except.ok.inj hc).symm
    · cases hc
  have hurl : (c.request ps).url = (lastExtended config.endpoint).toText := by
    rw [← extended_toText hwritten, ← hbase]
    rfl
  refine ⟨lastExtended config.endpoint, ?_, rfl, scheme_lastExtended _, authority_lastExtended _,
    path_lastExtended_iff _⟩
  rw [hurl]
  exact Url.read?_toText (written_lastExtended hwritten)

/-- A configuration file with slashes at the end of the endpoint's path. -/
theorem batch_url_sample :
    let endpoint : Url :=
      { scheme := "http", authority := some { host := "localhost", port := some 8081 }
        path := "/compass//", query := none, fragment := none }
    let files : Files := { text := fun _ => some "endpoint: HTTP://LocalHost:8081/compass//" }
    ∃ config c, ClientConfig.load .ascii files "client.yaml" = .ok config ∧
      config.endpoint = endpoint ∧
      ofConfig config = .ok c ∧
      ∀ ps, ∃ v, Url.read? .ascii (c.request ps).url = some v ∧
        v.path = "/compass/v1/metadata/batch" := by
  intro endpoint files
  have hload : ClientConfig.load .ascii files "client.yaml" = .ok { endpoint } := by decide +kernel
  refine ⟨{ endpoint }, _, hload, rfl, rfl, fun ps => ?_⟩
  obtain ⟨v, hread, -, -, -, hpath⟩ := batch_url (.inl ⟨_, _, hload⟩) (.inl rfl) rfl ps
  exact ⟨v, hread, (hpath.mpr ⟨rfl, rfl⟩).trans (by decide +kernel)⟩

/-- Where the endpoint has a fragment, the path of the endpoint for batches ends up in the fragment,
and the request addresses the path of the endpoint itself. -/
theorem fragment_takes_path :
    let endpoint : Url :=
      { scheme := "http", authority := some { host := "localhost", port := some 8081 }
        path := "/compass", query := none, fragment := some "v2" }
    Url.read? .ascii "http://localhost:8081/compass#v2" = some endpoint ∧
    ∃ c, ofConfig { endpoint } = .ok c ∧
      ∃ v, Url.read? .ascii (c.request []).url = some v ∧ v.path = "/compass" ∧
        v.fragment = some "v2/v1/metadata/batch" ∧
        v.path ≠ trimSlashes endpoint.path ++ "/v1/metadata/batch" := by
  intro endpoint
  exact ⟨by decide +kernel, _, rfl, { endpoint with fragment := some "v2/v1/metadata/batch" },
    by decide +kernel, rfl, rfl, by decide +kernel⟩

end HttpClient

end Compliance
