import Compliance.File.Document
import Compliance.Proofs.Client.Padding
import Compliance.Proofs.Codec.Parsed
import Mathlib.Data.List.Forall2

/-!
# Loading documents

A file holds a document if it can be read and its text is one, and otherwise it fails in one of two
ways.  Catalogs are loaded from a list of files if each of them holds one and no two of the catalogs
have an id in common.  If that is not so, the first file that fails, or that repeats the id of a
catalog before it, is the one that is reported.  All this is so whatever the parser is.

* `Files.Holds`, `Files.Fails` : what becomes of the document in a file.
* `Files.ReadsIds`, `Files.readsIds_yaml` : parsers that find the id of a catalog as a text, with or
  without blanks around it.
* `Files.distinctIds_iff` : catalogs have different ids if the texts differ in more than blanks.
* `loadCatalogs_eq_ok_iff`, `loadCatalogs_eq_error_iff` : when some files are loaded, and what is
  reported otherwise.
-/

namespace Compliance

open Codec (Fault bind_eq_ok_iff bind_eq_error_iff decodeYaml_map_eq_ok_iff)
open Codec.Fields (required defaulted decodeYaml_parsed_first_eq_ok_iff)
open Text (trim)

/-! ### Lists side by side -/

section

variable {α β : Type} {R : α → β → Prop}

theorem exists_forall₂_iff {l : List α} :
    (∃ l', List.Forall₂ R l l') ↔ ∀ a ∈ l, ∃ b, R a b := by
  induction l with
  | nil => exact iff_of_true ⟨[], .nil⟩ (by simp)
  | cons a l ih =>
    rw [List.forall_mem_cons, ← ih]
    constructor
    · rintro ⟨_, ⟨⟩⟩
      exact ⟨⟨_, ‹R a _›⟩, ⟨_, ‹_›⟩⟩
    · rintro ⟨⟨b, hb⟩, l', hl'⟩
      exact ⟨b :: l', .cons hb hl'⟩

theorem pairwise_iff_of_forall₂ {S : α → α → Prop} {S' : β → β → Prop} {l : List α} {l' : List β}
    (h : List.Forall₂ R l l') (hS : ∀ {a a' b b'}, R a b → R a' b' → (S a a' ↔ S' b b')) :
    l.Pairwise S ↔ l'.Pairwise S' := by
  obtain ⟨hlength, hR⟩ := List.forall₂_iff_get.mp h
  rw [List.pairwise_iff_getElem, List.pairwise_iff_getElem]
  constructor
  · intro hl i j hi hj hij
    exact (hS (hR i (by omega) hi) (hR j (by omega) hj)).mp (hl i j _ _ hij)
  · intro hl' i j hi hj hij
    exact (hS (hR i hi (by omega)) (hR j hj (by omega))).mpr (hl' i j _ _ hij)

end

/-! ### Files -/

namespace Files

variable {α : Type} {files : Files} {c : Codec α} {path : String} {a b : α}

/-- A file can be read, and its text is a document. -/
def Holds (files : Files) (c : Codec α) (path : String) (a : α) : Prop :=
  ∃ text, files.text path = some text ∧ files.parse c text = .ok a

/-- A file cannot be read, or its text is not the document it should be. -/
inductive Fails (files : Files) (c : Codec α) (path : String) : DocumentError → Prop
  | unreadable (h : files.text path = none) : Fails files c path (.unreadable path)
  | unparsable {text : String} {f : Fault} (h : files.text path = some text)
      (hf : files.parse c text = .error f) : Fails files c path (.unparsable path f)

theorem document_eq_ok_iff : files.document c path = .ok a ↔ files.Holds c path a := by
  rw [document, Holds]
  cases files.text path with
  | none => simp
  | some text => cases h : files.parse c text <;> simp [h, Except.mapError]

theorem document_eq_error_iff {e : DocumentError} :
    files.document c path = .error e ↔ files.Fails c path e := by
  rw [document]
  constructor
  · intro h
    split at h
    case h_1 hpath =>
      obtain rfl := Except.error.inj h
      exact .unreadable hpath
    case h_2 text hpath =>
      cases hf : files.parse c text with
      | ok a => rw [hf] at h; cases h
      | error f =>
        rw [hf] at h
        obtain rfl := Except.error.inj h
        exact .unparsable hpath hf
  · rintro (hpath | ⟨hpath, hf⟩)
    · rw [hpath]
    · rw [hpath]
      simp only [hf]
      rfl

theorem Holds.unique (ha : files.Holds c path a) (hb : files.Holds c path b) : a = b := by
  rw [← document_eq_ok_iff] at ha hb
  exact Except.ok.inj (ha.symm.trans hb)

/-- Whoever loads a document reports what is wrong with its file. -/
theorem mapError_document_eq_ok_iff :
    (files.document c path).mapError LoadError.document = .ok a ↔ files.Holds c path a := by
  rw [← document_eq_ok_iff]
  cases files.document c path <;> simp [Except.mapError]

theorem mapError_document_eq_error_iff {e : LoadError} :
    (files.document c path).mapError LoadError.document = .error e ↔
      ∃ d, files.Fails c path d ∧ .document d = e := by
  simp only [← document_eq_error_iff]
  cases files.document c path <;> simp [Except.mapError]

end Files

/-! ### Catalogs as they are written -/

/-- The id of a catalog is written as a text. -/
def CatalogText.codec : Codec CatalogText :=
  (required "catalogId" Codec.string <|
    defaulted "controlFamilies" (Codec.list ControlFamily.codec) [] .nil).codec.map
    (fun (id, families, _) => ⟨id, families⟩)
    (fun c => (c.id, c.families, ()))

/-- The catalog that is meant has the id that is written, without the blanks around it. -/
theorem CatalogText.read_eq_ok_iff {t : CatalogText} {k : Catalog} :
    t.read = .ok k ↔ Identifier.ofText .catalog t.id = .ok k.id ∧ t.families = k.families := by
  rw [read, bind_eq_ok_iff]
  constructor
  · rintro ⟨id, hid, h⟩
    cases h
    exact ⟨hid, rfl⟩
  · rintro ⟨hid, hfamilies⟩
    refine ⟨k.id, hid, ?_⟩
    rw [hfamilies]
    rfl

/-- A catalog is read where its id is written as a text that is not blank. -/
theorem Catalog.decodeYaml_eq_ok_iff {text : String} {k : Catalog} :
    Catalog.codec.decodeYaml text = .ok k ↔
      ∃ t, CatalogText.codec.decodeYaml text = .ok t ∧ t.read = .ok k := by
  simp only [Catalog.codec, CatalogText.codec, decodeYaml_map_eq_ok_iff, Identifier.codec,
    CatalogText.read_eq_ok_iff]
  constructor
  · rintro ⟨⟨id, families, _⟩, h, rfl⟩
    obtain ⟨s, hs, hid⟩ := decodeYaml_parsed_first_eq_ok_iff.mp h
    exact ⟨⟨s, families⟩, ⟨_, hs, rfl⟩, Identifier.read_eq_ok_iff_ofText.mp hid, rfl⟩
  · rintro ⟨t, ⟨⟨s, families, _⟩, hs, rfl⟩, hid, rfl⟩
    have hid := Identifier.read_eq_ok_iff_ofText.mpr hid
    exact ⟨_, decodeYaml_parsed_first_eq_ok_iff.mpr ⟨s, hs, hid⟩, rfl⟩

/-- The parser reads a catalog exactly where it reads the id as a text that is not blank. -/
def Files.ReadsIds (files : Files) : Prop :=
  ∀ (text : String) (k : Catalog), files.parse Catalog.codec text = .ok k ↔
    ∃ t, files.parse CatalogText.codec text = .ok t ∧ t.read = .ok k

/-- **The parser of YAML texts does so.** -/
theorem Files.readsIds_yaml (text : String → Option String) : Files.ReadsIds { text } :=
  fun _ _ => Catalog.decodeYaml_eq_ok_iff

theorem Files.ReadsIds.holds_iff {files : Files} (hids : files.ReadsIds) {path : String}
    {k : Catalog} : files.Holds Catalog.codec path k ↔
      ∃ t, files.Holds CatalogText.codec path t ∧ t.read = .ok k := by
  simp only [Holds, hids _ k]
  constructor
  · rintro ⟨text, hpath, t, ht, hk⟩
    exact ⟨t, ⟨text, hpath, ht⟩, hk⟩
  · rintro ⟨t, ⟨text, hpath, ht⟩, hk⟩
    exact ⟨text, hpath, t, ht, hk⟩

/-! ### One catalog after the other -/

section

variable {files : Files} {path : String} {paths : List String} {seen : List CatalogId}
  {cs : List Catalog} {e : LoadError}

/-- Each file holds a catalog, and no two of the catalogs have an id in common. -/
structure Files.HoldCatalogs (files : Files) (paths : List String) (cs : List Catalog) :
    Prop where
  each : List.Forall₂ (files.Holds Catalog.codec) paths cs
  distinct : (cs.map Catalog.id).Nodup

/-- What is wrong with a file after some catalogs have been loaded. -/
inductive Files.CatalogFault (files : Files) (seen : List CatalogId) (path : String) :
    LoadError → Prop
  | document {d : DocumentError} (h : files.Fails Catalog.codec path d) :
      CatalogFault files seen path (.document d)
  | repeated {k : Catalog} (h : files.Holds Catalog.codec path k) (hk : k.id ∈ seen) :
      CatalogFault files seen path (.duplicateCatalog k.id path)

theorem Files.CatalogFault.of_subset {seen' : List CatalogId}
    (h : files.CatalogFault seen path e) (hsub : seen ⊆ seen') :
    files.CatalogFault seen' path e := by
  cases h with
  | document hd => exact .document hd
  | repeated hk hseen => exact .repeated hk (hsub hseen)

theorem loadCatalogsAfter_cons (files : Files) (seen : List CatalogId) (path : String)
    (paths : List String) :
    loadCatalogsAfter files seen (path :: paths) = do
      let k ← loadCatalog files path
      if k.id ∈ seen then .error (.duplicateCatalog k.id path)
      else return k :: (← loadCatalogsAfter files (k.id :: seen) paths) := rfl

theorem loadCatalogsAfter_cons_eq_ok_iff :
    loadCatalogsAfter files seen (path :: paths) = .ok cs ↔
      ∃ k cs', files.Holds Catalog.codec path k ∧ k.id ∉ seen ∧
        loadCatalogsAfter files (k.id :: seen) paths = .ok cs' ∧ k :: cs' = cs := by
  simp only [loadCatalogsAfter_cons, loadCatalog, bind_eq_ok_iff, Files.mapError_document_eq_ok_iff]
  constructor
  · rintro ⟨k, hk, h⟩
    split at h
    case isTrue => cases h
    case isFalse hseen =>
      obtain ⟨cs', hcs', h⟩ := bind_eq_ok_iff.mp h
      exact ⟨k, cs', hk, hseen, hcs', Except.ok.inj h⟩
  · rintro ⟨k, cs', hk, hseen, hcs', rfl⟩
    refine ⟨k, hk, ?_⟩
    rw [if_neg hseen, hcs']
    rfl

theorem loadCatalogsAfter_cons_eq_error_iff :
    loadCatalogsAfter files seen (path :: paths) = .error e ↔
      files.CatalogFault seen path e ∨ ∃ k, files.Holds Catalog.codec path k ∧ k.id ∉ seen ∧
        loadCatalogsAfter files (k.id :: seen) paths = .error e := by
  simp only [loadCatalogsAfter_cons, loadCatalog, bind_eq_error_iff,
    Files.mapError_document_eq_ok_iff, Files.mapError_document_eq_error_iff]
  constructor
  · rintro (⟨d, hd, rfl⟩ | ⟨k, hk, h⟩)
    · exact .inl (.document hd)
    · split at h
      case isTrue hseen =>
        obtain rfl := Except.error.inj h
        exact .inl (.repeated hk hseen)
      case isFalse hseen =>
        rcases bind_eq_error_iff.mp h with h | ⟨cs, -, h⟩
        · exact .inr ⟨k, hk, hseen, h⟩
        · cases h
  · rintro ((⟨hd⟩ | ⟨hk, hseen⟩) | ⟨k, hk, hseen, h⟩)
    · exact .inl ⟨_, hd, rfl⟩
    · refine .inr ⟨_, hk, ?_⟩
      rw [if_pos hseen]
    · refine .inr ⟨k, hk, ?_⟩
      rw [if_neg hseen, h]
      rfl

theorem loadCatalogsAfter_eq_ok_iff :
    loadCatalogsAfter files seen paths = .ok cs ↔
      files.HoldCatalogs paths cs ∧ ∀ k ∈ cs, k.id ∉ seen := by
  induction paths generalizing seen cs with
  | nil =>
    constructor
    · rintro ⟨⟩
      exact ⟨⟨.nil, .nil⟩, by simp⟩
    · rintro ⟨⟨⟨⟩, -⟩, -⟩
      rfl
  | cons path paths ih =>
    simp only [loadCatalogsAfter_cons_eq_ok_iff, ih]
    constructor
    · rintro ⟨k, cs, hk, hseen, ⟨⟨heach, hdistinct⟩, hcs⟩, rfl⟩
      simp only [List.mem_cons, not_or] at hcs
      refine ⟨⟨.cons hk heach, List.nodup_cons.mpr ⟨?_, hdistinct⟩⟩, ?_⟩
      · rw [List.mem_map]
        rintro ⟨k', hk', heq⟩
        exact (hcs k' hk').1 heq
      · exact List.forall_mem_cons.mpr ⟨hseen, fun k' hk' => (hcs k' hk').2⟩
    · rintro ⟨⟨heach, hdistinct⟩, hcs⟩
      cases heach with
      | @cons _ k _ cs hk heach =>
        obtain ⟨hnew, hdistinct⟩ := List.nodup_cons.mp hdistinct
        obtain ⟨hseen, hcs⟩ := List.forall_mem_cons.mp hcs
        refine ⟨k, cs, hk, hseen, ⟨⟨heach, hdistinct⟩, fun k' hk' => ?_⟩, rfl⟩
        have hne : k'.id ≠ k.id := fun heq => hnew (heq ▸ List.mem_map_of_mem hk')
        simp [hne, hcs k' hk']

theorem loadCatalogsAfter_eq_error_iff :
    loadCatalogsAfter files seen paths = .error e ↔
      ∃ before path after cs, paths = before ++ path :: after ∧
        loadCatalogsAfter files seen before = .ok cs ∧
        files.CatalogFault (cs.map Catalog.id ++ seen) path e := by
  induction paths generalizing seen with
  | nil =>
    refine iff_of_false (fun h => by cases h) ?_
    rintro ⟨before, path, after, cs, h, -⟩
    simp at h
  | cons path paths ih =>
    rw [loadCatalogsAfter_cons_eq_error_iff]
    simp only [ih]
    constructor
    · rintro (h | ⟨k, hk, hseen, before, path', after, cs, rfl, hcs, h⟩)
      · exact ⟨[], path, paths, [], rfl, rfl, h⟩
      · refine ⟨path :: before, path', after, k :: cs, rfl, ?_, ?_⟩
        · exact loadCatalogsAfter_cons_eq_ok_iff.mpr ⟨k, cs, hk, hseen, hcs, rfl⟩
        · exact h.of_subset (by simp)
    · rintro ⟨before, path', after, cs, h, hcs, hfault⟩
      cases before with
      | nil =>
        obtain ⟨rfl, rfl⟩ := List.cons.inj h
        obtain rfl := Except.ok.inj hcs
        exact .inl hfault
      | cons path'' before =>
        obtain ⟨rfl, rfl⟩ := List.cons.inj h
        obtain ⟨k, cs, hk, hseen, hload, rfl⟩ := loadCatalogsAfter_cons_eq_ok_iff.mp hcs
        exact .inr ⟨k, hk, hseen, before, path', after, cs, rfl, hload, hfault.of_subset (by simp)⟩

/-- **Catalogs are loaded** if each file holds one and no two have an id in common. -/
theorem loadCatalogs_eq_ok_iff :
    loadCatalogs files paths = .ok cs ↔ files.HoldCatalogs paths cs := by
  rw [loadCatalogs, loadCatalogsAfter_eq_ok_iff]
  simp

/-- **Otherwise the first file is reported** that fails or repeats the id of a catalog before it. -/
theorem loadCatalogs_eq_error_iff :
    loadCatalogs files paths = .error e ↔
      ∃ before path after cs, paths = before ++ path :: after ∧ files.HoldCatalogs before cs ∧
        files.CatalogFault (cs.map Catalog.id) path e := by
  simp only [← loadCatalogs_eq_ok_iff, loadCatalogs, loadCatalogsAfter_eq_error_iff,
    List.append_nil]

/-- No two of the files hold catalogs with one id. -/
def Files.DistinctIds (files : Files) (paths : List String) : Prop :=
  paths.Pairwise fun path path' => ∀ k k', files.Holds Catalog.codec path k →
    files.Holds Catalog.codec path' k' → k.id ≠ k'.id

/-- The ids that are written in any two of the files differ in more than blanks. -/
def Files.DistinctTexts (files : Files) (paths : List String) : Prop :=
  paths.Pairwise fun path path' => ∀ t t', files.Holds CatalogText.codec path t →
    files.Holds CatalogText.codec path' t' → trim t.id ≠ trim t'.id

/-- Catalogs can be loaded if each file holds one, and no two have an id in common. -/
theorem Files.exists_holdCatalogs_iff :
    (∃ cs, files.HoldCatalogs paths cs) ↔
      (∀ path ∈ paths, ∃ k, files.Holds Catalog.codec path k) ∧ files.DistinctIds paths := by
  have hid : ∀ {path path' : String} {k k' : Catalog}, files.Holds Catalog.codec path k →
      files.Holds Catalog.codec path' k' →
      ((∀ l l', files.Holds Catalog.codec path l → files.Holds Catalog.codec path' l' →
        l.id ≠ l'.id) ↔ k.id ≠ k'.id) := by
    intro path path' k k' hk hk'
    constructor
    · intro h
      exact h k k' hk hk'
    · intro h l l' hl hl'
      rwa [hl.unique hk, hl'.unique hk']
  rw [← exists_forall₂_iff]
  constructor
  · rintro ⟨cs, heach, hdistinct⟩
    have hids := List.pairwise_map.mp hdistinct
    exact ⟨⟨cs, heach⟩, (pairwise_iff_of_forall₂ heach hid).mpr hids⟩
  · rintro ⟨⟨cs, heach⟩, hdistinct⟩
    have hids := (pairwise_iff_of_forall₂ heach hid).mp hdistinct
    exact ⟨cs, heach, List.pairwise_map.mpr hids⟩

/-- **Ids are the same if they are written alike but for blanks around them.** -/
theorem Files.distinctIds_iff (hids : files.ReadsIds)
    (hold : ∀ path ∈ paths, ∃ k, files.Holds Catalog.codec path k) :
    files.DistinctIds paths ↔ files.DistinctTexts paths := by
  refine List.Pairwise.iff_of_mem fun {path path'} hpath hpath' => ?_
  obtain ⟨k, hk⟩ := hold path hpath
  obtain ⟨k', hk'⟩ := hold path' hpath'
  obtain ⟨t, ht, hread⟩ := hids.holds_iff.mp hk
  obtain ⟨t', ht', hread'⟩ := hids.holds_iff.mp hk'
  have hsame : k.id ≠ k'.id ↔ trim t.id ≠ trim t'.id := by
    rw [ne_eq, Identifier.ext_iff,
      Identifier.text_of_ofText (CatalogText.read_eq_ok_iff.mp hread).1,
      Identifier.text_of_ofText (CatalogText.read_eq_ok_iff.mp hread').1]
  constructor
  · intro h u u' hu hu'
    rw [hu.unique ht, hu'.unique ht']
    exact hsame.mp (h k k' hk hk')
  · intro h l l' hl hl'
    rw [hl.unique hk, hl'.unique hk']
    exact hsame.mpr (h t t' ht ht')

end

end Compliance
