import Yafu.Api.HelmInventory
import Yafu.Render.Manifest
import Mathlib.Data.Nat.Find

/-!
# Walking a manifest to its end

Reference: `parseManifestRefs` and `manifestDocToRef` in `internal/api/helm_release_storage.go`.

The loop is left only when the decoder answers `io.EOF`; after any other error it asks again. So the
walk ends exactly if the decoder comes to the end of the text (`walks_iff`), which one that keeps its
error never does (`not_walks_of_sticky`).
-/

namespace Yafu.Api

open Yafu.Render

/-! ## The references of the documents -/

/-- A document that is part of the release: it has a type and a name, and it is no hook. -/
structure InRelease (u : Object) : Prop where
  apiVersion : u.getAPIVersion ≠ []
  kind : u.getKind ≠ []
  name : u.getName ≠ []
  steady : isHook u = false

instance (u : Object) : Decidable (InRelease u) :=
  decidable_of_iff
    (u.getAPIVersion ≠ [] ∧ u.getKind ≠ [] ∧ u.getName ≠ [] ∧ isHook u = false)
    ⟨fun h => ⟨h.1, h.2.1, h.2.2.1, h.2.2.2⟩, fun h => ⟨h.apiVersion, h.kind, h.name, h.steady⟩⟩

/-- The reference names the document; the group is what is before the first slash of the version. -/
structure RefersTo (defaultNS : GoString) (u : Object) (ref : InventoryRef) : Prop where
  name : ref.name = u.getName
  kind : ref.kind = u.getKind
  ns : ref.ns = if u.getNamespace = [] then defaultNS else u.getNamespace
  apiVersion : GoString.cut '/'.toUInt8 u.getAPIVersion = some (ref.group, ref.version) ∨
    GoString.cut '/'.toUInt8 u.getAPIVersion = none ∧ ref.group = [] ∧ ref.version = u.getAPIVersion

theorem manifestDocToRef_of_not_inRelease {u : Object} (h : ¬InRelease u) (defaultNS : GoString) :
    manifestDocToRef u defaultNS = none := by
  rw [manifestDocToRef]
  split
  · rfl
  · rename_i htype
    rw [not_or] at htype
    split
    · refine if_pos ?_
      by_contra hrest
      rw [not_or] at hrest
      exact h ⟨htype.1, htype.2, hrest.1, Bool.not_eq_true _ ▸ hrest.2⟩
    · rfl

theorem manifestDocToRef_of_inRelease {u : Object} (h : InRelease u) (defaultNS : GoString) :
    ∃ ref, manifestDocToRef u defaultNS = some ref ∧ RefersTo defaultNS u ref := by
  have htype : ¬(u.getAPIVersion = [] ∨ u.getKind = []) := not_or.mpr ⟨h.apiVersion, h.kind⟩
  have hrest : ¬(u.getName = [] ∨ isHook u) := by simp [h.name, h.steady]
  rw [manifestDocToRef, if_neg htype, Object.get_metadata h.name]
  dsimp only
  rw [if_neg hrest]
  cases hcut : GoString.cut '/'.toUInt8 u.getAPIVersion with
  | none => exact ⟨_, rfl, rfl, rfl, rfl, .inr ⟨hcut, rfl, rfl⟩⟩
  | some p => exact ⟨_, rfl, rfl, rfl, rfl, .inl hcut⟩

/-- One reference for each document of the release, in their order. -/
theorem forall₂_manifestDocToRef (defaultNS : GoString) (docs : List Object) :
    List.Forall₂ (RefersTo defaultNS) (docs.filter fun u => InRelease u)
      (docs.filterMap (manifestDocToRef · defaultNS)) := by
  induction docs with
  | nil => exact .nil
  | cons u docs ih =>
    by_cases hu : InRelease u
    · obtain ⟨ref, href, hrefers⟩ := manifestDocToRef_of_inRelease hu defaultNS
      rw [List.filter_cons_of_pos (p := fun u => InRelease u) (decide_eq_true hu),
        List.filterMap_cons_some (f := (manifestDocToRef · defaultNS)) href]
      exact .cons hrefers ih
    · have hnone := manifestDocToRef_of_not_inRelease hu defaultNS
      rw [List.filter_cons_of_neg (p := fun u => InRelease u) (by simpa using hu),
        List.filterMap_cons_none (f := (manifestDocToRef · defaultNS)) hnone]
      exact ih

/-! ## The end of the walk -/

section Walk

variable {newDecoder : GoString → ℕ → Decoded} {manifest defaultNS : GoString}

/-- The walk ends, with one reference for each document of the release among those that the decoder
answers before the end of the text. -/
def Walks (newDecoder : GoString → ℕ → Decoded) (manifest defaultNS : GoString) : Prop :=
  ∃ fuel refs, parseManifestRefs newDecoder fuel manifest defaultNS = some refs ∧
    ∃ n, Reads (newDecoder manifest) n ∧
      List.Forall₂ (RefersTo defaultNS)
        ((documents (newDecoder manifest) 0 n).filter fun u => InRelease u) refs

/-- A walk that ends has met the end of the text. -/
theorem exists_eof_of_walkManifest {decode : ℕ → Decoded} {fuel i : ℕ} {refs : List InventoryRef}
    (h : walkManifest decode defaultNS fuel i = some refs) : ∃ n, decode n = .eof := by
  induction fuel generalizing i refs with
  | zero => cases h
  | succ fuel ih =>
    rw [walkManifest] at h
    split at h
    · rename_i heof
      exact ⟨i, heof⟩
    · exact ih h
    · split at h
      · exact ih h
      · obtain ⟨rest, hrest, -⟩ := Option.map_eq_some_iff.mp h
        exact ih hrest

/-- The first end of the text. -/
theorem exists_reads {decode : ℕ → Decoded} (h : ∃ n, decode n = .eof) : ∃ n, Reads decode n := by
  classical
  exact ⟨Nat.find h, Nat.find_spec h, fun i hi => Nat.find_min h hi⟩

theorem exists_eof_of_walks (h : Walks newDecoder manifest defaultNS) :
    ∃ n, newDecoder manifest n = .eof := by
  obtain ⟨fuel, refs, hwalk, -⟩ := h
  exact exists_eof_of_walkManifest hwalk

/-- The walk does what it should exactly if the decoder comes to the end of the text. -/
theorem walks_iff (newDecoder : GoString → ℕ → Decoded) (manifest defaultNS : GoString) :
    Walks newDecoder manifest defaultNS ↔ ∃ n, newDecoder manifest n = .eof := by
  constructor
  · exact exists_eof_of_walks
  · intro heof
    obtain ⟨n, hreads⟩ := exists_reads heof
    exact ⟨n + 1, _, parseManifestRefs_of_reads hreads defaultNS (Nat.lt_succ_self n), n, hreads,
      forall₂_manifestDocToRef defaultNS _⟩

/-! ## A decoder that keeps its error -/

/-- After a malformed document every answer is that error. -/
def Sticky (decode : ℕ → Decoded) : Prop :=
  ∀ i err, decode i = .malformed err → ∀ j, i ≤ j → decode j = .malformed err

/-- With such a decoder a syntax error before the end keeps the walk from ending. -/
theorem not_walks_of_sticky (hsticky : Sticky (newDecoder manifest)) {i : ℕ} {err : GoString}
    (herr : newDecoder manifest i = .malformed err)
    (hbefore : ∀ j < i, newDecoder manifest j ≠ .eof) :
    ¬Walks newDecoder manifest defaultNS := by
  intro hwalks
  obtain ⟨n, hn⟩ := exists_eof_of_walks hwalks
  by_cases hlt : n < i
  · exact hbefore n hlt hn
  · rw [hsticky i err herr n (not_lt.mp hlt)] at hn
    cases hn

end Walk

/-- A decoder that reads JSON where the text starts with a brace: it fails on a text that is cut off
there, and keeps the error. Every other text is taken for an empty one. -/
def braceDecoder (manifest : GoString) (_ : ℕ) : Decoded :=
  if manifest.head? = some '{'.toUInt8 then .malformed "unexpected EOF" else .eof

theorem sticky_braceDecoder (manifest : GoString) : Sticky (braceDecoder manifest) :=
  fun _ _ h _ _ => h

/-- The walk of a manifest that is a single brace never ends. -/
theorem not_walks_brace :
    (∀ fuel, parseManifestRefs braceDecoder fuel "\x7b" "default" = none) ∧
      ¬Walks braceDecoder "\x7b" "default" := by
  have herr : ∀ n, braceDecoder "\x7b" n = .malformed "unexpected EOF" := fun _ => rfl
  refine ⟨fun fuel => ?_, not_walks_of_sticky (sticky_braceDecoder _) (herr 0) (by omega)⟩
  by_contra hsome
  obtain ⟨refs, hrefs⟩ := Option.ne_none_iff_exists'.mp hsome
  obtain ⟨n, hn⟩ := exists_eof_of_walkManifest hrefs
  rw [herr] at hn
  cases hn

end Yafu.Api
