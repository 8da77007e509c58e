import Yafu.Render.DeepCopy

/-!
# The classification of an object

Reference: `classifyOne` and `stripServerSideNoise` in `internal/render/diff.go`.

Two trees are the same JSON if the same kind of value stands at the end of every path; neither the
order of the fields nor the type of a number counts. Stripping takes away the paths in `Noise` and
no others (`kind_strip_of_noise`, `kind_strip_of_not_noise`), so with an encoder that tells apart
what JSON tells apart the diff compares the rest (`classifies`).
-/

namespace Yafu.Render

/-! ## JSON -/

/-- A step into a tree. -/
inductive Step
  | key (k : GoString)
  | index (i : ℕ)

/-- The tree one step further in. -/
def Json.child : Json → Step → Option Json
  | .obj o, .key k => Object.get o k
  | .arr elems, .index i => elems[i]?
  | _, _ => none

/-- The tree at the end of a path. -/
def Json.atPath : Json → List Step → Option Json
  | j, [] => some j
  | j, s :: p => (j.child s).bind (·.atPath p)

/-- What JSON sees of a value without its parts. -/
inductive Kind
  | null
  | bool (b : Bool)
  | number (q : Rat)
  | str (s : GoString)
  | arr
  | obj

/-- The kind of a value. -/
def Json.kind : Json → Kind
  | .null => .null
  | .bool b => .bool b
  | .int64 n => .number n
  | .float64 q => .number q
  | .str s => .str s
  | .arr _ => .arr
  | .obj _ => .obj

/-- The kind of the value at the end of a path in an object. -/
def Object.kindAt (o : Object) (p : List Step) : Option Kind := (Json.atPath (.obj o) p).map Json.kind

/-- The two objects are the same JSON. -/
def SameJson (a b : Object) : Prop := ∀ p, a.kindAt p = b.kindAt p

/-- `yaml.Marshal` on these objects: it takes each of them, and its texts differ exactly where the
objects do. -/
structure Canonical (marshal : Object → Except GoString GoString) (objs : Set Object) : Prop where
  ok : ∀ o ∈ objs, ∃ yml, marshal o = .ok yml
  eq_iff : ∀ a ∈ objs, ∀ b ∈ objs, marshal a = marshal b ↔ SameJson a b

/-! ## The server's fields -/

/-- The paths into the status and into the metadata fields that the API server sets. -/
inductive Noise : List Step → Prop
  | status (p : List Step) : Noise (.key "status" :: p)
  | metadata (f : GoString) (hf : f ∈ serverSideFields) (p : List Step) :
      Noise (.key "metadata" :: .key f :: p)

/-- The two objects are the same JSON once the server's fields are removed. -/
def EqualApart (a b : Object) : Prop := ∀ p, ¬Noise p → a.kindAt p = b.kindAt p

theorem foldl_delete (fields : List GoString) (md : Object) :
    fields.foldl Object.delete md = md.filter fun e => !fields.contains e.1 := by
  induction fields generalizing md with
  | nil => simp
  | cons f fields ih =>
    rw [List.foldl_cons, ih, Object.delete, List.filter_filter]
    refine List.filter_congr fun e _ => ?_
    rw [List.contains_cons, Bool.not_or, Bool.and_comm]
    congr 1
    by_cases he : e.1 = f <;> simp [he]

/-- What is left of the fields of a map. -/
theorem get_foldl_delete (fields : List GoString) (md : Object) (k : GoString) :
    Object.get (fields.foldl Object.delete md) k = if fields.contains k then none else md.get k := by
  rw [foldl_delete, Object.get, lookup_filter (fun k => !fields.contains k)]
  cases fields.contains k <;> rfl

/-- What stripping leaves under `metadata`. -/
def stripMetadata : Json → Json
  | .obj md => .obj (serverSideFields.foldl Object.delete md)
  | j => j

theorem get_strip_status (o : Object) : (stripServerSideNoise o).get "status" = none :=
  Object.get_delete_self _ _

theorem get_strip_metadata (o : Object) :
    (stripServerSideNoise o).get "metadata" = (o.get "metadata").map stripMetadata := by
  have hne : ("metadata" : GoString) ≠ "status" := by decide
  rw [stripServerSideNoise, Object.get_delete_ne _ hne]
  split
  · rename_i md hmd
    rw [Object.get_set_self, hmd]
    rfl
  · rename_i hmd
    cases hget : o.get "metadata" with
    | none => rfl
    | some j =>
      cases j with
      | obj md => exact absurd hget (hmd md)
      | null | bool | int64 | float64 | str | arr => rfl

theorem get_strip_ne {o : Object} {k : GoString} (hs : k ≠ "status") (hm : k ≠ "metadata") :
    (stripServerSideNoise o).get k = o.get k := by
  rw [stripServerSideNoise, Object.get_delete_ne _ hs]
  split
  · exact Object.get_set_ne o hm _
  · rfl

theorem kindAt_cons (o : Object) (k : GoString) (p : List Step) :
    o.kindAt (.key k :: p) = (o.get k).bind fun j => (j.atPath p).map Json.kind := by
  rw [Object.kindAt, Json.atPath, Json.child, Option.map_bind]
  rfl

/-- Under `metadata` stripping removes the server's fields. -/
theorem kind_stripMetadata_of_mem {f : GoString} (hf : f ∈ serverSideFields) (j : Json)
    (p : List Step) : (stripMetadata j).atPath (.key f :: p) = none := by
  cases j with
  | obj md =>
    rw [stripMetadata, Json.atPath, Json.child, get_foldl_delete,
      if_pos (List.contains_iff_mem.mpr hf)]
    rfl
  | null | bool | int64 | float64 | str | arr => rfl

/-- Under `metadata` stripping removes nothing else. -/
theorem kind_stripMetadata {p : List Step} (j : Json)
    (hp : ∀ f q, p = .key f :: q → f ∉ serverSideFields) :
    ((stripMetadata j).atPath p).map Json.kind = (j.atPath p).map Json.kind := by
  cases j with
  | obj md =>
    cases p with
    | nil => rfl
    | cons s p =>
      cases s with
      | key f =>
        have hf : ¬serverSideFields.contains f := fun hmem =>
          hp f p rfl (List.contains_iff_mem.mp hmem)
        rw [stripMetadata, Json.atPath, Json.child, get_foldl_delete, if_neg hf]
        rfl
      | index i => rfl
  | null | bool | int64 | float64 | str | arr => rfl

theorem kind_strip_of_noise {p : List Step} (hp : Noise p) (o : Object) :
    (stripServerSideNoise o).kindAt p = none := by
  cases hp with
  | status p =>
    rw [kindAt_cons, get_strip_status]
    rfl
  | metadata f hf p =>
    rw [kindAt_cons, get_strip_metadata]
    cases o.get "metadata" with
    | none => rfl
    | some j =>
      rw [Option.map_some, Option.bind_some, kind_stripMetadata_of_mem hf]
      rfl

theorem kind_strip_of_not_noise {p : List Step} (hp : ¬Noise p) (o : Object) :
    (stripServerSideNoise o).kindAt p = o.kindAt p := by
  cases p with
  | nil => rfl
  | cons s p =>
    cases s with
    | index i => rfl
    | key k =>
      rw [kindAt_cons, kindAt_cons]
      by_cases hs : k = "status"
      · exact absurd (hs ▸ Noise.status p) hp
      · by_cases hm : k = "metadata"
        · subst hm
          rw [get_strip_metadata]
          cases o.get "metadata" with
          | none => rfl
          | some j =>
            refine kind_stripMetadata j ?_
            rintro f q rfl hf
            exact hp (.metadata f hf q)
        · rw [get_strip_ne hs hm]

/-- Two stripped objects are the same JSON where the objects are, apart from what is stripped. -/
theorem sameJson_strip_iff (a b : Object) :
    SameJson (stripServerSideNoise a) (stripServerSideNoise b) ↔ EqualApart a b := by
  constructor
  · intro h p hp
    rw [← kind_strip_of_not_noise hp a, ← kind_strip_of_not_noise hp b, h p]
  · intro h p
    by_cases hp : Noise p
    · rw [kind_strip_of_noise hp, kind_strip_of_noise hp]
    · rw [kind_strip_of_not_noise hp, kind_strip_of_not_noise hp, h p hp]

/-! ## Stripping twice -/

theorem delete_delete (o : Object) (k : GoString) : (o.delete k).delete k = o.delete k := by
  rw [Object.delete, Object.delete, List.filter_filter]
  exact List.filter_congr fun e _ => Bool.and_self _

theorem delete_comm (o : Object) (j k : GoString) :
    (o.delete j).delete k = (o.delete k).delete j := by
  simp only [Object.delete, List.filter_filter]
  exact List.filter_congr fun e _ => Bool.and_comm _ _

theorem delete_cons_self (k : GoString) (v : Json) (o : Object) :
    Object.delete ((k, v) :: o) k = o.delete k :=
  List.filter_cons_of_neg (by simp)

theorem delete_cons_ne {i k : GoString} (h : i ≠ k) (v : Json) (o : Object) :
    Object.delete ((i, v) :: o) k = (i, v) :: o.delete k :=
  List.filter_cons_of_pos (decide_eq_true h)

theorem foldl_delete_foldl_delete (fields : List GoString) (md : Object) :
    fields.foldl Object.delete (fields.foldl Object.delete md) = fields.foldl Object.delete md := by
  simp only [foldl_delete, List.filter_filter]
  exact List.filter_congr fun e _ => Bool.and_self _

theorem strip_of_obj {o md : Object} (h : o.get "metadata" = some (.obj md)) :
    stripServerSideNoise o =
      (("metadata" : GoString), Json.obj (serverSideFields.foldl Object.delete md)) ::
        (o.delete "metadata").delete "status" := by
  have hne : ("metadata" : GoString) ≠ "status" := by decide
  rw [stripServerSideNoise, h]
  exact delete_cons_ne hne _ _

theorem strip_of_not_obj {o : Object} (h : ∀ md, o.get "metadata" ≠ some (.obj md)) :
    stripServerSideNoise o = o.delete "status" := by
  rw [stripServerSideNoise]
  split
  · rename_i md hmd
    exact absurd hmd (h md)
  · rfl

/-- Nothing is left to strip. -/
theorem strip_strip (o : Object) :
    stripServerSideNoise (stripServerSideNoise o) = stripServerSideNoise o := by
  by_cases h : ∃ md, o.get "metadata" = some (.obj md)
  · obtain ⟨md, hmd⟩ := h
    rw [strip_of_obj hmd, strip_of_obj (Object.get_cons_self _ _ _), foldl_delete_foldl_delete,
      delete_cons_self, delete_comm o, delete_delete, delete_comm _ "metadata", delete_delete]
  · have hnot : ∀ md, o.get "metadata" ≠ some (.obj md) := not_exists.mp h
    have hne : ("metadata" : GoString) ≠ "status" := by decide
    rw [strip_of_not_obj hnot, strip_of_not_obj, delete_delete]
    intro md
    rw [Object.get_delete_ne _ hne]
    exact hnot md

/-! ## The classification -/

/-- Stripping returns what the model strips, and leaves the caller's tree as it is: of the cells that
are there, whatever they share, none is written. -/
def StripsCopy (o : Object) : Prop :=
  ∀ (h : DeepCopy.Heap) (addr fuel : ℕ),
    DeepCopy.Reads h Set.univ (.map (some addr)) (.obj o) → sizeOf o < fuel →
      ∃ h' cp o', DeepCopy.stripServerSideNoise fuel h (some addr) = some (h', some cp) ∧
        DeepCopy.Extends h h' ∧ DeepCopy.Reads h' Set.univ (.map (some addr)) (.obj o) ∧
        DeepCopy.Reads h' (Set.Ici h.length) (.map (some cp)) (.obj o') ∧
        SameJson o' (stripServerSideNoise o)

/-- What `classifyOne` says about an object and its live counterpart. -/
structure Classifies (env : Env) (objs : Set Object) (key : ResourceKey) (want live : Object) :
    Prop where
  inSync : (classifyOne env want key).status = "in-sync" ↔ EqualApart want live
  drifted : ¬EqualApart want live → (classifyOne env want key).status = "drifted"
  /-- The server's fields change nothing, on neither side. -/
  noise : ∀ env' want' live', env'.marshal = env.marshal → env'.getOpCodes = env.getOpCodes →
    env'.getLive key = .found live' → stripServerSideNoise want' ∈ objs →
    stripServerSideNoise live' ∈ objs → EqualApart want' want → EqualApart live' live →
    classifyOne env' want' key = classifyOne env want key
  copies : StripsCopy want ∧ StripsCopy live
  idempotent : stripServerSideNoise (stripServerSideNoise want) = stripServerSideNoise want ∧
    stripServerSideNoise (stripServerSideNoise live) = stripServerSideNoise live

theorem stripsCopy (o : Object) : StripsCopy o := by
  intro h addr fuel hread hfuel
  obtain ⟨h', cp, o', hstrip, hext, hcopy, hget⟩ := DeepCopy.exists_stripped hread hfuel
  refine ⟨h', cp, o', hstrip, hext, hread.imp Set.Subset.rfl hext, hcopy, fun p => ?_⟩
  cases p with
  | nil => rfl
  | cons s p =>
    cases s with
    | key k => rw [kindAt_cons, kindAt_cons, hget]
    | index i => rfl

/-- The row of two objects that the encoder takes. -/
theorem classifyOne_of_found {env : Env} {key : ResourceKey} {want live : Object}
    {wantYAML liveYAML : GoString} (hlive : env.getLive key = .found live)
    (hw : env.marshal (stripServerSideNoise want) = .ok wantYAML)
    (hl : env.marshal (stripServerSideNoise live) = .ok liveYAML) :
    classifyOne env want key =
      if wantYAML = liveYAML then { key.row with status := "in-sync" }
      else
        { key.row with
          status := "drifted", reconcileWould := "update"
          hunks := computeHunks env.getOpCodes wantYAML liveYAML } := by
  simp only [classifyOne, hlive, hw, hl]

section Canonical

variable {env : Env} {objs : Set Object} {key : ResourceKey} {want live : Object}

/-- The two texts are the same where the objects are, apart from what is stripped. -/
theorem text_eq_iff (hcanonical : Canonical env.marshal objs) {wantYAML liveYAML : GoString}
    (hwant : stripServerSideNoise want ∈ objs) (hstripped : stripServerSideNoise live ∈ objs)
    (hw : env.marshal (stripServerSideNoise want) = .ok wantYAML)
    (hl : env.marshal (stripServerSideNoise live) = .ok liveYAML) :
    wantYAML = liveYAML ↔ EqualApart want live := by
  rw [← sameJson_strip_iff, ← hcanonical.eq_iff _ hwant _ hstripped, hw, hl, Except.ok.injEq]

theorem status_inSync_iff (hcanonical : Canonical env.marshal objs)
    (hlive : env.getLive key = .found live) (hwant : stripServerSideNoise want ∈ objs)
    (hstripped : stripServerSideNoise live ∈ objs) :
    (classifyOne env want key).status = "in-sync" ↔ EqualApart want live := by
  obtain ⟨wantYAML, hw⟩ := hcanonical.ok _ hwant
  obtain ⟨liveYAML, hl⟩ := hcanonical.ok _ hstripped
  have hne : ("drifted" : GoString) ≠ "in-sync" := by decide
  rw [classifyOne_of_found hlive hw hl, ← text_eq_iff hcanonical hwant hstripped hw hl]
  split_ifs with heq
  · exact iff_of_true rfl heq
  · exact iff_of_false hne heq

theorem status_drifted (hcanonical : Canonical env.marshal objs)
    (hlive : env.getLive key = .found live) (hwant : stripServerSideNoise want ∈ objs)
    (hstripped : stripServerSideNoise live ∈ objs) (hdiffer : ¬EqualApart want live) :
    (classifyOne env want key).status = "drifted" := by
  obtain ⟨wantYAML, hw⟩ := hcanonical.ok _ hwant
  obtain ⟨liveYAML, hl⟩ := hcanonical.ok _ hstripped
  rw [← text_eq_iff hcanonical hwant hstripped hw hl] at hdiffer
  rw [classifyOne_of_found hlive hw hl, if_neg hdiffer]

end Canonical

/-- **What a row of the diff says about an object.** It is in sync exactly if the two objects are the
same JSON apart from the server's fields, and drifted otherwise; neither object is changed. -/
theorem classifies {env : Env} {objs : Set Object} (hcanonical : Canonical env.marshal objs)
    {key : ResourceKey} {want live : Object} (hlive : env.getLive key = .found live)
    (hwant : stripServerSideNoise want ∈ objs) (hstripped : stripServerSideNoise live ∈ objs) :
    Classifies env objs key want live := by
  refine ⟨status_inSync_iff hcanonical hlive hwant hstripped,
    status_drifted hcanonical hlive hwant hstripped, ?_, ⟨stripsCopy want, stripsCopy live⟩,
    ⟨strip_strip want, strip_strip live⟩⟩
  intro env' want' live' hmarshal hop hlive' hwant' hstripped' hsame hsame'
  obtain ⟨wantYAML, hw⟩ := hcanonical.ok _ hwant
  obtain ⟨liveYAML, hl⟩ := hcanonical.ok _ hstripped
  -- both sides have the texts that they had
  have hw' : env'.marshal (stripServerSideNoise want') = .ok wantYAML := by
    rw [hmarshal, ← hw, hcanonical.eq_iff _ hwant' _ hwant, sameJson_strip_iff]
    exact hsame
  have hl' : env'.marshal (stripServerSideNoise live') = .ok liveYAML := by
    rw [hmarshal, ← hl, hcanonical.eq_iff _ hstripped' _ hstripped, sameJson_strip_iff]
    exact hsame'
  rw [classifyOne_of_found hlive' hw' hl', classifyOne_of_found hlive hw hl, hop]

section Settings

/-- A rendered ConfigMap. -/
def settings (name : GoString) : Object := bareObject "v1" "ConfigMap" name

/-- The ConfigMap on the cluster. -/
def liveSettings : Object :=
  [("apiVersion", .str "v1"), ("kind", .str "ConfigMap"),
    ("metadata", .obj [("uid", .str "abc-123"), ("name", .str "settings"), ("generation", .int64 7)]),
    ("status", .obj [])]

def settingsEnv : Env where
  getLive _ := .found liveSettings
  marshal o := .ok (bareYAML o.getAPIVersion o.getKind o.getName)
  getOpCodes _ _ := []

theorem canonical_settings :
    Canonical settingsEnv.marshal {o | ∃ name, stripServerSideNoise (settings name) = o} where
  ok o _ := ⟨_, rfl⟩
  eq_iff := by
    have hmarshal : ∀ name, settingsEnv.marshal (stripServerSideNoise (settings name)) =
        .ok (bareYAML "v1" "ConfigMap" name) := fun _ => rfl
    rintro _ ⟨n, rfl⟩ _ ⟨n', rfl⟩
    rw [hmarshal, hmarshal, Except.ok.injEq]
    constructor
    · intro h
      rw [bareYAML, bareYAML, List.append_cancel_right_eq, List.append_cancel_left_eq] at h
      rw [h]
      exact fun _ => rfl
    · intro h
      have hname : some (Kind.str n) = some (Kind.str n') := h [.key "metadata", .key "name"]
      rw [Option.some.injEq, Kind.str.injEq] at hname
      rw [hname]

theorem classifies_settings :
    Classifies settingsEnv {o | ∃ name, stripServerSideNoise (settings name) = o}
      ⟨⟨[], "v1", "ConfigMap"⟩, [], "settings"⟩ (settings "settings") liveSettings :=
  classifies canonical_settings rfl ⟨"settings", rfl⟩ ⟨"settings", rfl⟩

end Settings

end Yafu.Render
