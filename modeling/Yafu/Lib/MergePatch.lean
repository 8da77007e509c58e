import Yafu.Lib.Lookup
import Mathlib.Data.List.Basic
import Mathlib.Data.List.Infix
import Mathlib.Data.List.Nodup

/-!
# JSON merge patches

Trees of objects over any keys and leaves, `merge` as RFC 7396 applies a patch to a tree, and
`diff`, the patch that leads from one tree to another and names nothing that they share. An object
is a list of fields of which the first under a key counts; an array is a leaf.

A patch that says something about one path only, `along`, is what `diff` answers for two trees that
differ there only (`diff_node`), and merging it changes nothing beside that path
(`get_merge_along`).
-/

namespace MergePatch

/-- A JSON value. -/
inductive Tree (κ α : Type*)
  | null
  | leaf (a : α)
  | node (fields : List (κ × Tree κ α))

/-- The fields of an object. -/
abbrev Fields (κ α : Type*) := List (κ × Tree κ α)

variable {κ α : Type*} [DecidableEq κ]

/-! ## Fields -/

namespace Fields

/-- The value under a key. -/
def get (fs : Fields κ α) (k : κ) : Option (Tree κ α) := fs.lookup k

/-- The fields without a key. -/
def erase (fs : Fields κ α) (k : κ) : Fields κ α := fs.filter (·.1 ≠ k)

/-- The fields with a value under a key. -/
def set (fs : Fields κ α) (k : κ) (t : Tree κ α) : Fields κ α := (k, t) :: erase fs k

@[simp] theorem get_nil (k : κ) : get ([] : Fields κ α) k = none := rfl

@[simp] theorem get_cons_self (fs : Fields κ α) (k : κ) (t : Tree κ α) :
    get ((k, t) :: fs) k = some t := by simp [get]

theorem get_cons_ne (fs : Fields κ α) {j k : κ} (h : j ≠ k) (t : Tree κ α) :
    get ((k, t) :: fs) j = get fs j := lookup_cons_ne h t fs

@[simp] theorem get_erase_self (fs : Fields κ α) (k : κ) : get (erase fs k) k = none :=
  lookup_filter_ne_self fs k

theorem get_erase_ne (fs : Fields κ α) {j k : κ} (h : j ≠ k) : get (erase fs k) j = get fs j :=
  lookup_filter_ne fs h

@[simp] theorem get_set_self (fs : Fields κ α) (k : κ) (t : Tree κ α) :
    get (set fs k t) k = some t := get_cons_self _ k t

theorem get_set_ne (fs : Fields κ α) {j k : κ} (h : j ≠ k) (t : Tree κ α) :
    get (set fs k t) j = get fs j := by
  rw [set, get_cons_ne _ h, get_erase_ne fs h]

theorem mem_of_get {fs : Fields κ α} {k : κ} {t : Tree κ α} (h : get fs k = some t) :
    (k, t) ∈ fs := mem_of_lookup h

/-- What is under a key is smaller than the object. -/
theorem sizeOf_of_get {fs : Fields κ α} {k : κ} {t : Tree κ α} (h : get fs k = some t) :
    sizeOf t < sizeOf fs := by
  have hlt := List.sizeOf_lt_of_mem (mem_of_get h)
  rw [Prod.mk.sizeOf_spec] at hlt
  omega

/-- The keys are distinct. -/
def Distinct (fs : Fields κ α) : Prop := (fs.map Prod.fst).Nodup

theorem Distinct.erase {fs : Fields κ α} (h : Distinct fs) (k : κ) : Distinct (erase fs k) :=
  h.sublist (List.filter_sublist.map _)

theorem Distinct.set {fs : Fields κ α} (h : Distinct fs) (k : κ) (t : Tree κ α) :
    Distinct (set fs k t) := by
  refine List.nodup_cons.mpr ⟨fun hmem => ?_, h.erase k⟩
  obtain ⟨f, hf, hk⟩ := List.mem_map.mp hmem
  have hne := (List.mem_filter.mp hf).2
  simp [hk] at hne

/-- Distinct keys of which all but one are absent. -/
theorem Distinct.eq_of_get {fs : Fields κ α} (h : Distinct fs) {k : κ}
    (hother : ∀ j ≠ k, get fs j = none) :
    fs = match get fs k with
      | none => []
      | some t => [(k, t)] := by
  rcases fs with _ | ⟨⟨i, t⟩, fs⟩
  · rfl
  have hi : i = k := by
    by_contra hne
    have := hother i hne
    rw [get_cons_self] at this
    cases this
  subst hi
  rw [get_cons_self]
  rcases fs with _ | ⟨⟨j, u⟩, fs⟩
  · rfl
  have hj : j ≠ i := by
    intro heq
    have hnot := (List.nodup_cons.mp h).1
    exact hnot (by rw [heq]; exact List.mem_cons_self)
  have := hother j hj
  rw [get_cons_ne _ hj, get_cons_self] at this
  cases this

end Fields

open Fields

/-- The fields of a value, none if it is no object. -/
def Tree.fields : Tree κ α → Fields κ α
  | .node fs => fs
  | _ => []

/-- The value at a path. -/
def Tree.get : Tree κ α → List κ → Option (Tree κ α)
  | t, [] => some t
  | t, k :: p => (Fields.get t.fields k).bind fun u => u.get p

theorem Tree.get_append (t : Tree κ α) (p q : List κ) :
    t.get (p ++ q) = (t.get p).bind fun u => u.get q := by
  induction p generalizing t with
  | nil => rfl
  | cons k p ih =>
    rw [List.cons_append, Tree.get, Tree.get, Option.bind_assoc]
    exact Option.bind_congr fun u _ => ih u

/-- Below a leaf is no object. -/
theorem Tree.get_leaf_ne_node (a : α) (q : List κ) (fs : Fields κ α) :
    (Tree.leaf a).get q ≠ some (.node fs) := by
  cases q with
  | nil => exact fun h => by cases h
  | cons k q => exact fun h => by cases h

/-- What is above a value is an object. -/
theorem Tree.exists_node_of_get_append {t u : Tree κ α} {p : List κ} {k : κ} {q : List κ}
    (h : t.get (p ++ k :: q) = some u) : ∃ fs, t.get p = some (.node fs) := by
  rw [Tree.get_append, Option.bind_eq_some_iff] at h
  obtain ⟨v, hv, hu⟩ := h
  cases v with
  | null => cases hu
  | leaf a => cases hu
  | node fs => exact ⟨fs, hv⟩

/-! ## Applying a patch -/

mutual

/-- `MergePatch` of RFC 7396. -/
def merge (t : Tree κ α) : Tree κ α → Tree κ α
  | .node ps => .node (mergeFields t.fields ps)
  | .leaf a => .leaf a
  | .null => .null

/-- The loop over the fields of a patch. -/
def mergeFields (fs : Fields κ α) : Fields κ α → Fields κ α
  | [] => fs
  | (k, .null) :: ps => mergeFields (erase fs k) ps
  | (k, .leaf a) :: ps => mergeFields (set fs k (.leaf a)) ps
  | (k, .node qs) :: ps => mergeFields (set fs k (merge ((get fs k).getD .null) (.node qs))) ps

end

/-- The patch with this value at a path. -/
def along : List κ → Tree κ α → Tree κ α
  | [], v => v
  | k :: p, v => .node [(k, along p v)]

/-- The patch with nothing in it changes nothing below the root. -/
theorem get_merge_empty (t : Tree κ α) {q : List κ} (hq : q ≠ []) :
    (merge t (.node [])).get q = t.get q := by
  rcases q with _ | ⟨k, q⟩
  · exact absurd rfl hq
  · rw [merge, mergeFields, Tree.get, Tree.get, Tree.fields]

theorem merge_along_cons (t : Tree κ α) (k j : κ) (p : List κ) (v : Tree κ α) :
    merge t (along (k :: j :: p) v) =
      .node (set t.fields k (merge ((get t.fields k).getD .null) (along (j :: p) v))) := by
  rw [along, merge, along, mergeFields, mergeFields]

/-- Merging changes nothing beside the path that a patch is about. -/
theorem get_merge_along (v : Tree κ α) : ∀ {p : List κ} (t : Tree κ α) {q : List κ},
    ¬ p <+: q → ¬ q <+: p → (merge t (along p v)).get q = t.get q
  | [], _, q, hp, _ => absurd List.nil_prefix hp
  | k :: p, t, [], _, hq => absurd List.nil_prefix hq
  | [k], t, j :: q, hp, hq => by
    have hjk : j ≠ k := by
      rintro rfl
      exact hp (List.prefix_cons_inj j |>.mpr List.nil_prefix)
    rw [along, along, merge, Tree.get, Tree.get]
    cases v with
    | null => rw [mergeFields, mergeFields, Tree.fields, get_erase_ne _ hjk]
    | leaf a => rw [mergeFields, mergeFields, Tree.fields, get_set_ne _ hjk]
    | node qs => rw [mergeFields, mergeFields, Tree.fields, get_set_ne _ hjk]
  | k :: i :: p, t, j :: q, hp, hq => by
    rw [merge_along_cons, Tree.get, Tree.get, Tree.fields]
    by_cases hjk : j = k
    · subst hjk
      have hq' : ¬ q <+: i :: p := fun h => hq ((List.prefix_cons_inj j).mpr h)
      have hp' : ¬ i :: p <+: q := fun h => hp ((List.prefix_cons_inj j).mpr h)
      rw [get_set_self, Option.bind_some, get_merge_along v _ hp' hq']
      cases get t.fields j with
      | some u => rfl
      | none =>
        -- the patch makes an object under the key, with nothing beside its own path
        rcases q with _ | ⟨l, q⟩
        · exact absurd List.nil_prefix hq'
        · rfl
    · rw [get_set_ne _ hjk]

/-- Merging a leaf puts it at its path. -/
theorem get_merge_along_leaf (a : α) : ∀ (p : List κ) (t : Tree κ α),
    (merge t (along p (.leaf a))).get p = some (.leaf a)
  | [], t => by rw [along, merge, Tree.get]
  | [k], t => by
    rw [along, along, merge, mergeFields, mergeFields, Tree.get, Tree.fields, get_set_self,
      Option.bind_some, Tree.get]
  | k :: i :: p, t => by
    rw [merge_along_cons, Tree.get, Tree.fields, get_set_self, Option.bind_some,
      get_merge_along_leaf a (i :: p)]

/-- Merging `null` leaves nothing at its path. -/
theorem get_merge_along_null : ∀ (k : κ) (p : List κ) (t : Tree κ α),
    (merge t (along (k :: p) .null)).get (k :: p) = none
  | k, [], t => by
    rw [along, along, merge, mergeFields, mergeFields, Tree.get, Tree.fields, get_erase_self,
      Option.bind_none]
  | k, i :: p, t => by
    rw [merge_along_cons, Tree.get, Tree.fields, get_set_self, Option.bind_some,
      get_merge_along_null i p]

theorem mem_keys_of_get {fs : Fields κ α} {k : κ} {t : Tree κ α} (h : get fs k = some t) :
    k ∈ fs.map Prod.fst := by
  by_contra hnot
  have hnone : get fs k = none := List.lookup_eq_none_iff.mpr fun f hf => by
    rw [bne_iff_ne]
    rintro rfl
    exact hnot (List.mem_map_of_mem hf)
  rw [h] at hnone
  cases hnone

/-- What merging a patch without repeated keys leaves under a key. -/
theorem get_mergeFields {k : κ} : ∀ {ps : Fields κ α} (fs : Fields κ α), Distinct ps →
    get (mergeFields fs ps) k =
      match get ps k with
      | none => get fs k
      | some .null => none
      | some u => some (merge ((get fs k).getD .null) u)
  | [], fs, _ => by rw [mergeFields, get_nil]
  | (j, u) :: ps, fs, hps => by
    have hps' : Distinct ps := (List.nodup_cons.mp hps).2
    by_cases hk : k = j
    · subst hk
      have hnone : get ps k = none := by
        by_contra hsome
        obtain ⟨t, ht⟩ := Option.ne_none_iff_exists'.mp hsome
        exact (List.nodup_cons.mp hps).1 (mem_keys_of_get ht)
      rw [get_cons_self]
      cases u with
      | null => rw [mergeFields, get_mergeFields _ hps', hnone]; exact get_erase_self fs k
      | leaf a => rw [mergeFields, get_mergeFields _ hps', hnone]; simp [merge]
      | node qs => rw [mergeFields, get_mergeFields _ hps', hnone]; exact get_set_self fs k _
    · rw [get_cons_ne ps hk]
      -- the field is about another key
      cases u with
      | null => rw [mergeFields, get_mergeFields _ hps', get_erase_ne fs hk]
      | leaf a => rw [mergeFields, get_mergeFields _ hps', get_set_ne fs hk]
      | node qs => rw [mergeFields, get_mergeFields _ hps', get_set_ne fs hk]

/-- An object of leaves under distinct keys. -/
def Flat (fs : Fields κ α) : Prop := Distinct fs ∧ ∀ f ∈ fs, ∃ a, f.2 = Tree.leaf a

omit [DecidableEq κ] in
theorem flat_nil : Flat ([] : Fields κ α) := ⟨List.nodup_nil, fun f hf => by cases hf⟩

theorem Flat.set {fs : Fields κ α} (h : Flat fs) (k : κ) (a : α) : Flat (set fs k (.leaf a)) := by
  refine ⟨h.1.set k _, fun f hf => ?_⟩
  rcases List.mem_cons.mp hf with rfl | hf
  · exact ⟨a, rfl⟩
  · exact h.2 f (List.mem_filter.mp hf).1

/-- Merging a flat object where nothing was makes it. -/
theorem get_merge_flat {fs : Fields κ α} (h : Flat fs) (k : κ) (q : List κ) :
    (merge .null (.node fs)).get (k :: q) = (Tree.node fs).get (k :: q) := by
  rw [merge, Tree.get, Tree.get, Tree.fields, Tree.fields, get_mergeFields _ h.1]
  cases hk : get fs k with
  | none => rfl
  | some t =>
    obtain ⟨a, rfl⟩ := h.2 _ (mem_of_get hk)
    rfl

/-- The objects of `b` are objects of `a`, or flat and new. -/
def Shaped (a b : Tree κ α) : Prop :=
  ∀ r bs, b.get r = some (.node bs) →
    (∃ as, a.get r = some (.node as)) ∨ a.get r = none ∧ Flat bs

theorem Shaped.child {as bs : Fields κ α} (h : Shaped (.node as) (.node bs)) {k : κ} {a b : Tree κ α}
    (ha : get as k = some a) (hb : get bs k = some b) : Shaped a b := by
  intro r cs hr
  have hk := h (k :: r) cs
  simp only [Tree.get, Tree.fields, ha, hb, Option.bind_some] at hk
  exact hk hr

/-! ## Computing a patch -/

/-- The keys of `as` that `bs` lacks, to be removed. -/
def removed (as bs : Fields κ α) : Fields κ α :=
  match as with
  | [] => []
  | (k, _) :: as => if (get bs k).isSome then removed as bs else set (removed as bs) k .null

theorem get_removed (as bs : Fields κ α) (k : κ) :
    get (removed as bs) k = if (get as k).isSome ∧ get bs k = none then some .null else none := by
  induction as with
  | nil => simp [removed]
  | cons f as ih =>
    obtain ⟨j, a⟩ := f
    rw [removed]
    by_cases hk : k = j
    · subst hk
      rw [get_cons_self]
      cases hb : get bs k with
      | none => simp
      | some b => simp [ih, hb]
    · rw [get_cons_ne as hk]
      cases get bs j with
      | none => rw [Option.isSome_none, if_neg Bool.false_ne_true, get_set_ne _ hk, ih]
      | some b => rw [Option.isSome_some, if_pos rfl, ih]

theorem distinct_removed (as bs : Fields κ α) : Distinct (removed as bs) := by
  induction as with
  | nil => exact List.nodup_nil
  | cons f as ih =>
    rw [removed]
    split
    · exact ih
    · exact ih.set f.1 .null

theorem get_append (fs gs : Fields κ α) (k : κ) :
    get (fs ++ gs) k = (get fs k).or (get gs k) := List.lookup_append

theorem isSome_of_mem_keys {fs : Fields κ α} {k : κ} (h : k ∈ fs.map Prod.fst) :
    get fs k ≠ none := by
  obtain ⟨f, hf, rfl⟩ := List.mem_map.mp h
  intro hnone
  have := List.lookup_eq_none_iff.mp hnone f hf
  simp at this

variable [DecidableEq α]

mutual

/-- What a patch from `a` to the other value says, if it says anything. -/
def diff (a : Tree κ α) : Tree κ α → Option (Tree κ α)
  | .node bs =>
    match a with
    | .node as =>
      match changed as bs ++ removed as bs with
      | [] => none
      | f :: fs => some (.node (f :: fs))
    | _ => some (.node bs)
  | .leaf b =>
    match a with
    | .leaf a => if a = b then none else some (.leaf b)
    | _ => some (.leaf b)
  | .null =>
    match a with
    | .null => none
    | _ => some .null

/-- What is new or different in the other fields. -/
def changed (as : Fields κ α) : Fields κ α → Fields κ α
  | [] => []
  | (k, b) :: bs =>
    match get as k with
    | none => set (changed as bs) k b
    | some a =>
      match diff a b with
      -- the first field under a key is the one that counts
      | none => erase (changed as bs) k
      | some d => set (changed as bs) k d

end

/-- The patch from `a` to `b`. -/
def create (a b : Tree κ α) : Tree κ α := (diff a b).getD (.node [])

/-- What a patch says under a key. -/
def entry (a b : Option (Tree κ α)) : Option (Tree κ α) :=
  match a, b with
  | none, b => b
  | some _, none => some .null
  | some a, some b => diff a b

theorem get_changed (as : Fields κ α) (k : κ) : ∀ bs : Fields κ α,
    get (changed as bs) k = (get bs k).bind fun b => entry (get as k) (some b)
  | [] => by rw [changed, get_nil, Option.bind_none]
  | (j, b) :: bs => by
    rw [changed.eq_def]
    by_cases hk : k = j
    · subst hk
      simp only [get_cons_self, Option.bind_some, entry]
      cases get as k with
      | none => exact get_set_self _ k b
      | some a =>
        simp only
        cases diff a b with
        | none => exact get_erase_self _ k
        | some d => exact get_set_self _ k d
    · rw [get_cons_ne bs hk, ← get_changed as k bs]
      simp only
      cases get as j with
      | none => exact get_set_ne _ hk b
      | some a =>
        simp only
        cases diff a b with
        | none => exact get_erase_ne _ hk
        | some d => exact get_set_ne _ hk d

theorem distinct_changed (as : Fields κ α) : ∀ bs : Fields κ α, Distinct (changed as bs)
  | [] => by rw [changed]; exact List.nodup_nil
  | (j, b) :: bs => by
    have ih := distinct_changed as bs
    rw [changed.eq_def]
    simp only
    cases get as j with
    | none => exact ih.set j b
    | some a =>
      simp only
      cases diff a b with
      | none => exact ih.erase j
      | some d => exact ih.set j d

/-- What the patch between two objects says under a key. -/
theorem get_changed_append_removed (as bs : Fields κ α) (k : κ) :
    get (changed as bs ++ removed as bs) k = entry (get as k) (get bs k) := by
  rw [get_append, get_changed, get_removed]
  cases get bs k with
  | none => cases get as k <;> simp [entry]
  | some b => simp

theorem distinct_changed_append_removed (as bs : Fields κ α) :
    Distinct (changed as bs ++ removed as bs) := by
  rw [Distinct, List.map_append]
  refine List.nodup_append.mpr ⟨distinct_changed as bs, distinct_removed as bs, ?_⟩
  rintro k hk _ hk' rfl
  have hc := isSome_of_mem_keys hk
  have hr := isSome_of_mem_keys hk'
  rw [get_changed] at hc
  rw [get_removed] at hr
  cases hb : get bs k with
  | none => simp [hb] at hc
  | some b => simp [hb] at hr

/-- Two objects that differ under one key at most. -/
theorem diff_node {as bs : Fields κ α} {k : κ}
    (h : ∀ j ≠ k, entry (get as j) (get bs j) = none) :
    diff (.node as) (.node bs) = (entry (get as k) (get bs k)).map fun d => .node [(k, d)] := by
  have hother : ∀ j ≠ k, get (changed as bs ++ removed as bs) j = none := fun j hj => by
    rw [get_changed_append_removed, h j hj]
  have heq := (distinct_changed_append_removed as bs).eq_of_get hother
  rw [get_changed_append_removed] at heq
  rw [diff]
  simp only [heq]
  cases entry (get as k) (get bs k) <;> rfl

/-- There is nothing to change from a value to itself. -/
theorem diff_self : ∀ a : Tree κ α, diff a a = none
  | .null => rfl
  | .leaf a => by simp [diff]
  | .node fs => by
    have hentry : ∀ k, entry (get fs k) (get fs k) = none := fun k => by
      cases hk : get fs k with
      | none => rfl
      | some b =>
        have := sizeOf_of_get hk
        exact diff_self b
    have hnil : changed fs fs ++ removed fs fs = [] := by
      cases hc : changed fs fs ++ removed fs fs with
      | nil => rfl
      | cons f gs =>
        have hget := get_changed_append_removed fs fs f.1
        rw [hc, hentry f.1, get_cons_self] at hget
        cases hget
    rw [diff]
    simp only [hnil]
termination_by a => sizeOf a
decreasing_by
  rw [Tree.node.sizeOf_spec]
  omega

theorem entry_self (a : Option (Tree κ α)) : entry a a = none := by
  cases a with
  | none => rfl
  | some a => exact diff_self a

/-- Two objects that are the same under every other key. -/
theorem diff_node_of_get_eq {as bs : Fields κ α} {k : κ} (h : ∀ j ≠ k, get bs j = get as j) :
    diff (.node as) (.node bs) = (entry (get as k) (get bs k)).map fun d => .node [(k, d)] :=
  diff_node fun j hj => by rw [h j hj, entry_self]

/-! ## Applying the patch between two values -/

/-- The value after a patch that may say nothing. -/
def patched (t : Tree κ α) (d : Option (Tree κ α)) : Tree κ α := d.elim t (merge t)

/-- The patch from `a` to `b` puts a leaf of `b` where it is, in any value that has at that place
what `a` has there. -/
theorem get_patched_diff {v w : α} : ∀ {p : List κ} {a b t : Tree κ α},
    a.get p = some (.leaf w) → b.get p = some (.leaf v) → t.get p = some (.leaf w) →
      (patched t (diff a b)).get p = some (.leaf v)
  | [], a, b, t, ha, hb, ht => by
    rw [Tree.get, Option.some.injEq] at ha hb ht
    rw [ha, hb, ht, diff]
    split_ifs with hvw
    · rw [hvw]
      rfl
    · rfl
  | k :: p, a, b, t, ha, hb, ht => by
    rw [Tree.get, Option.bind_eq_some_iff] at ha hb ht
    obtain ⟨a', hka, ha⟩ := ha
    obtain ⟨b', hkb, hb⟩ := hb
    obtain ⟨t', hkt, ht⟩ := ht
    have ih := get_patched_diff ha hb ht
    cases a with
    | null => cases hka
    | leaf => cases hka
    | node as =>
    cases b with
    | null => cases hkb
    | leaf => cases hkb
    | node bs =>
    have hentry := get_changed_append_removed as bs k
    have hdistinct := distinct_changed_append_removed as bs
    rw [Tree.fields] at hka hkb
    rw [hka, hkb, entry] at hentry
    -- the patch says under the key what is to change there
    rw [diff]
    cases hps : changed as bs ++ removed as bs with
    | nil =>
      rw [hps, get_nil] at hentry
      rw [← hentry, patched] at ih
      simp only [patched, Option.elim_none, Tree.get, hkt, Option.bind_some]
      exact ih
    | cons f fs =>
      rw [hps] at hentry hdistinct
      simp only [patched, Option.elim_some, merge, Tree.get]
      show ((get (mergeFields t.fields (f :: fs)) k).bind fun u => u.get p) = some (.leaf v)
      rw [get_mergeFields _ hdistinct, hentry, hkt]
      cases hd : diff a' b' with
      | none =>
        rw [hd] at ih
        exact ih
      | some d =>
        rw [hd] at ih
        cases d with
        | null => cases p <;> cases ih
        | leaf c => exact ih
        | node qs => exact ih

/-- The same of `create` for two objects. -/
theorem get_merge_create {as bs : Fields κ α} {t : Tree κ α} {k : κ} {p : List κ} {v w : α}
    (ha : (Tree.node as).get (k :: p) = some (.leaf w)) (hb : (Tree.node bs).get (k :: p) = some (.leaf v))
    (ht : t.get (k :: p) = some (.leaf w)) :
    (merge t (create (.node as) (.node bs))).get (k :: p) = some (.leaf v) := by
  have h := get_patched_diff ha hb ht
  rw [create]
  cases hd : diff (.node as) (.node bs) with
  | none =>
    rw [hd] at h
    rw [Option.getD_none, get_merge_empty _ (List.cons_ne_nil k p)]
    exact h
  | some d =>
    rw [hd] at h
    exact h

/-! ### On the value it was made from -/

/-- What the patch between two objects leaves under a key. -/
theorem get_patched_node (as bs : Fields κ α) (k : κ) :
    get (patched (.node as) (diff (.node as) (.node bs))).fields k =
      match entry (get as k) (get bs k) with
      | none => get as k
      | some .null => none
      | some u => some (merge ((get as k).getD .null) u) := by
  have hentry := get_changed_append_removed as bs k
  have hdistinct := distinct_changed_append_removed as bs
  rw [diff]
  cases hps : changed as bs ++ removed as bs with
  | nil =>
    rw [hps, get_nil] at hentry
    rw [← hentry]
    rfl
  | cons f fs =>
    rw [hps] at hentry hdistinct
    simp only [patched, Option.elim_some, merge, Tree.fields]
    rw [get_mergeFields _ hdistinct, hentry]

/-- What `create` makes does the same to an object. -/
theorem merge_create (as : Fields κ α) (b : Tree κ α) :
    merge (.node as) (create (.node as) b) = patched (.node as) (diff (.node as) b) := by
  rw [create]
  cases diff (.node as) b with
  | none => rw [Option.getD_none, merge, mergeFields, Tree.fields]; rfl
  | some d => rfl

theorem patched_diff_null (a : Tree κ α) : patched a (diff a .null) = .null := by
  rw [diff.eq_def]
  cases a <;> rfl

theorem patched_diff_leaf (a : Tree κ α) (v : α) : patched a (diff a (.leaf v)) = .leaf v := by
  rw [diff.eq_def]
  cases a with
  | null => rfl
  | node => rfl
  | leaf w =>
    simp only
    split_ifs with hw
    · rw [hw]
      rfl
    · rfl

/-- The patch from `a` to `b` leaves of `a` what `b` has where the two agree or `b` has a leaf,
provided that no object of `b` takes the place of another value, or repeats a key or holds a `null`
where nothing was. -/
theorem get_patched : ∀ {q : List κ} {a b : Tree κ α}, Shaped a b →
    (a.get q = b.get q ∨ ∃ v, b.get q = some (.leaf v)) →
      (patched a (diff a b)).get q = b.get q
  | [], a, b, _, hq => by
    rcases hq with hq | ⟨v, hv⟩
    · rw [Tree.get, Tree.get, Option.some.injEq] at hq
      rw [hq, diff_self]
      rfl
    · rw [Tree.get, Option.some.injEq] at hv
      rw [hv, patched_diff_leaf]
  | k :: q, a, .null, _, _ => by rw [patched_diff_null]
  | k :: q, a, .leaf v, _, _ => by rw [patched_diff_leaf]
  | k :: q, a, .node bs, h, hq => by
    obtain ⟨as, ha⟩ : ∃ as, a = .node as := by
      rcases h [] bs rfl with ⟨as, ha⟩ | ⟨hnone, -⟩
      · exact ⟨as, Option.some.inj ha⟩
      · cases hnone
    subst ha
    simp only [Tree.get, get_patched_node]
    simp only [Tree.get, Tree.fields] at hq ⊢
    cases ha : get as k with
    | none =>
      cases hb : get bs k with
      | none => rfl
      | some b =>
        rw [ha, hb, Option.bind_none, Option.bind_some] at hq
        cases b with
        | leaf v => rfl
        | null =>
          cases q with
          | nil =>
            rcases hq with hq | ⟨v, hv⟩
            · cases hq
            · cases hv
          | cons j q => rfl
        | node cs =>
          cases q with
          | nil =>
            rcases hq with hq | ⟨v, hv⟩
            · cases hq
            · cases hv
          | cons j q =>
            have hflat : Flat cs := by
              rcases h [k] cs (by simp [Tree.get, Tree.fields, hb]) with ⟨ds, hds⟩ | ⟨-, hflat⟩
              · simp [Tree.get, Tree.fields, ha] at hds
              · exact hflat
            exact get_merge_flat hflat j q
    | some a =>
      cases hb : get bs k with
      | none => rfl
      | some b =>
        rw [ha, hb, Option.bind_some, Option.bind_some] at hq
        have ih := get_patched (h.child ha hb) hq
        rw [entry, Option.bind_some]
        cases hd : diff a b with
        | none =>
          rw [hd] at ih
          exact ih
        | some d =>
          rw [hd] at ih
          cases d with
          | leaf v => exact ih
          | node ds => exact ih
          | null =>
            cases q with
            | cons j q => exact ih
            | nil =>
              -- nothing is removed that is still there
              obtain rfl : .null = b := Option.some.inj ih
              rcases hq with hq | ⟨v, hv⟩
              · rw [Option.some.inj hq, diff_self] at hd
                cases hd
              · cases hv

end MergePatch
