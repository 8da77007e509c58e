import Yafu.Render.Diff
import Mathlib.Data.List.Nodup
import Mathlib.Order.Interval.Set.Basic

/-!
# The deep copy

Reference: `stripServerSideNoise`, `deepCopyMap` and `deepCopyValue` in `internal/render/diff.go`.

A `map[string]interface{}` and a `[]interface{}` are references to cells of a heap, so that what is
deleted from one copy could be missing in another. `stripServerSideNoise` of the model in
`Yafu.Render.Diff` works on trees; here are the statements of the source on the heap. Whatever cells
a tree shares, the copy lies in cells of its own and no other cell is written
(`exists_stripped`).
-/

namespace Yafu.Render.DeepCopy

/-! ## The heap -/

/-- What a decoder puts into an `interface{}`; the address of a `nil` map is `none`. -/
inductive Val
  | null
  | bool (b : Bool)
  | int64 (n : Int)
  | float64 (q : Rat)
  | str (s : GoString)
  | slice (addr : ℕ)
  | map (addr : Option ℕ)

/-- The entries of a map, in the order in which a `range` visits them. -/
structure GoMap where
  entries : List (GoString × Val)
  nodup : (entries.map Prod.fst).Nodup

/-- `map[string]interface{}{}`. -/
def GoMap.empty : GoMap := ⟨[], List.nodup_nil⟩

/-- `m[k]`. -/
def GoMap.get (m : GoMap) (k : GoString) : Option Val := m.entries.lookup k

/-- `delete(m, k)`. -/
def GoMap.delete (m : GoMap) (k : GoString) : GoMap where
  entries := m.entries.filter (·.1 ≠ k)
  nodup := m.nodup.sublist (List.filter_sublist.map _)

/-- `m[k] = v`. -/
def GoMap.set (m : GoMap) (k : GoString) (v : Val) : GoMap where
  entries := (m.delete k).entries ++ [(k, v)]
  nodup := by
    rw [List.map_append]
    refine List.nodup_append.mpr ⟨(m.delete k).nodup, List.nodup_singleton k, ?_⟩
    rintro j hj _ hk rfl
    obtain ⟨e, he, rfl⟩ := List.mem_map.mp hj
    rw [List.map_singleton, List.mem_singleton] at hk
    exact of_decide_eq_true (List.mem_filter.mp he).2 hk

/-- A cell. -/
inductive Cell
  | slice (elems : List Val)
  | map (m : GoMap)

/-- The cells by their addresses; a new one comes behind the others. -/
abbrev Heap := List Cell

/-- Writes to the map at an address. -/
def updateMap (h : Heap) (addr : ℕ) (f : GoMap → GoMap) : Heap :=
  match h[addr]? with
  | some (.map m) => h.set addr (.map (f m))
  | _ => h

/-- Writes to the slice at an address. -/
def updateSlice (h : Heap) (addr : ℕ) (f : List Val → List Val) : Heap :=
  match h[addr]? with
  | some (.slice elems) => h.set addr (.slice (f elems))
  | _ => h

/-! ## The copy -/

section Copy

variable (copy : Heap → Val → Option (Heap × Val))

/-- The loop of `deepCopyMap`. -/
def copyEntries (out : ℕ) : List (GoString × Val) → Heap → Option Heap
  | [], h => some h
  | (k, v) :: entries, h => do
    let (h, v) ← copy h v
    copyEntries out entries (updateMap h out fun m => m.set k v)

/-- The loop of `deepCopyValue` over a slice, from the index `i` on. -/
def copyElems (out i : ℕ) : List Val → Heap → Option Heap
  | [], h => some h
  | e :: elems, h => do
    let (h, e) ← copy h e
    copyElems out (i + 1) elems (updateSlice h out fun c => c.set i e)

/-- `deepCopyMap`. -/
def deepCopyMap (h : Heap) : Option ℕ → Option (Heap × Option ℕ)
  | none => some (h, none)
  | some addr =>
    match h[addr]? with
    | some (.map m) => do
      let h' ← copyEntries copy h.length m.entries (h ++ [.map .empty])
      some (h', some h.length)
    | _ => none

end Copy

/-- `deepCopyValue`, with fuel for the depth of the value; without it, or at an address that has no
such cell, there is no result. -/
def deepCopyValue : ℕ → Heap → Val → Option (Heap × Val)
  | 0, _, _ => none
  | fuel + 1, h, .map addr => do
    let (h, addr) ← deepCopyMap (deepCopyValue fuel) h addr
    some (h, .map addr)
  | fuel + 1, h, .slice addr =>
    match h[addr]? with
    | some (.slice elems) => do
      let h' ← copyElems (deepCopyValue fuel) h.length 0 elems
        (h ++ [.slice (List.replicate elems.length .null)])
      some (h', .slice h.length)
    | _ => none
  | _ + 1, h, v => some (h, v)

/-- `m[k]`, of a map that may be `nil`. -/
def getKey (h : Heap) (addr : Option ℕ) (k : GoString) : Option Val :=
  match addr.bind (h[·]?) with
  | some (.map m) => m.get k
  | _ => none

/-- `delete(m, k)`, of a map that may be `nil`. -/
def deleteKey (h : Heap) (addr : Option ℕ) (k : GoString) : Heap :=
  match addr with
  | none => h
  | some addr => updateMap h addr fun m => m.delete k

/-- `stripServerSideNoise`. -/
def stripServerSideNoise (fuel : ℕ) (h : Heap) (o : Option ℕ) : Option (Heap × Option ℕ) := do
  let (h, cp) ← deepCopyMap (deepCopyValue fuel) h o
  let h :=
    match getKey h cp "metadata" with
    | some (.map md) => serverSideFields.foldl (fun h f => deleteKey h md f) h
    | _ => h
  some (deleteKey h cp "status", cp)

/-! ## What a value stands for -/

mutual

/-- The value stands for this tree, in cells with these addresses. -/
inductive Reads (h : Heap) (P : Set ℕ) : Val → Json → Prop
  | null : Reads h P .null .null
  | bool (b : Bool) : Reads h P (.bool b) (.bool b)
  | int64 (n : Int) : Reads h P (.int64 n) (.int64 n)
  | float64 (q : Rat) : Reads h P (.float64 q) (.float64 q)
  | str (s : GoString) : Reads h P (.str s) (.str s)
  | slice (addr : ℕ) (elems : List Val) (js : List Json) (hmem : addr ∈ P)
      (hcell : h[addr]? = some (.slice elems)) (helems : ReadsElems h P elems js) :
      Reads h P (.slice addr) (.arr js)
  | map (addr : ℕ) (m : GoMap) (o : Object) (hmem : addr ∈ P) (hcell : h[addr]? = some (.map m))
      (hentries : ReadsEntries h P m.entries o) : Reads h P (.map (some addr)) (.obj o)

/-- The same for the elements of a slice. -/
inductive ReadsElems (h : Heap) (P : Set ℕ) : List Val → List Json → Prop
  | nil : ReadsElems h P [] []
  | cons (v : Val) (vs : List Val) (j : Json) (js : List Json) (hhead : Reads h P v j)
      (htail : ReadsElems h P vs js) : ReadsElems h P (v :: vs) (j :: js)

/-- The same for the entries of a map. -/
inductive ReadsEntries (h : Heap) (P : Set ℕ) : List (GoString × Val) → Object → Prop
  | nil : ReadsEntries h P [] []
  | cons (k : GoString) (v : Val) (es : List (GoString × Val)) (j : Json) (o : Object)
      (hhead : Reads h P v j) (htail : ReadsEntries h P es o) :
      ReadsEntries h P ((k, v) :: es) ((k, j) :: o)

end

/-- The cells with these addresses are in the other heap as well. -/
def AgreeOn (P : Set ℕ) (h h' : Heap) : Prop := ∀ i ∈ P, ∀ c, h[i]? = some c → h'[i]? = some c

/-- No cell is lost or written. -/
def Extends (h h' : Heap) : Prop := AgreeOn Set.univ h h'

section Imp

variable {h h' : Heap} {P Q : Set ℕ}

mutual

/-- A value stands for the same tree as long as its cells are left alone. -/
theorem Reads.imp (hsub : P ⊆ Q) (hagree : AgreeOn P h h') {v : Val} {j : Json} :
    Reads h P v j → Reads h' Q v j
  | .null => .null
  | .bool b => .bool b
  | .int64 n => .int64 n
  | .float64 q => .float64 q
  | .str s => .str s
  | .slice addr elems js hmem hcell helems =>
    .slice addr elems js (hsub hmem) (hagree addr hmem _ hcell) (helems.imp hsub hagree)
  | .map addr m o hmem hcell hentries =>
    .map addr m o (hsub hmem) (hagree addr hmem _ hcell) (hentries.imp hsub hagree)

theorem ReadsElems.imp (hsub : P ⊆ Q) (hagree : AgreeOn P h h') {vs : List Val} {js : List Json} :
    ReadsElems h P vs js → ReadsElems h' Q vs js
  | .nil => .nil
  | .cons v vs j js hhead htail =>
    .cons v vs j js (hhead.imp hsub hagree) (htail.imp hsub hagree)

theorem ReadsEntries.imp (hsub : P ⊆ Q) (hagree : AgreeOn P h h') {es : List (GoString × Val)}
    {o : Object} : ReadsEntries h P es o → ReadsEntries h' Q es o
  | .nil => .nil
  | .cons k v es j o hhead htail =>
    .cons k v es j o (hhead.imp hsub hagree) (htail.imp hsub hagree)

end

end Imp

theorem AgreeOn.refl (P : Set ℕ) (h : Heap) : AgreeOn P h h := fun _ _ _ hc => hc

theorem AgreeOn.mono {P Q : Set ℕ} {h h' : Heap} (hsub : P ⊆ Q) (hagree : AgreeOn Q h h') :
    AgreeOn P h h' := fun i hi => hagree i (hsub hi)

theorem AgreeOn.trans {P : Set ℕ} {h₁ h₂ h₃ : Heap} (h : AgreeOn P h₁ h₂) (h' : AgreeOn P h₂ h₃) :
    AgreeOn P h₁ h₃ := fun i hi c hc => h' i hi c (h i hi c hc)

theorem Extends.agreeOn {h h' : Heap} (hext : Extends h h') (P : Set ℕ) : AgreeOn P h h' :=
  AgreeOn.mono (Set.subset_univ P) hext

theorem Extends.length_le {h h' : Heap} (hext : Extends h h') : h.length ≤ h'.length := by
  by_contra hlt
  have hlast : h[h'.length]? = some h[h'.length] := List.getElem?_eq_getElem (by omega)
  have := hext h'.length trivial _ hlast
  rw [List.getElem?_eq_none (Nat.le_refl _)] at this
  cases this

/-- A new cell leaves the others alone. -/
theorem extends_append (h : Heap) (c : Cell) : Extends h (h ++ [c]) := fun i _ d hd => by
  obtain ⟨hlt, -⟩ := List.getElem?_eq_some_iff.mp hd
  rw [List.getElem?_append_left hlt, hd]

/-- A write behind what was there first loses nothing of it. -/
theorem Extends.of_length_le {base h h' : Heap} {addr : ℕ} (hext : Extends base h)
    (haddr : base.length ≤ addr)
    (hagree : ∀ P : Set ℕ, addr ∉ P → AgreeOn P h h') : Extends base h' := fun i _ c hc => by
  obtain ⟨hlt, -⟩ := List.getElem?_eq_some_iff.mp hc
  refine hagree {j | j < base.length} ?_ i hlt c (hext i trivial c hc)
  exact fun hmem => Nat.not_lt.mpr haddr hmem

theorem getElem?_updateMap {h : Heap} {addr : ℕ} {m : GoMap} (hcell : h[addr]? = some (.map m))
    (f : GoMap → GoMap) : (updateMap h addr f)[addr]? = some (.map (f m)) := by
  obtain ⟨hlt, -⟩ := List.getElem?_eq_some_iff.mp hcell
  rw [updateMap, hcell]
  exact List.getElem?_set_self hlt

/-- A write leaves the other cells alone. -/
theorem agreeOn_set (h : Heap) {addr : ℕ} (c : Cell) {P : Set ℕ} (hP : addr ∉ P) :
    AgreeOn P h (h.set addr c) := fun i hi d hd => by
  have hne : addr ≠ i := fun heq => hP (heq ▸ hi)
  rw [List.getElem?_set_ne hne, hd]

theorem agreeOn_updateMap (h : Heap) {addr : ℕ} (f : GoMap → GoMap) {P : Set ℕ} (hP : addr ∉ P) :
    AgreeOn P h (updateMap h addr f) := by
  rw [updateMap]
  split
  · exact agreeOn_set h _ hP
  · exact AgreeOn.refl P h

theorem length_updateMap (h : Heap) (addr : ℕ) (f : GoMap → GoMap) :
    (updateMap h addr f).length = h.length := by
  rw [updateMap]
  split
  · exact List.length_set
  · rfl

theorem getElem?_updateSlice {h : Heap} {addr : ℕ} {elems : List Val}
    (hcell : h[addr]? = some (.slice elems)) (f : List Val → List Val) :
    (updateSlice h addr f)[addr]? = some (.slice (f elems)) := by
  obtain ⟨hlt, -⟩ := List.getElem?_eq_some_iff.mp hcell
  rw [updateSlice, hcell]
  exact List.getElem?_set_self hlt

theorem agreeOn_updateSlice (h : Heap) {addr : ℕ} (f : List Val → List Val) {P : Set ℕ}
    (hP : addr ∉ P) : AgreeOn P h (updateSlice h addr f) := by
  rw [updateSlice]
  split
  · exact agreeOn_set h _ hP
  · exact AgreeOn.refl P h

theorem length_updateSlice (h : Heap) (addr : ℕ) (f : List Val → List Val) :
    (updateSlice h addr f).length = h.length := by
  rw [updateSlice]
  split
  · exact List.length_set
  · rfl

/-! ## Cells of its own

The copy of a value takes up the cells that were allocated for it. Of a map, the entries lie behind
the cell of the map itself, and of the copied object, each entry has cells of its own.
-/

/-- The value stands for the tree in these cells, the entries of a map in those behind its own. -/
structure Owned (h : Heap) (lo hi : ℕ) (v : Val) (j : Json) : Prop where
  reads : Reads h (Set.Ico lo hi) v j
  behind : ∀ addr o, v = .map (some addr) → j = .obj o →
    ∃ m, h[addr]? = some (.map m) ∧ lo ≤ addr ∧ addr < hi ∧
      ReadsEntries h (Set.Ico (addr + 1) hi) m.entries o

/-- Each of these entries has cells of its own. -/
inductive Spread (h : Heap) (hi : ℕ) : ℕ → List (GoString × Val) → Object → Prop
  | nil (lo : ℕ) (hle : lo ≤ hi) : Spread h hi lo [] []
  | cons (lo mid : ℕ) (k : GoString) (v : Val) (es : List (GoString × Val)) (j : Json) (o : Object)
      (hle : lo ≤ mid) (hhead : Owned h lo mid v j) (htail : Spread h hi mid es o) :
      Spread h hi lo ((k, v) :: es) ((k, j) :: o)

theorem Owned.imp {h h' : Heap} {lo hi : ℕ} (hagree : AgreeOn (Set.Ico lo hi) h h') {v : Val}
    {j : Json} (ho : Owned h lo hi v j) : Owned h' lo hi v j where
  reads := ho.reads.imp Set.Subset.rfl hagree
  behind addr o hv hj := by
    obtain ⟨m, hcell, hlo, hhi, hentries⟩ := ho.behind addr o hv hj
    have hsub : Set.Ico (addr + 1) hi ⊆ Set.Ico lo hi :=
      Set.Ico_subset_Ico_left (Nat.le_succ_of_le hlo)
    exact ⟨m, hagree addr ⟨hlo, hhi⟩ _ hcell, hlo, hhi,
      hentries.imp Set.Subset.rfl (hagree.mono hsub)⟩

theorem Owned.widen {h : Heap} {lo lo' hi : ℕ} (hle : lo' ≤ lo) {v : Val} {j : Json}
    (ho : Owned h lo hi v j) : Owned h lo' hi v j where
  reads := ho.reads.imp (Set.Ico_subset_Ico_left hle) (AgreeOn.refl _ _)
  behind addr o hv hj := by
    obtain ⟨m, hcell, hlo, hhi, hentries⟩ := ho.behind addr o hv hj
    exact ⟨m, hcell, Nat.le_trans hle hlo, hhi, hentries⟩

theorem Spread.le {h : Heap} {hi lo : ℕ} {es : List (GoString × Val)} {o : Object}
    (hs : Spread h hi lo es o) : lo ≤ hi := by
  induction hs with
  | nil lo hle => exact hle
  | cons lo mid k v es j o hle _ _ ih => exact Nat.le_trans hle ih

theorem Spread.imp {h h' : Heap} {hi lo : ℕ} {es : List (GoString × Val)} {o : Object}
    (hs : Spread h hi lo es o) (hagree : AgreeOn (Set.Ico lo hi) h h') : Spread h' hi lo es o := by
  induction hs with
  | nil lo hle => exact .nil lo hle
  | cons lo mid k v es j o hle hhead htail ih =>
    have hmid := htail.le
    exact .cons lo mid k v es j o hle (hhead.imp (hagree.mono (Set.Ico_subset_Ico_right hmid)))
      (ih (hagree.mono (Set.Ico_subset_Ico_left hle)))

/-- One more entry, in the cells behind. -/
theorem Spread.concat {h : Heap} {hi hi' lo : ℕ} {es : List (GoString × Val)} {o : Object}
    (hs : Spread h hi lo es o) (hle : hi ≤ hi') {v : Val} {j : Json} (ho : Owned h hi hi' v j)
    (k : GoString) : Spread h hi' lo (es ++ [(k, v)]) (o ++ [(k, j)]) := by
  induction hs with
  | nil lo hlo =>
    exact .cons lo hi' k v [] j [] (Nat.le_trans hlo hle) (ho.widen hlo) (.nil hi' (Nat.le_refl _))
  | cons lo mid i w es l o hlo hhead _ ih => exact .cons lo mid i w _ l _ hlo hhead ih

theorem Spread.reads {h : Heap} {hi lo : ℕ} {es : List (GoString × Val)} {o : Object}
    (hs : Spread h hi lo es o) : ReadsEntries h (Set.Ico lo hi) es o := by
  induction hs with
  | nil lo _ => exact .nil
  | cons lo mid k v es j o hle hhead htail ih =>
    refine .cons k v es j o (hhead.reads.imp ?_ (AgreeOn.refl _ _)) (ih.imp ?_ (AgreeOn.refl _ _))
    · exact Set.Ico_subset_Ico_right htail.le
    · exact Set.Ico_subset_Ico_left hle

theorem ReadsElems.concat {h : Heap} {P : Set ℕ} {vs : List Val} {js : List Json} {v : Val} {j : Json}
    (hread : ReadsElems h P vs js) (hlast : Reads h P v j) :
    ReadsElems h P (vs ++ [v]) (js ++ [j]) := by
  induction vs generalizing js with
  | nil =>
    cases hread
    exact .cons v [] j [] hlast .nil
  | cons w vs ih =>
    cases hread with
    | cons _ _ i js hhead htail => exact .cons w _ i _ hhead (ih htail)

/-! ## What is copied -/

/-- Values that stand for this tree are copied into new cells. -/
def CopiesAs (copy : Heap → Val → Option (Heap × Val)) (j : Json) : Prop :=
  ∀ h v, Reads h Set.univ v j → ∃ h' v', copy h v = some (h', v') ∧ Extends h h' ∧
    Owned h' h.length h'.length v' j

theorem GoMap.entries_set {m : GoMap} {k : GoString} (hk : k ∉ m.entries.map Prod.fst) (v : Val) :
    (m.set k v).entries = m.entries ++ [(k, v)] := by
  have hfilter : (m.delete k).entries = m.entries := by
    refine List.filter_eq_self.mpr fun e he => decide_eq_true ?_
    rintro rfl
    exact hk (List.mem_map_of_mem he)
  show (m.delete k).entries ++ [(k, v)] = _
  rw [hfilter]

section Loops

variable {copy : Heap → Val → Option (Heap × Val)} {base : Heap}

/-- The loop over a map copies the entries that are left behind those that are done. -/
theorem copyEntries_spec {es : List (GoString × Val)} {o : Object}
    (hread : ReadsEntries base Set.univ es o) (hcopy : ∀ f ∈ o, CopiesAs copy f.2) {h : Heap}
    {m : GoMap} {done : Object} (hext : Extends base h)
    (hcell : h[base.length]? = some (.map m))
    (hdone : Spread h h.length (base.length + 1) m.entries done)
    (hkeys : (m.entries.map Prod.fst ++ es.map Prod.fst).Nodup) :
    ∃ h' m', copyEntries copy base.length es h = some h' ∧ Extends base h' ∧
      h'[base.length]? = some (.map m') ∧
      Spread h' h'.length (base.length + 1) m'.entries (done ++ o) := by
  induction es generalizing o h m done with
  | nil =>
    cases hread
    exact ⟨h, m, rfl, hext, hcell, by rwa [List.append_nil]⟩
  | cons e es ih =>
    cases hread with
    | cons k v es j o hhead htail =>
    rw [List.forall_mem_cons] at hcopy
    obtain ⟨h₂, v', hv, hext₂, howned⟩ :=
      hcopy.1 h v (hhead.imp Set.Subset.rfl hext)
    have hcell₂ := hext₂ base.length trivial _ hcell
    -- the entry is written to the new map, and to no other cell
    let h₃ := updateMap h₂ base.length fun m => m.set k v'
    have hcell₃ : h₃[base.length]? = some (.map (m.set k v')) := getElem?_updateMap hcell₂ _
    have hlength : h₃.length = h₂.length := length_updateMap h₂ _ _
    have hbehind : AgreeOn (Set.Ico (base.length + 1) h₂.length) h₂ h₃ :=
      agreeOn_updateMap h₂ _ fun hmem => Nat.not_succ_le_self _ hmem.1
    have hext₃ : Extends base h₃ := Extends.of_length_le (hext.trans hext₂) (Nat.le_refl _)
      fun _ hP => agreeOn_updateMap h₂ _ hP
    have hk : k ∉ m.entries.map Prod.fst := fun hmem =>
      (List.nodup_append.mp hkeys).2.2 k hmem k List.mem_cons_self rfl
    have hspread : Spread h₃ h₃.length (base.length + 1) (m.set k v').entries (done ++ [(k, j)]) := by
      rw [GoMap.entries_set hk, hlength]
      exact ((hdone.imp (hext₂.agreeOn _)).concat hext₂.length_le howned k).imp hbehind
    have hkeys₃ : ((m.set k v').entries.map Prod.fst ++ es.map Prod.fst).Nodup := by
      rw [GoMap.entries_set hk, List.map_append, List.append_assoc]
      exact hkeys
    obtain ⟨h', m', hloop, hext', hcell', hspread'⟩ := ih htail hcopy.2 hext₃ hcell₃ hspread hkeys₃
    refine ⟨h', m', ?_, hext', hcell', ?_⟩
    · rw [copyEntries, hv]
      exact hloop
    · rwa [List.append_assoc] at hspread'

/-- The loop over a slice copies the elements that are left behind those that are done. -/
theorem copyElems_spec {vs : List Val} {js : List Json} (hread : ReadsElems base Set.univ vs js)
    (hcopy : ∀ j ∈ js, CopiesAs copy j) {h : Heap} {ws : List Val} {done : List Json}
    (hext : Extends base h)
    (hcell : h[base.length]? = some (.slice (ws ++ List.replicate vs.length .null)))
    (hdone : ReadsElems h (Set.Ico (base.length + 1) h.length) ws done) :
    ∃ h' ws', copyElems copy base.length ws.length vs h = some h' ∧ Extends base h' ∧
      h'[base.length]? = some (.slice ws') ∧
      ReadsElems h' (Set.Ico (base.length + 1) h'.length) ws' (done ++ js) := by
  induction vs generalizing js h ws done with
  | nil =>
    cases hread
    rw [List.length_nil, List.replicate_zero, List.append_nil] at hcell
    exact ⟨h, ws, rfl, hext, hcell, by rwa [List.append_nil]⟩
  | cons v vs ih =>
    cases hread with
    | cons _ _ j js hhead htail =>
    rw [List.forall_mem_cons] at hcopy
    obtain ⟨h₂, v', hv, hext₂, howned⟩ :=
      hcopy.1 h v (hhead.imp Set.Subset.rfl hext)
    have hcell₂ := hext₂ base.length trivial _ hcell
    let h₃ := updateSlice h₂ base.length fun c => c.set ws.length v'
    have hcell₃ : h₃[base.length]? =
        some (.slice ((ws ++ [v']) ++ List.replicate vs.length .null)) := by
      have hset : (ws ++ List.replicate (v :: vs).length Val.null).set ws.length v' =
          (ws ++ [v']) ++ List.replicate vs.length .null := by
        rw [List.length_cons, List.replicate_succ, List.set_append_right _ _ (Nat.le_refl _),
          Nat.sub_self, List.set_cons_zero, List.append_assoc, List.singleton_append]
      rw [← hset]
      exact getElem?_updateSlice hcell₂ _
    have hlength : h₃.length = h₂.length := length_updateSlice h₂ _ _
    have hbehind : AgreeOn (Set.Ico (base.length + 1) h₂.length) h₂ h₃ :=
      agreeOn_updateSlice h₂ _ fun hmem => Nat.not_succ_le_self _ hmem.1
    have hext₃ : Extends base h₃ := Extends.of_length_le (hext.trans hext₂) (Nat.le_refl _)
      fun _ hP => agreeOn_updateSlice h₂ _ hP
    have hlt : base.length < h.length := (List.getElem?_eq_some_iff.mp hcell).1
    have hdone₃ : ReadsElems h₃ (Set.Ico (base.length + 1) h₃.length) (ws ++ [v']) (done ++ [j]) := by
      rw [hlength]
      refine ReadsElems.imp Set.Subset.rfl hbehind (ReadsElems.concat ?_ ?_)
      · exact hdone.imp (Set.Ico_subset_Ico_right hext₂.length_le) (hext₂.agreeOn _)
      · exact howned.reads.imp (Set.Ico_subset_Ico_left hlt) (AgreeOn.refl _ _)
    obtain ⟨h', ws', hloop, hext', hcell', hdone'⟩ := ih htail hcopy.2 hext₃ hcell₃ hdone₃
    refine ⟨h', ws', ?_, hext', hcell', ?_⟩
    · rw [copyElems, hv]
      rw [List.length_append, List.length_singleton] at hloop
      exact hloop
    · rwa [List.append_assoc] at hdone'

/-- A copied object: its own cell is the first of the new ones. -/
theorem deepCopyMap_spec {addr : ℕ} {m : GoMap} {o : Object}
    (hcell : base[addr]? = some (.map m)) (hread : ReadsEntries base Set.univ m.entries o)
    (hcopy : ∀ f ∈ o, CopiesAs copy f.2) :
    ∃ h' m', deepCopyMap copy base (some addr) = some (h', some base.length) ∧ Extends base h' ∧
      h'[base.length]? = some (.map m') ∧
      Spread h' h'.length (base.length + 1) m'.entries o := by
  have hnew : (base ++ [Cell.map .empty])[base.length]? = some (.map .empty) := by
    rw [List.getElem?_append_right (Nat.le_refl _), Nat.sub_self]
    rfl
  have hlength : (base ++ [Cell.map .empty]).length = base.length + 1 := by
    rw [List.length_append, List.length_singleton]
  have hempty : Spread (base ++ [Cell.map .empty]) (base ++ [Cell.map .empty]).length
      (base.length + 1) GoMap.empty.entries [] := .nil _ hlength.ge
  obtain ⟨h', m', hloop, hext, hcell', hspread⟩ := copyEntries_spec hread hcopy
    (extends_append base _) hnew hempty m.nodup
  refine ⟨h', m', ?_, hext, hcell', hspread⟩
  rw [deepCopyMap, hcell]
  simp only [hloop]
  rfl

end Loops

/-- With fuel for its depth, every tree is copied. -/
theorem copiesAs_deepCopyValue {fuel : ℕ} {j : Json} (hfuel : sizeOf j < fuel) :
    CopiesAs (deepCopyValue fuel) j := by
  induction fuel generalizing j with
  | zero => exact absurd hfuel (Nat.not_lt_zero _)
  | succ fuel ih =>
    intro h v hread
    cases hread with
    | null => exact ⟨h, _, rfl, AgreeOn.refl _ _, .null, fun _ _ hv => by cases hv⟩
    | bool b => exact ⟨h, _, rfl, AgreeOn.refl _ _, .bool b, fun _ _ hv => by cases hv⟩
    | int64 n => exact ⟨h, _, rfl, AgreeOn.refl _ _, .int64 n, fun _ _ hv => by cases hv⟩
    | float64 q => exact ⟨h, _, rfl, AgreeOn.refl _ _, .float64 q, fun _ _ hv => by cases hv⟩
    | str s => exact ⟨h, _, rfl, AgreeOn.refl _ _, .str s, fun _ _ hv => by cases hv⟩
    | slice addr elems js hmem hcell helems =>
      have hcopy : ∀ i ∈ js, CopiesAs (deepCopyValue fuel) i := fun i hi => ih (by
        have := List.sizeOf_lt_of_mem hi
        rw [Json.arr.sizeOf_spec] at hfuel
        omega)
      have hnew : (h ++ [Cell.slice (List.replicate elems.length .null)])[h.length]? =
          some (.slice ([] ++ List.replicate elems.length .null)) := by
        rw [List.getElem?_append_right (Nat.le_refl _), Nat.sub_self]
        rfl
      obtain ⟨h', ws, hloop, hext, hcell', hws⟩ := copyElems_spec helems hcopy
        (extends_append h _) hnew .nil
      have hlt : h.length < h'.length := (List.getElem?_eq_some_iff.mp hcell').1
      refine ⟨h', .slice h.length, ?_, hext, .slice _ ws _ ⟨Nat.le_refl _, hlt⟩ hcell' ?_,
        fun _ _ hv => by cases hv⟩
      · rw [deepCopyValue, hcell]
        rw [List.length_nil] at hloop
        simp only [hloop]
        rfl
      · exact hws.imp (Set.Ico_subset_Ico_left (Nat.le_succ _)) (AgreeOn.refl _ _)
    | map addr m o hmem hcell hentries =>
      have hcopy : ∀ f ∈ o, CopiesAs (deepCopyValue fuel) f.2 := fun f hf => ih (by
        have := List.sizeOf_lt_of_mem hf
        rw [Json.obj.sizeOf_spec] at hfuel
        obtain ⟨k, i⟩ := f
        rw [Prod.mk.sizeOf_spec] at this
        show sizeOf i < fuel
        omega)
      obtain ⟨h', m', hcopied, hext, hcell', hspread⟩ := deepCopyMap_spec hcell hentries hcopy
      have hlt : h.length < h'.length := (List.getElem?_eq_some_iff.mp hcell').1
      refine ⟨h', .map (some h.length), ?_, hext, .map _ m' _ ⟨Nat.le_refl _, hlt⟩ hcell' ?_, ?_⟩
      · rw [deepCopyValue, hcopied]
        rfl
      · exact hspread.reads.imp (Set.Ico_subset_Ico_left (Nat.le_succ _)) (AgreeOn.refl _ _)
      · rintro addr o hv hj
        cases hv
        cases hj
        exact ⟨m', hcell', Nat.le_refl _, hlt, hspread.reads⟩

/-! ## What is stripped -/

/-- `m[k] = v` in the place of the entry that is there. -/
def put (k : GoString) (v : Json) : Object → Object
  | [] => []
  | (i, w) :: o => if i = k then (i, v) :: o else (i, w) :: put k v o

theorem get_put_self {o : Object} {k : GoString} {v : Json} (h : o.get k = some v) (w : Json) :
    Object.get (put k w o) k = some w := by
  induction o with
  | nil => cases h
  | cons f o ih =>
    obtain ⟨i, u⟩ := f
    rw [put]
    split_ifs with hi
    · rw [hi, Object.get_cons_self]
    · rw [Object.get_cons_ne (Ne.symm hi)] at h ⊢
      exact ih h

theorem get_put_ne {j k : GoString} (h : j ≠ k) (v : Json) (o : Object) :
    Object.get (put k v o) j = o.get j := by
  induction o with
  | nil => rfl
  | cons f o ih =>
    obtain ⟨i, u⟩ := f
    rw [put]
    split_ifs with hi
    · rw [hi, Object.get_cons_ne h, Object.get_cons_ne h]
    · by_cases hj : j = i
      · rw [hj, Object.get_cons_self, Object.get_cons_self]
      · rw [Object.get_cons_ne hj, Object.get_cons_ne hj, ih]

theorem put_put (k : GoString) (v w : Json) (o : Object) : put k w (put k v o) = put k w o := by
  induction o with
  | nil => rfl
  | cons f o ih =>
    obtain ⟨i, u⟩ := f
    by_cases hi : i = k
    · simp only [put, hi, if_true]
    · simp only [put, hi, if_false, ih]

theorem put_of_get {o : Object} {k : GoString} {v : Json} (h : o.get k = some v) : put k v o = o := by
  induction o with
  | nil => rfl
  | cons f o ih =>
    obtain ⟨i, u⟩ := f
    rw [put]
    split_ifs with hi
    · rw [hi, Object.get_cons_self, Option.some.injEq] at h
      rw [h]
    · rw [Object.get_cons_ne (Ne.symm hi)] at h
      rw [ih h]

theorem ReadsEntries.delete {h : Heap} {P : Set ℕ} {es : List (GoString × Val)} {o : Object}
    (hread : ReadsEntries h P es o) (k : GoString) :
    ReadsEntries h P (es.filter (·.1 ≠ k)) (o.delete k) := by
  induction es generalizing o with
  | nil =>
    cases hread
    exact .nil
  | cons e es ih =>
    cases hread with
    | cons i v es j o hhead htail =>
    rw [Object.delete]
    by_cases hi : i = k
    · rw [List.filter_cons_of_neg (by simpa using hi), List.filter_cons_of_neg (by simpa using hi)]
      exact ih htail
    · rw [List.filter_cons_of_pos (by simpa using hi), List.filter_cons_of_pos (by simpa using hi)]
      exact .cons i v _ j _ hhead (ih htail)

/-- What is deleted from the map under a key is deleted there only. -/
theorem Spread.deleteKey {h : Heap} {hi lo md : ℕ} {es : List (GoString × Val)} {o : Object}
    {k : GoString} (hs : Spread h hi lo es o) (hk : es.lookup k = some (.map (some md))) :
    lo ≤ md ∧ ∃ inner : Object, o.get k = some (.obj inner) ∧
      ∀ f, Spread (deleteKey h (some md) f) hi lo es (put k (.obj (inner.delete f)) o) := by
  induction hs with
  | nil lo _ => cases hk
  | cons lo mid i v es j o hle hhead htail ih =>
    by_cases hi' : k = i
    · subst hi'
      rw [List.lookup_cons_self, Option.some.injEq] at hk
      subst hk
      cases hhead.reads with
      | map _ m inner hmem hcell hentries =>
      obtain ⟨m', hcell', hlo, hlt, hbehind⟩ := hhead.behind md inner rfl rfl
      refine ⟨hlo, inner, Object.get_cons_self k _ o, fun f => ?_⟩
      have hdeleted : (DeepCopy.deleteKey h (some md) f)[md]? = some (.map (m'.delete f)) :=
        getElem?_updateMap hcell' _
      have hagree : AgreeOn (Set.Ico (md + 1) mid) h (DeepCopy.deleteKey h (some md) f) :=
        agreeOn_updateMap h _ fun hmem => Nat.not_succ_le_self _ hmem.1
      have hinner : ReadsEntries (DeepCopy.deleteKey h (some md) f) (Set.Ico (md + 1) mid)
          (m'.delete f).entries (inner.delete f) :=
        (hbehind.imp Set.Subset.rfl hagree).delete f
      rw [put, if_pos rfl]
      refine .cons lo mid k _ es _ o hle ⟨.map md _ _ ⟨hlo, hlt⟩ hdeleted ?_, ?_⟩ (htail.imp ?_)
      · exact hinner.imp (Set.Ico_subset_Ico_left (Nat.le_succ_of_le hlo)) (AgreeOn.refl _ _)
      · rintro addr o' haddr ho'
        cases haddr
        cases ho'
        exact ⟨_, hdeleted, hlo, hlt, hinner⟩
      · exact agreeOn_updateMap h _ fun hmem => Nat.not_lt.mpr hmem.1 hlt
    · rw [lookup_cons_ne hi'] at hk
      obtain ⟨hmd, inner, hinner, hdelete⟩ := ih hk
      refine ⟨Nat.le_trans hle hmd, inner, ?_, fun f => ?_⟩
      · rw [Object.get_cons_ne hi', hinner]
      · rw [put, if_neg (Ne.symm hi')]
        refine .cons lo mid i v es j _ hle (hhead.imp ?_) (hdelete f)
        exact agreeOn_updateMap h _ fun hmem => Nat.not_lt.mpr hmd hmem.2

theorem Spread.deleteKeys {h : Heap} {hi lo md : ℕ} {es : List (GoString × Val)} {o inner : Object}
    {k : GoString} (hs : Spread h hi lo es o) (hk : es.lookup k = some (.map (some md)))
    (hinner : o.get k = some (.obj inner)) (fields : List GoString) :
    Spread (fields.foldl (fun h f => DeepCopy.deleteKey h (some md) f) h) hi lo es
        (put k (.obj (fields.foldl Object.delete inner)) o) ∧
      AgreeOn (Set.Iio lo) h (fields.foldl (fun h f => DeepCopy.deleteKey h (some md) f) h) := by
  induction fields generalizing h o inner with
  | nil => exact ⟨by rwa [List.foldl_nil, List.foldl_nil, put_of_get hinner], AgreeOn.refl _ _⟩
  | cons f fields ih =>
    obtain ⟨hmd, inner', hinner', hdelete⟩ := hs.deleteKey hk
    obtain rfl : inner' = inner := by
      rw [hinner, Option.some.injEq, Json.obj.injEq] at hinner'
      exact hinner'.symm
    obtain ⟨hspread, hagree⟩ := ih (hdelete f) (get_put_self hinner _)
    rw [put_put] at hspread
    refine ⟨hspread, AgreeOn.trans (agreeOn_updateMap h _ ?_) hagree⟩
    exact fun hlt => Nat.not_lt.mpr hmd hlt

/-- The tree that a value stands for is a map where the value is one. -/
theorem ReadsEntries.get {h : Heap} {P : Set ℕ} {es : List (GoString × Val)} {o : Object}
    (hread : ReadsEntries h P es o) (k : GoString) :
    (es.lookup k = none ∧ o.get k = none) ∨
      ∃ v j, es.lookup k = some v ∧ o.get k = some j ∧ Reads h P v j := by
  induction es generalizing o with
  | nil =>
    cases hread
    exact .inl ⟨rfl, rfl⟩
  | cons e es ih =>
    cases hread with
    | cons i v es j o hhead htail =>
    by_cases hi : k = i
    · rw [hi, List.lookup_cons_self, Object.get_cons_self]
      exact .inr ⟨v, j, rfl, rfl, hhead⟩
    · rw [lookup_cons_ne hi, Object.get_cons_ne hi]
      exact ih htail

/-- Under `metadata` the copy loses the fields that the tree loses there, and no cell before those of
its entries is written. -/
theorem Spread.stripMetadata {h : Heap} {hi lo : ℕ} {es : List (GoString × Val)} {o : Object}
    (hs : Spread h hi lo es o) :
    ∃ h' o', (match es.lookup ("metadata" : GoString) with
        | some (.map md) => serverSideFields.foldl (fun h f => DeepCopy.deleteKey h md f) h
        | _ => h) = h' ∧
      AgreeOn (Set.Iio lo) h h' ∧ Spread h' hi lo es o' ∧
      ∀ k, Object.get o' k = Object.get (match o.get "metadata" with
        | some (.obj md) => o.set "metadata" (.obj (serverSideFields.foldl Object.delete md))
        | _ => o) k := by
  obtain ⟨hnone, hget⟩ | ⟨v, j, hv, hget, hread⟩ := hs.reads.get "metadata"
  · rw [hnone, hget]
    exact ⟨h, o, rfl, AgreeOn.refl _ _, hs, fun _ => rfl⟩
  · rw [hv, hget]
    cases hread with
    | map md _ inner =>
      obtain ⟨hspread, hagree⟩ := hs.deleteKeys hv hget serverSideFields
      refine ⟨_, _, rfl, hagree, hspread, fun k => ?_⟩
      by_cases hk : k = "metadata"
      · rw [hk, get_put_self hget, Object.get_set_self]
      · rw [get_put_ne hk, Object.get_set_ne o hk]
    | null | bool | int64 | float64 | str | slice =>
      exact ⟨h, o, rfl, AgreeOn.refl _ _, hs, fun _ => rfl⟩

/-- Stripping, on the heap: the result stands for what stripping a tree gives, in cells that are all
new, and no cell that was there is written. -/
theorem exists_stripped {h : Heap} {addr : ℕ} {o : Object}
    (hread : Reads h Set.univ (.map (some addr)) (.obj o)) {fuel : ℕ} (hfuel : sizeOf o < fuel) :
    ∃ h' cp o', stripServerSideNoise fuel h (some addr) = some (h', some cp) ∧ Extends h h' ∧
      Reads h' (Set.Ici h.length) (.map (some cp)) (.obj o') ∧
      ∀ k, Object.get o' k = Object.get (Render.stripServerSideNoise o) k := by
  cases hread with
  | map _ m _ hmem hcell hentries =>
  have hcopy : ∀ f ∈ o, CopiesAs (deepCopyValue fuel) f.2 := fun f hf =>
    copiesAs_deepCopyValue (by
      have := List.sizeOf_lt_of_mem hf
      obtain ⟨k, i⟩ := f
      rw [Prod.mk.sizeOf_spec] at this
      show sizeOf i < fuel
      omega)
  obtain ⟨h₁, m', hcopied, hext, hcell', hspread⟩ := deepCopyMap_spec hcell hentries hcopy
  have hmetadata : getKey h₁ (some h.length) "metadata" = m'.entries.lookup ("metadata" : GoString) := by
    rw [getKey, Option.bind_some, hcell']
    rfl
  obtain ⟨h₂, o₂, hstrip, hagree, hspread₂, hget⟩ := hspread.stripMetadata
  have hext₂ : Extends h h₂ := fun i _ c hc => by
    have hlt : i < h.length := (List.getElem?_eq_some_iff.mp hc).1
    exact hagree i (Nat.lt_succ_of_lt hlt) c (hext i trivial c hc)
  have hcell₂ : h₂[h.length]? = some (.map m') := hagree _ (Nat.lt_succ_self _) _ hcell'
  -- the status goes from the cell of the copy itself
  let h₃ := deleteKey h₂ (some h.length) "status"
  have hagree₃ : AgreeOn (Set.Ici (h.length + 1)) h₂ h₃ :=
    agreeOn_updateMap h₂ _ fun hmem => Nat.not_succ_le_self _ hmem
  have hreads : ReadsEntries h₃ (Set.Ici h.length) (m'.delete "status").entries
      (o₂.delete "status") := by
    have hread₂ := (hspread₂.reads.delete "status").imp Set.Ico_subset_Ici_self
      (AgreeOn.refl _ _)
    exact hread₂.imp (Set.Ici_subset_Ici.mpr (Nat.le_succ _)) hagree₃
  refine ⟨h₃, h.length, o₂.delete "status", ?_, ?_, ?_, fun k => ?_⟩
  · rw [stripServerSideNoise, hcopied]
    simp only [Option.bind_eq_bind, Option.bind_some, hmetadata]
    rw [hstrip]
  · exact hext₂.of_length_le (Nat.le_refl _) fun _ hP => agreeOn_updateMap h₂ _ hP
  · exact .map _ _ _ (Nat.le_refl _) (getElem?_updateMap hcell₂ _) hreads
  · rw [Render.stripServerSideNoise]
    by_cases hk : k = "status"
    · rw [hk, Object.get_delete_self, Object.get_delete_self]
    · rw [Object.get_delete_ne _ hk, Object.get_delete_ne _ hk]
      exact hget k

end Yafu.Render.DeepCopy
