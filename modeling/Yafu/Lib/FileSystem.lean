import Mathlib.Data.List.Infix
import Mathlib.Logic.Function.Basic

/-!
# A file system

A tree of directories, files and other nodes. A path is the list of its names from the last one up
to the root, so that the directory of a path is its tail and `base <:+ p` says that `p` is `base` or
lies below it. `FileTree` carries that every node lies in a directory.

Every call can fail for a reason of its own, the `fault`, beside those that the tree gives; what it
did before stays.
-/

namespace FileSystem

variable {ν ε : Type*}

/-- What a path can name; `other` is a link, a device or the like. -/
inductive Node
  | dir
  | file (content : List UInt8)
  | other
deriving DecidableEq, Repr

/-- A file system. -/
@[ext] structure FileTree (ν : Type*) where
  node : List ν → Option Node
  root : node [] = some .dir
  parent : ∀ {e p}, (node (e :: p)).isSome → node p = some .dir

/-- Why a call fails. -/
inductive Errno (ε : Type*)
  | exist
  | noEntry
  | notDir
  | isDir
  | notRegular
  | fault (err : ε)
deriving DecidableEq, Repr

/-- `PathError`: why a call fails, and at which path. -/
structure PathError (ν ε : Type*) where
  path : List ν
  errno : Errno ε
deriving DecidableEq, Repr

namespace FileTree

/-- The root alone. -/
def init : FileTree ν where
  node
    | [] => some .dir
    | _ :: _ => none
  root := rfl
  parent h := nomatch h

/-- What lies above a node is a directory. -/
theorem dir_of_suffix {t : FileTree ν} {base : List ν} : ∀ {p : List ν}, base <:+ p → base ≠ p →
    (t.node p).isSome → t.node base = some .dir
  | [], h, hne, _ => absurd (List.suffix_nil.mp h) hne
  | e :: p, h, hne, hp => by
    have hdir : t.node p = some .dir := t.parent hp
    rcases List.suffix_cons_iff.mp h with h | h
    · exact absurd h hne
    · by_cases hbase : base = p
      · rw [hbase, hdir]
      · exact dir_of_suffix h hbase (by rw [hdir]; rfl)

/-- Nothing lies below what is no directory. -/
theorem node_eq_none {t : FileTree ν} {base p : List ν} (hbase : t.node base ≠ some .dir)
    (h : base <:+ p) (hne : base ≠ p) : t.node p = none := by
  by_contra hp
  exact hbase (dir_of_suffix h hne (Option.isSome_iff_ne_none.mpr hp))

/-- The tree has gained nothing but directories on the way to `p`. -/
def Grown (t t' : FileTree ν) (p : List ν) : Prop :=
  ∀ q, t'.node q = t.node q ∨ (t.node q = none ∧ t'.node q = some .dir ∧ q <:+ p)

theorem Grown.refl (t : FileTree ν) (p : List ν) : Grown t t p := fun _ => .inl rfl

/-- Nothing outside a directory changes if the way is through it or up from it. -/
theorem Grown.outside {t t' : FileTree ν} {base p q : List ν} (h : Grown t t' p)
    (hbase : t.node base = some .dir) (hp : base <:+ p ∨ p <:+ base) (hq : ¬ base <:+ q) :
    t'.node q = t.node q := by
  rcases h q with h | ⟨hnone, -, hqp⟩
  · exact h
  · have hup : q <:+ base := by
      rcases hp with hp | hp
      · exact (List.suffix_or_suffix_of_suffix hqp hp).resolve_right hq
      · exact hqp.trans hp
    have hdir := dir_of_suffix hup (fun heq => hq (heq ▸ List.suffix_rfl)) (by rw [hbase]; rfl)
    rw [hnone] at hdir
    cases hdir

/-- What is no directory was there. -/
theorem Grown.node_iff {t t' : FileTree ν} {p q : List ν} (h : Grown t t' p) {n : Node} (hn : n ≠ .dir) :
    t'.node q = some n ↔ t.node q = some n := by
  rcases h q with h | ⟨hnone, hdir, -⟩
  · rw [h]
  · rw [hnone, hdir]
    exact iff_of_false (fun heq => hn (Option.some.inj heq).symm) nofun

theorem Grown.dir {t t' : FileTree ν} {p q : List ν} (h : Grown t t' p) (hq : t.node q = some .dir) :
    t'.node q = some .dir := by
  rcases h q with h | ⟨-, hdir, -⟩
  · rw [h, hq]
  · exact hdir

/-- A call that fails at once leaves the tree. -/
theorem eq_of_failed {t t' : FileTree ν} {fault : PathError ν ε} {err : Option (PathError ν ε)}
    (h : (t, some fault) = (t', err)) :
    t' = t ∧ err.isSome := by
  obtain ⟨rfl, rfl⟩ := Prod.mk.inj h
  exact ⟨rfl, rfl⟩

variable [DecidableEq ν]

/-- A node that is new, or in the place of one that is no directory. -/
def put (t : FileTree ν) (e : ν) (p : List ν) (n : Node) (hdir : t.node p = some .dir)
    (hne : t.node (e :: p) ≠ some .dir) : FileTree ν where
  node := Function.update t.node (e :: p) (some n)
  root := by rw [Function.update_of_ne (List.cons_ne_nil e p).symm, t.root]
  parent {f q} h := by
    have hq : q ≠ e :: p → Function.update t.node (e :: p) (some n) q = t.node q :=
      fun hq => Function.update_of_ne hq ..
    by_cases hf : f :: q = e :: p
    · obtain ⟨-, rfl⟩ := List.cons_eq_cons.mp hf
      rw [hq (List.ne_cons_self), hdir]
    · rw [Function.update_of_ne hf] at h
      have hdir' := t.parent h
      rw [hq fun heq => hne (heq ▸ hdir'), hdir']

@[simp] theorem put_self (t : FileTree ν) (e : ν) (p : List ν) (n : Node) (hdir) (hne) :
    (t.put e p n hdir hne).node (e :: p) = some n := Function.update_self ..

theorem put_of_ne (t : FileTree ν) {e : ν} {p q : List ν} (n : Node) (hdir) (hne) (h : q ≠ e :: p) :
    (t.put e p n hdir hne).node q = t.node q := Function.update_of_ne h ..

/-- Why nothing can be made at a path that is no directory. -/
def noDir (t : FileTree ν) (p : List ν) : Errno ε := if t.node p = none then .noEntry else .notDir

/-- `os.Mkdir`. -/
def mkdir (fault : List ν → Option ε) (t : FileTree ν) : List ν → FileTree ν × Option (PathError ν ε)
  | [] => (t, some ⟨[], .exist⟩)
  | e :: p =>
    match fault (e :: p) with
    | some err => (t, some ⟨e :: p, .fault err⟩)
    | none =>
      if hdir : t.node p = some .dir then
        if hnone : t.node (e :: p) = none then
          (t.put e p .dir hdir (by rw [hnone]; exact nofun), none)
        else (t, some ⟨e :: p, .exist⟩)
      else (t, some ⟨e :: p, t.noDir p⟩)

/-- `os.MkdirAll`: what is missing, from the root on. -/
def mkdirAll (fault : List ν → Option ε) (t : FileTree ν) : List ν → FileTree ν × Option (PathError ν ε)
  | [] => (t, none)
  | e :: p =>
    match t.node (e :: p) with
    | some .dir => (t, none)
    | some _ => (t, some ⟨e :: p, .notDir⟩)
    | none =>
      match mkdirAll fault t p with
      | (t, some err) => (t, some err)
      | (t, none) => mkdir fault t (e :: p)

/-- `os.OpenFile` with `O_CREATE`, `O_WRONLY` and `O_TRUNC`. -/
def openFile (fault : Option ε) (t : FileTree ν) : List ν → FileTree ν × Option (PathError ν ε)
  | [] => (t, some ⟨[], .isDir⟩)
  | e :: p =>
    match fault with
    | some err => (t, some ⟨e :: p, .fault err⟩)
    | none =>
      if hdir : t.node p = some .dir then
        if hisDir : t.node (e :: p) = some .dir then (t, some ⟨e :: p, .isDir⟩)
        else if t.node (e :: p) = some .other then (t, some ⟨e :: p, .notRegular⟩)
        else (t.put e p (.file []) hdir hisDir, none)
      else (t, some ⟨e :: p, t.noDir p⟩)

/-- `File.Write` at the end of an open file. -/
def write (t : FileTree ν) (p : List ν) (b : List UInt8) : FileTree ν where
  node := Function.update t.node p ((t.node p).map fun
    | .file content => .file (content ++ b)
    | n => n)
  root := by
    by_cases hp : p = []
    · subst hp
      rw [Function.update_self, t.root]
      rfl
    · rw [Function.update_of_ne (Ne.symm hp), t.root]
  parent {f q} h := by
    have hsome : (t.node (f :: q)).isSome := by
      by_cases hf : f :: q = p
      · rw [hf, Function.update_self, Option.isSome_map] at h
        rw [hf, h]
      · rwa [Function.update_of_ne hf] at h
    have hdir := t.parent hsome
    by_cases hq : q = p
    · subst hq
      rw [Function.update_self, hdir]
      rfl
    · rw [Function.update_of_ne hq, hdir]

/-- The path and every directory from `base` to it are kept. -/
def Stays (base : List ν) (keep : List ν → Bool) (p : List ν) : Prop :=
  ∀ q ∈ p.tails, base <:+ q → keep q = true

instance (base : List ν) (keep : List ν → Bool) (p : List ν) : Decidable (Stays base keep p) :=
  inferInstanceAs (Decidable (∀ q ∈ p.tails, _))

/-- The tree with what stays of `base`. -/
def prune (t : FileTree ν) (base : List ν) (keep : List ν → Bool) (hbase : base ≠ []) : FileTree ν where
  node p := if Stays base keep p then t.node p else none
  root := by
    have hstays : Stays base keep [] := by
      intro q hq hsuffix
      rw [List.tails, List.mem_singleton] at hq
      exact absurd (List.suffix_nil.mp (hq ▸ hsuffix)) hbase
    rw [if_pos hstays, t.root]
  parent {e p} h := by
    by_cases hstays : Stays base keep (e :: p)
    · rw [if_pos hstays] at h
      have hparent : Stays base keep p := fun q hq =>
        hstays q ((List.mem_tails _ _).mpr (((List.mem_tails _ _).mp hq).trans (List.suffix_cons e p)))
      rw [if_pos hparent, t.parent h]
    · rw [if_neg hstays] at h
      cases h

/-- `os.RemoveAll`; a call that fails keeps some of the tree. -/
def removeAll (fault : Option ((List ν → Bool) × ε)) (t : FileTree ν) :
    List ν → FileTree ν × Option (PathError ν ε)
  | [] => (t, some ⟨[], .exist⟩)
  | e :: p =>
    match fault with
    | none => (t.prune (e :: p) (fun _ => false) (List.cons_ne_nil e p), none)
    | some (keep, err) =>
      (t.prune (e :: p) keep (List.cons_ne_nil e p), some ⟨e :: p, .fault err⟩)

/-! ## What the calls do -/

variable {t t' : FileTree ν} {e : ν} {p q base : List ν} {err : Option (PathError ν ε)}

/-- A new directory, or nothing. -/
theorem mkdir_spec {fault : List ν → Option ε} (h : t.mkdir fault p = (t', err)) :
    (t' = t ∧ err.isSome) ∨
      (err = none ∧ t.node p = none ∧ t'.node p = some .dir ∧ ∀ q, q ≠ p → t'.node q = t.node q) := by
  rcases p with _ | ⟨e, p⟩
  · exact .inl (eq_of_failed h)
  · rw [mkdir] at h
    split at h
    · exact .inl (eq_of_failed h)
    · split_ifs at h with hdir hnone
      · obtain ⟨rfl, rfl⟩ := Prod.mk.inj h
        exact .inr ⟨rfl, hnone, put_self .., fun q hq => put_of_ne _ _ _ _ hq⟩
      · exact .inl (eq_of_failed h)
      · exact .inl (eq_of_failed h)

theorem mkdirAll_spec {fault : List ν → Option ε} : ∀ {p : List ν} {t' : FileTree ν}
    {err : Option (PathError ν ε)}, t.mkdirAll fault p = (t', err) →
    Grown t t' p ∧ (err = none → t'.node p = some .dir)
  | [], t', err, h => by
    obtain ⟨rfl, rfl⟩ := Prod.mk.inj h
    exact ⟨.refl t [], fun _ => t.root⟩
  | e :: p, t', err, h => by
    rw [mkdirAll] at h
    split at h
    · next hdir =>
      obtain ⟨rfl, rfl⟩ := Prod.mk.inj h
      exact ⟨.refl t _, fun _ => hdir⟩
    · obtain ⟨rfl, rfl⟩ := Prod.mk.inj h
      exact ⟨.refl t _, nofun⟩
    · next hnone =>
      rcases hrec : t.mkdirAll fault p with ⟨t₁, err₁⟩
      obtain ⟨hgrown, -⟩ := mkdirAll_spec hrec
      have hgrown' : Grown t t₁ (e :: p) := fun q =>
        (hgrown q).imp_right fun ⟨h, h', hq⟩ => ⟨h, h', hq.trans (List.suffix_cons e p)⟩
      rw [hrec] at h
      cases err₁ with
      | some err₁ =>
        obtain ⟨rfl, rfl⟩ := Prod.mk.inj h
        exact ⟨hgrown', nofun⟩
      | none =>
        rcases mkdir_spec h with ⟨rfl, herr⟩ | ⟨rfl, -, hnew, hold⟩
        · refine ⟨hgrown', fun hnil => ?_⟩
          rw [hnil] at herr
          cases herr
        · refine ⟨fun q => ?_, fun _ => hnew⟩
          by_cases hq : q = e :: p
          · subst hq
            exact .inr ⟨hnone, hnew, List.suffix_rfl⟩
          · rw [hold q hq]
            exact hgrown' q

/-- An empty file in the place of none or of another, or nothing. -/
theorem openFile_spec {fault : Option ε} (h : t.openFile fault p = (t', err)) :
    (t' = t ∧ err.isSome) ∨
      (err = none ∧ t.node p ≠ some .dir ∧ t.node p ≠ some .other ∧ t'.node p = some (.file []) ∧
        ∀ q, q ≠ p → t'.node q = t.node q) := by
  rcases p with _ | ⟨e, p⟩
  · exact .inl (eq_of_failed h)
  · simp only [openFile] at h
    split at h
    · exact .inl (eq_of_failed h)
    · split_ifs at h with hdir hisDir hother
      · exact .inl (eq_of_failed h)
      · exact .inl (eq_of_failed h)
      · obtain ⟨rfl, rfl⟩ := Prod.mk.inj h
        exact .inr ⟨rfl, hisDir, hother, put_self .., fun q hq => put_of_ne _ _ _ _ hq⟩
      · exact .inl (eq_of_failed h)

theorem write_self {content : List UInt8} (h : t.node p = some (.file content)) (b : List UInt8) :
    (t.write p b).node p = some (.file (content ++ b)) := by
  have hself : (t.write p b).node p = (t.node p).map _ := Function.update_self ..
  rw [hself, h]
  rfl

theorem write_of_ne (h : q ≠ p) (b : List UInt8) : (t.write p b).node q = t.node q :=
  Function.update_of_ne h ..

theorem removeAll_of_not_suffix (fault : Option ((List ν → Bool) × ε)) (h : ¬ base <:+ p) :
    (t.removeAll fault base).1.node p = t.node p := by
  have hstays : ∀ keep, Stays base keep p := fun keep q hq hbase =>
    absurd (hbase.trans ((List.mem_tails _ _).mp hq)) h
  rcases base with _ | ⟨e, base⟩
  · rfl
  · rcases fault with _ | ⟨keep, err⟩ <;> exact if_pos (hstays _)

theorem removeAll_of_suffix (hbase : base ≠ []) (h : base <:+ p) :
    (t.removeAll (none : Option ((List ν → Bool) × ε)) base).1.node p = none := by
  obtain ⟨e, base, rfl⟩ := List.exists_cons_of_ne_nil hbase
  refine if_neg fun hstays => ?_
  cases hstays p ((List.mem_tails _ _).mpr List.suffix_rfl) h

end FileTree

end FileSystem
