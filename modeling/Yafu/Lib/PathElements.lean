import Yafu.Lib.Path

/-!
# The elements of clean paths

`key` is what a path names in a tree of directories, lexically. Cleaning keeps it (`key_clean`),
joining a path without `..` to a directory puts its elements behind those of the directory
(`key_joinClean`), and `filepath.Dir` takes the last one away (`key_dir`).
-/

namespace Path

open GoString

/-- Up to the last slash, which stays. -/
def upToSlash (p : GoString) : GoString := (p.reverse.dropWhile (· ≠ slash)).reverse

/-- `filepath.Dir`. -/
def dir (p : GoString) : GoString := clean (upToSlash p)

/-- The elements of the clean path, the last one first. -/
def key (p : GoString) : List GoString := (cleanElems p).reverse

/-! ## The clean elements -/

/-- An element that names something in a directory. -/
structure Ordinary (e : GoString) : Prop where
  ne_nil : e ≠ []
  ne_dot : e ≠ "."
  ne_dots : e ≠ ".."

/-- `..` elements, with none of them below the root. -/
def parents (rooted : Bool) (k : ℕ) : List GoString :=
  if rooted then [] else List.replicate k (".." : GoString)

/-- Ordinary elements on top of `..` elements, the last one first. -/
def Normal (rooted : Bool) (elems : List GoString) : Prop :=
  ∃ names k, elems = names ++ parents rooted k ∧ ∀ e ∈ names, Ordinary e

variable {rooted : Bool} {elems acc names : List GoString} {e elem p : GoString}

theorem cleanStep_ordinary (rooted : Bool) (elems : List GoString) (h : Ordinary elem) :
    cleanStep rooted elems elem = elem :: elems := by
  unfold cleanStep
  rw [if_neg (not_or.mpr ⟨h.ne_nil, h.ne_dot⟩), if_neg h.ne_dots]

/-- A `..` on `..` elements is one more of them. -/
theorem cleanStep_parents (rooted : Bool) (k : ℕ) :
    cleanStep rooted (parents rooted k) ".." = parents rooted (k + 1) := by
  cases rooted with
  | true => rfl
  | false =>
    cases k with
    | zero => rfl
    | succ k => rfl

theorem foldl_parents (rooted : Bool) (k : ℕ) :
    (parents rooted k).foldl (cleanStep rooted) [] = parents rooted k := by
  cases rooted with
  | true => rfl
  | false =>
    induction k with
    | zero => rfl
    | succ k ih =>
      have hsucc : parents false (k + 1) = parents false k ++ [(".." : GoString)] :=
        List.replicate_succ'
      rw [hsucc, List.foldl_concat, ih, cleanStep_parents, hsucc]

theorem foldl_ordinary (rooted : Bool) : ∀ {l : List GoString} (acc : List GoString),
    (∀ e ∈ l, Ordinary e) → l.foldl (cleanStep rooted) acc = l.reverse ++ acc
  | [], _, _ => rfl
  | e :: l, acc, h => by
    have hl : ∀ f ∈ l, Ordinary f := fun f hf => h f (List.mem_cons_of_mem _ hf)
    rw [List.foldl_cons, cleanStep_ordinary rooted acc (h e List.mem_cons_self),
      foldl_ordinary rooted _ hl, List.reverse_cons, List.append_assoc, List.singleton_append]

theorem Normal.cleanStep (h : Normal rooted elems) (elem : GoString) :
    Normal rooted (cleanStep rooted elems elem) := by
  obtain ⟨names, k, rfl, hnames⟩ := h
  by_cases hempty : elem = [] ∨ elem = "."
  · unfold Path.cleanStep
    rw [if_pos hempty]
    exact ⟨names, k, rfl, hnames⟩
  by_cases hdots : elem = ".."
  · subst hdots
    rcases names with _ | ⟨e, names⟩
    · rw [List.nil_append, cleanStep_parents]
      exact ⟨[], k + 1, rfl, hnames⟩
    · -- it takes the name on top back
      obtain ⟨he, hnames⟩ := List.forall_mem_cons.mp hnames
      unfold Path.cleanStep
      rw [if_neg hempty, if_pos rfl, List.cons_append]
      simp only [he.ne_dots, if_false]
      exact ⟨names, k, rfl, hnames⟩
  · have hord : Ordinary elem := ⟨fun h => hempty (.inl h), fun h => hempty (.inr h), hdots⟩
    rw [cleanStep_ordinary _ _ hord]
    exact ⟨elem :: names, k, rfl, List.forall_mem_cons.mpr ⟨hord, hnames⟩⟩

theorem Normal.foldl {l : List GoString} (h : Normal rooted acc) :
    Normal rooted (l.foldl (Path.cleanStep rooted) acc) := by
  induction l generalizing acc with
  | nil => exact h
  | cons e l ih => exact ih (h.cleanStep e)

/-- The clean elements taken once more, in order. -/
theorem Normal.foldl_reverse (h : Normal rooted elems) :
    elems.reverse.foldl (Path.cleanStep rooted) [] = elems := by
  obtain ⟨names, k, rfl, hnames⟩ := h
  have hrev : (parents rooted k).reverse = parents rooted k := by
    cases rooted with
    | true => rfl
    | false => exact List.reverse_replicate
  rw [List.reverse_append, List.foldl_append, hrev, foldl_parents,
    foldl_ordinary _ _ fun e he => hnames e (List.mem_reverse.mp he), List.reverse_reverse]

theorem normal_key (p : GoString) : Normal (p.head? = some slash) (key p) := by
  rw [key, cleanElems, List.reverse_reverse]
  refine Normal.foldl ⟨[], 0, ?_, fun e he => absurd he List.not_mem_nil⟩
  cases decide (p.head? = some slash) with
  | true => rfl
  | false => rfl

theorem Normal.ordinary (h : Normal rooted elems) (hdots : (".." : GoString) ∉ elems) :
    ∀ e ∈ elems, Ordinary e := by
  obtain ⟨names, k, rfl, hnames⟩ := h
  intro e he
  rcases List.mem_append.mp he with he | he
  · exact hnames e he
  · refine absurd ?_ hdots
    cases rooted with
    | true => exact absurd he List.not_mem_nil
    | false => exact List.eq_of_mem_replicate he ▸ List.mem_append_right _ he

theorem Normal.tail (h : Normal rooted elems) : Normal rooted elems.tail := by
  obtain ⟨names, k, rfl, hnames⟩ := h
  rcases names with _ | ⟨e, names⟩
  · refine ⟨[], k - 1, ?_, hnames⟩
    cases rooted with
    | true => rfl
    | false => exact List.tail_replicate
  · exact ⟨names, k, rfl, fun f hf => hnames f (List.mem_cons_of_mem _ hf)⟩

/-! ## Paths made of elements -/

theorem mem_key (h : e ∈ key p) : slash ∉ e ∧ e ≠ [] := by
  obtain ⟨hsplit, hne⟩ := mem_cleanElems (List.mem_reverse.mp h)
  exact ⟨notMem_of_mem_split hsplit, hne⟩

theorem join_append : ∀ {es fs : List GoString}, es ≠ [] → fs ≠ [] →
    join (es ++ fs) = join es ++ slash :: join fs
  | [e], f :: fs, _, _ => rfl
  | e :: g :: es, fs, _, hfs => by
    have ih := join_append (List.cons_ne_nil g es) hfs
    show e ++ slash :: join ((g :: es) ++ fs) = (e ++ slash :: join (g :: es)) ++ _
    rw [ih, List.append_assoc, List.cons_append]

theorem split_join : ∀ {es : List GoString}, es ≠ [] → (∀ e ∈ es, slash ∉ e) →
    split slash (join es) = es
  | [e], _, h => split_of_notMem (h e List.mem_cons_self)
  | e :: f :: es, _, h => by
    rw [join, split_append (h e List.mem_cons_self),
      split_join (List.cons_ne_nil f es) fun g hg => h g (List.mem_cons_of_mem _ hg)]

theorem cleanStep_nil (rooted : Bool) (elems : List GoString) : cleanStep rooted elems [] = elems :=
  if_pos (.inl rfl)

/-- Joined elements are taken one by one. -/
theorem foldl_split_join (rooted : Bool) (acc : List GoString) {es : List GoString}
    (h : ∀ e ∈ es, slash ∉ e) :
    (split slash (join es)).foldl (cleanStep rooted) acc = es.foldl (cleanStep rooted) acc := by
  by_cases hes : es = []
  · subst hes
    exact cleanStep_nil rooted acc
  · rw [split_join hes h]

/-- The elements of a clean path are taken one by one. -/
theorem foldl_split_clean (rooted : Bool) (acc : List GoString) (p : GoString) :
    (split slash (clean p)).foldl (cleanStep rooted) acc =
      (cleanElems p).foldl (cleanStep rooted) acc := by
  have hmem : ∀ e ∈ cleanElems p, slash ∉ e := fun e he => (mem_key (List.mem_reverse.mpr he)).1
  unfold clean
  split_ifs with hroot hes
  · rw [split, if_pos rfl, List.foldl_cons, cleanStep_nil, foldl_split_join rooted acc hmem]
  · rw [hes]
    rfl
  · exact foldl_split_join rooted acc hmem

theorem head?_join {es : List GoString} (h : ∀ e ∈ es, slash ∉ e ∧ e ≠ []) :
    (join es).head? ≠ some slash := by
  rcases es with _ | ⟨e, es⟩
  · exact nofun
  · obtain ⟨hslash, hne⟩ := h e List.mem_cons_self
    obtain ⟨b, e, rfl⟩ := List.exists_cons_of_ne_nil hne
    have hhead : (join ((b :: e) :: es)).head? = some b := by cases es <;> rfl
    rw [hhead, ne_eq, Option.some.injEq]
    exact fun hb => hslash (hb ▸ List.mem_cons_self)

theorem head?_clean (p : GoString) : (clean p).head? = some slash ↔ p.head? = some slash := by
  unfold clean
  split_ifs with hroot hes
  · exact iff_of_true rfl hroot
  · exact iff_of_false (by decide) hroot
  · exact iff_of_false (head?_join fun e he => mem_key (List.mem_reverse.mpr he)) hroot

theorem key_clean (p : GoString) : key (clean p) = key p := by
  have hfold : key (clean p) =
      (cleanElems p).foldl (cleanStep (p.head? = some slash)) [] := by
    simp only [key, cleanElems, List.reverse_reverse, head?_clean]
    exact foldl_split_clean _ [] p
  rw [hfold, ← List.reverse_reverse (cleanElems p)]
  exact (normal_key p).foldl_reverse

/-- Joining a path without `..` puts its elements behind those of the directory. -/
theorem key_joinClean {d : GoString} (hd : d ≠ []) (hdots : (".." : GoString) ∉ key p) :
    key (joinClean d (clean p)) = key p ++ key d := by
  have hord : ∀ e ∈ cleanElems p, Ordinary e :=
    fun e he => (normal_key p).ordinary hdots e (List.mem_reverse.mpr he)
  have hhead : (d ++ slash :: clean p).head? = d.head? := by
    obtain ⟨b, d, rfl⟩ := List.exists_cons_of_ne_nil hd
    rfl
  rw [joinClean, if_pos hd, key_clean]
  simp only [key, cleanElems, hhead, List.reverse_reverse]
  rw [split_append_cons, List.foldl_append, foldl_split_clean, foldl_ordinary _ _ hord, cleanElems,
    List.reverse_reverse]

/-- A relative path whose clean form does not lead up has no `..` element. -/
theorem dots_notMem_key (hroot : p.head? ≠ some slash) (hup : clean p ≠ "..")
    (hpre : ¬ ("../" : GoString) <+: clean p) : (".." : GoString) ∉ key p := by
  intro hmem
  obtain ⟨names, k, hkey, hnames⟩ := normal_key p
  rw [decide_eq_false hroot] at hkey
  have hk : k ≠ 0 := by
    rintro rfl
    rw [hkey] at hmem
    exact (hnames _ ((List.append_nil names).subst hmem)).ne_dots rfl
  obtain ⟨k, rfl⟩ := Nat.exists_eq_succ_of_ne_zero hk
  -- the path begins with one
  have helems : ∃ rest, cleanElems p = (".." : GoString) :: rest := by
    refine ⟨List.replicate k (".." : GoString) ++ names.reverse, ?_⟩
    rw [← List.reverse_reverse (cleanElems p), ← key, hkey, List.reverse_append]
    exact congrArg (· ++ names.reverse) List.reverse_replicate
  obtain ⟨rest, hrest⟩ := helems
  have hclean : clean p = join (cleanElems p) := by
    rw [clean, if_neg hroot, if_neg (by rw [hrest]; exact List.cons_ne_nil _ _)]
  rw [hclean, hrest] at hup hpre
  cases rest with
  | nil => exact hup rfl
  | cons e es => exact hpre ⟨join (e :: es), rfl⟩

/-! ## The directory of a path -/

/-- The path of elements, from the root or from where it is taken. -/
def ofElems (rooted : Bool) (es : List GoString) : GoString :=
  if rooted then slash :: join es else join es

theorem key_ofElems {es : List GoString} (hn : Normal rooted es.reverse)
    (h : ∀ e ∈ es, slash ∉ e ∧ e ≠ []) : key (ofElems rooted es) = es.reverse := by
  have hslash : ∀ e ∈ es, slash ∉ e := fun e he => (h e he).1
  have hfold : es.foldl (cleanStep rooted) [] = es.reverse := by
    rw [← hn.foldl_reverse, List.reverse_reverse]
  rw [key, cleanElems, List.reverse_reverse, ← hfold]
  cases rooted with
  | true =>
    have hsplit : split slash (slash :: join es) = [] :: split slash (join es) := if_pos rfl
    exact (congrArg (List.foldl (cleanStep true) []) hsplit).trans (foldl_split_join true [] hslash)
  | false =>
    have hhead : decide ((ofElems false es).head? = some slash) = false :=
      decide_eq_false (head?_join h)
    rw [hhead]
    exact foldl_split_join false [] hslash

theorem key_append_slash (s : GoString) : key (s ++ [slash]) = key s := by
  simp only [key, cleanElems, List.reverse_reverse]
  rcases s with _ | ⟨b, s⟩
  · rfl
  · rw [split_append_cons, List.foldl_append]
    exact cleanStep_nil (decide ((b :: s).head? = some slash)) _

theorem upToSlash_append (s : GoString) {e : GoString} (h : slash ∉ e) :
    upToSlash (s ++ slash :: e) = s ++ [slash] := by
  have hall : ∀ b ∈ e.reverse, decide (b ≠ slash) = true := fun b hb =>
    decide_eq_true fun heq => h (heq ▸ List.mem_reverse.mp hb)
  rw [upToSlash, List.reverse_append, List.reverse_cons, List.append_assoc,
    List.dropWhile_append_of_pos hall, List.singleton_append, List.dropWhile_cons_of_neg (by simp),
    List.reverse_cons, List.reverse_reverse]

theorem upToSlash_of_notMem {e : GoString} (h : slash ∉ e) : upToSlash e = [] := by
  rw [upToSlash, List.reverse_eq_nil_iff, List.dropWhile_eq_nil_iff]
  exact fun b hb => decide_eq_true fun heq => h (heq ▸ List.mem_reverse.mp hb)

theorem join_concat : ∀ {init : List GoString} (last : GoString), init ≠ [] →
    join (init ++ [last]) = join init ++ slash :: last
  | [e], last, _ => rfl
  | e :: f :: es, last, _ => by
    have ih := join_concat last (List.cons_ne_nil f es)
    rw [List.cons_append, List.cons_append, join, ← List.cons_append, ih, join, List.append_assoc,
      List.cons_append]

/-- The last element goes, and leaves a slash behind another one. -/
theorem upToSlash_ofElems (rooted : Bool) (init : List GoString) {last : GoString}
    (h : slash ∉ last) : upToSlash (ofElems rooted (init ++ [last])) = ofElems rooted init ∨
      upToSlash (ofElems rooted (init ++ [last])) = ofElems rooted init ++ [slash] := by
  by_cases hinit : init = []
  · subst hinit
    left
    cases rooted with
    | true => exact upToSlash_append [] h
    | false => exact upToSlash_of_notMem h
  · right
    cases rooted with
    | true =>
      simp only [ofElems, if_true, join_concat last hinit]
      exact upToSlash_append (slash :: join init) h
    | false =>
      simp only [ofElems, join_concat last hinit]
      exact upToSlash_append (join init) h

theorem key_dir (p : GoString) : key (dir (clean p)) = (key p).tail := by
  rw [dir, key_clean]
  rcases List.eq_nil_or_concat (cleanElems p) with hes | ⟨init, last, hes⟩
  · have hkey : key p = [] := by rw [key, hes, List.reverse_nil]
    rw [hkey, clean, hes]
    split_ifs <;> rfl
  · rw [List.concat_eq_append] at hes
    have hkey : key p = last :: init.reverse := by
      rw [key, hes, List.reverse_append, List.reverse_singleton, List.singleton_append]
    have hmem : ∀ e ∈ init ++ [last], slash ∉ e ∧ e ≠ [] := fun e he =>
      mem_key (List.mem_reverse.mpr (hes.symm ▸ he))
    have hclean : clean p = ofElems (p.head? = some slash) (init ++ [last]) := by
      have hne : cleanElems p ≠ [] := by
        rw [hes]
        exact List.append_ne_nil_of_right_ne_nil _ (List.cons_ne_nil _ _)
      rw [clean, if_neg hne, hes, ofElems]
      simp only [decide_eq_true_eq]
    have hinit : key (ofElems (p.head? = some slash) init) = init.reverse := by
      refine key_ofElems ?_ fun e he => hmem e (List.mem_append_left _ he)
      have htail := (normal_key p).tail
      rwa [hkey] at htail
    rw [hclean, hkey, List.tail_cons, ← hinit]
    rcases upToSlash_ofElems (p.head? = some slash) init
      (hmem last (List.mem_append_right _ (List.mem_singleton_self _))).1 with h | h
    · rw [h]
    · rw [h, key_append_slash]

/-! ## Paths within a directory -/

/-- What `Rel` gives up on, and what begins with the same two dots. -/
def dots : GoString := ".."

/-- Below a directory, by the elements behind those of the directory. -/
def Within (base targ : GoString) : Prop :=
  ∃ rest, cleanElems targ = cleanElems base ++ rest ∧ dots ∉ rest

/-- The first element is longer than the `..` that it begins with. -/
def Dotted (es : List GoString) : Prop := ∃ e, es.head? = some e ∧ dots <+: e ∧ e ≠ dots

theorem dropCommon_append (t : List GoString) : ∀ es : List GoString, dropCommon es (es ++ t) = ([], t)
  | [] => by cases t <;> rfl
  | e :: es => (if_pos rfl).trans (dropCommon_append t es)

theorem eq_append_of_dropCommon {t : List GoString} : ∀ {es fs : List GoString},
    dropCommon es fs = ([], t) → fs = es ++ t
  | [], fs, h => by
    rw [dropCommon.eq_def] at h
    exact (Prod.mk.inj h).2
  | e :: es, [], h => by cases h
  | e :: es, f :: fs, h => by
    rw [dropCommon] at h
    split_ifs at h with heq
    · rw [heq, eq_append_of_dropCommon h, List.cons_append]
    · cases h

/-- A path that starts up or with two dots shows it in its first element. -/
theorem dots_prefix_join {e : GoString} (es : List GoString) (he : e ≠ ".") :
    dots <+: join (e :: es) ↔ dots <+: e := by
  have hdots : dots = ['.'.toUInt8, '.'.toUInt8] := rfl
  cases es with
  | nil => exact Iff.rfl
  | cons f es =>
    rw [join, hdots, pair_prefix_iff, pair_prefix_iff]
    have hslash : slash ≠ '.'.toUInt8 := by decide
    rcases e with _ | ⟨a, _ | ⟨b, e⟩⟩
    · simp [hslash]
    · have ha : a ≠ '.'.toUInt8 := fun ha => he (by rw [ha]; rfl)
      simp [ha]
    · simp

/-- Ordinary elements behind `..` elements. -/
theorem cleanElems_eq (p : GoString) :
    ∃ k names, cleanElems p = List.replicate k dots ++ names ∧ ∀ e ∈ names, Ordinary e := by
  obtain ⟨names, k, hkey, hnames⟩ := normal_key p
  have helems : cleanElems p = (parents (p.head? = some slash) k).reverse ++ names.reverse := by
    rw [← List.reverse_append, ← hkey, key, List.reverse_reverse]
  have hreverse : ∀ e ∈ names.reverse, Ordinary e := fun e he => hnames e (List.mem_reverse.mp he)
  rw [helems]
  cases decide (p.head? = some slash) with
  | true => exact ⟨0, names.reverse, rfl, hreverse⟩
  | false => exact ⟨k, names.reverse, congrArg (· ++ _) List.reverse_replicate, hreverse⟩

theorem ne_dot_of_mem_cleanElems (h : e ∈ cleanElems p) : e ≠ "." := by
  obtain ⟨k, names, helems, hnames⟩ := cleanElems_eq p
  rw [helems] at h
  rcases List.mem_append.mp h with h | h
  · rw [List.eq_of_mem_replicate h]
    decide
  · exact (hnames e h).ne_dot

/-- A `..` is not behind anything else. -/
theorem head?_of_dots_mem {a rest : List GoString} (h : cleanElems p = a ++ rest)
    (hdots : dots ∈ rest) : rest.head? = some dots := by
  obtain ⟨k, names, helems, hnames⟩ := cleanElems_eq p
  have hnot : dots ∉ names := fun hmem => (hnames dots hmem).ne_dots rfl
  rcases List.append_eq_append_iff.mp (h.symm.trans helems) with ⟨c, hc, rfl⟩ | ⟨c, -, rfl⟩
  · cases c with
    | nil => exact absurd hdots hnot
    | cons d c =>
      have hd : d ∈ List.replicate k dots := hc ▸ List.mem_append_right _ List.mem_cons_self
      exact congrArg some (List.eq_of_mem_replicate hd)
  · exact absurd (List.mem_append_right _ hdots) hnot

theorem before_join {es : List GoString} (h : slash ∉ e) : before slash (join (e :: es)) = e := by
  cases es with
  | nil => exact before_of_notMem h
  | cons f es => exact before_append h _

/-- A relative path leads up by its first element. -/
theorem leadsUp_iff (hroot : p.head? ≠ some slash) :
    clean p = dots ∨ ("../" : GoString) <+: clean p ↔ (cleanElems p).head? = some dots := by
  rcases helems : cleanElems p with _ | ⟨e, es⟩
  · have hclean : clean p = "." := by rw [clean, if_neg hroot, if_pos helems]
    rw [hclean]
    exact iff_of_false (by decide) (Option.some_ne_none dots).symm
  have hclean : clean p = join (e :: es) := by
    rw [clean, if_neg hroot, if_neg (by rw [helems]; exact List.cons_ne_nil _ _), helems]
  have hslash : slash ∉ e :=
    (mem_key (List.mem_reverse.mpr (helems ▸ List.mem_cons_self : e ∈ cleanElems p))).1
  have hfirst : before slash (clean p) = e := by
    rw [hclean, before_join hslash]
  rw [List.head?_cons, Option.some.injEq]
  constructor
  · rintro (hup | ⟨s, hup⟩)
    · rw [← hfirst, hup]
      decide
    · rw [← hfirst, ← hup]
      exact before_append (by decide : slash ∉ dots) s
  · rintro rfl
    rw [hclean]
    cases es with
    | nil => exact .inl rfl
    | cons f es => exact .inr ⟨join (f :: es), rfl⟩

/-- `Rel` starts with two dots unless the target is below the base, under a first element that does
not. -/
theorem dots_prefix_rel_iff (base targ : GoString) :
    dots <+: rel base targ ↔
      ¬ ∃ rest, cleanElems targ = cleanElems base ++ rest ∧ ∀ e, rest.head? = some e → ¬ dots <+: e := by
  rw [rel]
  rcases hdrop : dropCommon (cleanElems base) (cleanElems targ) with ⟨b, t⟩
  cases b with
  | nil =>
    have htarg := eq_append_of_dropCommon hdrop
    have hrest : (∃ rest, cleanElems targ = cleanElems base ++ rest ∧
        ∀ e, rest.head? = some e → ¬ dots <+: e) ↔ ∀ e, t.head? = some e → ¬ dots <+: e := by
      constructor
      · rintro ⟨rest, heq, hhead⟩
        rwa [List.append_cancel_left (htarg.symm.trans heq)]
      · exact fun hhead => ⟨t, htarg, hhead⟩
    rw [hrest]
    cases t with
    | nil =>
      refine iff_of_false (by decide) (not_not.mpr fun e he => ?_)
      cases he
    | cons e es =>
      have he : e ∈ cleanElems targ := htarg ▸ List.mem_append_right _ List.mem_cons_self
      simp only [List.length_nil, List.replicate_zero, List.nil_append, reduceCtorEq, and_false,
        if_false, List.head?_cons, Option.some.injEq, forall_eq', not_not]
      exact dots_prefix_join es (ne_dot_of_mem_cleanElems he)
  | cons f fs =>
    have hnot : ¬ ∃ rest, cleanElems targ = cleanElems base ++ rest ∧
        ∀ e, rest.head? = some e → ¬ dots <+: e := by
      rintro ⟨rest, heq, -⟩
      rw [heq, dropCommon_append] at hdrop
      cases hdrop
    refine iff_of_true ?_ hnot
    simp only [List.length_cons, List.replicate_succ, List.cons_append, reduceCtorEq, false_and,
      if_false]
    exact (dots_prefix_join _ (by decide)).mpr (List.prefix_refl _)

/-- A path that lies within another one is refused only for a first element that merely begins with two
dots. -/
theorem not_dots_prefix_rel_iff (base targ : GoString) :
    ¬ dots <+: rel base targ ↔ ∃ rest, cleanElems targ = cleanElems base ++ rest ∧ dots ∉ rest ∧
      ¬ Dotted rest := by
  rw [dots_prefix_rel_iff, not_not]
  constructor
  · rintro ⟨rest, heq, hhead⟩
    refine ⟨rest, heq, fun hdots => ?_, fun ⟨e, he, hpre, _⟩ => hhead e he hpre⟩
    exact hhead dots (head?_of_dots_mem heq hdots) (List.prefix_refl _)
  · rintro ⟨rest, heq, hdots, hdotted⟩
    refine ⟨rest, heq, fun e he hpre => ?_⟩
    by_cases heq : e = dots
    · exact hdots (heq ▸ List.mem_of_mem_head? he)
    · exact hdotted ⟨e, he, hpre, heq⟩

end Path
