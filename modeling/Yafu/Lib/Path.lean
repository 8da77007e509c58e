import Yafu.Lib.Utf8

/-!
# Lexical paths

`path.Clean`: the shortest path that names the same file by its text alone. It works element by
element, so that it commutes with coercion to valid UTF-8 (`clean_coerce`).
-/

namespace Path

open GoString Utf8

def slash : UInt8 := '/'.toUInt8

/-- The elements of a path so far, the last one first, and the next one. `..` takes one back, where
there is one that is not itself a `..`. -/
def cleanStep (rooted : Bool) (elems : List GoString) (elem : GoString) : List GoString :=
  if elem = [] ∨ elem = "." then elems
  else if elem = ".." then
    match elems with
    | [] => if rooted then [] else [elem]
    | e :: es => if e = ".." then elem :: e :: es else es
  else elem :: elems

/-- The elements that `Clean` keeps. -/
def cleanElems (p : GoString) : List GoString :=
  ((split slash p).foldl (cleanStep (p.head? = some slash)) []).reverse

/-- `strings.Join` with slashes. -/
def join : List GoString → GoString
  | [] => []
  | [e] => e
  | e :: f :: es => e ++ slash :: join (f :: es)

/-- `path.Clean`. -/
def clean (p : GoString) : GoString :=
  if p.head? = some slash then slash :: join (cleanElems p)
  else if cleanElems p = [] then "."
  else join (cleanElems p)

/-- `Clean` that keeps a slash at the end. -/
def cleanTrailing (p : GoString) : GoString :=
  if p.getLast? = some slash ∧ (clean p).getLast? ≠ some slash then clean p ++ [slash] else clean p

/-- `filepath.Join` of two paths. -/
def joinClean (a b : GoString) : GoString :=
  if a ≠ [] then clean (a ++ slash :: b) else if b ≠ [] then clean b else []

/-- What is left of two lists behind what they begin with alike. -/
def dropCommon : List GoString → List GoString → List GoString × List GoString
  | e :: es, f :: fs => if e = f then dropCommon es fs else (e :: es, f :: fs)
  | es, fs => (es, fs)

/-- `filepath.Rel` of two paths from the root. -/
def rel (base targ : GoString) : GoString :=
  let (b, t) := dropCommon (cleanElems base) (cleanElems targ)
  if b = [] ∧ t = [] then "." else join (List.replicate b.length (".." : GoString) ++ t)

/-! ## Elements -/

theorem notMem_of_mem_split {e : GoString} : ∀ {s : GoString}, e ∈ split slash s → slash ∉ e
  | [], h => by
    rw [split, List.mem_singleton] at h
    simp [h]
  | b :: s, h => by
    rw [split] at h
    split_ifs at h with hb
    · rcases List.mem_cons.mp h with rfl | h
      · exact List.not_mem_nil
      · exact notMem_of_mem_split h
    · have ih : ∀ f ∈ split slash s, slash ∉ f := fun f hf => notMem_of_mem_split hf
      split at h
      · rw [List.mem_singleton] at h
        rw [h, List.mem_singleton]
        exact fun heq => hb heq.symm
      · rename_i f fs heq
        rw [heq] at ih
        rcases List.mem_cons.mp h with rfl | h
        · rw [List.mem_cons, not_or]
          exact ⟨fun heq => hb heq.symm, ih f List.mem_cons_self⟩
        · exact ih e (List.mem_cons_of_mem _ h)

/-- An element is kept, dropped or takes one back: nothing new comes up. -/
theorem mem_cleanStep {rooted : Bool} {elems : List GoString} {elem e : GoString}
    (h : e ∈ cleanStep rooted elems elem) : e ∈ elems ∨ (e = elem ∧ elem ≠ []) := by
  unfold cleanStep at h
  by_cases hempty : elem = [] ∨ elem = "."
  · rw [if_pos hempty] at h
    exact .inl h
  have hne : elem ≠ [] := fun heq => hempty (.inl heq)
  have hcons : ∀ {es : List GoString}, e ∈ elem :: es → e ∈ es ∨ (e = elem ∧ elem ≠ []) :=
    fun he => (List.mem_cons.mp he).symm.imp_right fun heq => ⟨heq, hne⟩
  rw [if_neg hempty] at h
  by_cases hdots : elem = ".."
  · rw [if_pos hdots] at h
    rcases elems with _ | ⟨f, es⟩
    · cases rooted
      · exact hcons h
      · exact absurd h List.not_mem_nil
    · simp only at h
      split_ifs at h
      · exact hcons h
      · exact .inl (List.mem_cons_of_mem _ h)
  · rw [if_neg hdots] at h
    exact hcons h

theorem mem_foldl_cleanStep {rooted : Bool} {e : GoString} : ∀ {l acc : List GoString},
    e ∈ l.foldl (cleanStep rooted) acc → e ∈ acc ∨ (e ∈ l ∧ e ≠ [])
  | [], _, h => .inl h
  | f :: l, acc, h => by
    rcases mem_foldl_cleanStep (l := l) h with h | ⟨h, hne⟩
    · rcases mem_cleanStep h with h | ⟨rfl, hne⟩
      · exact .inl h
      · exact .inr ⟨List.mem_cons_self, hne⟩
    · exact .inr ⟨List.mem_cons_of_mem _ h, hne⟩

theorem mem_cleanElems {p e : GoString} (h : e ∈ cleanElems p) : e ∈ split slash p ∧ e ≠ [] := by
  rw [cleanElems, List.mem_reverse] at h
  exact (mem_foldl_cleanStep h).resolve_left List.not_mem_nil

theorem mem_of_mem_split {e : GoString} {b : UInt8} : ∀ {s : GoString}, e ∈ split slash s → b ∈ e → b ∈ s
  | [], h, hb => by
    rw [split, List.mem_singleton] at h
    exact h ▸ hb
  | c :: s, h, hb => by
    rw [split] at h
    split_ifs at h with hc
    · rcases List.mem_cons.mp h with rfl | h
      · exact absurd hb List.not_mem_nil
      · exact List.mem_cons_of_mem _ (mem_of_mem_split h hb)
    · have ih : ∀ f ∈ split slash s, b ∈ f → b ∈ s := fun f hf hbf => mem_of_mem_split hf hbf
      split at h
      · rw [List.mem_singleton.mp h, List.mem_singleton] at hb
        exact hb ▸ List.mem_cons_self
      · rename_i f fs heq
        rw [heq] at ih
        rcases List.mem_cons.mp h with rfl | h
        · rcases List.mem_cons.mp hb with rfl | hb
          · exact List.mem_cons_self
          · exact List.mem_cons_of_mem _ (ih f List.mem_cons_self hb)
        · exact List.mem_cons_of_mem _ (ih e (List.mem_cons_of_mem _ h) hb)

theorem mem_join {b : UInt8} : ∀ {es : List GoString}, b ∈ join es → b = slash ∨ ∃ e ∈ es, b ∈ e
  | [e], h => .inr ⟨e, List.mem_singleton_self e, h⟩
  | e :: f :: es, h => by
    rw [join, List.mem_append, List.mem_cons] at h
    rcases h with h | h | h
    · exact .inr ⟨e, List.mem_cons_self, h⟩
    · exact .inl h
    · exact (mem_join h).imp_right fun ⟨g, hg, hb⟩ => ⟨g, List.mem_cons_of_mem _ hg, hb⟩

/-- Cleaning an absolute path adds slashes at most. -/
theorem mem_cleanTrailing {p : GoString} (h : p.head? = some slash) {b : UInt8}
    (hb : b ∈ cleanTrailing p) : b ∈ p ∨ b = slash := by
  have hclean : b ∈ clean p → b ∈ p ∨ b = slash := by
    rw [clean, if_pos h, List.mem_cons]
    rintro (rfl | hb)
    · exact .inr rfl
    · rcases mem_join hb with rfl | ⟨e, he, hbe⟩
      · exact .inr rfl
      · exact .inl (mem_of_mem_split (mem_cleanElems he).1 hbe)
  rw [cleanTrailing] at hb
  split_ifs at hb
  · rcases List.mem_append.mp hb with hb | hb
    · exact hclean hb
    · exact .inr (List.mem_singleton.mp hb)
  · exact hclean hb

/-- A cleaned absolute path starts with one slash. -/
theorem cleanTrailing_of_slash {p : GoString} (h : p.head? = some slash) :
    ∃ s, cleanTrailing p = slash :: s ∧ s.head? ≠ some slash := by
  have hjoin : (join (cleanElems p)).head? ≠ some slash := by
    rcases hel : cleanElems p with _ | ⟨e, es⟩
    · simp [join]
    obtain ⟨hmem, hne⟩ := mem_cleanElems (hel ▸ List.mem_cons_self : e ∈ cleanElems p)
    have hslash := notMem_of_mem_split hmem
    obtain ⟨b, e, rfl⟩ := List.exists_cons_of_ne_nil hne
    rw [List.mem_cons, not_or] at hslash
    rcases es with _ | ⟨f, es⟩ <;>
      simp only [join, List.cons_append, List.head?_cons, ne_eq, Option.some.injEq] <;>
      exact fun heq => hslash.1 heq.symm
  have hclean : clean p = slash :: join (cleanElems p) := by rw [clean, if_pos h]
  rw [cleanTrailing, hclean]
  split_ifs with hlast
  · refine ⟨join (cleanElems p) ++ [slash], rfl, ?_⟩
    rcases hj : join (cleanElems p) with _ | ⟨b, s⟩
    · rw [hj] at hlast
      exact absurd rfl hlast.2
    · rw [hj] at hjoin
      exact hjoin
  · exact ⟨_, rfl, hjoin⟩

/-! ## Coercion to valid UTF-8 -/

/-- One ordinary element below the root is clean. -/
theorem clean_slash_cons {s : GoString} (h : slash ∉ s) (hempty : s ≠ []) (hdot : s ≠ ".")
    (hdots : s ≠ "..") : clean (slash :: s) = slash :: s := by
  have hsplit : split slash (slash :: s) = [[], s] := by
    rw [split, if_pos rfl, split_of_notMem h]
  have hfirst : ∀ rooted, cleanStep rooted [] [] = [] := fun rooted => if_pos (.inl rfl)
  have hsecond : ∀ rooted, cleanStep rooted [] s = [s] := by
    intro rooted
    rw [cleanStep, if_neg (by rw [not_or]; exact ⟨hempty, hdot⟩), if_neg hdots]
  rw [clean, cleanElems, hsplit, List.foldl_cons, List.foldl_cons, List.foldl_nil, hfirst, hsecond]
  rfl

theorem slash_ascii : slash < 0x80 := by decide

theorem split_coerce (s : GoString) : split slash (coerce s) = (split slash s).map coerce := by
  by_cases h : slash ∈ s
  · obtain ⟨a, b, rfl, ha⟩ := List.eq_append_cons_of_mem h
    rw [coerce_append slash_ascii, split_append ((mem_coerce_ascii slash_ascii).not.mpr ha),
      split_append ha, split_coerce b, List.map_cons]
  · rw [split_of_notMem h, split_of_notMem ((mem_coerce_ascii slash_ascii).not.mpr h),
      List.map_singleton]
termination_by s.length
decreasing_by
  subst_vars
  rw [List.length_append, List.length_cons]
  exact Nat.lt_of_lt_of_le (Nat.lt_succ_self _) (Nat.le_add_left _ _)

/-- One element at a time, coercing first or last makes no difference. -/
theorem cleanStep_coerce (rooted : Bool) (elems : List GoString) (elem : GoString) :
    cleanStep rooted (elems.map coerce) (coerce elem) = (cleanStep rooted elems elem).map coerce := by
  have hnil : coerce elem = [] ↔ elem = [] := coerce_eq_iff_of_ascii (by simp) elem
  have hdot : coerce elem = "." ↔ elem = "." := coerce_eq_iff_of_ascii (by decide +kernel) elem
  have hdots : ∀ e, coerce e = ".." ↔ e = ".." :=
    coerce_eq_iff_of_ascii (by decide +kernel)
  by_cases hempty : elem = [] ∨ elem = "."
  · simp only [cleanStep, hnil, hdot, if_pos hempty]
  by_cases hparent : elem = ".."
  · simp only [cleanStep, hnil, hdot, if_neg hempty, hdots, if_pos hparent]
    rcases elems with _ | ⟨e, es⟩
    · cases rooted <;> rfl
    · simp only [List.map_cons, hdots]
      split_ifs <;> rfl
  · simp only [cleanStep, hnil, hdot, if_neg hempty, hdots, if_neg hparent, List.map_cons]

theorem join_coerce : ∀ es : List GoString, join (es.map coerce) = coerce (join es)
  | [] => by rw [join, coerce]; rfl
  | [e] => rfl
  | e :: f :: es => by
    have ih := join_coerce (f :: es)
    rw [List.map_cons] at ih
    rw [List.map_cons, List.map_cons, join, join, coerce_append slash_ascii, ih]

/-- Cleaning an absolute path and coercing it commute. -/
theorem clean_coerce {p : GoString} (h : p.head? = some slash) : clean (coerce p) = coerce (clean p) := by
  have hfold : ∀ (l acc : List GoString), (l.map coerce).foldl (cleanStep true) (acc.map coerce) =
      (l.foldl (cleanStep true) acc).map coerce := by
    intro l
    induction l with
    | nil => exact fun _ => rfl
    | cons e l ih =>
      intro acc
      rw [List.map_cons, List.foldl_cons, List.foldl_cons, cleanStep_coerce, ih]
  have hhead := (head?_coerce slash_ascii p).mpr h
  rw [clean, clean, if_pos h, if_pos hhead, coerce_ascii slash_ascii, ← join_coerce]
  have hel : cleanElems (coerce p) = (cleanElems p).map coerce := by
    simp only [cleanElems, h, hhead, decide_true]
    rw [split_coerce, ← List.map_nil (f := coerce), hfold, List.map_reverse, List.map_nil]
  rw [hel]

theorem cleanTrailing_coerce {p : GoString} (h : p.head? = some slash) :
    cleanTrailing (coerce p) = coerce (cleanTrailing p) := by
  have hlast := getLast?_coerce slash_ascii p
  have hlast' := (getLast?_coerce slash_ascii (clean p)).not
  rw [cleanTrailing, cleanTrailing, clean_coerce h]
  by_cases hc : p.getLast? = some slash ∧ (clean p).getLast? ≠ some slash
  · rw [if_pos hc, if_pos ⟨hlast.mpr hc.1, hlast'.mpr hc.2⟩, coerce_append slash_ascii, coerce]
  · rw [if_neg hc, if_neg fun h => hc ⟨hlast.mp h.1, hlast'.mp h.2⟩]

end Path
