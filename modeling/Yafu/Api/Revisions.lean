import Yafu.Api.Applications

/-!
# Shortened revisions

Reference: `shortRevision` in `internal/api/applications.go`, its uses in `internal/api/sources.go`.

A revision names a hash, by itself, behind its algorithm, or behind a ref and its algorithm. A text
longer than 12 bytes and without a dot is cut behind 7 bytes, which are counted from behind the ref:
the name of an algorithm is among them.
-/

namespace Yafu.Api

/-! ## The forms of a revision -/

/-- Whether a byte is a digit of a hash. -/
def isHexDigit (b : UInt8) : Bool := (GoString.unhex b).isSome

/-- What is in front of the digits. -/
inductive RevisionForm
  | named (ref algo : GoString)
  | digest (algo : GoString)
  | bare
deriving DecidableEq, Repr

/-- The name of the algorithm, where there is one. -/
def RevisionForm.algo : RevisionForm → Option GoString
  | .named _ algo => some algo
  | .digest algo => some algo
  | .bare => none

/-- `<ref>@<algo>:<hex>`, `<algo>:<hex>` or `<hex>`. -/
structure Revision where
  form : RevisionForm
  hex : GoString
  hex_digits : ∀ c ∈ hex, isHexDigit c
  hex_long : 7 ≤ hex.length
  algo_plain : ∀ algo, form.algo = some algo → '@'.toUInt8 ∉ algo ∧ ':'.toUInt8 ∉ algo

namespace Revision

variable (r : Revision)

/-- What is behind the ref. -/
def body : GoString :=
  match r.form.algo with
  | some algo => algo ++ ':'.toUInt8 :: r.hex
  | none => r.hex

/-- The text of a revision. -/
def text : GoString :=
  match r.form with
  | .named ref _ => ref ++ '@'.toUInt8 :: r.body
  | _ => r.body

/-- The digits by which a hash is told apart. -/
def short : GoString := r.hex.take 7

/-- The cut does not fall on an algorithm: there is none, or a dot in its name or the length of the
text prevent the cut, or its name itself begins with the digits. -/
def Clear : Prop :=
  ∀ algo, r.form.algo = some algo →
    '.'.toUInt8 ∈ algo ∨ algo.length + 1 + r.hex.length ≤ 12 ∨ r.short <+: algo

theorem notMem_hex {c : UInt8} (hc : isHexDigit c = false) : c ∉ r.hex := fun hmem => by
  rw [r.hex_digits c hmem] at hc
  cases hc

theorem length_short : r.short.length = 7 := List.length_take_of_le r.hex_long

theorem short_prefix : r.short <+: r.hex := List.take_prefix 7 r.hex

theorem body_of_algo {algo : GoString} (h : r.form.algo = some algo) :
    r.body = algo ++ ':'.toUInt8 :: r.hex := by
  rw [body, h]

theorem body_of_bare (h : r.form.algo = none) : r.body = r.hex := by
  rw [body, h]

theorem at_notMem_body : '@'.toUInt8 ∉ r.body := by
  have hhex : '@'.toUInt8 ∉ r.hex := r.notMem_hex (by decide)
  cases halgo : r.form.algo with
  | none =>
    rw [r.body_of_bare halgo]
    exact hhex
  | some algo =>
    have hcolon : '@'.toUInt8 ≠ ':'.toUInt8 := by decide
    rw [r.body_of_algo halgo, List.mem_append, List.mem_cons, not_or, not_or]
    exact ⟨(r.algo_plain algo halgo).1, hcolon, hhex⟩

theorem body_ne_nil : r.body ≠ [] := by
  have hlong := r.hex_long
  cases halgo : r.form.algo with
  | none =>
    rw [r.body_of_bare halgo, ← List.length_pos_iff]
    omega
  | some algo =>
    rw [r.body_of_algo halgo]
    simp

end Revision

/-! ## What is cut -/

theorem takeWhile_reverse_of_notMem {c : UInt8} {s : GoString} (h : c ∉ s) (t : GoString) :
    ((s.reverse ++ c :: t).takeWhile (· ≠ c)) = s.reverse := by
  rw [List.takeWhile_append_of_pos fun b hb => by
    simpa using fun heq : b = c => h (heq ▸ List.mem_reverse.mp hb)]
  simp

/-- A text without an `@` stays as it is. -/
theorem afterLastAt_of_notMem {s : GoString} (h : '@'.toUInt8 ∉ s) : afterLastAt s = s := by
  have hall : s.reverse.takeWhile (· ≠ '@'.toUInt8) = s.reverse :=
    List.takeWhile_eq_self_iff.mpr fun b hb => by
      simpa using fun heq : b = '@'.toUInt8 => h (heq ▸ List.mem_reverse.mp hb)
  rw [afterLastAt, hall, List.reverse_reverse]
  exact ite_self _

/-- A ref is cut off, whatever is in it. -/
theorem afterLastAt_append (ref : GoString) {s : GoString} (h : '@'.toUInt8 ∉ s) (hs : s ≠ []) :
    afterLastAt (ref ++ '@'.toUInt8 :: s) = s := by
  have htail : (ref ++ '@'.toUInt8 :: s).reverse.takeWhile (· ≠ '@'.toUInt8) = s.reverse := by
    rw [List.reverse_append, List.reverse_cons, List.append_assoc]
    exact takeWhile_reverse_of_notMem h _
  rw [afterLastAt, htail, List.reverse_reverse]
  exact if_neg hs

namespace Revision

variable {r r' : Revision}

theorem afterLastAt_text (r : Revision) : afterLastAt r.text = r.body := by
  rw [text]
  split
  · exact afterLastAt_append _ r.at_notMem_body r.body_ne_nil
  · exact afterLastAt_of_notMem r.at_notMem_body

theorem shortRevision_text (r : Revision) : shortRevision r.text =
    if 12 < r.body.length ∧ '.'.toUInt8 ∉ r.body then r.body.take 7 else r.body := by
  rw [shortRevision, r.afterLastAt_text]

/-- A bare hash keeps its first digits, and has nothing in front of them. -/
theorem shortRevision_bare (h : r.form.algo = none) :
    r.short <+: shortRevision r.text ∧ ':'.toUInt8 ∉ shortRevision r.text := by
  have hcolon : ':'.toUInt8 ∉ r.hex := r.notMem_hex (by decide)
  rw [shortRevision_text, r.body_of_bare h]
  split
  · exact ⟨List.prefix_rfl, fun hmem => hcolon (List.mem_of_mem_take hmem)⟩
  · exact ⟨r.short_prefix, hcolon⟩

/-- Behind an algorithm nothing is cut, or 7 bytes are left. -/
theorem shortRevision_algo {algo : GoString} (h : r.form.algo = some algo) :
    shortRevision r.text =
      if '.'.toUInt8 ∈ algo ∨ algo.length + 1 + r.hex.length ≤ 12 then algo ++ ':'.toUInt8 :: r.hex
      else (algo ++ ':'.toUInt8 :: r.hex).take 7 := by
  have hdot : '.'.toUInt8 ∉ r.hex := r.notMem_hex (by decide)
  have hne : '.'.toUInt8 ≠ ':'.toUInt8 := by decide
  have hmem : '.'.toUInt8 ∈ algo ++ ':'.toUInt8 :: r.hex ↔ '.'.toUInt8 ∈ algo := by
    simp [hdot, hne]
  have hlength : (algo ++ ':'.toUInt8 :: r.hex).length = algo.length + 1 + r.hex.length := by
    rw [List.length_append, List.length_cons]
    omega
  rw [shortRevision_text, r.body_of_algo h]
  by_cases hkeep : '.'.toUInt8 ∈ algo ∨ algo.length + 1 + r.hex.length ≤ 12
  · rw [if_pos hkeep, if_neg]
    rintro ⟨hlong, hnodot⟩
    exact hkeep.elim (fun hdot => hnodot (hmem.mpr hdot)) fun hle => by omega
  · rw [if_neg hkeep, if_pos]
    rw [not_or, not_le] at hkeep
    exact ⟨hlength ▸ hkeep.2, fun hdot => hkeep.1 (hmem.mp hdot)⟩

/-- The cut text is the digits only where the algorithm begins with them. -/
theorem take_body_eq_short {algo : GoString} :
    (algo ++ ':'.toUInt8 :: r.hex).take 7 = r.short ↔ r.short <+: algo := by
  have hcolon : ':'.toUInt8 ∉ r.short := fun hmem =>
    r.notMem_hex (by decide) (List.mem_of_mem_take hmem)
  constructor
  · intro heq
    by_cases hlong : 7 ≤ algo.length
    · rw [← heq, List.take_append_of_le_length hlong]
      exact List.take_prefix 7 algo
    · -- the colon would be among the first bytes
      refine absurd ?_ hcolon
      rw [← heq, List.take_append, show 7 - algo.length = (6 - algo.length) + 1 by omega,
        List.take_succ_cons]
      simp
  · intro hprefix
    have hlong : 7 ≤ algo.length := r.length_short ▸ hprefix.length_le
    rw [List.take_append_of_le_length hlong]
    rw [List.prefix_iff_eq_take, r.length_short] at hprefix
    exact hprefix.symm

/-! ## What is left to tell revisions apart -/

/-- The first digits of the hash are shown. -/
def Shown (r : Revision) : Prop := r.short <:+: shortRevision r.text

theorem shown_iff (r : Revision) : r.Shown ↔ r.Clear := by
  cases halgo : r.form.algo with
  | none =>
    refine iff_of_true (shortRevision_bare halgo).1.isInfix fun algo h => ?_
    rw [halgo] at h
    cases h
  | some algo =>
    have hclear : r.Clear ↔ '.'.toUInt8 ∈ algo ∨ algo.length + 1 + r.hex.length ≤ 12 ∨
        r.short <+: algo := by
      simp only [Clear, halgo, Option.some.injEq, forall_eq']
    rw [hclear, Shown, shortRevision_algo halgo, ← or_assoc]
    split
    · rename_i hkeep
      refine iff_of_true ?_ (.inl hkeep)
      exact r.short_prefix.isInfix.trans ⟨algo ++ [':'.toUInt8], [], by simp⟩
    · rename_i hcut
      rw [or_iff_right hcut, ← take_body_eq_short]
      constructor
      · intro hsub
        refine (hsub.sublist.eq_of_length_le ?_).symm
        rw [r.length_short]
        exact List.length_take_le 7 _
      · exact fun heq => heq ▸ List.infix_rfl

/-- A clear revision is shown with its digits in front and no colon, or whole behind its algorithm.
-/
theorem Clear.cases (h : r.Clear) :
    (r.short <+: shortRevision r.text ∧ ':'.toUInt8 ∉ shortRevision r.text) ∨
      ∃ algo, ':'.toUInt8 ∉ algo ∧ shortRevision r.text = algo ++ ':'.toUInt8 :: r.hex := by
  cases halgo : r.form.algo with
  | none => exact .inl (shortRevision_bare halgo)
  | some algo =>
    rw [shortRevision_algo halgo]
    split
    · exact .inr ⟨algo, (r.algo_plain algo halgo).2, rfl⟩
    · rename_i hcut
      have hprefix := ((or_assoc.mpr (h algo halgo)).resolve_left hcut)
      rw [take_body_eq_short.mpr hprefix]
      exact .inl ⟨List.prefix_rfl, fun hmem =>
        r.notMem_hex (by decide) (List.mem_of_mem_take hmem)⟩

/-- Clear revisions that are shown alike have the same first digits. -/
theorem short_eq_of_shortRevision_eq (h : r.Clear) (h' : r'.Clear)
    (heq : shortRevision r.text = shortRevision r'.text) : r.short = r'.short := by
  rcases h.cases, h'.cases with ⟨⟨hp, hc⟩ | ⟨algo, hc, ht⟩, ⟨hp', hc'⟩ | ⟨algo', hc', ht'⟩⟩
  · rw [← heq] at hp'
    rw [List.prefix_iff_eq_take, length_short] at hp hp'
    rw [hp, hp']
  · rw [heq, ht'] at hc
    exact absurd (by simp) hc
  · rw [← heq, ht] at hc'
    exact absurd (by simp) hc'
  · have hcut := GoString.cut_append hc r.hex
    rw [← ht, heq, ht', GoString.cut_append hc', Option.some.injEq, Prod.mk.injEq] at hcut
    rw [short, short, hcut.2]

/-- Both revisions show the first digits of their hashes, so hashes that differ there are shown
differently. -/
structure Identified (r r' : Revision) : Prop where
  left : r.Shown
  right : r'.Shown
  distinct : r.short ≠ r'.short → shortRevision r.text ≠ shortRevision r'.text

theorem identified_iff (r r' : Revision) : r.Identified r' ↔ r.Clear ∧ r'.Clear := by
  constructor
  · exact fun h => ⟨(shown_iff r).mp h.left, (shown_iff r').mp h.right⟩
  · rintro ⟨h, h'⟩
    exact ⟨(shown_iff r).mpr h, (shown_iff r').mpr h', fun hne heq =>
      hne (short_eq_of_shortRevision_eq h h' heq)⟩

end Revision

/-! ## Semantic versions -/

/-- A letter, a digit or a hyphen. -/
def isIdentifierByte (b : UInt8) : Bool :=
  ('0'.toUInt8 ≤ b && b ≤ '9'.toUInt8) || ('a'.toUInt8 ≤ b && b ≤ 'z'.toUInt8) ||
    ('A'.toUInt8 ≤ b && b ≤ 'Z'.toUInt8) || b = '-'.toUInt8

/-- A number of a version. -/
structure Numeral where
  digits : GoString
  ne_nil : digits ≠ []
  decimal : ∀ c ∈ digits, '0'.toUInt8 ≤ c ∧ c ≤ '9'.toUInt8

/-- One of the identifiers that are joined by dots. -/
structure Identifier where
  bytes : GoString
  ne_nil : bytes ≠ []
  plain : ∀ c ∈ bytes, isIdentifierByte c

/-- A semantic version, with or without a `v` in front. -/
structure SemVer where
  lead : Bool
  major : Numeral
  minor : Numeral
  patch : Numeral
  preRelease : List Identifier
  build : List Identifier

namespace SemVer

/-- Identifiers joined by dots. -/
def dotted : List Identifier → GoString
  | [] => []
  | [i] => i.bytes
  | i :: j :: ids => i.bytes ++ '.'.toUInt8 :: dotted (j :: ids)

/-- Identifiers behind the byte that introduces them. -/
def suffixText (mark : UInt8) (ids : List Identifier) : GoString :=
  if ids = [] then [] else mark :: dotted ids

/-- The text of a version. -/
def text (v : SemVer) : GoString :=
  (if v.lead then "v" else "" : GoString) ++ v.major.digits ++ '.'.toUInt8 :: v.minor.digits ++
    '.'.toUInt8 :: v.patch.digits ++ suffixText '-'.toUInt8 v.preRelease ++
    suffixText '+'.toUInt8 v.build

theorem at_notMem_numeral (n : Numeral) : '@'.toUInt8 ∉ n.digits := fun hmem =>
  absurd (n.decimal _ hmem) (by decide)

theorem at_notMem_identifier (i : Identifier) : '@'.toUInt8 ∉ i.bytes := fun hmem =>
  absurd (i.plain _ hmem) (by decide)

theorem at_notMem_dotted (ids : List Identifier) : '@'.toUInt8 ∉ dotted ids := by
  have hdot : '@'.toUInt8 ≠ '.'.toUInt8 := by decide
  fun_induction dotted ids with
  | case1 => exact List.not_mem_nil
  | case2 i => exact at_notMem_identifier i
  | case3 i j ids ih =>
    rw [List.mem_append, List.mem_cons, not_or, not_or]
    exact ⟨at_notMem_identifier i, hdot, ih⟩

theorem at_notMem_suffixText {mark : UInt8} (h : '@'.toUInt8 ≠ mark) (ids : List Identifier) :
    '@'.toUInt8 ∉ suffixText mark ids := by
  rw [suffixText]
  split
  · exact List.not_mem_nil
  · rw [List.mem_cons, not_or]
    exact ⟨h, at_notMem_dotted ids⟩

theorem at_notMem_text (v : SemVer) : '@'.toUInt8 ∉ v.text := by
  have hdot : '@'.toUInt8 ≠ '.'.toUInt8 := by decide
  have hlead : '@'.toUInt8 ∉ (if v.lead then "v" else "" : GoString) := by
    cases v.lead <;> decide
  have hpre : '@'.toUInt8 ∉ suffixText '-'.toUInt8 v.preRelease :=
    at_notMem_suffixText (by decide) _
  have hbuild : '@'.toUInt8 ∉ suffixText '+'.toUInt8 v.build := at_notMem_suffixText (by decide) _
  simp only [text, List.mem_append, List.mem_cons, not_or, hlead, hpre, hbuild, hdot,
    at_notMem_numeral, not_false_eq_true, and_self]

/-- A semantic version stays as it is. -/
theorem shortRevision_text (v : SemVer) : shortRevision v.text = v.text := by
  have hdot : '.'.toUInt8 ∈ v.text := by simp [text]
  rw [shortRevision, afterLastAt_of_notMem v.at_notMem_text]
  exact if_neg fun hcut => hcut.2 hdot

end SemVer

/-- Two revisions are told apart by their first digits if and only if the cut falls on the algorithm
of neither; semantic versions are shown whole. -/
theorem identified_iff_clear (r r' : Revision) (v : SemVer) :
    (r.Identified r' ↔ r.Clear ∧ r'.Clear) ∧ shortRevision v.text = v.text :=
  ⟨r.identified_iff r', v.shortRevision_text⟩

/-! ### Two commits of a branch -/

/-- A commit of `main`, as source-controller writes it. -/
def mainAt (hex : GoString) (hdigits : hex.all isHexDigit) (hlong : 7 ≤ hex.length) : Revision where
  form := .named "main" "sha1"
  hex := hex
  hex_digits := List.all_eq_true.mp hdigits
  hex_long := hlong
  algo_plain algo h := by
    cases h
    decide

/-- The two commits are different, and both are shown as `sha1:7f`. -/
theorem not_identified_main :
    ∃ r r' : Revision,
      r.text = "main@sha1:7f3c1d9abcdef0123456789abcdef0123456789a" ∧
      r'.text = "main@sha1:7f0000000000000000000000000000000000000b" ∧
      shortRevision r.text = "sha1:7f" ∧ shortRevision r'.text = "sha1:7f" ∧ ¬r.Identified r' := by
  let r := mainAt "7f3c1d9abcdef0123456789abcdef0123456789a" (by decide) (by decide)
  let r' := mainAt "7f0000000000000000000000000000000000000b" (by decide) (by decide)
  have hr : shortRevision r.text = "sha1:7f" := by decide +kernel
  have hr' : shortRevision r'.text = "sha1:7f" := by decide +kernel
  refine ⟨r, r', by decide +kernel, by decide +kernel, hr, hr', fun h => ?_⟩
  exact h.distinct (by decide +kernel) (hr.trans hr'.symm)

end Yafu.Api
