import Yafu.Lib.Lines
import Yafu.Lib.Utf8
import Yafu.Render.Manifest

/-!
# A stream of YAML documents read back

Reference: `internal/render/kustomize.go`, `splitYAMLDocuments` and `splitYAMLStream`.

A stream is written in lines: those of documents, lines that are empty or a comment, and separator
lines. The splitter cuts it in front of the separators and nowhere else, but it takes the line feed
before a separator for a part of it. The document that this line feed belongs to is decoded without
it, which changes the value of a block scalar at its end.
-/

namespace Yafu.Render

open GoString Utf8

/-! ## The lines of a stream -/

/-- A printable character of YAML that ends no line. -/
def IsCommentRune (r : Rune) : Prop :=
  r = 0x09 ∨ 0x20 ≤ r ∧ r ≤ 0x7E ∨ 0xA0 ≤ r ∧ r ≤ 0xD7FF ∧ r ≠ 0x2028 ∧ r ≠ 0x2029 ∨
    0xE000 ≤ r ∧ r ≤ 0xFFFD ∧ r ≠ 0xFEFF ∨ 0x10000 ≤ r ∧ r ≤ 0x10FFFF

/-- A line that is empty or a comment, with or without a carriage return at its end. -/
inductive IsFiller : GoString → Prop
  | empty : IsFiller []
  | comment (text : List Rune) (h : ∀ r ∈ text, IsCommentRune r) :
    IsFiller ('#'.toUInt8 :: text.flatMap encodeRune)
  | cr : IsFiller ['\r'.toUInt8]
  | commentCr (text : List Rune) (h : ∀ r ∈ text, IsCommentRune r) :
    IsFiller ('#'.toUInt8 :: (text.flatMap encodeRune ++ ['\r'.toUInt8]))
  | space {line : GoString} (h : IsFiller line) : IsFiller (' '.toUInt8 :: line)

def Filler : Type := {line : GoString // IsFiller line}

def Filler.texts (ls : List Filler) : List GoString := ls.map Subtype.val

theorem Filler.texts_append (ls ls' : List Filler) : texts ls ++ texts ls' = texts (ls ++ ls') :=
  List.map_append.symm

theorem notMem_encodeRune {r : Rune} (h : IsCommentRune r) : '\n'.toUInt8 ∉ encodeRune r := by
  have hlf : ∀ n : ℕ, n % 256 ≠ 10 → '\n'.toUInt8 ≠ UInt8.ofNat n := by
    intro n hn heq
    rw [← UInt8.toNat_inj, UInt8.toNat_ofNat'] at heq
    exact hn heq.symm
  simp only [IsCommentRune, Rune] at h
  simp only [encodeRune, replacement, Rune]
  split_ifs <;> simp only [List.mem_cons, List.not_mem_nil, or_false, not_or]
  · exact hlf _ (by omega)
  · exact ⟨hlf _ (by omega), hlf _ (by omega)⟩
  · decide
  · exact ⟨hlf _ (by omega), hlf _ (by omega), hlf _ (by omega)⟩
  · exact ⟨hlf _ (by omega), hlf _ (by omega), hlf _ (by omega), hlf _ (by omega)⟩

theorem notMem_of_isFiller {line : GoString} (h : IsFiller line) : '\n'.toUInt8 ∉ line := by
  have htext : ∀ text : List Rune, (∀ r ∈ text, IsCommentRune r) →
      '\n'.toUInt8 ∉ text.flatMap encodeRune := by
    intro text hall hmem
    obtain ⟨r, hr, hlf⟩ := List.mem_flatMap.mp hmem
    exact notMem_encodeRune (hall r hr) hlf
  induction h with
  | empty => exact List.not_mem_nil
  | comment text h => exact List.not_mem_cons_of_ne_of_not_mem (by decide) (htext text h)
  | cr => decide
  | commentCr text h =>
    refine List.not_mem_cons_of_ne_of_not_mem (by decide) ?_
    rw [List.mem_append, not_or]
    exact ⟨htext text h, by decide⟩
  | space h ih => exact List.not_mem_cons_of_ne_of_not_mem (by decide) ih

/-- No such line is a separator. -/
theorem plain_of_isFiller {line : GoString} (h : IsFiller line) :
    Plain '\n'.toUInt8 "---" line := by
  refine ⟨notMem_of_isFiller h, ?_⟩
  rintro ⟨r, rfl⟩
  cases h

theorem Filler.plain_texts (ls : List Filler) : ∀ l ∈ texts ls, Plain '\n'.toUInt8 "---" l := by
  intro l hl
  obtain ⟨f, -, rfl⟩ := List.mem_map.mp hl
  exact plain_of_isFiller f.2

/-- The text of some lines. The line feed of the last one is there if an empty line follows. -/
def text (ls : List GoString) : GoString := joinLines '\n'.toUInt8 ls

/-! ## Documents -/

section Decoder

variable (unmarshal : GoString → Except GoString Object)

/-- What a decoder does with a text that holds no mapping. -/
structure Decoder : Prop where
  filling : ∀ ls : List Filler, unmarshal (text (Filler.texts ls)) = .ok []
  blank : ∀ {b : GoString} {m : Object},
    trimSpace b = [] ∨ trimSpace b = "---" → unmarshal b = .ok m → m = []

/-- A mapping and the lines that it is serialised to, the last of them with its line feed or
without. Of the lines that are empty or a comment, only those in `trails` are so behind the
document: an indented one may belong to a block scalar. -/
structure Document where
  mapping : Object
  lines : List GoString
  endsLine : Bool
  trails : Filler → Bool
  mapping_ne : mapping ≠ []
  plain : ∀ l ∈ lines, Plain '\n'.toUInt8 "---" l
  decoded : ∀ before after : List Filler, (∀ l ∈ after, trails l = true) →
    (endsLine = true → after ≠ []) →
      unmarshal (text (Filler.texts before ++ lines ++ Filler.texts after)) = .ok mapping

/-- What stands between two separators. -/
inductive Part
  | filling (ls : List Filler)
  | document (before : List Filler) (doc : Document unmarshal) (after : List Filler)
    (trailing : ∀ l ∈ after, doc.trails l = true)

end Decoder

variable {unmarshal : GoString → Except GoString Object}

namespace Part

def lines : Part unmarshal → List GoString
  | filling ls => Filler.texts ls
  | document before doc after _ => Filler.texts before ++ doc.lines ++ Filler.texts after

def mappings : Part unmarshal → List Object
  | filling _ => []
  | document _ doc _ _ => [doc.mapping]

/-- The lines of the part, joined, hold the whole serialisation. -/
def Complete : Part unmarshal → Prop
  | filling _ => True
  | document _ doc after _ => doc.endsLine = true → after ≠ []

/-- The serialisation that a separator follows at once is decoded without its last line feed as it
is with it. `before` is what stands on the line of the separator in front. -/
def ReadsCut (before : List Filler) : Part unmarshal → Prop
  | filling _ => True
  | document ls doc after _ => doc.endsLine = true → after = [] →
      unmarshal (text (Filler.texts (before ++ ls) ++ doc.lines)) = .ok doc.mapping

end Part

variable (unmarshal) in
/-- A stream: parts with separator lines between them. What follows `---` on the line of a separator
is empty or a comment. -/
inductive DocumentStream
  | last (p : Part unmarshal) (complete : p.Complete)
  | cons (p : Part unmarshal) (sep : Filler) (s : DocumentStream)

namespace DocumentStream

def lines : DocumentStream unmarshal → List GoString
  | last p _ => p.lines
  | cons p sep s => p.lines ++ (("---" : GoString) ++ sep.1) :: s.lines

def mappings : DocumentStream unmarshal → List Object
  | last p _ => p.mappings
  | cons p _ s => p.mappings ++ s.mappings

/-- What is handed to the decoder, `before` in front of the first part. -/
def texts (before : List Filler) : DocumentStream unmarshal → List GoString
  | last p _ => [text (Filler.texts before ++ p.lines)]
  | cons p sep s => text (Filler.texts before ++ p.lines) :: s.texts [sep]

/-- No document in front of a separator depends on the line feed that the separator takes. -/
def ReadsCut (before : List Filler) : DocumentStream unmarshal → Prop
  | last _ _ => True
  | cons p sep s => p.ReadsCut before ∧ s.ReadsCut [sep]

end DocumentStream
/-! ## The cut -/

theorem Part.plain_lines (p : Part unmarshal) : ∀ l ∈ p.lines, Plain '\n'.toUInt8 "---" l := by
  cases p with
  | filling ls => exact Filler.plain_texts ls
  | document before doc after trailing =>
    exact List.forall_mem_append.mpr
      ⟨List.forall_mem_append.mpr ⟨Filler.plain_texts before, doc.plain⟩, Filler.plain_texts after⟩

namespace DocumentStream

/-- No line feed is part of the rest of a separator. -/
theorem notMem_sep : '\n'.toUInt8 ∉ ("---" : GoString) := by decide

theorem marked_lines_cons (p : Part unmarshal) (sep : Filler) (s : DocumentStream unmarshal) :
    marked '\n'.toUInt8 (cons p sep s).lines = marked '\n'.toUInt8 p.lines ++
      '\n'.toUInt8 :: (("---" : GoString) ++ (sep.1 ++ marked '\n'.toUInt8 s.lines)) := by
  rw [lines, marked_append, marked_cons, List.append_assoc]

/-- From a separator on. -/
theorem splitStr_sep_lines (sep : Filler) (s : DocumentStream unmarshal) :
    splitStr '\n'.toUInt8 "---" (sep.1 ++ marked '\n'.toUInt8 s.lines) = s.texts [sep] := by
  have hjoin : ∀ ls : List GoString,
      sep.1 ++ marked '\n'.toUInt8 ls = text (Filler.texts [sep] ++ ls) := fun ls =>
    (joinLines_cons sep.1 ls).symm
  induction s generalizing sep with
  | last p hp =>
    rw [splitStr_append (notMem_of_isFiller sep.2), lines, texts,
      splitStr_marked_end notMem_sep p.plain_lines, List.modifyHead_cons, hjoin]
  | cons p sep' s ih =>
    rw [splitStr_append (notMem_of_isFiller sep.2), marked_lines_cons, texts,
      splitStr_marked_sep notMem_sep p.plain_lines, List.modifyHead_cons, hjoin,
      ih sep' fun ls => (joinLines_cons sep'.1 ls).symm]

/-- The line feed that the splitter puts in front is taken away again. -/
theorem cutPrefix_marked (ls : List GoString) :
    ((marked '\n'.toUInt8 ls).cutPrefix "\n").getD (marked '\n'.toUInt8 ls) = text ls := by
  cases ls with
  | nil => rfl
  | cons l ls =>
    have hcut : cutPrefix (marked '\n'.toUInt8 (l :: ls)) "\n" = some (text (l :: ls)) :=
      cutPrefix_eq_some_iff.mpr (by rw [text, joinLines_cons]; rfl)
    rw [hcut, Option.getD_some]

theorem splitYAMLStream_of_marked {ls : List GoString} (hne : ls ≠ []) {q : GoString}
    {qs : List GoString} (h : splitStr '\n'.toUInt8 "---" (marked '\n'.toUInt8 ls) = q :: qs) :
    splitYAMLStream (text ls) = (q.cutPrefix "\n").getD q :: qs := by
  have hmarked : '\n'.toUInt8 :: text ls = marked '\n'.toUInt8 ls := by
    obtain ⟨l, ls, rfl⟩ := List.exists_cons_of_ne_nil hne
    rw [text, joinLines_cons, marked_cons]
  rw [splitYAMLStream, hmarked, h]

/-- `splitYAMLStream` cuts a stream at its separators. -/
theorem splitYAMLStream_text (s : DocumentStream unmarshal) :
    splitYAMLStream (text s.lines) = s.texts [] := by
  cases s with
  | last p hp =>
    rw [texts, lines]
    by_cases hne : p.lines = []
    · -- no line at all is the same text as one empty line
      have hempty : Plain '\n'.toUInt8 "---" [] := plain_of_isFiller .empty
      have hcut := splitYAMLStream_of_marked (List.cons_ne_nil [] [])
        (splitStr_marked_end notMem_sep (List.forall_mem_singleton.mpr hempty))
      rw [cutPrefix_marked] at hcut
      rw [hne]
      exact hcut
    · rw [splitYAMLStream_of_marked hne (splitStr_marked_end notMem_sep p.plain_lines),
        cutPrefix_marked]
      rfl
  | cons p sep s =>
    have hne : (cons p sep s).lines ≠ [] := by simp [lines]
    have hsplit : splitStr '\n'.toUInt8 "---" (marked '\n'.toUInt8 (cons p sep s).lines) =
        marked '\n'.toUInt8 p.lines :: s.texts [sep] := by
      rw [marked_lines_cons, splitStr_marked_sep notMem_sep p.plain_lines, splitStr_sep_lines]
    rw [splitYAMLStream_of_marked hne hsplit, cutPrefix_marked]
    rfl

end DocumentStream

/-! ## The documents -/

/-- One text in front: skipped, or a mapping in front of the others. -/
theorem decodeDocuments_cons {d : GoString} {ds : List GoString} {ms : List Object}
    (h : decodeDocuments unmarshal (d :: ds) = .ok ms) :
    decodeDocuments unmarshal ds = .ok ms ∨
      ∃ m ms', unmarshal d = .ok m ∧ decodeDocuments unmarshal ds = .ok ms' ∧ ms = m :: ms' := by
  rw [decodeDocuments] at h
  split at h
  · exact .inl h
  · split at h
    · cases h
    · rename_i m hm
      split at h
      · exact .inl h
      · cases hds : decodeDocuments unmarshal ds with
        | error err => rw [hds] at h; cases h
        | ok ms' =>
          rw [hds] at h
          exact .inr ⟨m, ms', hm, rfl, (Except.ok.inj h).symm⟩

theorem decodeDocuments_of_empty {d : GoString} (h : unmarshal d = .ok []) (ds : List GoString) :
    decodeDocuments unmarshal (d :: ds) = decodeDocuments unmarshal ds := by
  rw [decodeDocuments]
  split
  · rfl
  · rw [h]
    rfl

theorem decodeDocuments_of_mapping (hdec : Decoder unmarshal) {d : GoString} {m : Object}
    (h : unmarshal d = .ok m) (hne : m ≠ []) (ds : List GoString) :
    decodeDocuments unmarshal (d :: ds) = (decodeDocuments unmarshal ds).map (m :: ·) := by
  rw [decodeDocuments, if_neg fun hblank => hne (hdec.blank hblank h), h]
  exact if_neg hne

namespace Part

variable (before : List Filler) (ds : List GoString)

theorem decodeDocuments_filling (hdec : Decoder unmarshal) (ls : List Filler) :
    decodeDocuments unmarshal
      (text (Filler.texts before ++ (filling ls : Part unmarshal).lines) :: ds) =
        decodeDocuments unmarshal ds := by
  rw [lines, Filler.texts_append]
  exact decodeDocuments_of_empty (hdec.filling _) ds

/-- A part that holds the whole serialisation gives what it holds. -/
theorem decodeDocuments_of_complete (hdec : Decoder unmarshal) {p : Part unmarshal}
    (hp : p.Complete) :
    decodeDocuments unmarshal (text (Filler.texts before ++ p.lines) :: ds) =
      (decodeDocuments unmarshal ds).map (p.mappings ++ ·) := by
  cases p with
  | filling ls =>
    rw [decodeDocuments_filling before ds hdec]
    cases decodeDocuments unmarshal ds <;> rfl
  | document ls doc after trailing =>
    have hdoc := doc.decoded (before ++ ls) after trailing hp
    rw [← Filler.texts_append, List.append_assoc, List.append_assoc,
      ← List.append_assoc _ doc.lines] at hdoc
    exact decodeDocuments_of_mapping hdec hdoc doc.mapping_ne ds

/-- A part gives no more than it holds. -/
theorem length_le_of_decodeDocuments (hdec : Decoder unmarshal) {p : Part unmarshal}
    {ms : List Object}
    (h : decodeDocuments unmarshal (text (Filler.texts before ++ p.lines) :: ds) = .ok ms) :
    ∃ ms', decodeDocuments unmarshal ds = .ok ms' ∧
      ms.length ≤ p.mappings.length + ms'.length := by
  cases p with
  | filling ls =>
    rw [decodeDocuments_filling before ds hdec] at h
    exact ⟨ms, h, Nat.le_add_left _ _⟩
  | document ls doc after trailing =>
    rcases decodeDocuments_cons h with hskip | ⟨m, ms', -, hds, rfl⟩
    · exact ⟨ms, hskip, Nat.le_add_left _ _⟩
    · exact ⟨ms', hds, by rw [mappings, List.length_cons, List.length_singleton, Nat.add_comm]⟩

/-- In front of texts that give no more than `ns`, a part is read back if it survives the cut. -/
theorem decodeDocuments_eq_iff (hdec : Decoder unmarshal) {p : Part unmarshal} {ns : List Object}
    (hlen : ∀ ms, decodeDocuments unmarshal ds = .ok ms → ms.length ≤ ns.length) :
    decodeDocuments unmarshal (text (Filler.texts before ++ p.lines) :: ds) =
      .ok (p.mappings ++ ns) ↔ p.ReadsCut before ∧ decodeDocuments unmarshal ds = .ok ns := by
  by_cases hp : p.Complete
  · have hreads : p.ReadsCut before := by
      cases p with
      | filling ls => trivial
      | document ls doc after trailing => exact fun hends hafter => absurd hafter (hp hends)
    rw [decodeDocuments_of_complete before ds hdec hp, and_iff_right hreads]
    cases decodeDocuments unmarshal ds with
    | error err => simp [Except.map]
    | ok ms => simp [Except.map]
  · cases p with
    | filling ls => exact absurd trivial hp
    | document ls doc after trailing =>
      -- the serialisation ends with a line feed, and nothing comes behind it
      simp only [Complete, not_forall, not_not] at hp
      obtain ⟨hends, rfl⟩ := hp
      have hlines : Filler.texts before ++ (document ls doc [] trailing : Part unmarshal).lines =
          Filler.texts (before ++ ls) ++ doc.lines := by
        have hnil : Filler.texts [] = [] := rfl
        rw [lines, hnil, List.append_nil, ← List.append_assoc, Filler.texts_append]
      rw [hlines, mappings, List.singleton_append]
      constructor
      · intro h
        rcases decodeDocuments_cons h with hskip | ⟨m, ms', hm, hds, heq⟩
        · have := hlen _ hskip
          rw [List.length_cons] at this
          omega
        · obtain ⟨rfl, rfl⟩ := List.cons.inj heq
          exact ⟨fun _ _ => hm, hds⟩
      · rintro ⟨hreads, hds⟩
        rw [decodeDocuments_of_mapping hdec (hreads hends rfl) doc.mapping_ne, hds]
        rfl

end Part

namespace DocumentStream

theorem decodeDocuments_last (hdec : Decoder unmarshal) (before : List Filler)
    {p : Part unmarshal} (hp : p.Complete) :
    decodeDocuments unmarshal ((last p hp).texts before) = .ok p.mappings := by
  rw [texts, Part.decodeDocuments_of_complete before [] hdec hp]
  exact congrArg Except.ok (List.append_nil _)

theorem length_le_of_decodeDocuments (hdec : Decoder unmarshal) {s : DocumentStream unmarshal} :
    ∀ {before : List Filler} {ms : List Object},
      decodeDocuments unmarshal (s.texts before) = .ok ms → ms.length ≤ s.mappings.length := by
  induction s with
  | last p hp =>
    intro before ms h
    rw [decodeDocuments_last hdec before hp, Except.ok.injEq] at h
    rw [← h, mappings]
  | cons p sep s ih =>
    intro before ms h
    obtain ⟨ms', hms', hlen⟩ := Part.length_le_of_decodeDocuments before _ hdec h
    have hrest := ih hms'
    rw [mappings, List.length_append]
    omega

theorem decodeDocuments_texts_iff (hdec : Decoder unmarshal) (s : DocumentStream unmarshal) :
    ∀ before : List Filler,
      decodeDocuments unmarshal (s.texts before) = .ok s.mappings ↔ s.ReadsCut before := by
  induction s with
  | last p hp => exact fun before => iff_of_true (decodeDocuments_last hdec before hp) trivial
  | cons p sep s ih =>
    intro before
    rw [texts, mappings, ReadsCut, ← ih [sep]]
    exact Part.decodeDocuments_eq_iff before _ hdec fun ms hms =>
      length_le_of_decodeDocuments hdec hms

end DocumentStream

/-! ## A block scalar in front of a separator -/

namespace Sample

/-- A line that starts, behind its spaces, a comment or ends there. -/
def isDropped (line : GoString) : Bool :=
  match line.dropWhile (· = ' '.toUInt8) with
  | [] => true
  | c :: _ => c = '#'.toUInt8 || c = '\r'.toUInt8

def webLines : List GoString := ["name: web"]

def motdLines : List GoString := ["motd: |", "  hi"]

/-- A decoder of two mappings, the value of one of them a block scalar. -/
def sampleUnmarshal (b : GoString) : Except GoString Object :=
  let lines := b.splitOn '\n'.toUInt8
  let content := lines.filter (!isDropped ·)
  if content = [] then .ok []
  else if content = webLines then .ok [("name", .str "web")]
  else if content = motdLines then
    .ok [("motd", .str (if lines.getLast? = motdLines.getLast? then "hi" else "hi\n"))]
  else .error "did not find expected key"

theorem isDropped_of_isFiller {line : GoString} (h : IsFiller line) : isDropped line = true := by
  induction h with
  | empty => rfl
  | comment text h => rfl
  | cr => rfl
  | commentCr text h => rfl
  | space h ih => exact ih

theorem filter_texts (ls : List Filler) : (Filler.texts ls).filter (!isDropped ·) = [] := by
  rw [List.filter_eq_nil_iff]
  intro l hl
  obtain ⟨f, -, rfl⟩ := List.mem_map.mp hl
  rw [isDropped_of_isFiller f.2]
  decide

theorem splitOn_text {ls : List GoString} (hne : ls ≠ []) (hls : ∀ l ∈ ls, '\n'.toUInt8 ∉ l) :
    (text ls).splitOn '\n'.toUInt8 = ls :=
  List.splitOn_intercalate _ hls hne

theorem decoder : Decoder sampleUnmarshal where
  filling ls := by
    have hcontent : ((text (Filler.texts ls)).splitOn '\n'.toUInt8).filter (!isDropped ·) = [] := by
      by_cases hne : Filler.texts ls = []
      · rw [hne]
        rfl
      · rw [splitOn_text hne fun l hl => (Filler.plain_texts ls l hl).1, filter_texts]
    simp only [sampleUnmarshal, hcontent, if_true]
  blank := by
    intro b m hblank hm
    by_contra hne
    have hmem : 'm'.toUInt8 ∈ b := by
      have hcontent : ∃ l ∈ (b.splitOn '\n'.toUInt8).filter (!isDropped ·), 'm'.toUInt8 ∈ l := by
        simp only [sampleUnmarshal] at hm
        split at hm
        · exact absurd (Except.ok.inj hm).symm hne
        · split at hm
          · rename_i hweb
            rw [hweb]
            decide
          · split at hm
            · rename_i hmotd
              rw [hmotd]
              decide
            · cases hm
      obtain ⟨l, hl, hml⟩ := hcontent
      have hjoin : joinLines '\n'.toUInt8 (b.splitOn '\n'.toUInt8) = b := List.intercalate_splitOn _
      rw [← hjoin]
      exact mem_joinLines (List.mem_of_mem_filter hl) hml
    have htrim := mem_trimSpace (by decide) hmem
    rcases hblank with h | h
    · rw [h] at htrim
      cases htrim
    · rw [h] at htrim
      exact absurd htrim (by decide)

section Lines

variable (before after : List Filler)

/-- The lines of a text that is one document. -/
theorem splitOn_document {ls : List GoString} (hne : ls ≠ []) (hls : ∀ l ∈ ls, '\n'.toUInt8 ∉ l) :
    (text (Filler.texts before ++ ls ++ Filler.texts after)).splitOn '\n'.toUInt8 =
      Filler.texts before ++ ls ++ Filler.texts after := by
  refine splitOn_text (by simp [hne]) ?_
  exact List.forall_mem_append.mpr ⟨List.forall_mem_append.mpr
    ⟨fun l hl => (Filler.plain_texts before l hl).1, hls⟩,
    fun l hl => (Filler.plain_texts after l hl).1⟩

theorem filter_document {ls : List GoString} (hls : ∀ l ∈ ls, isDropped l = false) :
    (Filler.texts before ++ ls ++ Filler.texts after).filter (!isDropped ·) = ls := by
  rw [List.filter_append, List.filter_append, filter_texts, filter_texts, List.nil_append,
    List.append_nil]
  exact List.filter_eq_self.mpr fun l hl => by rw [hls l hl]; rfl

theorem unmarshal_web :
    sampleUnmarshal (text (Filler.texts before ++ webLines ++ Filler.texts after)) =
      .ok [("name", .str "web")] := by
  simp only [sampleUnmarshal]
  rw [splitOn_document before after (by decide) (by decide),
    filter_document before after (by decide)]
  rfl

theorem unmarshal_motd (h : after ≠ []) :
    sampleUnmarshal (text (Filler.texts before ++ motdLines ++ Filler.texts after)) =
      .ok [("motd", .str "hi\n")] := by
  have hlast : (Filler.texts before ++ motdLines ++ Filler.texts after).getLast? ≠
      motdLines.getLast? := by
    obtain ⟨ls, f, rfl⟩ := (List.eq_nil_or_concat' after).resolve_left h
    rw [← Filler.texts_append, ← List.append_assoc]
    have hf : (Filler.texts [f]).getLast? = some f.1 := rfl
    rw [List.getLast?_append, hf, Option.some_or]
    intro heq
    have hkept : isDropped f.1 = false := by
      rw [Option.some.inj heq]
      rfl
    rw [isDropped_of_isFiller f.2] at hkept
    cases hkept
  simp only [sampleUnmarshal]
  rw [splitOn_document before after (by decide) (by decide),
    filter_document before after (by decide), if_neg hlast]
  rfl

end Lines

def lineEnd : Filler := ⟨[], .empty⟩

def webDocument : Document sampleUnmarshal where
  mapping := [("name", .str "web")]
  lines := webLines
  endsLine := true
  trails _ := true
  mapping_ne := by decide
  plain := by unfold Plain; decide
  decoded before after _ _ := unmarshal_web before after

theorem trails_web (l : Filler) : webDocument.trails l = true := rfl

def motdDocument : Document sampleUnmarshal where
  mapping := [("motd", .str "hi\n")]
  lines := motdLines
  endsLine := true
  trails _ := true
  mapping_ne := by decide
  plain := by unfold Plain; decide
  decoded before after _ hends := unmarshal_motd before after (hends rfl)

theorem isCommentRune_web : ∀ r ∈ ([0x20, 0x77, 0x65, 0x62] : List Rune), IsCommentRune r := by
  unfold IsCommentRune
  decide

def webComment : Filler := ⟨"# web", .comment _ isCommentRune_web⟩

def webCommentCr : Filler := ⟨" # web\r", .space (.commentCr _ isCommentRune_web)⟩

/-- A comment in front of the first separator, a document behind it and one more separator. -/
def webStream : DocumentStream sampleUnmarshal :=
  .cons (.filling [webComment]) webCommentCr
    (.cons (.document [] webDocument [] (by simp)) lineEnd
      (.last (.filling [lineEnd]) trivial))

def webPart : Part sampleUnmarshal := .document [] webDocument [lineEnd] fun l _ => trails_web l

theorem webPart_complete : webPart.Complete := fun _ => List.cons_ne_nil _ _

/-- A document that ends with a block scalar, a separator at once behind it and a document. -/
def motdStream : DocumentStream sampleUnmarshal :=
  .cons (.document [] motdDocument [] (by simp)) lineEnd (.last webPart webPart_complete)

end Sample

/-! ## The round trip -/

namespace DocumentStream

/-- A stream is read back document by document if each document that a separator follows at once is
decoded without its last line feed as it is with it. -/
theorem splitYAMLDocuments_lossless_iff (hdec : Decoder unmarshal) (s : DocumentStream unmarshal) :
    splitYAMLDocuments unmarshal (text s.lines) = .ok s.mappings ↔ s.ReadsCut [] := by
  rw [splitYAMLDocuments, splitYAMLStream_text]
  exact decodeDocuments_texts_iff hdec s []

open Sample

theorem splitYAMLDocuments_lossless_web :
    text webStream.lines = "# web\n--- # web\r\nname: web\n---\n" ∧
      splitYAMLDocuments sampleUnmarshal (text webStream.lines) = .ok [[("name", .str "web")]] := by
  refine ⟨by decide, (splitYAMLDocuments_lossless_iff Sample.decoder webStream).mpr ?_⟩
  refine ⟨trivial, fun _ _ => ?_, trivial⟩
  exact unmarshal_web [webCommentCr] []

/-- The line feed at the end of the block scalar is lost with the separator. -/
theorem not_splitYAMLDocuments_lossless_motd :
    Decoder sampleUnmarshal ∧ text motdStream.lines = "motd: |\n  hi\n---\nname: web\n" ∧
      splitYAMLDocuments sampleUnmarshal (text motdStream.lines) =
        .ok [[("motd", .str "hi")], [("name", .str "web")]] ∧
      splitYAMLDocuments sampleUnmarshal (text motdStream.lines) ≠ .ok motdStream.mappings := by
  have hread : splitYAMLDocuments sampleUnmarshal (text motdStream.lines) =
      .ok [[("motd", .str "hi")], [("name", .str "web")]] := by
    have hcut : sampleUnmarshal (text motdLines) = .ok [("motd", .str "hi")] := rfl
    have hrest := decodeDocuments_last decoder [lineEnd] webPart_complete
    rw [splitYAMLDocuments, splitYAMLStream_text]
    refine (decodeDocuments_of_mapping decoder hcut (by decide) _).trans ?_
    rw [hrest]
    rfl
  refine ⟨decoder, by decide, hread, ?_⟩
  rw [hread]
  intro heq
  have hvalue := (List.cons.inj (Except.ok.inj heq)).1
  have htext : ("hi" : GoString) = "hi\n" := by
    injection hvalue with h
    injection h with _ h
    exact Json.str.inj h
  exact absurd htext (by decide)

end DocumentStream

end Yafu.Render
