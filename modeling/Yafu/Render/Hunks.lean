import Yafu.Render.Diff

/-!
# Hunks

Reference: `computeHunks` in `internal/render/diff.go`.

The op codes of a `difflib` matcher go over both sides from the first line to the last (`Tiles`), each
from where the one before it has stopped. So the lines of a hunk are all lines of the desired side and
all of the live side, in order and with their numbers (`reconstructs_computeHunks`).
-/

namespace Yafu.Render

variable {dlines llines : List GoString}

/-! ## Op codes -/

/-- What an op code says about the lines from `i1` to `i2` and from `j1` to `j2`. -/
structure OpCode.Fits (op : OpCode) (dlines llines : List GoString) : Prop where
  desired : op.i1 ≤ op.i2 ∧ op.i2 ≤ dlines.length
  live : op.j1 ≤ op.j2 ∧ op.j2 ≤ llines.length
  tag : (op.tag = 'e'.toUInt8 ∧ op.i2 - op.i1 = op.j2 - op.j1 ∧
        ∀ k < op.i2 - op.i1, dlines[op.i1 + k]? = llines[op.j1 + k]?) ∨
      (op.tag = 'd'.toUInt8 ∧ op.j1 = op.j2) ∨ (op.tag = 'i'.toUInt8 ∧ op.i1 = op.i2) ∨
      op.tag = 'r'.toUInt8

/-- The op codes go on from line `i` and line `j` to the end of both sides. -/
def Tiles (dlines llines : List GoString) : ℕ → ℕ → List OpCode → Prop
  | i, j, [] => i = dlines.length ∧ j = llines.length
  | i, j, op :: ops =>
    op.i1 = i ∧ op.j1 = j ∧ op.Fits dlines llines ∧ Tiles dlines llines op.i2 op.j2 ops

/-! ## The sides of a hunk -/

/-- The context and the lines of a kind, with their numbers. -/
def side (kind : GoString) (number : RenderLine → Option ℕ) (lines : List RenderLine) :
    List (Option ℕ × GoString) :=
  (lines.filter fun l : RenderLine => l.kind = ("context" : GoString) ∨ l.kind = kind).map
    fun l => (number l, l.text)

/-- The context and the deleted lines. -/
def desiredSide : List RenderLine → List (Option ℕ × GoString) := side "del" (·.desiredLn)

/-- The context and the added lines. -/
def liveSide : List RenderLine → List (Option ℕ × GoString) := side "add" (·.liveLn)

/-- Lines with their numbers, where the first one has the index `i`. -/
def numbered (i : ℕ) (lines : List GoString) : List (Option ℕ × GoString) :=
  (lines.zipIdx i).map fun p => (some (p.2 + 1), p.1)

/-- A context line has the text that both sides have at its two numbers. -/
def ContextAgrees (dlines llines : List GoString) (l : RenderLine) : Prop :=
  l.kind = "context" → ∃ i j, l.desiredLn = some (i + 1) ∧ l.liveLn = some (j + 1) ∧
    dlines[i]? = some l.text ∧ llines[j]? = some l.text

/-- The lines of a hunk are the lines of both sides. -/
structure Reconstructs (dlines llines : List GoString) (lines : List RenderLine) : Prop where
  desired : desiredSide lines = numbered 0 dlines
  live : liveSide lines = numbered 0 llines
  context : ∀ l ∈ lines, ContextAgrees dlines llines l

theorem side_append (kind : GoString) (number : RenderLine → Option ℕ) (l l' : List RenderLine) :
    side kind number (l ++ l') = side kind number l ++ side kind number l' := by
  rw [side, List.filter_append, List.map_append]
  rfl

/-- A side has every line if they are all of its kind or context. -/
theorem side_of_forall {kind : GoString} {lines : List RenderLine} (number : RenderLine → Option ℕ)
    (h : ∀ l ∈ lines, l.kind = "context" ∨ l.kind = kind) :
    side kind number lines = lines.map fun l => (number l, l.text) := by
  rw [side, List.filter_eq_self.mpr fun l hl => decide_eq_true (h l hl)]

theorem side_of_forall_not {kind : GoString} {lines : List RenderLine}
    (number : RenderLine → Option ℕ) (h : ∀ l ∈ lines, ¬ (l.kind = "context" ∨ l.kind = kind)) :
    side kind number lines = [] := by
  rw [side, List.map_eq_nil_iff, List.filter_eq_nil_iff]
  exact fun l hl hkind => h l hl (of_decide_eq_true hkind)

/-- The lines from `i` to before `j`, and those from `j` on. -/
theorem numbered_drop {i j : ℕ} {lines : List GoString} (hij : i ≤ j) (hj : j ≤ lines.length) :
    numbered i ((lines.drop i).take (j - i)) ++ numbered j (lines.drop j) =
      numbered i (lines.drop i) := by
  have hlen : ((lines.drop i).take (j - i)).length = j - i := by
    rw [List.length_take, List.length_drop]
    omega
  have hsplit : lines.drop i = (lines.drop i).take (j - i) ++ lines.drop j := by
    have hdrop := (List.take_append_drop (j - i) (lines.drop i)).symm
    rwa [List.drop_drop, Nat.add_sub_cancel' hij] at hdrop
  conv_rhs => rw [hsplit, numbered, List.zipIdx_append, List.map_append, hlen, Nat.add_sub_cancel' hij]
  rfl

/-- What a loop over the indices from `i` on reads. -/
theorem map_range'_eq_numbered {i n : ℕ} {lines : List GoString} (h : i + n ≤ lines.length) :
    ((List.range' i n).map fun k => (some (k + 1), lines.getD k [])) =
      numbered i ((lines.drop i).take n) := by
  have hlen : ((lines.drop i).take n).length = n := by
    rw [List.length_take, List.length_drop]
    omega
  refine List.ext_getElem (by simp [numbered, hlen]) fun k hk _ => ?_
  rw [List.length_map, List.length_range'] at hk
  have hin : i + k < lines.length := by omega
  simp [numbered, List.getD_eq_getElem?_getD, List.getElem?_eq_getElem hin]

/-! ## One op code -/

section OpCode

variable {i j : ℕ}

theorem kind_delLines {l : RenderLine} (h : l ∈ delLines dlines i j) : l.kind = "del" := by
  obtain ⟨k, -, rfl⟩ := List.mem_map.mp h
  rfl

theorem kind_addLines {l : RenderLine} (h : l ∈ addLines llines i j) : l.kind = "add" := by
  obtain ⟨k, -, rfl⟩ := List.mem_map.mp h
  rfl

theorem desiredSide_delLines (hij : i ≤ j) (hj : j ≤ dlines.length) :
    desiredSide (delLines dlines i j) = numbered i ((dlines.drop i).take (j - i)) := by
  rw [desiredSide, side_of_forall _ fun l hl => .inr (kind_delLines hl), delLines, List.map_map,
    ← map_range'_eq_numbered (by omega)]
  rfl

theorem liveSide_addLines (hij : i ≤ j) (hj : j ≤ llines.length) :
    liveSide (addLines llines i j) = numbered i ((llines.drop i).take (j - i)) := by
  rw [liveSide, side_of_forall _ fun l hl => .inr (kind_addLines hl), addLines, List.map_map,
    ← map_range'_eq_numbered (by omega)]
  rfl

theorem desiredSide_addLines (llines : List GoString) (i j : ℕ) :
    desiredSide (addLines llines i j) = [] :=
  side_of_forall_not _ fun l hl => by
    rw [kind_addLines hl]
    decide

theorem liveSide_delLines (dlines : List GoString) (i j : ℕ) : liveSide (delLines dlines i j) = [] :=
  side_of_forall_not _ fun l hl => by
    rw [kind_delLines hl]
    decide

theorem contextAgrees_of_ne {l : RenderLine} (h : l.kind ≠ "context") :
    ContextAgrees dlines llines l := fun hkind => absurd hkind h

/-- What the lines of one op code are on both sides. -/
structure OpCode.Covers (op : OpCode) (dlines llines : List GoString) (lines : List RenderLine) :
    Prop where
  desired : desiredSide lines = numbered op.i1 ((dlines.drop op.i1).take (op.i2 - op.i1))
  live : liveSide lines = numbered op.j1 ((llines.drop op.j1).take (op.j2 - op.j1))
  context : ∀ l ∈ lines, ContextAgrees dlines llines l

variable {op : OpCode}

theorem covers_equal (hfits : op.Fits dlines llines) (htag : op.tag = 'e'.toUInt8)
    (hlen : op.i2 - op.i1 = op.j2 - op.j1)
    (heq : ∀ k < op.i2 - op.i1, dlines[op.i1 + k]? = llines[op.j1 + k]?) :
    op.Covers dlines llines (op.lines dlines llines) := by
  have hi := hfits.desired
  have hj := hfits.live
  have hlines : op.lines dlines llines = (List.range' op.i1 (op.i2 - op.i1)).map fun k =>
      { kind := "context", desiredLn := some (k + 1), liveLn := some (op.j1 + (k - op.i1) + 1),
        text := dlines.getD k [] } := if_pos htag
  have hkind : ∀ l ∈ op.lines dlines llines, l.kind = "context" := by
    intro l hl
    rw [hlines] at hl
    obtain ⟨k, -, rfl⟩ := List.mem_map.mp hl
    rfl
  refine ⟨?_, ?_, ?_⟩
  · rw [desiredSide, side_of_forall _ fun l hl => .inl (hkind l hl), hlines, List.map_map,
      ← map_range'_eq_numbered (by omega)]
    rfl
  · -- the k-th line of the block has the k-th number on this side too
    rw [liveSide, side_of_forall _ fun l hl => .inl (hkind l hl), hlines, List.map_map,
      ← map_range'_eq_numbered (by omega), ← hlen]
    refine List.ext_getElem (by simp) fun k hk _ => ?_
    rw [List.length_map, List.length_range'] at hk
    have htext := heq k hk
    simp [List.getD_eq_getElem?_getD, htext]
  · intro l hl _
    rw [hlines] at hl
    obtain ⟨k, hk, rfl⟩ := List.mem_map.mp hl
    rw [List.mem_range'_1] at hk
    have htext := heq (k - op.i1) (by omega)
    have hin : k < dlines.length := by omega
    have hget : dlines[k]? = some (dlines.getD k []) := by
      rw [List.getD_eq_getElem?_getD, List.getElem?_eq_getElem hin]
      rfl
    rw [Nat.add_sub_cancel' hk.1] at htext
    exact ⟨k, op.j1 + (k - op.i1), rfl, rfl, hget, htext ▸ hget⟩

theorem covers_lines (hfits : op.Fits dlines llines) :
    op.Covers dlines llines (op.lines dlines llines) := by
  obtain ⟨hi, hi'⟩ := hfits.desired
  obtain ⟨hj, hj'⟩ := hfits.live
  have hnil : ∀ (i : ℕ) (ls : List GoString), numbered i (ls.take 0) = [] := fun i ls => rfl
  rcases hfits.tag with ⟨htag, hlen, heq⟩ | ⟨htag, hlen⟩ | ⟨htag, hlen⟩ | htag
  · exact covers_equal hfits htag hlen heq
  · have hlines : op.lines dlines llines = delLines dlines op.i1 op.i2 := by
      rw [OpCode.lines, htag]
      rfl
    rw [hlines]
    refine ⟨desiredSide_delLines hi hi', ?_, fun l hl => contextAgrees_of_ne ?_⟩
    · rw [liveSide_delLines, hlen, Nat.sub_self, hnil]
    · rw [kind_delLines hl]
      decide
  · have hlines : op.lines dlines llines = addLines llines op.j1 op.j2 := by
      rw [OpCode.lines, htag]
      rfl
    rw [hlines]
    refine ⟨?_, liveSide_addLines hj hj', fun l hl => contextAgrees_of_ne ?_⟩
    · rw [desiredSide_addLines, hlen, Nat.sub_self, hnil]
    · rw [kind_addLines hl]
      decide
  · have hlines : op.lines dlines llines =
        delLines dlines op.i1 op.i2 ++ addLines llines op.j1 op.j2 := by
      rw [OpCode.lines, htag]
      rfl
    rw [hlines]
    refine ⟨?_, ?_, fun l hl => contextAgrees_of_ne ?_⟩
    · rw [desiredSide, side_append, ← desiredSide, desiredSide_delLines hi hi', desiredSide_addLines,
        List.append_nil]
    · rw [liveSide, side_append, ← liveSide, liveSide_delLines, liveSide_addLines hj hj',
        List.nil_append]
    · rcases List.mem_append.mp hl with hl | hl
      · rw [kind_delLines hl]
        decide
      · rw [kind_addLines hl]
        decide

end OpCode

/-! ## The whole hunk -/

/-- From where the op codes go on, the lines are what is left of both sides. -/
theorem covers_flatMap : ∀ {ops : List OpCode} {i j : ℕ}, Tiles dlines llines i j ops →
    desiredSide (ops.flatMap (OpCode.lines · dlines llines)) = numbered i (dlines.drop i) ∧
      liveSide (ops.flatMap (OpCode.lines · dlines llines)) = numbered j (llines.drop j) ∧
      ∀ l ∈ ops.flatMap (OpCode.lines · dlines llines), ContextAgrees dlines llines l
  | [], i, j, h => by
    obtain ⟨rfl, rfl⟩ := h
    rw [List.drop_length, List.drop_length]
    exact ⟨rfl, rfl, fun l hl => absurd hl List.not_mem_nil⟩
  | op :: ops, i, j, h => by
    obtain ⟨rfl, rfl, hfits, hrest⟩ := h
    obtain ⟨hdesired, hlive, hcontext⟩ := covers_lines hfits
    obtain ⟨hdesired', hlive', hcontext'⟩ := covers_flatMap hrest
    rw [List.flatMap_cons]
    refine ⟨?_, ?_, fun l hl => ?_⟩
    · rw [desiredSide, side_append, ← desiredSide, hdesired, hdesired',
        numbered_drop hfits.desired.1 hfits.desired.2]
    · rw [liveSide, side_append, ← liveSide, hlive, hlive',
        numbered_drop hfits.live.1 hfits.live.2]
    · rcases List.mem_append.mp hl with hl | hl
      · exact hcontext l hl
      · exact hcontext' l hl

/-- The lines of a text as `computeHunks` takes them. -/
def hunkLines (text : GoString) : List GoString :=
  GoString.split '\n'.toUInt8 (GoString.trimRight '\n'.toUInt8 text)

/-- The one hunk has the lines of both sides, whatever op codes go over them. -/
theorem reconstructs_computeHunks (getOpCodes : List GoString → List GoString → List OpCode)
    (desired live : GoString)
    (h : Tiles (hunkLines desired) (hunkLines live) 0 0
      (getOpCodes (hunkLines desired) (hunkLines live))) :
    ∃ hunk, computeHunks getOpCodes desired live = [hunk] ∧
      Reconstructs (hunkLines desired) (hunkLines live) hunk.lines := by
  obtain ⟨hdesired, hlive, hcontext⟩ := covers_flatMap h
  exact ⟨_, rfl, hdesired, hlive, hcontext⟩

/-- One line changed, one added behind it. -/
theorem reconstructs_replaced :
    ∃ hunk, computeHunks (fun _ _ => [⟨'e'.toUInt8, 0, 1, 0, 1⟩, ⟨'r'.toUInt8, 1, 2, 1, 3⟩,
        ⟨'e'.toUInt8, 2, 3, 3, 4⟩]) "a\nb\nc\n" "a\nx\ny\nc\n" = [hunk] ∧
      Reconstructs (hunkLines "a\nb\nc\n") (hunkLines "a\nx\ny\nc\n") hunk.lines := by
  refine reconstructs_computeHunks _ _ _ ⟨rfl, rfl, ⟨by decide, by decide, .inl ⟨rfl, rfl, by decide⟩⟩,
    rfl, rfl, ⟨by decide, by decide, .inr (.inr (.inr rfl))⟩,
    rfl, rfl, ⟨by decide, by decide, .inl ⟨rfl, rfl, by decide⟩⟩, rfl, rfl⟩

end Yafu.Render
