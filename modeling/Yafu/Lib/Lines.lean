import Yafu.Lib.GoString

/-!
# Lines, and a text cut in front of some of them

A text is a list of lines joined by line feeds. Where a separator begins with a byte that no line
has, a split at that separator cuts in front of the lines that begin with the rest of it. It takes
the byte in front of such a line away too, which ended the line before.
-/

namespace GoString

variable {b : UInt8} {sep : GoString}

theorem splitStr_ne_nil (s : GoString) : splitStr b sep s ≠ [] := by
  cases s with
  | nil => rw [splitStr]; exact List.cons_ne_nil _ _
  | cons c s =>
    rw [splitStr]
    split
    · exact List.cons_ne_nil _ _
    · split <;> exact List.cons_ne_nil _ _

/-- A separator in front. -/
theorem splitStr_sep (s : GoString) : splitStr b sep (b :: (sep ++ s)) = [] :: splitStr b sep s := by
  have hcut : cutPrefix (b :: (sep ++ s)) (b :: sep) = some s := cutPrefix_eq_some_iff.mpr rfl
  rw [splitStr]
  split
  · rename_i r hr
    rw [hcut, Option.some.injEq] at hr
    rw [hr]
  · rename_i hnone
    rw [hcut] at hnone
    cases hnone

/-- A byte at which no separator begins stays in front. -/
theorem splitStr_cons {c : UInt8} {s : GoString} (h : ¬(b :: sep) <+: c :: s) :
    splitStr b sep (c :: s) = (splitStr b sep s).modifyHead (c :: ·) := by
  rw [splitStr]
  split
  · rename_i r hr
    exact absurd ⟨r, (cutPrefix_eq_some_iff.mp hr).symm⟩ h
  · split
    · rename_i hnil
      exact absurd hnil (splitStr_ne_nil s)
    · rename_i p ps hs
      rw [hs, List.modifyHead_cons]

theorem splitStr_append {l : GoString} (h : b ∉ l) (s : GoString) :
    splitStr b sep (l ++ s) = (splitStr b sep s).modifyHead (l ++ ·) := by
  induction l with
  | nil => exact (List.modifyHead_id.symm ▸ rfl)
  | cons c l ih =>
    obtain ⟨hc, hl⟩ := not_or.mp (List.mem_cons.not.mp h)
    have hno : ¬(b :: sep) <+: c :: (l ++ s) := fun hp => hc (List.cons_prefix_cons.mp hp).1
    rw [List.cons_append, splitStr_cons hno, ih hl, List.modifyHead_modifyHead]
    rfl

/-- Lines, each with the byte in front that ends the one before. -/
def marked (b : UInt8) (ls : List GoString) : GoString := ls.flatMap (b :: ·)

@[simp] theorem marked_nil : marked b [] = [] := rfl

@[simp] theorem marked_cons (l : GoString) (ls : List GoString) :
    marked b (l :: ls) = b :: (l ++ marked b ls) := rfl

theorem marked_append (ls ls' : List GoString) : marked b (ls ++ ls') = marked b ls ++ marked b ls' :=
  List.flatMap_append

/-- `strings.Join` with a separator of one byte. -/
def joinLines (b : UInt8) (ls : List GoString) : GoString := [b].intercalate ls

theorem joinLines_cons (l : GoString) (ls : List GoString) :
    joinLines b (l :: ls) = l ++ marked b ls := by
  induction ls generalizing l with
  | nil => rw [joinLines, List.intercalate_singleton, marked_nil, List.append_nil]
  | cons l' ls ih =>
    rw [joinLines, List.intercalate_cons_cons, ← joinLines, ih l', marked_cons, List.append_assoc,
      List.singleton_append]

theorem mem_joinLines {b : UInt8} {ls : List GoString} {l : GoString} (hl : l ∈ ls) {c : UInt8}
    (hc : c ∈ l) : c ∈ joinLines b ls := by
  obtain ⟨l', ls, rfl⟩ := List.exists_cons_of_ne_nil (List.ne_nil_of_mem hl)
  rw [joinLines_cons, List.mem_append]
  rcases List.mem_cons.mp hl with rfl | hl
  · exact .inl hc
  · exact .inr (List.mem_flatMap.mpr ⟨l, hl, List.mem_cons_of_mem b hc⟩)

/-- What a join has in it is a separator or from a line. -/
theorem of_mem_joinLines {b c : UInt8} {ls : List GoString} (h : c ∈ joinLines b ls) :
    c = b ∨ ∃ l ∈ ls, c ∈ l := by
  rcases ls with _ | ⟨l, ls⟩
  · exact absurd h List.not_mem_nil
  · rw [joinLines_cons, List.mem_append] at h
    rcases h with h | h
    · exact .inr ⟨l, List.mem_cons_self, h⟩
    · obtain ⟨l', hl', hc⟩ := List.mem_flatMap.mp h
      rcases List.mem_cons.mp hc with rfl | hc
      · exact .inl rfl
      · exact .inr ⟨l', List.mem_cons_of_mem l hl', hc⟩

/-- Joined lines are found again at the separators. -/
theorem split_joinLines {b : UInt8} {ls : List GoString} (hne : ls ≠ []) (h : ∀ l ∈ ls, b ∉ l) :
    split b (joinLines b ls) = ls := by
  obtain ⟨l, ls, rfl⟩ := List.exists_cons_of_ne_nil hne
  clear hne
  rw [joinLines_cons]
  induction ls generalizing l with
  | nil => rw [marked_nil, List.append_nil, split_of_notMem (h l List.mem_cons_self)]
  | cons l' ls ih =>
    obtain ⟨hl, hls⟩ := List.forall_mem_cons.mp h
    rw [marked_cons, split_append hl, ih l' hls]

/-- Lines, each with its end. -/
def unlines (ls : List GoString) : GoString := ls.flatMap (· ++ ['\n'.toUInt8])

theorem unlines_append (ls ls' : List GoString) : unlines (ls ++ ls') = unlines ls ++ unlines ls' :=
  List.flatMap_append

theorem split_unlines {ls : List GoString} (h : ∀ l ∈ ls, '\n'.toUInt8 ∉ l) :
    split '\n'.toUInt8 (unlines ls) = ls ++ [[]] := by
  induction ls with
  | nil => rfl
  | cons l ls ih =>
    obtain ⟨hl, hls⟩ := List.forall_mem_cons.mp h
    show split _ ((l ++ ['\n'.toUInt8]) ++ unlines ls) = _
    rw [List.append_assoc, List.singleton_append, split_append hl, ih hls, List.cons_append]

/-- A line that neither ends early nor begins with the rest of the separator. -/
def Plain (b : UInt8) (sep l : GoString) : Prop := b ∉ l ∧ ¬sep <+: l

/-- A plain line is not cut, whatever line comes after it. -/
theorem splitStr_line (hb : b ∉ sep) {l : GoString} (hl : Plain b sep l) {s : GoString}
    (hs : ∀ c ∈ s.head?, c = b) :
    splitStr b sep (b :: (l ++ s)) = (splitStr b sep s).modifyHead (b :: l ++ ·) := by
  have hno : ¬(b :: sep) <+: b :: (l ++ s) := by
    rintro hp
    have hsep := (List.cons_prefix_cons.mp hp).2
    rcases List.prefix_or_prefix_of_prefix hsep (List.prefix_append l s) with h | ⟨x, rfl⟩
    · exact hl.2 h
    · -- the separator would go over the end of the line
      have hx := (List.prefix_append_right_inj l).mp hsep
      cases x with
      | nil => exact hl.2 (by simp)
      | cons c x =>
        obtain ⟨y, rfl⟩ := hx
        have hc : c = b := hs c rfl
        exact hb (List.mem_append_right l (hc ▸ List.mem_cons_self))
  rw [splitStr_cons hno, splitStr_append hl.1, List.modifyHead_modifyHead]
  rfl

theorem splitStr_marked (hb : b ∉ sep) {ls : List GoString} (hls : ∀ l ∈ ls, Plain b sep l)
    {s : GoString} (hs : ∀ c ∈ s.head?, c = b) :
    splitStr b sep (marked b ls ++ s) = (splitStr b sep s).modifyHead (marked b ls ++ ·) := by
  induction ls with
  | nil => exact (List.modifyHead_id.symm ▸ rfl)
  | cons l ls ih =>
    obtain ⟨hl, hls⟩ := List.forall_mem_cons.mp hls
    have hnext : ∀ c ∈ (marked b ls ++ s).head?, c = b := by
      cases ls with
      | nil => exact hs
      | cons l' ls => exact fun c hc => (Option.some.inj hc).symm
    rw [marked_cons, List.cons_append, List.append_assoc, splitStr_line hb hl hnext, ih hls,
      List.modifyHead_modifyHead]
    simp only [Function.comp_def, List.cons_append, List.append_assoc]

/-- Lines to the end of the text. -/
theorem splitStr_marked_end (hb : b ∉ sep) {ls : List GoString} (hls : ∀ l ∈ ls, Plain b sep l) :
    splitStr b sep (marked b ls) = [marked b ls] := by
  have h := splitStr_marked hb hls (s := []) (fun c hc => by cases hc)
  rw [splitStr, List.append_nil, List.modifyHead_cons, List.append_nil] at h
  exact h

/-- Lines up to one that begins with the rest of the separator. -/
theorem splitStr_marked_sep (hb : b ∉ sep) {ls : List GoString} (hls : ∀ l ∈ ls, Plain b sep l)
    (s : GoString) :
    splitStr b sep (marked b ls ++ b :: (sep ++ s)) = marked b ls :: splitStr b sep s := by
  have hfront : ∀ c ∈ (b :: (sep ++ s)).head?, c = b := fun c hc => (Option.some.inj hc).symm
  rw [splitStr_marked hb hls hfront, splitStr_sep, List.modifyHead_cons, List.append_nil]

end GoString
