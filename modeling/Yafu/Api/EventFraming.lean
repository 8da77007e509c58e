import Yafu.Api.LogStream
import Yafu.Lib.EventSource

/-!
# The frames of the log stream

Reference: `writeSSE` in `internal/api/logs.go`, read by an `EventSource`.

`writeSSE` starts a `data:` line behind every LF of the data, but a CR ends a line of the stream as
well: what follows a CR alone is read as a field of its own. So a frame is read as it was meant
exactly if each CR of the data stands before an LF (`roundTrips_iff`); otherwise it holds too little
(`weight_wire`).
-/

namespace Yafu.Api

open EventSource
open GoString (split replaceAll)

/-- Each CR is directly followed by an LF. -/
def Paired : GoString → Prop
  | [] => True
  | b :: s => (b = '\r'.toUInt8 → s.head? = some '\n'.toUInt8) ∧ Paired s

instance Paired.decide : (s : GoString) → Decidable (Paired s)
  | [] => .isTrue trivial
  | _ :: s => @instDecidableAnd _ _ _ (Paired.decide s)

/-- The type of an event of this name. -/
def typeOf (name : GoString) : GoString := if name = [] then "message" else name

/-- Of what is written for an event, a browser makes one event, with this name and these data up to
the way lines are broken. -/
def RoundTrips (name data : GoString) : Prop :=
  ∃ e, parse (writeSSE name data) = [e] ∧ e.type = typeOf name ∧ breaks e.data = breaks data

/-! ## What is written -/

/-- The lines of the stream for the data, behind the first `data: `: the rest of that line, and the
others. -/
def wire : GoString → GoString × List GoString
  | [] => ([], [])
  | b :: s =>
    if b = '\n'.toUInt8 then ([], (("data: " : GoString) ++ (wire s).1) :: (wire s).2)
    else if b = '\r'.toUInt8 then
      if s.head? = some '\n'.toUInt8 then wire s
      -- with the LF that is written behind the data, the CR is one break
      else if s = [] then ([], [])
      else ([], (wire s).1 :: (wire s).2)
    else (b :: (wire s).1, (wire s).2)

theorem replaceAll_cons_self (b : UInt8) (new s : GoString) :
    replaceAll b new (b :: s) = new ++ replaceAll b new s := by
  rw [replaceAll, List.flatMap_cons, if_pos rfl]
  rfl

theorem replaceAll_cons_ne {b c : UInt8} (h : c ≠ b) (new s : GoString) :
    replaceAll b new (c :: s) = c :: replaceAll b new s := by
  rw [replaceAll, List.flatMap_cons, if_neg h]
  rfl

theorem flatMap_split (s : GoString) :
    (split '\n'.toUInt8 s).flatMap (fun line => ("data: " : GoString) ++ line ++ ("\n" : GoString)) =
      ("data: " : GoString) ++ (replaceAll '\n'.toUInt8 "\ndata: " s ++ ("\n" : GoString)) := by
  induction s with
  | nil => rfl
  | cons b s ih =>
    rw [split]
    split_ifs with hb
    · rw [hb, replaceAll_cons_self, List.flatMap_cons, ih]
      simp only [List.append_assoc, List.nil_append, List.append_cancel_left_eq]
      rfl
    · rw [replaceAll_cons_ne hb]
      cases hs : split '\n'.toUInt8 s with
      | nil =>
        rw [hs] at ih
        cases ih
      | cons line lines =>
        rw [hs, List.flatMap_cons, List.append_assoc, List.append_assoc,
          List.append_cancel_left_eq] at ih
        rw [List.flatMap_cons, List.append_assoc, List.append_assoc, List.cons_append, ih,
          List.cons_append]

/-- The lines of the stream from the data on. -/
theorem split_breaks_replaceAll (s t : GoString) :
    split '\n'.toUInt8
        (breaks (replaceAll '\n'.toUInt8 "\ndata: " s ++ '\n'.toUInt8 :: t)) =
      (wire s).1 :: ((wire s).2 ++ split '\n'.toUInt8 (breaks t)) := by
  induction s with
  | nil =>
    show split _ (breaks ('\n'.toUInt8 :: t)) = _
    rw [breaks_cons_lf, split, if_pos rfl]
    rfl
  | cons b s ih =>
    rw [wire]
    split_ifs with hlf hcr hhead hnil
    · have hdata (u : GoString) : ("\ndata: " : GoString) ++ u =
          '\n'.toUInt8 :: (("data: " : GoString) ++ u) := rfl
      rw [hlf, replaceAll_cons_self, List.append_assoc, hdata, breaks_cons_lf,
        breaks_append_of_notMem (by decide), split, if_pos rfl,
        split_append_of_notMem (by decide) ih]
      rfl
    · rw [hcr, replaceAll_cons_ne (by decide), List.cons_append, breaks, if_pos rfl]
      have hhead' : (replaceAll '\n'.toUInt8 "\ndata: " s ++ '\n'.toUInt8 :: t).head? =
          some '\n'.toUInt8 := by
        rcases s with _ | ⟨c, s⟩
        · cases hhead
        · rw [Option.some.inj hhead, replaceAll_cons_self]
          rfl
      rw [if_pos hhead', ih]
    · rw [hcr, hnil]
      show split _ (breaks ('\r'.toUInt8 :: '\n'.toUInt8 :: t)) = _
      rw [breaks, if_pos rfl, List.head?_cons, if_pos rfl, breaks_cons_lf, split, if_pos rfl]
      rfl
    · rw [hcr, replaceAll_cons_ne (by decide), List.cons_append, breaks, if_pos rfl]
      have hhead' : (replaceAll '\n'.toUInt8 "\ndata: " s ++ '\n'.toUInt8 :: t).head? ≠
          some '\n'.toUInt8 := by
        rcases s with _ | ⟨c, s⟩
        · exact absurd rfl hnil
        · have hc : c ≠ '\n'.toUInt8 := by simpa using hhead
          rw [replaceAll_cons_ne hc]
          simpa using hc
      rw [if_neg hhead', split, if_pos rfl, ih]
      rfl
    · rw [replaceAll_cons_ne hlf, List.cons_append, breaks, if_neg hcr, split, if_neg hlf, ih]

/-- The lines that an event takes up. -/
def wireLines (name data : GoString) : List GoString :=
  (if name = [] then [] else [("event: " : GoString) ++ name]) ++
    (("data: " : GoString) ++ (wire data).1) :: ((wire data).2 ++ [[]])

theorem lines_writeSSE {name : GoString} (hcr : '\r'.toUInt8 ∉ name) (hlf : '\n'.toUInt8 ∉ name)
    (data : GoString) : lines (writeSSE name data) = wireLines name data := by
  have hbody : split '\n'.toUInt8 (breaks ((split '\n'.toUInt8 data).flatMap
      (fun line => ("data: " : GoString) ++ line ++ ("\n" : GoString)) ++ ("\n" : GoString))) =
      (("data: " : GoString) ++ (wire data).1) :: ((wire data).2 ++ [[], []]) := by
    rw [flatMap_split, List.append_assoc, List.append_assoc, breaks_append_of_notMem (by decide)]
    exact split_append_of_notMem (by decide) (split_breaks_replaceAll data ("\n" : GoString))
  have hdrop (l : GoString) (ls : List GoString) :
      (l :: (ls ++ [[], []])).dropLast = l :: (ls ++ [[]]) := by
    have hconcat : l :: (ls ++ [[], []]) = (l :: (ls ++ [[]])) ++ [[]] := by simp
    rw [hconcat, List.dropLast_concat]
  rw [lines, writeSSE, wireLines, List.append_assoc]
  split_ifs with hname
  · rw [List.nil_append, List.nil_append, hbody, hdrop]
  · have hcr' : '\r'.toUInt8 ∉ ("event: " : GoString) ++ name := by
      rw [List.mem_append, not_or]
      exact ⟨by decide, hcr⟩
    have hlf' : '\n'.toUInt8 ∉ ("event: " : GoString) ++ name := by
      rw [List.mem_append, not_or]
      exact ⟨by decide, hlf⟩
    have hend (u : GoString) : ("\n" : GoString) ++ u = '\n'.toUInt8 :: u := rfl
    rw [List.append_assoc, breaks_append_of_notMem hcr', hend, breaks_cons_lf,
      GoString.split_append hlf', hbody, ← List.cons_append, hdrop]
    rfl

/-- A data line is neither blank nor a comment. -/
theorem data_line (value : GoString) :
    ("data: " : GoString) ++ value ≠ [] ∧
      (("data: " : GoString) ++ value).head? ≠ some ':'.toUInt8 ∧
      field (("data: " : GoString) ++ value) = (("data" : GoString), value) := by
  refine ⟨List.cons_ne_nil _ _, ?_, @field_append ("data" : GoString) (by decide) value⟩
  show some 'd'.toUInt8 ≠ some ':'.toUInt8
  decide

theorem event_line (name : GoString) :
    ("event: " : GoString) ++ name ≠ [] ∧
      (("event: " : GoString) ++ name).head? ≠ some ':'.toUInt8 ∧
      field (("event: " : GoString) ++ name) = (("event" : GoString), name) := by
  refine ⟨List.cons_ne_nil _ _, ?_, @field_append ("event" : GoString) (by decide) name⟩
  show some 'e'.toUInt8 ≠ some ':'.toUInt8
  decide

/-! ## What it weighs -/

theorem weight_data (value : GoString) :
    weight (("data: " : GoString) ++ value) = ascii value + 1 := by
  obtain ⟨hne, hcolon, hfield⟩ := data_line value
  rw [weight, hfield]
  exact if_pos ⟨hne, hcolon, rfl⟩

/-- What a browser can make of the data, and of less if a CR stands alone. -/
theorem weight_wire (s : GoString) :
    ascii (wire s).1 + ((wire s).2.map weight).sum ≤ ascii (breaks s) ∧
      (¬ Paired s → ascii (wire s).1 + ((wire s).2.map weight).sum < ascii (breaks s)) := by
  have hlf : '\n'.toUInt8 < 0x80 := by decide
  induction s with
  | nil => exact ⟨Nat.le_refl _, fun h => absurd trivial h⟩
  | cons b s ih =>
    obtain ⟨hle, hlt⟩ := ih
    rw [wire, breaks, Paired]
    by_cases hb : b = '\n'.toUInt8
    · have hne : ¬ b = '\r'.toUInt8 := by
        rw [hb]
        decide
      rw [if_pos hb, if_neg hne, hb, ascii_cons hlf, List.map_cons, List.sum_cons, weight_data]
      simp only [ascii_nil, Nat.zero_add]
      refine ⟨by omega, fun h => ?_⟩
      have := hlt fun hs => h ⟨fun hcr => absurd hcr (by decide), hs⟩
      omega
    rw [if_neg hb]
    by_cases hcr : b = '\r'.toUInt8
    · rw [if_pos hcr, if_pos hcr]
      by_cases hhead : s.head? = some '\n'.toUInt8
      · rw [if_pos hhead, if_pos hhead]
        exact ⟨hle, fun h => hlt fun hs => h ⟨fun _ => hhead, hs⟩⟩
      · -- the break is lost, and of the line behind it the name of a field at least
        rw [if_neg hhead, if_neg hhead, ascii_cons hlf]
        split_ifs
        · simp only [ascii_nil, List.map_nil, List.sum_nil]
          exact ⟨by omega, fun _ => by omega⟩
        · have := weight_le (wire s).1
          simp only [ascii_nil, Nat.zero_add, List.map_cons, List.sum_cons]
          exact ⟨by omega, fun _ => by omega⟩
    · have hcons (t : GoString) : ascii (b :: t) = ascii t + if b < 0x80 then 1 else 0 := by
        simp [ascii, List.countP_cons]
      rw [if_neg hcr, if_neg hcr]
      simp only [hcons]
      refine ⟨by omega, fun h => ?_⟩
      have := hlt fun hs => h ⟨fun hb => absurd hb hcr, hs⟩
      omega

theorem sum_wireLines (name data : GoString) :
    ((wireLines name data).map weight).sum =
      ascii (wire data).1 + ((wire data).2.map weight).sum + 1 := by
  have hevent : weight (("event: " : GoString) ++ name) = 0 := by
    have hne : ("event" : GoString) ≠ "data" := by decide
    rw [weight, (event_line name).2.2]
    exact if_neg fun h => hne h.2.2
  have hblank : weight [] = 0 := rfl
  rw [wireLines]
  split_ifs
  · simp only [List.nil_append, List.map_cons, List.map_append, List.map_nil, List.sum_cons,
      List.sum_append, List.sum_nil, weight_data, hblank]
    omega
  · simp only [List.map_cons, List.map_append, List.map_nil, List.sum_cons, List.sum_append,
      List.sum_nil, weight_data, hblank, hevent]
    omega

/-! ## What is made of it -/

theorem process_data (p : Buffers) (value : GoString) :
    p.process (("data: " : GoString) ++ value) =
      { p with data := p.data ++ value ++ ['\n'.toUInt8] } := by
  have hne : ("data" : GoString) ≠ "event" := by decide
  rw [Buffers.process, (data_line value).2.2]
  exact (if_neg hne).trans (if_pos rfl)

theorem events_data (p : Buffers) (value : GoString) (ls : List GoString) :
    p.events ((("data: " : GoString) ++ value) :: ls) =
      Buffers.events { p with data := p.data ++ value ++ ['\n'.toUInt8] } ls := by
  obtain ⟨hne, hcolon, -⟩ := data_line value
  rw [Buffers.events, if_neg hne, if_neg hcolon, process_data]

theorem events_event (p : Buffers) (name : GoString) (ls : List GoString) :
    p.events ((("event: " : GoString) ++ name) :: ls) =
      Buffers.events { p with eventType := name } ls := by
  obtain ⟨hne, hcolon, hfield⟩ := event_line name
  rw [Buffers.events, if_neg hne, if_neg hcolon, Buffers.process, hfield]
  exact congrArg (Buffers.events · ls) (if_pos rfl)

/-- The data are put together as they were, a break for each LF. -/
theorem events_wire {s : GoString} (h : Paired s) (p : Buffers) (a : GoString)
    (rest : List GoString) :
    p.events ((("data: " : GoString) ++ (a ++ (wire s).1)) :: ((wire s).2 ++ rest)) =
      Buffers.events { p with data := p.data ++ (a ++ breaks s) ++ ['\n'.toUInt8] } rest := by
  induction s generalizing p a with
  | nil =>
    rw [events_data]
    rfl
  | cons b s ih =>
    obtain ⟨hpair, hs⟩ := h
    rw [wire, breaks]
    by_cases hb : b = '\n'.toUInt8
    · have hne : ¬ b = '\r'.toUInt8 := by
        rw [hb]
        decide
      rw [if_pos hb, if_neg hne, events_data]
      have hnext := ih hs { p with data := p.data ++ (a ++ []) ++ ['\n'.toUInt8] } []
      simp only [List.nil_append] at hnext
      rw [List.cons_append, hnext, hb]
      simp only [List.append_assoc, List.nil_append, List.singleton_append]
    rw [if_neg hb]
    by_cases hcr : b = '\r'.toUInt8
    · rw [if_pos hcr, if_pos hcr, if_pos (hpair hcr), if_pos (hpair hcr)]
      exact ih hs p a
    · -- the byte goes on the line that is being written
      rw [if_neg hcr, if_neg hcr]
      have hnext := ih hs p (a ++ [b])
      simp only [List.append_assoc, List.singleton_append] at hnext ⊢
      exact hnext

/-- The event that a frame with paired CRs is read as. -/
theorem events_wireLines {data : GoString} (h : Paired data) (name : GoString) :
    Buffers.events {} (wireLines name data) = [{ type := typeOf name, data := breaks data }] := by
  have hdispatch (type : GoString) : Buffers.events
      { eventType := type, data := [] ++ ([] ++ breaks data) ++ ['\n'.toUInt8] } [[]] =
        [{ type := typeOf type, data := breaks data }] := by
    rw [Buffers.events, if_pos rfl, Buffers.events, Buffers.dispatched]
    simp [typeOf]
  rw [wireLines]
  split_ifs with hname
  · rw [hname]
    exact (events_wire h {} [] [[]]).trans (hdispatch [])
  · rw [List.singleton_append, events_event]
    exact (events_wire h { eventType := name } [] [[]]).trans (hdispatch name)

/-! ## Decoding -/

/-- A line is decoded by itself. -/
theorem decode_line {name : GoString} (hname : ∀ c ∈ name, c < 0x80) (value t : GoString) :
    Utf8.decode (name ++ value ++ ("\n" : GoString) ++ t) =
      name ++ Utf8.decode value ++ ("\n" : GoString) ++ Utf8.decode t := by
  have hend (u : GoString) : ("\n" : GoString) ++ u = '\n'.toUInt8 :: u := rfl
  rw [List.append_assoc, List.append_assoc, Utf8.decode_ascii_append hname, hend,
    Utf8.decode_append (by decide), List.append_assoc, List.append_assoc, hend]

theorem decode_writeSSE (name data : GoString) :
    Utf8.decode (writeSSE name data) = writeSSE (Utf8.decode name) (Utf8.decode data) := by
  have hdata : ∀ c ∈ ("data: " : GoString), c < 0x80 := GoString.forall_mem_of_all (by decide)
  have hlf : ∀ c ∈ ("\n" : GoString), c < 0x80 := GoString.forall_mem_of_all (by decide)
  have hevent : ∀ c ∈ ("event: " : GoString), c < 0x80 := GoString.forall_mem_of_all (by decide)
  have hend : Utf8.decode ("\n" : GoString) = ("\n" : GoString) := by
    have := Utf8.decode_ascii_append hlf []
    rwa [List.append_nil, Utf8.decode, List.append_nil] at this
  have hbody (ls : List GoString) :
      Utf8.decode (ls.flatMap (fun line => ("data: " : GoString) ++ line ++ ("\n" : GoString)) ++
          ("\n" : GoString)) =
        (ls.map Utf8.decode).flatMap
          (fun line => ("data: " : GoString) ++ line ++ ("\n" : GoString)) ++ ("\n" : GoString) := by
    induction ls with
    | nil => exact hend
    | cons line ls ih =>
      rw [List.flatMap_cons, List.append_assoc, decode_line hdata, ih, List.map_cons,
        List.flatMap_cons]
      exact (List.append_assoc _ _ _).symm
  rw [writeSSE, writeSSE, split_decode]
  by_cases hname : name = []
  · rw [if_pos hname, if_pos ((Utf8.decode_eq_nil_iff name).mpr hname), List.nil_append, hbody,
      List.nil_append]
  · rw [if_neg hname, if_neg ((Utf8.decode_eq_nil_iff name).not.mpr hname),
      List.append_assoc (("event: " : GoString) ++ name ++ ("\n" : GoString)), decode_line hevent,
      hbody]
    exact (List.append_assoc _ _ _).symm

/-- What a browser reads of a frame, for a name without line breaks. -/
theorem parse_writeSSE {name : GoString} (hcr : '\r'.toUInt8 ∉ name) (hlf : '\n'.toUInt8 ∉ name)
    (data : GoString) :
    parse (writeSSE name data) =
      Buffers.events {} (wireLines (Utf8.decode name) (Utf8.decode data)) := by
  have hbom : GoString.cutPrefix (writeSSE name data) byteOrderMark = none := by
    rw [writeSSE, flatMap_split]
    split_ifs
    · rfl
    · rfl
  have hcr' := (Utf8.mem_decode_ascii (show '\r'.toUInt8 < 0x80 by decide)).not.mpr hcr
  have hlf' := (Utf8.mem_decode_ascii (show '\n'.toUInt8 < 0x80 by decide)).not.mpr hlf
  rw [parse, hbom, Option.getD_none, decode_writeSSE, lines_writeSSE hcr' hlf']

/-- A CR that stands alone costs a frame a part of its data. -/
theorem not_roundTrips_of_not_paired {name data : GoString} (hcr : '\r'.toUInt8 ∉ name)
    (hlf : '\n'.toUInt8 ∉ name) (h : ¬ Paired (Utf8.decode data)) : ¬ RoundTrips name data := by
  rintro ⟨e, hparse, -, hdata⟩
  rw [parse_writeSSE hcr hlf] at hparse
  have hsum := Buffers.sum_events_le (p := {}) (.inl rfl)
    (wireLines (Utf8.decode name) (Utf8.decode data))
  rw [hparse, sum_wireLines] at hsum
  have hlt := (weight_wire (Utf8.decode data)).2 h
  have hascii : ascii (breaks (Utf8.decode data)) ≤ ascii e.data := by
    rw [← decode_breaks, ascii_decode, ← hdata]
    exact ascii_breaks_le e.data
  simp only [List.map_cons, List.map_nil, List.sum_cons, List.sum_nil, ascii_nil] at hsum
  omega

/-- **The frames of the log stream.** A browser reads a frame of an event as this event and nothing
else, line breaks aside, if and only if the name and the data are valid UTF-8 and each CR of the data
is directly followed by an LF. -/
theorem roundTrips_iff {name : GoString} (hcr : '\r'.toUInt8 ∉ name) (hlf : '\n'.toUInt8 ∉ name)
    (data : GoString) :
    RoundTrips name data ↔
      Utf8.validString name = true ∧ Utf8.validString data = true ∧ Paired data := by
  constructor
  · intro h
    have hpaired : Paired (Utf8.decode data) := by
      by_contra hnot
      exact not_roundTrips_of_not_paired hcr hlf hnot h
    obtain ⟨e, hparse, htype, hdata⟩ := h
    rw [parse_writeSSE hcr hlf, events_wireLines hpaired] at hparse
    obtain ⟨rfl, -⟩ := List.cons.inj hparse
    have hvalid : Utf8.validString data = true := by
      rw [breaks_breaks, ← decode_breaks, Utf8.decode_eq_self_iff, validString_breaks] at hdata
      exact hdata
    refine ⟨?_, hvalid, (Utf8.decode_eq_self_iff data).mpr hvalid ▸ hpaired⟩
    rw [← Utf8.decode_eq_self_iff]
    simp only [typeOf, Utf8.decode_eq_nil_iff] at htype
    split_ifs at htype with hnil
    · rw [hnil, Utf8.decode]
    · exact htype
  · rintro ⟨hname, hdata, hpaired⟩
    have hname' := (Utf8.decode_eq_self_iff name).mpr hname
    have hdata' := (Utf8.decode_eq_self_iff data).mpr hdata
    refine ⟨{ type := typeOf name, data := breaks data }, ?_, rfl, breaks_breaks data⟩
    rw [parse_writeSSE hcr hlf, hname', hdata', events_wireLines hpaired]

/-- A line that starts with a space, and one that ends with CRLF. -/
theorem roundTrips_crlf : RoundTrips "error" " unexpected\r\nEOF" :=
  (roundTrips_iff (by decide) (by decide) _).mpr
    ⟨Utf8.validString_of_ascii (GoString.forall_mem_of_all (by decide)),
      Utf8.validString_of_ascii (GoString.forall_mem_of_all (by decide)), by decide⟩

/-- Of a progress bar, only what stands before the first CR is shown. -/
theorem not_roundTrips_progress :
    ¬ ∀ name data : GoString, '\r'.toUInt8 ∉ name → '\n'.toUInt8 ∉ name → RoundTrips name data := by
  intro h
  have hdecode : Utf8.decode ("10%\r20%" : GoString) = ("10%\r20%" : GoString) :=
    (Utf8.decode_eq_self_iff _).mpr (Utf8.validString_of_ascii (GoString.forall_mem_of_all (by decide)))
  have hpaired : ¬ Paired (Utf8.decode ("10%\r20%" : GoString)) := by
    rw [hdecode]
    decide
  have hcr : '\r'.toUInt8 ∉ ([] : GoString) := List.not_mem_nil
  have hlf : '\n'.toUInt8 ∉ ([] : GoString) := List.not_mem_nil
  exact not_roundTrips_of_not_paired hcr hlf hpaired (h [] _ hcr hlf)

end Yafu.Api
