import Yafu.Lib.Lines
import Yafu.Lib.Utf8
import Mathlib.Algebra.GroupWithZero.Nat

/-!
# Event streams

How a browser reads a stream of server-sent events: the processing model of the HTML standard. The
stream is decoded, cut into lines at CRLF, LF and CR, and a blank line dispatches what the fields
before it have put together. A line that names no field of the standard is dropped.
-/

namespace EventSource

open GoString (split cut unlines)

/-- Every CRLF, LF and CR as one LF. -/
def breaks : GoString → GoString
  | [] => []
  | b :: s =>
    if b = '\r'.toUInt8 then
      if s.head? = some '\n'.toUInt8 then breaks s else '\n'.toUInt8 :: breaks s
    else b :: breaks s

/-- The lines that have an end. -/
def lines (s : GoString) : List GoString := (split '\n'.toUInt8 (breaks s)).dropLast

/-- A `MessageEvent`. -/
structure Event where
  type : GoString
  data : GoString
  lastEventId : GoString := []
deriving DecidableEq, Repr

/-- The data buffer, the event type buffer and the last event ID buffer. -/
structure Buffers where
  data : GoString := []
  eventType : GoString := []
  lastEventId : GoString := []
deriving DecidableEq, Repr

/-- The name and the value of a field: one space behind the colon belongs to neither. -/
def field (line : GoString) : GoString × GoString :=
  match cut ':'.toUInt8 line with
  | none => (line, [])
  | some (name, value) =>
    (name, if value.head? = some ' '.toUInt8 then value.tail else value)

namespace Buffers

variable (p : Buffers)

/-- What a field does. The reconnection time, which `retry` sets, is in no event. -/
def process (line : GoString) : Buffers :=
  if (field line).1 = "event" then { p with eventType := (field line).2 }
  else if (field line).1 = "data" then
    { p with data := p.data ++ (field line).2 ++ ['\n'.toUInt8] }
  else if (field line).1 = "id" ∧ (field line).2.contains 0 = false then
    { p with lastEventId := (field line).2 }
  else p

/-- What a blank line dispatches, if there are data. -/
def dispatched : List Event :=
  if p.data = [] then []
  else
    [{ type := if p.eventType = [] then "message" else p.eventType
       data := if p.data.getLast? = some '\n'.toUInt8 then p.data.dropLast else p.data
       lastEventId := p.lastEventId }]

/-- What a blank line leaves. -/
def cleared : Buffers := { lastEventId := p.lastEventId }

/-- The events of these lines. What is not dispatched at the end is discarded. -/
def events : Buffers → List GoString → List Event
  | _, [] => []
  | p, line :: lines =>
    if line = [] then p.dispatched ++ events p.cleared lines
    else if line.head? = some ':'.toUInt8 then events p lines
    else events (p.process line) lines

end Buffers

/-- The encoded byte order mark. -/
def byteOrderMark : GoString := [0xEF, 0xBB, 0xBF]

/-- The events of a stream. -/
def parse (stream : GoString) : List Event :=
  Buffers.events {}
    (lines (Utf8.decode ((GoString.cutPrefix stream byteOrderMark).getD stream)))

/-! ## Line breaks -/

theorem breaks_of_notMem {s : GoString} (h : '\r'.toUInt8 ∉ s) : breaks s = s := by
  induction s with
  | nil => rfl
  | cons b s ih =>
    rw [List.mem_cons, not_or] at h
    rw [breaks, if_neg (Ne.symm h.1), ih h.2]

theorem breaks_append_of_notMem {a : GoString} (h : '\r'.toUInt8 ∉ a) (s : GoString) :
    breaks (a ++ s) = a ++ breaks s := by
  induction a with
  | nil => rfl
  | cons b a ih =>
    rw [List.mem_cons, not_or] at h
    rw [List.cons_append, breaks, if_neg (Ne.symm h.1), ih h.2, List.cons_append]

theorem notMem_breaks (s : GoString) : '\r'.toUInt8 ∉ breaks s := by
  have hne : '\r'.toUInt8 ≠ '\n'.toUInt8 := by decide
  induction s with
  | nil => exact List.not_mem_nil
  | cons b s ih =>
    rw [breaks]
    split_ifs with hb hs
    · exact ih
    · exact List.not_mem_cons_of_ne_of_not_mem hne ih
    · exact List.not_mem_cons_of_ne_of_not_mem (Ne.symm hb) ih

/-- What is broken into lines already is left alone. -/
theorem breaks_breaks (s : GoString) : breaks (breaks s) = breaks s :=
  breaks_of_notMem (notMem_breaks s)

theorem breaks_cons_lf (s : GoString) :
    breaks ('\n'.toUInt8 :: s) = '\n'.toUInt8 :: breaks s := by
  rw [breaks, if_neg (by decide)]

/-- The first CR ends a line, alone or with an LF behind it. -/
theorem breaks_append_cr {a : GoString} (h : '\r'.toUInt8 ∉ a) (s : GoString) :
    breaks (a ++ '\r'.toUInt8 :: s) =
      a ++ if s.head? = some '\n'.toUInt8 then breaks s else '\n'.toUInt8 :: breaks s := by
  rw [breaks_append_of_notMem h, breaks, if_pos rfl]

/-- Induction along the breaks that have a CR. -/
theorem breaks_induct {motive : GoString → Prop} (last : ∀ s, '\r'.toUInt8 ∉ s → motive s)
    (crlf : ∀ a s, '\r'.toUInt8 ∉ a → motive s →
      motive (a ++ '\r'.toUInt8 :: '\n'.toUInt8 :: s))
    (cr : ∀ a s, '\r'.toUInt8 ∉ a → s.head? ≠ some '\n'.toUInt8 → motive s →
      motive (a ++ '\r'.toUInt8 :: s)) (s : GoString) : motive s := by
  by_cases h : '\r'.toUInt8 ∈ s
  · obtain ⟨a, t, hs, ha⟩ := List.eq_append_cons_of_mem h
    have hlen : t.length < s.length := by
      rw [hs, List.length_append, List.length_cons]
      omega
    rw [hs]
    rcases t with _ | ⟨b, u⟩
    · exact cr a [] ha (by simp) (breaks_induct last crlf cr [])
    · have hlen' : u.length < s.length := Nat.lt_of_succ_lt hlen
      by_cases hb : b = '\n'.toUInt8
      · rw [hb]
        exact crlf a u ha (breaks_induct last crlf cr u)
      · exact cr a (b :: u) ha (by simpa using hb) (breaks_induct last crlf cr (b :: u))
  · exact last s h
termination_by s.length

/-- It makes no difference whether a stream is decoded before it is cut into lines. -/
theorem decode_breaks (s : GoString) : Utf8.decode (breaks s) = breaks (Utf8.decode s) := by
  have hcr : '\r'.toUInt8 < 0x80 := by decide
  have hlf : '\n'.toUInt8 < 0x80 := by decide
  induction s using breaks_induct with
  | last s h => rw [breaks_of_notMem h, breaks_of_notMem ((Utf8.mem_decode_ascii hcr).not.mpr h)]
  | crlf a s h ih =>
    have ha := (Utf8.mem_decode_ascii hcr).not.mpr h
    rw [breaks_append_cr h, Utf8.decode_append hcr, breaks_append_cr ha, Utf8.decode_ascii hlf,
      List.head?_cons, List.head?_cons, if_pos rfl, if_pos rfl, breaks_cons_lf, breaks_cons_lf,
      Utf8.decode_append hlf, ih]
  | cr a s h hs ih =>
    have ha := (Utf8.mem_decode_ascii hcr).not.mpr h
    rw [breaks_append_cr h, Utf8.decode_append hcr, breaks_append_cr ha, if_neg hs,
      if_neg ((Utf8.head?_decode hlf s).not.mpr hs), Utf8.decode_append hlf, ih]

theorem validString_breaks (s : GoString) :
    Utf8.validString (breaks s) = Utf8.validString s := by
  have hcr : '\r'.toUInt8 < 0x80 := by decide
  have hlf : '\n'.toUInt8 < 0x80 := by decide
  induction s using breaks_induct with
  | last s h => rw [breaks_of_notMem h]
  | crlf a s h ih =>
    rw [breaks_append_cr h, List.head?_cons, if_pos rfl, breaks_cons_lf,
      Utf8.validString_append_cons hlf, ih, Utf8.validString_append_cons hcr,
      Utf8.validString_ascii_cons hlf]
  | cr a s h hs ih =>
    rw [breaks_append_cr h, if_neg hs, Utf8.validString_append_cons hlf, ih,
      Utf8.validString_append_cons hcr]

/-- Each piece can be decoded by itself. -/
theorem split_decode (s : GoString) :
    split '\n'.toUInt8 (Utf8.decode s) = (split '\n'.toUInt8 s).map Utf8.decode := by
  have hlf : '\n'.toUInt8 < 0x80 := by decide
  by_cases h : '\n'.toUInt8 ∈ s
  · obtain ⟨a, t, hs, ha⟩ := List.eq_append_cons_of_mem h
    have hlen : t.length < s.length := by
      rw [hs, List.length_append, List.length_cons]
      omega
    have ha' := (Utf8.mem_decode_ascii hlf).not.mpr ha
    rw [hs, Utf8.decode_append hlf, GoString.split_append ha', GoString.split_append ha,
      List.map_cons, split_decode t]
  · have h' := (Utf8.mem_decode_ascii hlf).not.mpr h
    rw [GoString.split_of_notMem h', GoString.split_of_notMem h]
    rfl
termination_by s.length

/-! ## Fields -/

/-- A field as it is usually written. -/
theorem field_append {name : GoString} (h : ':'.toUInt8 ∉ name) (value : GoString) :
    field (name ++ ':'.toUInt8 :: ' '.toUInt8 :: value) = (name, value) := by
  rw [field, GoString.cut_append h]
  rfl

/-- What is split begins with a piece that goes on with what stands before. -/
theorem split_append_of_notMem {sep : UInt8} {a s t : GoString} {ts : List GoString} (h : sep ∉ a)
    (hs : split sep s = t :: ts) : split sep (a ++ s) = (a ++ t) :: ts := by
  induction a with
  | nil => exact hs
  | cons b a ih =>
    rw [List.mem_cons, not_or] at h
    rw [List.cons_append, split, if_neg (Ne.symm h.1), ih h.2, List.cons_append]

/-! ## How much the events can hold -/

/-- The number of ASCII bytes. -/
def ascii (s : GoString) : ℕ := s.countP (· < 0x80)

@[simp] theorem ascii_nil : ascii [] = 0 := rfl

theorem ascii_append (s t : GoString) : ascii (s ++ t) = ascii s + ascii t := List.countP_append

theorem ascii_cons {b : UInt8} (h : b < 0x80) (s : GoString) : ascii (b :: s) = ascii s + 1 :=
  List.countP_cons_of_pos (decide_eq_true h)

theorem ascii_breaks_le (s : GoString) : ascii (breaks s) ≤ ascii s := by
  have hlf : '\n'.toUInt8 < 0x80 := by decide
  have hcr : '\r'.toUInt8 < 0x80 := by decide
  induction s with
  | nil => exact Nat.le_refl _
  | cons b s ih =>
    rw [breaks]
    split_ifs with hb hs
    · rw [hb, ascii_cons hcr]
      omega
    · rw [hb, ascii_cons hcr, ascii_cons hlf]
      omega
    · rw [ascii, ascii, List.countP_cons, List.countP_cons]
      exact Nat.add_le_add_right ih _

theorem ascii_decode (s : GoString) : ascii (Utf8.decode s) = ascii s := by
  have hq : ∀ c : UInt8, 0x80 ≤ c → decide (c < 0x80) = false := fun c hc =>
    decide_eq_false (UInt8.not_lt.mpr hc)
  rw [ascii, ascii, List.countP_eq_length_filter, List.countP_eq_length_filter,
    Utf8.filter_decode hq]

/-- What a line can add to the data, and the break behind it. -/
def weight (line : GoString) : ℕ :=
  if line ≠ [] ∧ line.head? ≠ some ':'.toUInt8 ∧ (field line).1 = "data" then
    ascii (field line).2 + 1
  else 0

/-- A line adds less than it holds. -/
theorem weight_le (line : GoString) : weight line ≤ ascii line := by
  rw [weight]
  split_ifs with h
  · have hdata : ascii ("data" : GoString) = 4 := by decide
    obtain ⟨-, -, hname⟩ := h
    rw [field] at hname ⊢
    cases hcut : cut ':'.toUInt8 line with
    | none =>
      rw [hcut] at hname
      simp only at hname ⊢
      rw [hname, hdata]
      decide
    | some p =>
      rw [hcut] at hname
      simp only at hname ⊢
      have htail : ascii (if p.2.head? = some ' '.toUInt8 then p.2.tail else p.2) ≤ ascii p.2 := by
        split_ifs
        · exact (List.tail_sublist _).countP_le
        · exact Nat.le_refl _
      rw [GoString.eq_of_cut hcut, hname, ascii_append, hdata, ascii_cons (by decide)]
      omega
  · exact Nat.zero_le _

/-- The data buffer is empty or ends with the break behind the last value. -/
def Buffers.Ended (p : Buffers) : Prop := p.data = [] ∨ ∃ d, p.data = d ++ ['\n'.toUInt8]

theorem Buffers.Ended.process {p : Buffers} (h : p.Ended) (line : GoString) :
    (p.process line).Ended := by
  rw [Buffers.process]
  split_ifs
  · exact h
  · exact .inr ⟨_, rfl⟩
  · exact h
  · exact h

theorem Buffers.sum_dispatched {p : Buffers} (h : p.Ended) :
    (p.dispatched.map fun e => ascii e.data + 1).sum = ascii p.data := by
  rw [dispatched]
  rcases h with h | ⟨d, h⟩
  · rw [if_pos h, h]
    rfl
  · have hne : p.data ≠ [] := by simp [h]
    have hlast : p.data.getLast? = some '\n'.toUInt8 := by simp [h]
    rw [if_neg hne, if_pos hlast, h, List.dropLast_concat, ascii_append]
    rfl

/-- No events hold more than their lines add. -/
theorem Buffers.sum_events_le {p : Buffers} (h : p.Ended) (lines : List GoString) :
    ((p.events lines).map fun e => ascii e.data + 1).sum ≤ ascii p.data + (lines.map weight).sum := by
  induction lines generalizing p with
  | nil => exact Nat.zero_le _
  | cons line lines ih =>
    rw [events, List.map_cons, List.sum_cons]
    split_ifs with hblank hcomment
    · have hrest : ((p.cleared.events lines).map fun e => ascii e.data + 1).sum ≤
          (lines.map weight).sum := by
        have := ih (p := p.cleared) (.inl rfl)
        simpa [cleared, ascii] using this
      rw [List.map_append, List.sum_append, sum_dispatched h]
      omega
    · have := ih h
      omega
    · have hprocess : ascii (p.process line).data ≤ ascii p.data + weight line := by
        rw [Buffers.process]
        split_ifs with hevent hdata
        · exact Nat.le_add_right _ _
        · rw [weight, if_pos ⟨hblank, hcomment, hdata⟩, ascii_append, ascii_append]
          exact Nat.le_of_eq (Nat.add_assoc _ _ _)
        · exact Nat.le_add_right _ _
        · exact Nat.le_add_right _ _
      have := ih (h.process line)
      omega

/-! ## What has arrived so far -/

theorem breaks_isPrefix {t s : GoString} (h : t <+: s) : breaks t <+: breaks s := by
  obtain ⟨r, rfl⟩ := h
  induction t with
  | nil => exact List.nil_prefix
  | cons b t ih =>
    rw [List.cons_append, breaks, breaks]
    by_cases hb : b = '\r'.toUInt8
    · rw [if_pos hb, if_pos hb]
      rcases t with _ | ⟨c, t⟩
      · -- the CR is a break already, and an LF that comes later belongs to it
        rw [List.nil_append, List.head?_nil, if_neg (by nofun), breaks]
        split_ifs with hlf
        · obtain ⟨u, rfl⟩ := List.head?_eq_some_iff.mp hlf
          rw [breaks_cons_lf]
          exact List.cons_prefix_cons.mpr ⟨rfl, List.nil_prefix⟩
        · exact List.cons_prefix_cons.mpr ⟨rfl, List.nil_prefix⟩
      · rw [List.cons_append, List.head?_cons, List.head?_cons]
        rw [List.cons_append] at ih
        split_ifs
        · exact ih
        · exact (List.prefix_cons_inj _).mpr ih
    · rw [if_neg hb, if_neg hb]
      exact (List.prefix_cons_inj _).mpr ih

theorem lines_isPrefix {t s : GoString} (h : t <+: s) : lines t <+: lines s :=
  GoString.dropLast_split_prefix _ (breaks_isPrefix h)

/-- Each line can be decoded by itself. -/
theorem lines_decode (s : GoString) : lines (Utf8.decode s) = (lines s).map Utf8.decode := by
  rw [lines, lines, ← decode_breaks, split_decode, List.map_dropLast]

/-- The buffers behind these lines. -/
def Buffers.after : Buffers → List GoString → Buffers
  | p, [] => p
  | p, line :: lines =>
    if line = [] then after p.cleared lines
    else if line.head? = some ':'.toUInt8 then after p lines
    else after (p.process line) lines

theorem Buffers.events_append (p : Buffers) (ls ls' : List GoString) :
    p.events (ls ++ ls') = p.events ls ++ (p.after ls).events ls' := by
  induction ls generalizing p with
  | nil => rfl
  | cons line ls ih =>
    rw [List.cons_append, events, events, after]
    split_ifs
    · rw [ih, List.append_assoc]
    · exact ih p
    · exact ih _

theorem Buffers.events_isPrefix (p : Buffers) {ls ls' : List GoString} (h : ls <+: ls') :
    p.events ls <+: p.events ls' := by
  obtain ⟨rest, rfl⟩ := h
  rw [events_append]
  exact List.prefix_append _ _

/-- Nothing is dispatched without a blank line. -/
theorem Buffers.events_eq_nil (p : Buffers) {ls : List GoString} (h : [] ∉ ls) : p.events ls = [] := by
  induction ls generalizing p with
  | nil => rfl
  | cons line ls ih =>
    obtain ⟨hline, hls⟩ := not_or.mp (List.mem_cons.not.mp h)
    rw [events, if_neg (Ne.symm hline)]
    split_ifs
    · exact ih p hls
    · exact ih _ hls

/-- The stream behind the byte order mark. -/
def body (stream : GoString) : GoString := (GoString.cutPrefix stream byteOrderMark).getD stream

theorem parse_eq (stream : GoString) :
    parse stream = Buffers.events {} ((lines (body stream)).map Utf8.decode) := by
  rw [← lines_decode]
  rfl

theorem lines_body_isPrefix {t s : GoString} (h : t <+: s) : lines (body t) <+: lines (body s) := by
  have hmark : lines byteOrderMark = [] := by decide
  rcases ht : GoString.cutPrefix t byteOrderMark with _ | r
  · rcases hs : GoString.cutPrefix s byteOrderMark with _ | r'
    · rw [body, body, ht, hs]
      exact lines_isPrefix h
    · -- the mark has not arrived as a whole
      have hs' := GoString.cutPrefix_eq_some_iff.mp hs
      have hshort : t <+: byteOrderMark := by
        rcases List.prefix_or_prefix_of_prefix h ⟨r', hs'.symm⟩ with hle | ⟨u, hu⟩
        · exact hle
        · rw [GoString.cutPrefix_eq_some_iff.mpr hu.symm] at ht
          cases ht
      have hnil := List.prefix_nil.mp (hmark ▸ lines_isPrefix hshort)
      rw [body, ht, Option.getD_none, hnil]
      exact List.nil_prefix
  · obtain ⟨u, rfl⟩ := h
    have ht' := GoString.cutPrefix_eq_some_iff.mp ht
    have hs : GoString.cutPrefix (t ++ u) byteOrderMark = some (r ++ u) := by
      rw [GoString.cutPrefix_eq_some_iff, ht', List.append_assoc]
    rw [body, body, ht, hs]
    exact lines_isPrefix (List.prefix_append r u)

/-- **Events are dispatched as the stream arrives.** Of a part of the stream the events come first of
those of all of it. -/
theorem parse_isPrefix {t s : GoString} (h : t <+: s) : parse t <+: parse s := by
  rw [parse_eq, parse_eq]
  exact Buffers.events_isPrefix _ ((lines_body_isPrefix h).map _)

/-- Lines that have no break are found again. -/
theorem lines_unlines {ls : List GoString}
    (h : ∀ l ∈ ls, '\n'.toUInt8 ∉ l ∧ '\r'.toUInt8 ∉ l) : lines (unlines ls) = ls := by
  have hcr : '\r'.toUInt8 ∉ unlines ls := by
    intro hmem
    obtain ⟨l, hl, hb⟩ := List.mem_flatMap.mp hmem
    rcases List.mem_append.mp hb with hb | hb
    · exact (h l hl).2 hb
    · exact absurd (List.mem_singleton.mp hb) (by decide)
  rw [lines, breaks_of_notMem hcr, GoString.split_unlines fun l hl => (h l hl).1, List.dropLast_concat]

end EventSource
