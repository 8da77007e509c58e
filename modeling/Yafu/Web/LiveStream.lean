import Yafu.Api.EventFraming
import Yafu.Api.Stream
import Yafu.Lib.ClockOrder
import Yafu.Lib.JsonMarshal
import Yafu.Web.Invalidation

/-!
# The live stream on the wire

Reference: `streamHandler.serve` in `internal/api/stream.go` and `onInvalidate` in
`web/src/lib/stream.ts`.

The handler writes frames, the browser reads bytes, and the connection may end between any two of
them. `Arrived.heard_eq` says what the listener has been called with by then: with the events of the
frames that have arrived as a whole, in their order.
-/

namespace Yafu.Web.LiveStream

open Yafu.Api
open Yafu.Api.Stream (Frame marshalEvent)
open Yafu.Web.Invalidation (Label)
open EventSource
open GoString (unlines unlines_append)

/-! ## What the listener makes of a message -/

/-- `ev.kind` of what `JSON.parse` makes of the data; of the members of a name the last one counts. -/
def kindOf (data : GoString) : Option GoString :=
  match Json.parse data with
  | some (.object ms) =>
    match ms.reverse.lookup ("kind" : GoString) with
    | some (.string kind) => some kind
    | _ => none
  | _ => none

/-- The calls of `onInvalidate`: the listener is registered for the events of type `invalidate`. -/
def heard (received : GoString) : List Label :=
  ((parse received).filter fun e => e.type = ("invalidate" : GoString)).map fun e => .event (kindOf e.data)

/-! ## Frames -/

/-- The lines of a frame in front of the blank line. -/
def frameLines : Frame → List GoString
  | .hello => ["event: hello", "data: \x7b\x7d"]
  | .invalidate ev => ["event: invalidate", ("data: " : GoString) ++ marshalEvent ev]
  | .ping unix => [(": ping " : GoString) ++ Clock.decimal unix]

/-- What a browser dispatches for a frame. -/
def message : Frame → List EventSource.Event
  | .hello => [{ type := "hello", data := "\x7b\x7d" }]
  | .invalidate ev => [{ type := "invalidate", data := marshalEvent ev }]
  | .ping _ => []

theorem text_eq (f : Frame) : f.text = unlines (frameLines f ++ [[]]) := by
  cases f with
  | hello => decide +kernel
  | invalidate ev =>
    show ("event: invalidate\ndata: " : GoString) ++ marshalEvent ev ++ ("\n\n" : GoString) =
      (("event: invalidate" : GoString) ++ ("\n" : GoString)) ++
        ((("data: " : GoString) ++ marshalEvent ev ++ ("\n" : GoString)) ++ ("\n" : GoString))
    have hfront : ("event: invalidate\ndata: " : GoString) =
        ("event: invalidate" : GoString) ++ ("\n" : GoString) ++ ("data: " : GoString) := by
      decide +kernel
    have hback : ("\n\n" : GoString) = ("\n" : GoString) ++ ("\n" : GoString) := by decide +kernel
    rw [hfront, hback]
    simp only [List.append_assoc]
  | ping unix =>
    have hback : ("\n\n" : GoString) = ("\n" : GoString) ++ ("\n" : GoString) := by decide +kernel
    show (": ping " : GoString) ++ Clock.decimal unix ++ ("\n\n" : GoString) =
      ((": ping " : GoString) ++ Clock.decimal unix ++ ("\n" : GoString)) ++ ("\n" : GoString)
    rw [hback]
    simp only [List.append_assoc]

theorem isText_decimal (n : ℕ) : Json.IsText (Clock.decimal n) := by
  refine .of_ascii fun c hc => ?_
  obtain ⟨hle, hge⟩ := Clock.digit_of_mem_decimal n c hc
  exact ⟨UInt8.le_trans (by decide) hle, UInt8.lt_of_le_of_lt hge (by decide)⟩

/-- A line of a frame is text, so that it has no break and is decoded to itself. -/
theorem isText_frameLines (f : Frame) : ∀ line ∈ frameLines f, Json.IsText line := by
  cases f with
  | hello =>
    have hall : ∀ line ∈ frameLines .hello,
        (line.all fun c => decide (0x20 ≤ c ∧ c < 0x80)) = true := by
      decide +kernel
    exact fun line hline => .of_all (hall line hline)
  | invalidate ev =>
    intro line hline
    rcases List.mem_cons.mp hline with rfl | hline
    · exact .of_all (by decide)
    · rw [List.mem_singleton.mp hline]
      exact (Json.IsText.of_all (by decide)).append (Json.isText_marshalObject _)
  | ping unix =>
    intro line hline
    rw [List.mem_singleton.mp hline]
    exact (Json.IsText.of_all (by decide)).append (isText_decimal unix)

theorem decode_isText {s : GoString} (h : Json.IsText s) : Utf8.decode s = s :=
  (Utf8.decode_eq_self_iff s).mpr h.valid

theorem frameLines_ne_nil (f : Frame) : [] ∉ frameLines f := by
  cases f with
  | hello => decide +kernel
  | invalidate ev =>
    intro hmem
    rcases List.mem_cons.mp hmem with h | hmem
    · exact absurd h (by decide +kernel)
    · exact absurd (List.mem_singleton.mp hmem) (List.cons_ne_nil _ _).symm
  | ping unix =>
    intro hmem
    exact absurd (List.mem_singleton.mp hmem) (List.cons_ne_nil _ _).symm

/-- A frame is dispatched by its blank line, and leaves the buffers empty. -/
theorem events_frame (f : Frame) (rest : List GoString) :
    Buffers.events {} (frameLines f ++ [] :: rest) = message f ++ Buffers.events {} rest := by
  have hblank : ∀ type data : GoString, data ≠ [] → type ≠ [] →
      Buffers.events { eventType := type, data := [] ++ data ++ ['\n'.toUInt8] } ([] :: rest) =
        { type, data } :: Buffers.events {} rest := by
    intro type data hdata htype
    rw [Buffers.events, if_pos rfl, Buffers.dispatched]
    simp [htype, Buffers.cleared]
  cases f with
  | hello =>
    have hlines : frameLines .hello ++ [] :: rest =
        (("event: " : GoString) ++ ("hello" : GoString)) ::
          (("data: " : GoString) ++ ("\x7b\x7d" : GoString)) :: [] :: rest := by
      have heq : frameLines .hello = [("event: " : GoString) ++ ("hello" : GoString),
          ("data: " : GoString) ++ ("\x7b\x7d" : GoString)] := by decide +kernel
      rw [heq]
      rfl
    rw [hlines, events_event, events_data]
    exact hblank "hello" "\x7b\x7d" (by decide) (by decide)
  | invalidate ev =>
    have hlines : frameLines (.invalidate ev) ++ [] :: rest =
        (("event: " : GoString) ++ ("invalidate" : GoString)) ::
          (("data: " : GoString) ++ marshalEvent ev) :: [] :: rest := by
      have heq : ("event: invalidate" : GoString) = ("event: " : GoString) ++ ("invalidate" : GoString) := by
        decide +kernel
      show ("event: invalidate" : GoString) :: _ = _
      rw [heq]
      rfl
    rw [hlines, events_event, events_data]
    exact hblank "invalidate" (marshalEvent ev) (List.cons_ne_nil _ _) (by decide)
  | ping unix =>
    -- a line that begins with a colon is a comment
    have hcolon : ((": ping " : GoString) ++ Clock.decimal unix).head? = some ':'.toUInt8 := rfl
    show Buffers.events {} (((": ping " : GoString) ++ Clock.decimal unix) :: [] :: rest) = _
    have hne : (": ping " : GoString) ++ Clock.decimal unix ≠ [] := List.cons_ne_nil _ _
    rw [Buffers.events, if_neg hne, if_pos hcolon, Buffers.events, if_pos rfl]
    rfl

/-! ## Streams -/

/-- The stream of these frames. -/
def stream (fs : List Frame) : GoString := fs.flatMap Frame.text

/-- The lines of the stream. -/
def streamLines (fs : List Frame) : List GoString := fs.flatMap fun f => frameLines f ++ [[]]

theorem stream_eq (fs : List Frame) : stream fs = unlines (streamLines fs) := by
  induction fs with
  | nil => rfl
  | cons f fs ih =>
    show f.text ++ stream fs = unlines ((frameLines f ++ [[]]) ++ streamLines fs)
    rw [unlines_append, ← text_eq, ih]

theorem isText_streamLines (fs : List Frame) : ∀ line ∈ streamLines fs, Json.IsText line := by
  intro line hline
  obtain ⟨f, -, hmem⟩ := List.mem_flatMap.mp hline
  rcases List.mem_append.mp hmem with hmem | hmem
  · exact isText_frameLines f line hmem
  · exact List.mem_singleton.mp hmem ▸ .nil

/-- Lines that are text are parsed as they are; the first one is no byte order mark. -/
theorem parse_unlines {ls : List GoString} (htext : ∀ line ∈ ls, Json.IsText line)
    (hmark : ∀ line ∈ ls.head?, ∀ c ∈ line.head?, c < 0x80) :
    parse (unlines ls) = Buffers.events {} ls := by
  have hplain : ∀ line ∈ ls, '\n'.toUInt8 ∉ line ∧ '\r'.toUInt8 ∉ line := by
    intro line hline
    exact ⟨fun h => absurd ((htext line hline).plain _ h) (by decide),
      fun h => absurd ((htext line hline).plain _ h) (by decide)⟩
  have hbody : body (unlines ls) = unlines ls := by
    have hnone : GoString.cutPrefix (unlines ls) byteOrderMark = none := by
      refine Option.eq_none_iff_forall_ne_some.mpr fun r hr => ?_
      have heq := GoString.cutPrefix_eq_some_iff.mp hr
      rcases ls with _ | ⟨_ | ⟨c, line⟩, ls⟩
      · cases heq
      · exact absurd (List.cons.inj heq).1 (by decide)
      · have hc : c = 0xEF := (List.cons.inj heq).1
        exact absurd (hmark _ rfl c rfl) (hc ▸ by decide)
    rw [body, hnone]
    rfl
  have hdecode : ls.map Utf8.decode = ls :=
    (List.map_congr_left fun line hline => decode_isText (htext line hline)).trans (List.map_id ls)
  rw [parse_eq, hbody, lines_unlines hplain, hdecode]

/-- No frame begins with a byte order mark. -/
theorem head_frameLines (f : Frame) (rest : List GoString) :
    ∀ line ∈ (frameLines f ++ rest).head?, ∀ c ∈ line.head?, c < 0x80 := by
  cases f <;> rintro line ⟨⟩ c hc <;> exact Option.some.inj hc ▸ by decide

theorem events_streamLines (fs : List Frame) (rest : List GoString) :
    Buffers.events {} (streamLines fs ++ rest) = fs.flatMap message ++ Buffers.events {} rest := by
  induction fs with
  | nil => rfl
  | cons f fs ih =>
    show Buffers.events {} ((frameLines f ++ [[]]) ++ streamLines fs ++ rest) = _
    rw [List.append_assoc, List.append_assoc, List.singleton_append, events_frame, ih, List.flatMap_cons,
      List.append_assoc]

/-- Whole frames, and what has arrived of the next one. -/
theorem parse_arrived (fs : List Frame) (f : Frame) {tail : GoString} (htail : tail <+: f.text)
    (hne : tail ≠ f.text) : parse (stream fs ++ tail) = fs.flatMap message := by
  have hwhole : parse (stream fs) = fs.flatMap message := by
    have hhead : ∀ line ∈ (streamLines fs).head?, ∀ c ∈ line.head?, c < 0x80 := by
      rcases fs with _ | ⟨g, fs⟩
      · exact nofun
      · rw [streamLines, List.flatMap_cons, List.append_assoc]
        exact head_frameLines g _
    rw [stream_eq, parse_unlines (isText_streamLines fs) hhead, ← List.append_nil (streamLines fs),
      events_streamLines]
    exact List.append_nil _
  -- without the last byte, nothing of the frame is dispatched
  have hpart : parse (unlines (streamLines fs ++ frameLines f)) = fs.flatMap message := by
    have htext : ∀ line ∈ streamLines fs ++ frameLines f, Json.IsText line := by
      intro line hline
      rcases List.mem_append.mp hline with hline | hline
      · exact isText_streamLines fs line hline
      · exact isText_frameLines f line hline
    have hhead : ∀ line ∈ (streamLines fs ++ frameLines f).head?, ∀ c ∈ line.head?, c < 0x80 := by
      rcases fs with _ | ⟨g, fs⟩
      · exact List.append_nil (frameLines f) ▸ head_frameLines f []
      · rw [streamLines, List.flatMap_cons, List.append_assoc, List.append_assoc]
        exact head_frameLines g _
    rw [parse_unlines htext hhead, events_streamLines,
      Buffers.events_eq_nil _ (frameLines_ne_nil f), List.append_nil]
  have hlong : stream fs ++ tail <+: unlines (streamLines fs ++ frameLines f) := by
    rw [stream_eq, unlines_append, List.prefix_append_right_inj]
    have hlast : f.text = unlines (frameLines f) ++ ['\n'.toUInt8] := by
      rw [text_eq, unlines_append]
      rfl
    rw [hlast] at htail hne
    exact List.prefix_concat_iff.mp htail |>.resolve_left hne
  refine (parse_isPrefix hlong).eq_of_length_le ?_ |>.trans hpart
  have hfront := (parse_isPrefix (List.prefix_append (stream fs) tail)).length_le
  rw [hwhole] at hfront
  rw [hpart]
  exact hfront

/-! ## What is heard -/

/-- The events of the invalidation frames. -/
def invalidations (fs : List Frame) : List Watch.Event :=
  fs.filterMap fun
    | .invalidate ev => some ev
    | _ => none

theorem kindOf_marshalEvent (ev : Watch.Event) : kindOf (marshalEvent ev) = some (Utf8.coerce ev.kind) := by
  have hascii : ∀ key ∈ (["cluster", "kind", "verb", "namespace", "name"] : List GoString),
      Utf8.coerce key = key := by
    have hall : ∀ key ∈ (["cluster", "kind", "verb", "namespace", "name"] : List GoString),
        (key.all fun c => decide (c < 0x80)) = true := by decide
    exact fun key hkey => Utf8.coerce_of_ascii (GoString.forall_mem_of_all (hall key hkey))
  simp only [List.forall_mem_cons] at hascii
  obtain ⟨hcluster, hkind, hverb, hns, hname, -⟩ := hascii
  unfold kindOf marshalEvent
  rw [Json.parse_marshalObject]
  split_ifs
  · simp only [List.map_append, List.map_cons, List.map_nil, hcluster, hkind, hverb, hname]
    rfl
  · simp only [List.map_append, List.map_cons, List.map_nil, hcluster, hkind, hverb, hns, hname]
    rfl

/-- The listener is called for the invalidation frames that have arrived as a whole. -/
theorem heard_arrived (fs : List Frame) (f : Frame) {tail : GoString} (htail : tail <+: f.text)
    (hne : tail ≠ f.text) : heard (stream fs ++ tail) =
      (invalidations fs).map fun ev => .event (some (Utf8.coerce ev.kind)) := by
  unfold heard
  rw [parse_arrived fs f htail hne]
  induction fs with
  | nil => rfl
  | cons g fs ih =>
    rw [List.flatMap_cons, List.filter_append, List.map_append, ih]
    cases g with
    | hello =>
      have hnone : ((message .hello).filter fun e => e.type = ("invalidate" : GoString)) = [] := by
        decide
      rw [hnone]
      rfl
    | invalidate ev =>
      have hone : ((message (.invalidate ev)).filter fun e => e.type = ("invalidate" : GoString)) =
          message (.invalidate ev) := by
        refine List.filter_eq_self.mpr fun e he => ?_
        rw [List.mem_singleton.mp he]
        exact decide_eq_true rfl
      rw [hone, message, List.map_singleton, kindOf_marshalEvent]
      rfl
    | ping unix => rfl

/-- Of these frames, the first `k` have arrived as a whole, and of the next one less than all of it. -/
def Arrived (fs : List Frame) (k : ℕ) (received : GoString) : Prop :=
  ∃ tail, received = stream (fs.take k) ++ tail ∧
    (tail = [] ∨ ∃ f, fs[k]? = some f ∧ tail <+: f.text ∧ tail ≠ f.text)

/-- Every part of a stream is made of whole frames and a part of the next one. -/
theorem exists_arrived : ∀ {fs : List Frame} {received : GoString}, received <+: stream fs →
    ∃ k, Arrived fs k received ∧ (received = stream fs → fs.take k = fs)
  | [], received, h => by
    obtain rfl := List.prefix_nil.mp h
    exact ⟨0, ⟨[], rfl, .inl rfl⟩, fun _ => rfl⟩
  | g :: fs, received, h => by
    by_cases hwhole : g.text <+: received
    · obtain ⟨rest, rfl⟩ := hwhole
      have hrest : rest <+: stream fs := (List.prefix_append_right_inj g.text).mp h
      obtain ⟨k, ⟨tail, rfl, htail⟩, hall⟩ := exists_arrived hrest
      refine ⟨k + 1, ⟨tail, (List.append_assoc _ _ _).symm, htail⟩, fun heq => ?_⟩
      exact congrArg (g :: ·) (hall (List.append_cancel_left heq))
    · have hshort := (List.prefix_or_prefix_of_prefix h (List.prefix_append g.text (stream fs))).resolve_right
        hwhole
      have hne : received ≠ g.text := by
        rintro rfl
        exact hwhole List.prefix_rfl
      refine ⟨0, ⟨received, rfl, .inr ⟨g, rfl, hshort, hne⟩⟩, ?_⟩
      rintro rfl
      exact absurd (List.prefix_append g.text (stream fs)) hwhole

/-- The listener is called once for each invalidation frame that has arrived as a whole. -/
theorem Arrived.heard_eq {fs : List Frame} {k : ℕ} {received : GoString} (h : Arrived fs k received) :
    heard received = (invalidations (fs.take k)).map fun ev => .event (some (Utf8.coerce ev.kind)) := by
  obtain ⟨tail, rfl, rfl | ⟨f, -, htail, hne⟩⟩ := h
  · exact heard_arrived (fs.take k) .hello List.nil_prefix (by decide +kernel)
  · exact heard_arrived (fs.take k) f htail hne

/-! ## What it does to the page -/

open Yafu.Web.Invalidation in
/-- Events that are heard leave one timer, due in full, for each of their keys, and nothing else. -/
theorem run_events (kinds : List GoString) {p : Page} (h : Inv p) (hmounted : p.mounted = true) :
    ∃ p', Transition.run step p (kinds.map fun kind => .event (some kind)) = some p' ∧ Inv p' ∧
      p'.now = p.now ∧ p'.mounted = true ∧
      ∀ key, (key ∈ kinds.flatMap keysOf → ∃ id, timersOf key p' = [⟨id, p.now + debounceMs, key⟩]) ∧
        (key ∉ kinds.flatMap keysOf → timersOf key p' = timersOf key p) := by
  induction kinds generalizing p with
  | nil =>
    exact ⟨p, rfl, h, rfl, hmounted, fun key => ⟨fun hmem => absurd hmem List.not_mem_nil, fun _ => rfl⟩⟩
  | cons kind kinds ih =>
    obtain ⟨hinv, hnow, hmounted', hkeys⟩ := h.foldl_schedule (keysOf_subset kind)
    obtain ⟨p', hrun, hinv', hnow', hmounted'', hall⟩ := ih hinv (hmounted'.trans hmounted)
    have hstep : step p (.event (some kind)) = some (onInvalidate p (some kind)) := if_pos hmounted
    refine ⟨p', Transition.run_cons_eq_some.mpr ⟨_, hstep, hrun⟩, hinv', hnow'.trans hnow, hmounted'',
      fun key => ⟨fun hmem => ?_, fun hnot => ?_⟩⟩
    · by_cases hrest : key ∈ kinds.flatMap keysOf
      · rw [← hnow]
        exact (hall key).1 hrest
      · rw [(hall key).2 hrest]
        exact (hkeys key).2 ((List.mem_append.mp hmem).resolve_right hrest)
    · rw [List.flatMap_cons, List.mem_append, not_or] at hnot
      rw [(hall key).2 hnot.2, (hkeys key).1 hnot.1]

/-- The handler writes the events that its client may get. -/
theorem authorized_of_written {ok : Watch.Event → Bool} {s s' : Stream.State} {m : Stream.Move}
    (h : ∀ ev ∈ invalidations s.written, ok ev = true) (hstep : Stream.step ok s m = some s') :
    ∀ ev ∈ invalidations s'.written, ok ev = true := by
  have hadd : ∀ f : Frame, (∀ ev, f = .invalidate ev → ok ev = true) →
      ∀ ev ∈ invalidations (s.written ++ [f]), ok ev = true := by
    intro f hf ev hev
    rw [invalidations, List.filterMap_append, List.mem_append] at hev
    rcases hev with hev | hev
    · exact h ev hev
    · cases f with
      | hello => cases hev
      | ping unix => cases hev
      | invalidate ev' =>
        obtain rfl := List.mem_singleton.mp hev
        exact hf ev rfl
  cases m with
  | publish ev =>
    simp only [Stream.step] at hstep
    split_ifs at hstep
    · obtain rfl := Option.some.inj hstep
      exact h
    · obtain rfl := Option.some.inj hstep
      exact h
  | recv =>
    cases hreturned : s.returned with
    | true => simp only [Stream.step, hreturned, reduceCtorEq] at hstep
    | false =>
      cases hbuffer : s.buffer with
      | nil => simp only [Stream.step, hreturned, hbuffer, reduceCtorEq] at hstep
      | cons ev buffer =>
        simp only [Stream.step, hreturned, hbuffer, Option.some.injEq] at hstep
        subst hstep
        simp only
        split_ifs with hok
        · refine hadd _ ?_
          rintro ev' ⟨⟩
          exact hok
        · exact h
  | heartbeat unix =>
    simp only [Stream.step] at hstep
    split_ifs at hstep
    obtain rfl := Option.some.inj hstep
    refine hadd _ fun ev heq => ?_
    cases heq
  | ctxDone =>
    simp only [Stream.step] at hstep
    split_ifs at hstep
    obtain rfl := Option.some.inj hstep
    exact h

open Yafu.Web.Invalidation in
/-- **From the hub to the page.** Wherever the stream of a handler is cut off, the listener has been
called once for each invalidation frame that has arrived as a whole, in their order and with the kind
of the frame's event, each of a cluster that its user may get, and for nothing else. The keys of these
events are due for a refresh, and the others are as they were. If all has arrived, these are all the
events that the handler has written. -/
theorem page_hears (toLower : GoString → GoString) (policy : Auth.Policy) (id : Auth.Identity)
    {ms : List Stream.Move} {s : Stream.State}
    (hrun : Transition.run (Stream.step (Stream.authorized toLower policy id)) {} ms = some s)
    {received : GoString} (h : received <+: stream s.written) {p : Page} (hinv : Inv p)
    (hmounted : p.mounted = true) :
    ∃ k p', Arrived s.written k received ∧
      (received = stream s.written → s.written.take k = s.written) ∧
      (∀ ev ∈ invalidations (s.written.take k), policy.authorize toLower id "get" ev.cluster = true) ∧
      heard received =
        (invalidations (s.written.take k)).map (fun ev => .event (some (Utf8.coerce ev.kind))) ∧
      Transition.run step p (heard received) = some p' ∧ Inv p' ∧
      ∀ key, (key ∈ (invalidations (s.written.take k)).flatMap (fun ev => keysOf (Utf8.coerce ev.kind)) →
          ∃ id, timersOf key p' = [⟨id, p.now + debounceMs, key⟩]) ∧
        (key ∉ (invalidations (s.written.take k)).flatMap (fun ev => keysOf (Utf8.coerce ev.kind)) →
          timersOf key p' = timersOf key p) := by
  obtain ⟨k, harrived, hall⟩ := exists_arrived h
  obtain ⟨p', hrun', hinv', -, -, hkeys⟩ := run_events
    ((invalidations (s.written.take k)).map fun ev => Utf8.coerce ev.kind) hinv hmounted
  rw [List.map_map] at hrun'
  simp only [List.flatMap_map] at hkeys
  have hheard := harrived.heard_eq
  refine ⟨k, p', harrived, hall, fun ev hev => ?_, hheard, ?_, hinv', hkeys⟩
  · have hauth : ∀ ev ∈ invalidations s.written, Stream.authorized toLower policy id ev = true := by
      refine Transition.run_invariant (fun _ _ _ => authorized_of_written) ?_ hrun
      exact fun ev hev => absurd hev List.not_mem_nil
    exact hauth ev (((List.take_sublist _ _).filterMap _).subset hev)
  · rw [hheard]
    exact hrun'

open Yafu.Web.Invalidation in
/-- A Kustomization of `dev` has changed: the page hears of it once, and is going to list the
applications again. -/
theorem page_hears_dev :
    heard (stream [.hello, .invalidate (Stream.kustomizationEvent "dev" "web")]) =
        [.event (some ("Kustomization" : GoString))] ∧
      ∃ p', Transition.run step {} (heard
          (stream [.hello, .invalidate (Stream.kustomizationEvent "dev" "web")])) = some p' ∧
        ∃ id, timersOf ["applications"] p' = [⟨id, 300, ["applications"]⟩] := by
  have hrun : Transition.run (Stream.step Stream.adaGets) {}
      [.publish (Stream.kustomizationEvent "dev" "web"), .recv] =
        some { written := [.hello, .invalidate (Stream.kustomizationEvent "dev" "web")] } := by
    decide +kernel
  obtain ⟨k, p', -, hall, -, hheard, hpage, -, hkeys⟩ := page_hears GoString.asciiLower Stream.devOnly
    { subject := "ada" } hrun List.prefix_rfl inv_init rfl
  have hkind : Utf8.coerce ("Kustomization" : GoString) = "Kustomization" :=
    Utf8.coerce_of_ascii (GoString.forall_mem_of_all (by decide))
  rw [hall rfl] at hheard hkeys
  refine ⟨hheard.trans ?_, p', hpage, (hkeys ["applications"]).1 ?_⟩
  · show [Label.event (some (Utf8.coerce ("Kustomization" : GoString)))] = _
    rw [hkind]
  · show _ ∈ keysOf (Utf8.coerce ("Kustomization" : GoString)) ++ []
    rw [hkind]
    decide

end Yafu.Web.LiveStream
