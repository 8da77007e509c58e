import Yafu.Api.LogStream
import Mathlib.Logic.Function.Basic

/-!
# The live view of a log

Reference: `LogsTab`, `useLogStream` and `buildStreamURL` in `web/src/pages/AppDetail.tsx`;
`logsStream` in `internal/api/logs.go` for the frames of a connection.

`step` is one event: a line is logged, the server answers a request or sends a frame, a connection
is lost, the query of the tab has new data, the user chooses, or React commits a render and runs the
effects. A line in the buffer is known by the log it is of and its place there; the hook holds its
text only.

A request has no place in the log to go on from: each connection starts with the last 100 lines, and
an `EventSource` makes a new one whenever a connection ends but for a `close` frame, or cannot be made.
-/

namespace Yafu.Web.LogView

open Transition (run Along)
open Yafu.Api (containerSuffix)

/-! ## The tab -/

/-- What `LogsTab` reads of a `LogsResponse`. -/
structure LogsData where
  selected : Option GoString := none
  container : Option GoString := none
deriving DecidableEq, Repr

/-- The state of `LogsTab`, with the data of its query. -/
structure LogsTab where
  pod : Option GoString := none
  container : Option GoString := none
  live : Bool := false
  data : Option LogsData := none
deriving DecidableEq, Repr

/-- The parameters of a URL of `buildStreamURL`; the rest of it is the path of the application. -/
structure StreamURL where
  pod : GoString
  container : Option GoString := none
deriving DecidableEq, Repr

/-- A value of JavaScript that is not falsy, of a string that may be undefined. -/
def truthy (s : Option GoString) : Option GoString := s.filter (· ≠ [])

/-- `buildStreamURL`. -/
def buildStreamURL (pod container : Option GoString) : Option StreamURL :=
  (truthy pod).map fun pod => ⟨pod, truthy container⟩

/-- `activePod`. -/
def LogsTab.activePod (t : LogsTab) : Option GoString := t.pod <|> t.data.bind (·.selected)

/-- `activeContainer`. -/
def LogsTab.activeContainer (t : LogsTab) : Option GoString :=
  t.container <|> t.data.bind (·.container)

/-- The argument of `useLogStream`. -/
def LogsTab.url (t : LogsTab) : Option StreamURL :=
  if t.live then buildStreamURL t.activePod t.activeContainer else none

/-! ## The stream -/

/-- How many of the last lines a connection starts with, `tailLines`. -/
def tailLines : ℕ := 100

/-- How many lines the hook holds. -/
@[irreducible] def maxLines : ℕ := 1000

/-- Where an `EventSource` is: it makes a request, has an answer whose `open` frame is to come,
reads the lines from a place on, has an `error` frame, or is closed. -/
inductive Phase
  | connecting
  | opening (next : ℕ)
  | streaming (next : ℕ)
  | failed
  | closed
deriving DecidableEq, Repr

/-- An `EventSource`, and whether a terminal frame has come to it. -/
structure EventSource where
  url : StreamURL
  phase : Phase := .connecting
  terminated : Bool := false
deriving DecidableEq, Repr

/-- A line in the buffer: a marker, or the line of a log at a place. -/
inductive Item (σ : Type*)
  | marker (text : GoString)
  | line (source : σ) (index : ℕ) (text : GoString)
deriving DecidableEq, Repr

/-- The place of a line. -/
def Item.index {σ : Type*} : Item σ → Option ℕ
  | .marker _ => none
  | .line _ i _ => some i

/-- `slice(-1000)`. -/
def lastLines {α : Type*} (l : List α) : List α := l.drop (l.length - maxLines)

/-- The logs so far, and the view: the tab, what the last committed render had, the `EventSource`,
and the state of the hook. `received` is all that was appended since the buffer was cleared. -/
structure World (σ : Type*) where
  logs : σ → List GoString
  tab : LogsTab := {}
  committedLive : Bool := false
  es : Option EventSource := none
  lines : List (Item σ) := []
  received : List (Item σ) := []
  error : Option GoString := none

variable {σ : Type*}

namespace World

/-- `append`. -/
def append (w : World σ) (x : Item σ) : World σ :=
  { w with lines := lastLines (w.lines ++ [x]), received := w.received ++ [x] }

/-- `clear`. -/
def clear (w : World σ) : World σ := { w with lines := [], received := [], error := none }

/-- The `EventSource` as it is now. -/
def setES (w : World σ) (es : EventSource) : World σ := { w with es := some es }

/-- `onerror` without data. -/
def connectionLost (w : World σ) : World σ :=
  { w with error := w.error <|> some ("connection lost" : GoString) }

/-- The effect of `useLogStream`, with the cleanup of the last one. -/
def connectEffect (w : World σ) : World σ :=
  if w.es.map EventSource.url = w.tab.url then w
  else
    match w.tab.url with
    | none => { w with es := none }
    -- `setError` and a new `EventSource`, but the buffer stays
    | some url => { w with es := some { url }, error := none }

/-- The effect of `LogsTab`. -/
def liveEffect (w : World σ) : World σ :=
  if w.tab.live = w.committedLive then w
  else if w.tab.live then { w with committedLive := true }
  else { w with committedLive := false }.clear

end World

/-- What the server says first of a connection. -/
def openText (url : StreamURL) : GoString :=
  ("streaming " : GoString) ++ url.pod ++ containerSuffix (url.container.getD [])

/-- An event. -/
inductive Event (σ : Type*)
  | log (source : σ) (line : GoString)
  | request
  | refuse
  | openFrame
  | lineFrame
  | closeFrame
  | errorFrame (err : GoString)
  | lose
  | poll (data : Option LogsData)
  | choosePod (value : GoString) (data : Option LogsData)
  | chooseContainer (value : GoString) (data : Option LogsData)
  | setLive (live : Bool)
  | commit
deriving DecidableEq, Repr

variable (source : StreamURL → σ)

/-- What a frame or an answer does to the `EventSource`. -/
def receive (w : World σ) (es : EventSource) : Event σ → Option (World σ)
  | .request =>
    match es.phase with
    | .connecting =>
      some (w.setES { es with phase := .opening ((w.logs (source es.url)).length - tailLines) })
    | _ => none
  | .refuse =>
    match es.phase with
    -- an answer that is no event stream fails the connection for good
    | .connecting => some (w.setES { es with phase := .closed }).connectionLost
    | _ => none
  | .openFrame =>
    match es.phase with
    | .opening next =>
      some ((w.setES { es with phase := .streaming next }).append
        (.marker (("# " : GoString) ++ openText es.url)))
    | _ => none
  | .lineFrame =>
    match es.phase with
    | .streaming next =>
      (w.logs (source es.url))[next]?.map fun text =>
        (w.setES { es with phase := .streaming (next + 1) }).append (.line (source es.url) next text)
    | _ => none
  | .closeFrame =>
    match es.phase with
    | .streaming next =>
      -- the listener of `close` closes the `EventSource`
      if next = (w.logs (source es.url)).length then
        some (w.setES { es with phase := .closed, terminated := true })
      else none
    | _ => none
  | .errorFrame err =>
    match es.phase with
    | .streaming next =>
      -- the listener of `error` and then `onerror` run, and neither closes it
      if next = (w.logs (source es.url)).length then
        let failed := w.setES { es with phase := .failed, terminated := true }
        some (if err = [] then failed.connectionLost else { failed with error := some err })
      else none
    | _ => none
  | .lose =>
    match es.phase with
    | .closed => none
    -- the browser connects again by itself, also if it could not connect at all
    | _ => some (w.setES { es with phase := .connecting }).connectionLost
  | _ => none

/-- One event. The data of the query after a choice is what its cache has under the new key. -/
def step [DecidableEq σ] (w : World σ) : Event σ → Option (World σ)
  | .log s line => some { w with logs := Function.update w.logs s (w.logs s ++ [line]) }
  | .poll data => some { w with tab := { w.tab with data } }
  | .choosePod value data =>
    some { w with tab := { w.tab with pod := truthy (some value), container := none, data } }.clear
  | .chooseContainer value data =>
    some { w with tab := { w.tab with container := truthy (some value), data } }.clear
  | .setLive live => some { w with tab := { w.tab with live } }
  -- the effects of a render run in the order of the hooks
  | .commit => some w.connectEffect.liveEffect
  | ev => w.es.bind fun es => receive source w es ev

/-! ## Faithful views -/

/-- What the view is to hold: the newest lines it was sent, lines of the log that is streamed now,
none twice and in the order of the log; and an `EventSource` to which a terminal frame has come
makes no request. -/
structure Faithful [DecidableEq σ] (w : World σ) : Prop where
  newest : w.lines = lastLines w.received
  current : ∀ es, w.es = some es → ∀ s i text, .line s i text ∈ w.lines →
    s = source es.url ∧ (w.logs s)[i]? = some text
  ordered : (w.lines.filterMap Item.index).Pairwise (· < ·)
  stopped : ∀ es, w.es = some es → es.terminated = true → step source w .request = none

/-- When an `EventSource` is opened the buffer has no line of another log; when a request is
answered it has none of the last 100 lines; and no connection ends after an `error` frame. -/
def Permitted (w : World σ) : Event σ → Prop
  | .commit => ∀ url, w.tab.url = some url → w.es.map EventSource.url ≠ some url →
      ∀ s i text, .line s i text ∈ w.lines → s = source url
  | .request => ∀ es, w.es = some es → ∀ s i text, .line s i text ∈ w.lines →
      i < (w.logs (source es.url)).length - tailLines
  | .lose => ∀ es, w.es = some es → es.phase ≠ .failed
  | _ => True

/-- The place that a connection reads from next. -/
def Phase.next : Phase → Option ℕ
  | .opening next => some next
  | .streaming next => some next
  | _ => none

/-- A view is faithful, and a connection reads behind what it holds. -/
structure Sound (w : World σ) : Prop where
  newest : w.lines = lastLines w.received
  stored : ∀ s i text, .line s i text ∈ w.lines → (w.logs s)[i]? = some text
  current : ∀ es, w.es = some es → ∀ s i text, .line s i text ∈ w.lines → s = source es.url
  ordered : (w.lines.filterMap Item.index).Pairwise (· < ·)
  ahead : ∀ es, w.es = some es → ∀ n, es.phase.next = some n →
    ∀ i ∈ w.lines.filterMap Item.index, i < n
  stopped : ∀ es, w.es = some es → es.terminated = true → es.phase = .failed ∨ es.phase = .closed

variable {source} {w w' : World σ} {es es' : EventSource}

theorem lastLines_nil {α : Type*} : lastLines ([] : List α) = [] := List.drop_nil

theorem lastLines_concat {α : Type*} (l : List α) (x : α) :
    lastLines (lastLines l ++ [x]) = lastLines (l ++ [x]) := by
  rw [lastLines, lastLines, lastLines, List.length_append, List.length_append, List.length_drop,
    List.length_singleton]
  rcases Nat.le_total l.length maxLines with hle | hle
  · rw [Nat.sub_eq_zero_of_le hle, List.drop_zero, Nat.sub_zero]
  · have hkept : l.length - (l.length - maxLines) + 1 - maxLines = 1 := by omega
    have hall : l.length + 1 - maxLines = l.length - maxLines + 1 := by omega
    rw [hkept, hall, ← List.drop_append_of_le_length (Nat.sub_le _ _), List.drop_drop]

theorem sound_new (logs : σ → List GoString) : Sound source { logs } where
  newest := lastLines_nil.symm
  stored _ _ _ h := by cases h
  current _ h := by cases h
  ordered := List.Pairwise.nil
  ahead _ h := by cases h
  stopped _ h := by cases h

/-- Nothing but the logs, the buffer and the `EventSource` counts. -/
theorem Sound.of_eq (hs : Sound source w) (hlogs : w'.logs = w.logs) (hes : w'.es = w.es)
    (hlines : w'.lines = w.lines) (hreceived : w'.received = w.received) : Sound source w' where
  newest := by rw [hlines, hreceived, hs.newest]
  stored := by rw [hlogs, hlines]; exact hs.stored
  current := by rw [hes, hlines]; exact hs.current
  ordered := by rw [hlines]; exact hs.ordered
  ahead := by rw [hes, hlines]; exact hs.ahead
  stopped := by rw [hes]; exact hs.stopped

/-- The buffer is cleared. -/
theorem Sound.clear (hs : Sound source w) : Sound source w.clear where
  newest := lastLines_nil.symm
  stored _ _ _ h := by cases h
  current _ _ _ _ _ h := by cases h
  ordered := List.Pairwise.nil
  ahead _ _ _ _ _ h := by cases h
  stopped := hs.stopped

/-- The `EventSource` goes on with the same URL. -/
theorem Sound.setES (hs : Sound source w) (hes : w.es = some es) (hurl : es'.url = es.url)
    (hahead : ∀ n, es'.phase.next = some n → ∀ i ∈ w.lines.filterMap Item.index, i < n)
    (hstopped : es'.terminated = true → es'.phase = .failed ∨ es'.phase = .closed) :
    Sound source (w.setES es') where
  newest := hs.newest
  stored := hs.stored
  current := by
    intro es'' h
    obtain rfl : es' = es'' := Option.some.inj h
    rw [hurl]
    exact hs.current es hes
  ordered := hs.ordered
  ahead := by
    intro es'' h
    obtain rfl : es' = es'' := Option.some.inj h
    exact hahead
  stopped := by
    intro es'' h
    obtain rfl : es' = es'' := Option.some.inj h
    exact hstopped

/-- Something is appended that may stand at the end. -/
theorem Sound.append (hs : Sound source w) {x : Item σ}
    (hx : ∀ s i text, x = .line s i text → (w.logs s)[i]? = some text ∧
      (∀ es, w.es = some es → s = source es.url ∧ ∀ n, es.phase.next = some n → i < n) ∧
      ∀ j ∈ w.lines.filterMap Item.index, j < i) : Sound source (w.append x) := by
  have hmem : ∀ {y}, y ∈ lastLines (w.lines ++ [x]) → y ∈ w.lines ∨ y = x := fun hy => by
    rw [← List.mem_singleton, ← List.mem_append]
    exact List.mem_of_mem_drop hy
  have hsub : List.Sublist ((lastLines (w.lines ++ [x])).filterMap Item.index)
      (w.lines.filterMap Item.index ++ x.index.toList) := by
    have heq : (w.lines ++ [x]).filterMap Item.index =
        w.lines.filterMap Item.index ++ x.index.toList := by
      rw [List.filterMap_append]
      cases x <;> rfl
    rw [← heq]
    exact (List.drop_sublist _ _).filterMap _
  have hlast : ∀ i ∈ x.index.toList, ∃ s text, x = .line s i text := by
    intro i hi
    cases x with
    | marker => cases hi
    | line s j text =>
      rw [List.mem_singleton.mp hi]
      exact ⟨s, text, rfl⟩
  refine
    { newest := ?_
      stored := fun s i text h => ?_
      current := fun es hes s i text h => ?_
      ordered := ?_
      ahead := fun es hes n hn i hi => ?_
      stopped := hs.stopped }
  · show lastLines (w.lines ++ [x]) = lastLines (w.received ++ [x])
    rw [hs.newest, lastLines_concat]
  · rcases hmem h with h | h
    · exact hs.stored s i text h
    · exact (hx s i text h.symm).1
  · rcases hmem h with h | h
    · exact hs.current es hes s i text h
    · exact ((hx s i text h.symm).2.1 es hes).1
  · refine List.Pairwise.sublist hsub (List.pairwise_append.mpr ⟨hs.ordered, ?_, fun j hj i hi => ?_⟩)
    · cases x <;> simp [Item.index]
    · obtain ⟨s, text, hline⟩ := hlast i hi
      exact (hx s i text hline).2.2 j hj
  · rcases List.mem_append.mp (hsub.subset hi) with hi | hi
    · exact hs.ahead es hes n hn i hi
    · obtain ⟨s, text, hline⟩ := hlast i hi
      exact ((hx s i text hline).2.1 es hes).2 n hn

/-- An effect that opens another `EventSource` finds no line of another log. -/
theorem Sound.connectEffect (hs : Sound source w) (hp : Permitted source w .commit) :
    Sound source w.connectEffect := by
  rw [World.connectEffect]
  split_ifs with hsame
  · exact hs
  · split
    · exact
        { newest := hs.newest
          stored := hs.stored
          current := fun _ h => by cases h
          ordered := hs.ordered
          ahead := fun _ h => by cases h
          stopped := fun _ h => by cases h }
    · rename_i url hurl
      have hlines := hp url hurl (hurl ▸ hsame)
      refine
        { newest := hs.newest
          stored := hs.stored
          current := fun es h => ?_
          ordered := hs.ordered
          ahead := fun es h => ?_
          stopped := fun es h => ?_ }
      all_goals obtain rfl : { url } = es := Option.some.inj h
      · exact hlines
      · exact fun _ hn => nomatch hn
      · exact fun hterminated => nomatch hterminated

theorem Sound.liveEffect (hs : Sound source w) : Sound source w.liveEffect := by
  rw [World.liveEffect]
  split_ifs
  · exact hs
  · exact hs.of_eq rfl rfl rfl rfl
  · exact hs.clear.of_eq rfl rfl rfl rfl

theorem Sound.connectionLost (hs : Sound source w) : Sound source w.connectionLost :=
  hs.of_eq rfl rfl rfl rfl

/-- No terminal frame has come to an `EventSource` that goes on. -/
theorem Sound.not_terminated (hs : Sound source w) (hes : w.es = some es)
    (hfailed : es.phase ≠ .failed) (hclosed : es.phase ≠ .closed) : ¬ es.terminated = true :=
  fun hterminated => (hs.stopped es hes hterminated).elim hfailed hclosed

/-- An `EventSource` to which no terminal frame has come goes on in another phase. -/
theorem Sound.setPhase (hs : Sound source w) (hes : w.es = some es) (hfailed : es.phase ≠ .failed)
    (hclosed : es.phase ≠ .closed) {phase : Phase}
    (hahead : ∀ n, phase.next = some n → ∀ i ∈ w.lines.filterMap Item.index, i < n) :
    Sound source (w.setES { es with phase }) :=
  hs.setES hes rfl hahead fun hterminated =>
    (hs.not_terminated hes hfailed hclosed hterminated).elim

theorem mem_index {i : ℕ} (hi : i ∈ w.lines.filterMap Item.index) :
    ∃ s text, .line s i text ∈ w.lines := by
  obtain ⟨x, hx, hindex⟩ := List.mem_filterMap.mp hi
  cases x with
  | marker => cases hindex
  | line s j text =>
    rw [Item.index, Option.some.injEq] at hindex
    exact ⟨s, text, hindex ▸ hx⟩

/-- The next line of the log comes behind all that the buffer has. -/
theorem Sound.lineFrame (hs : Sound source w) (hes : w.es = some es) {next : ℕ} {text : GoString}
    (hphase : es.phase = .streaming next) (htext : (w.logs (source es.url))[next]? = some text) :
    Sound source ((w.setES { es with phase := .streaming (next + 1) }).append
      (.line (source es.url) next text)) := by
  have hbehind := hs.ahead es hes next (by rw [hphase]; rfl)
  have hset : Sound source (w.setES { es with phase := .streaming (next + 1) }) := by
    refine hs.setPhase hes (by simp [hphase]) (by simp [hphase]) fun n hn i hi => ?_
    rw [← Option.some.inj hn]
    exact Nat.lt_succ_of_lt (hbehind i hi)
  refine hset.append fun s i text' hx => ?_
  rw [Item.line.injEq] at hx
  obtain ⟨rfl, rfl, rfl⟩ := hx
  refine ⟨htext, fun es' hes' => ?_, hbehind⟩
  obtain rfl := Option.some.inj hes'
  refine ⟨rfl, fun n hn => ?_⟩
  rw [← Option.some.inj hn]
  exact Nat.lt_succ_self _

/-- A frame or an answer. -/
theorem sound_receive {ev : Event σ} (hs : Sound source w) (hes : w.es = some es)
    (hp : Permitted source w ev) (h : receive source w es ev = some w') : Sound source w' := by
  cases ev with
  | request =>
    simp only [receive] at h
    split at h
    · rename_i hphase
      cases h
      refine hs.setPhase hes (by simp [hphase]) (by simp [hphase]) fun n hn i hi => ?_
      -- the new connection starts behind the buffer
      obtain ⟨s, text, hmem⟩ := mem_index hi
      rw [← Option.some.inj hn]
      exact hp es hes s i text hmem
    · cases h
  | refuse =>
    simp only [receive] at h
    split at h
    · cases h
      have hset : Sound source (w.setES { es with phase := .closed }) :=
        hs.setES hes rfl (fun _ hn => nomatch hn) fun _ => .inr rfl
      exact hset.connectionLost
    · cases h
  | openFrame =>
    simp only [receive] at h
    split at h
    · rename_i next hphase
      cases h
      have hset : Sound source (w.setES { es with phase := .streaming next }) := by
        refine hs.setPhase hes (by simp [hphase]) (by simp [hphase]) fun n hn => ?_
        rw [← Option.some.inj hn]
        exact hs.ahead es hes next (by rw [hphase]; rfl)
      -- a marker is no line
      exact hset.append fun _ _ _ hx => by cases hx
    · cases h
  | lineFrame =>
    simp only [receive] at h
    split at h
    · rename_i next hphase
      obtain ⟨text, htext, rfl⟩ := Option.map_eq_some_iff.mp h
      exact hs.lineFrame hes hphase htext
    · cases h
  | closeFrame =>
    simp only [receive] at h
    split at h
    · split_ifs at h
      cases h
      exact hs.setES hes rfl (fun _ hn => nomatch hn) fun _ => .inr rfl
    · cases h
  | errorFrame err =>
    simp only [receive] at h
    split at h
    · have hset : Sound source (w.setES { es with phase := .failed, terminated := true }) :=
        hs.setES hes rfl (fun _ hn => nomatch hn) fun _ => .inl rfl
      split_ifs at h
      · cases h
        exact hset.connectionLost
      · cases h
        exact hset.of_eq rfl rfl rfl rfl
    · cases h
  | lose =>
    have hnot := hp es hes
    simp only [receive] at h
    split at h
    · cases h
    · rename_i hclosed
      cases h
      have hset : Sound source (w.setES { es with phase := .connecting }) :=
        hs.setPhase hes hnot hclosed fun _ hn => nomatch hn
      exact hset.connectionLost
  | log => cases h
  | poll => cases h
  | choosePod => cases h
  | chooseContainer => cases h
  | setLive => cases h
  | commit => cases h

variable [DecidableEq σ]

theorem sound_step {ev : Event σ} (hs : Sound source w) (hp : Permitted source w ev)
    (h : step source w ev = some w') : Sound source w' := by
  have hreceive : (w.es.bind fun es => receive source w es ev) = some w' → Sound source w' := by
    intro h
    obtain ⟨es, hes, h⟩ := Option.bind_eq_some_iff.mp h
    exact sound_receive hs hes hp h
  cases ev with
  | log s line =>
    rw [step, Option.some.injEq] at h
    rw [← h]
    refine ⟨hs.newest, fun s' i text hmem => ?_, hs.current, hs.ordered, hs.ahead, hs.stopped⟩
    -- a log only grows
    have hold := hs.stored s' i text hmem
    by_cases hsame : s' = s
    · subst hsame
      show (Function.update w.logs s' _ s')[i]? = some text
      rw [Function.update_self, List.getElem?_append_left (List.getElem?_eq_some_iff.mp hold).1]
      exact hold
    · show (Function.update w.logs s _ s')[i]? = some text
      rw [Function.update_of_ne hsame]
      exact hold
  | poll data =>
    rw [step, Option.some.injEq] at h
    exact h ▸ hs.of_eq rfl rfl rfl rfl
  | choosePod value data =>
    rw [step, Option.some.injEq] at h
    exact h ▸ hs.clear.of_eq rfl rfl rfl rfl
  | chooseContainer value data =>
    rw [step, Option.some.injEq] at h
    exact h ▸ hs.clear.of_eq rfl rfl rfl rfl
  | setLive live =>
    rw [step, Option.some.injEq] at h
    exact h ▸ hs.of_eq rfl rfl rfl rfl
  | commit =>
    rw [step, Option.some.injEq] at h
    exact h ▸ (hs.connectEffect hp).liveEffect
  | request => exact hreceive h
  | refuse => exact hreceive h
  | openFrame => exact hreceive h
  | lineFrame => exact hreceive h
  | closeFrame => exact hreceive h
  | errorFrame err => exact hreceive h
  | lose => exact hreceive h

end Yafu.Web.LogView
