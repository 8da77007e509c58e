import Yafu.Api.LogStream
import Yafu.Lib.Json
import Yafu.Watch.Delivery

/-!
# The invalidation stream

Reference: `internal/api/stream.go`.

A handler holds a subscriber of the hub; it receives the events one by one and writes a frame for
those of clusters that its client may get. `step` is one move of the hub with respect to that
subscriber or of the handler (`step_of_hub`).

The policy is asked when an event leaves the buffer. Until then events of other clusters take up
room in it, and an event that the client may get is lost to them if they fill it.
-/

namespace Yafu.Api

open Yafu.Auth (Policy)
open Yafu.Watch (bufferCap)

namespace Stream

/-! ## Frames -/

/-- A frame, a comment with the time in the case of a heartbeat. -/
inductive Frame
  | hello
  | invalidate (ev : Watch.Event)
  | ping (unix : ℕ)
deriving DecidableEq, Repr

/-- `json.Marshal` of an event. -/
def marshalEvent (ev : Watch.Event) : GoString :=
  let front : List (GoString × GoString) :=
    [("cluster", ev.cluster), ("kind", ev.kind), ("verb", ev.verb)]
  let ns : List (GoString × GoString) := if ev.ns = [] then [] else [("namespace", ev.ns)]
  let name : List (GoString × GoString) := [("name", ev.name)]
  Json.marshalObject (front ++ ns ++ name)

/-- A frame as it is written. -/
def Frame.text : Frame → GoString
  | .hello => "event: hello\ndata: \x7b\x7d\n\n"
  | .invalidate ev =>
    ("event: invalidate\ndata: " : GoString) ++ marshalEvent ev ++ ("\n\n" : GoString)
  | .ping unix => (": ping " : GoString) ++ Clock.decimal unix ++ ("\n\n" : GoString)

/-! ## The handler -/

/-- The buffer of the subscriber, and what the handler has written. -/
structure State where
  buffer : List Watch.Event := []
  written : List Frame := [.hello]
  returned : Bool := false
deriving DecidableEq, Repr

/-- A call of `Publish` comes to the subscriber, or a case of the `select` of the handler. -/
inductive Move
  | publish (ev : Watch.Event)
  | recv
  | heartbeat (unix : ℕ)
  | ctxDone
deriving DecidableEq, Repr

/-- One move, where `ok` says of an event whether the client may get its cluster. -/
def step (ok : Watch.Event → Bool) (s : State) : Move → Option State
  | .publish ev =>
    -- `Publish` does not ask for whom the event is, and drops it where the buffer is full
    if s.returned then none
    else some (if s.buffer.length < bufferCap then { s with buffer := s.buffer ++ [ev] } else s)
  | .recv =>
    match s.returned, s.buffer with
    | false, ev :: buffer =>
      -- the policy is asked as late as here
      some { s with buffer, written := if ok ev then s.written ++ [.invalidate ev] else s.written }
    | _, _ => none
  | .heartbeat unix => if s.returned then none else some { s with written := s.written ++ [.ping unix] }
  | .ctxDone => if s.returned then none else some { s with returned := true }

/-- The events of the invalidation frames that are written. -/
def State.invalidations (s : State) : List Watch.Event :=
  s.written.filterMap fun
    | .invalidate ev => some ev
    | _ => none

/-- Whether a client may get the cluster of an event. -/
def authorized (toLower : GoString → GoString) (policy : Policy) (id : Auth.Identity) (ev : Watch.Event) :
    Bool :=
  policy.authorize toLower id "get" ev.cluster

/-- What `http.Error` answers for a writer that cannot be flushed. -/
def unsupported : Response where
  status := Http.statusInternalServerError
  headers := [("Content-Type", "text/plain; charset=utf-8"), ("X-Content-Type-Options", "nosniff")]
  body := .text "streaming unsupported\n"

/-- `streamHandler.serve`. -/
def serve (toLower : GoString → GoString) (policy : Policy) (r : Request) : Set Response :=
  if r.flusher then
    {resp | ∃ ms s, Transition.run (step (authorized toLower policy r.identity)) {} ms = some s ∧
      resp = { headers := streamHeaders, body := .stream (s.written.flatMap Frame.text) }}
  else {unsupported}

/-! ### The moves are those of the hub -/

/-- What a step of the hub is to the subscriber `s`. -/
def moveOf (h : Watch.Hub) (s : ℕ) : Watch.Label → Option Move
  | .send p t => if t = s then (h.publishing p).map fun c => .publish c.ev else none
  | .receive t => if t = s then some .recv else none
  | _ => none

theorem buffer_put {h : Watch.Hub} {s t : ℕ} {b b₀ b₁ : Watch.Subscriber}
    (hb : h.subscriber s = some b) (hb₀ : h.subscriber t = some b₀) (hbuffer : b₁.buffer = b₀.buffer) :
    ∃ b', (h.put t b₁).subscriber s = some b' ∧ b'.buffer = b.buffer := by
  by_cases hst : s = t
  · subst hst
    rw [hb, Option.some.injEq] at hb₀
    exact ⟨b₁, h.put_self s b₁, by rw [hbuffer, hb₀]⟩
  · exact ⟨b, by rw [h.put_ne hst, hb], rfl⟩

/-- A call of `Publish` that comes to the subscriber offers it the event. -/
theorem step_publish (ok : Watch.Event → Bool) {b : Watch.Subscriber} {st : State}
    (hst : st.buffer = b.buffer.map Watch.Sent.ev) (hopen : st.returned = false) (p : ℕ)
    (ev : Watch.Event) :
    ∃ st', step ok st (.publish ev) = some st' ∧
      st'.buffer = (b.offer ⟨p, ev⟩).buffer.map Watch.Sent.ev := by
  refine ⟨_, by simp only [step, hopen]; rfl, ?_⟩
  have hlen : st.buffer.length = b.buffer.length := by rw [hst, List.length_map]
  rw [hlen, Watch.Subscriber.offer]
  split_ifs
  · rw [List.map_append, ← hst]
    rfl
  · exact hst

/-- A step of the hub is nothing to the buffer of a subscriber, or the move that it is for the
handler. -/
theorem step_of_hub (ok : Watch.Event → Bool) {h h' : Watch.Hub} {l : Watch.Label} {s : ℕ}
    {b : Watch.Subscriber} {st : State} (hs : Watch.Sound h) (hstep : Watch.step h l = some h')
    (hb : h.subscriber s = some b) (hst : st.buffer = b.buffer.map Watch.Sent.ev)
    (hopen : st.returned = false) :
    ∃ b', h'.subscriber s = some b' ∧
      match moveOf h s l with
      | none => b'.buffer = b.buffer
      | some m => ∃ st', step ok st m = some st' ∧ st'.buffer = b'.buffer.map Watch.Sent.ev := by
  cases Watch.steps_of_step hstep with
  | send hc hb₀ hmem hunclosed =>
    rename_i p t c b₀
    simp only [moveOf]
    by_cases hts : t = s
    · subst hts
      rw [hb, Option.some.injEq] at hb₀
      subst hb₀
      rw [if_pos rfl, hc]
      exact ⟨_, h.put_self t _, step_publish ok hst hopen p c.ev⟩
    · rw [if_neg hts]
      exact ⟨b, by rw [← hb]; exact h.put_ne (Ne.symm hts) _, rfl⟩
  | receive hb₀ hbuffer =>
    rename_i t b₀ x buffer
    simp only [moveOf]
    by_cases hts : t = s
    · subst hts
      rw [hb, Option.some.injEq] at hb₀
      subst hb₀
      rw [if_pos rfl]
      rw [hbuffer, List.map_cons] at hst
      refine ⟨_, h.put_self t _,
        { st with
          buffer := buffer.map Watch.Sent.ev
          written := if ok x.ev then st.written ++ [.invalidate x.ev] else st.written }, ?_, rfl⟩
      simp only [step, hopen, hst]
    · rw [if_neg hts]
      exact ⟨b, by rw [h.put_ne (Ne.symm hts), hb], rfl⟩
  | subscribe hnone hu =>
    rename_i t
    have hst : s ≠ t := by
      rintro rfl
      rw [hb] at hnone
      cases hnone
    exact ⟨b, by rw [← hb]; exact h.put_ne hst _, rfl⟩
  | sendClosed hc hb₀ hmem hclosed =>
    rw [hs.opened_of_visit hc hb₀ hmem] at hclosed
    cases hclosed
  | begin ev => exact ⟨b, hb, rfl⟩
  | ret hc => exact ⟨b, hb, rfl⟩
  | unsubscribe hb₀ honce => exact buffer_put hb hb₀ rfl
  | unsubscribeAgain => exact ⟨b, hb, rfl⟩
  | delete hb₀ honce hu => exact buffer_put hb hb₀ rfl
  | close hb₀ honce => exact buffer_put hb hb₀ rfl
  | closeClosed hb₀ honce hclosed => exact ⟨b, hb, rfl⟩

/-! ## What the client may get -/

/-- A move as far as the client may know of it. -/
inductive Visible
  | publish (ev : Watch.Event)
  | recv
  | heartbeat (unix : ℕ)
  | ctxDone
deriving DecidableEq, Repr

section Visible

variable (ok : Watch.Event → Bool)

/-- What is left of a move without the events of other clusters. -/
def visible (s : State) : Move → Option Visible
  | .publish ev => if ok ev then some (.publish ev) else none
  | .recv =>
    match s.buffer with
    | ev :: _ => if ok ev then some .recv else none
    | [] => none
  | .heartbeat unix => some (.heartbeat unix)
  | .ctxDone => some .ctxDone

/-- The schedule of a run without the events of other clusters. -/
def schedule : State → List Move → List Visible
  | _, [] => []
  | s, m :: ms =>
    (visible ok s m).toList ++
      match step ok s m with
      | some s' => schedule s' ms
      | none => []

/-- The stream as it would be if there were no events but those that the client may get. -/
structure Filtered where
  buffer : List Watch.Event
  invalidations : List Watch.Event
deriving DecidableEq, Repr

/-- One move of it. -/
def Filtered.step (a : Filtered) : Visible → Filtered
  | .publish ev => if a.buffer.length < bufferCap then { a with buffer := a.buffer ++ [ev] } else a
  | .recv =>
    match a.buffer with
    | ev :: buffer => ⟨buffer, a.invalidations ++ [ev]⟩
    | [] => a
  | .heartbeat _ => a
  | .ctxDone => a

/-- What of a state the client may get. -/
def State.filtered (s : State) : Filtered := ⟨s.buffer.filter ok, s.invalidations⟩

/-- The move loses no event that the client may get to events of other clusters. -/
def Clean (s : State) (m : Move) : Prop :=
  ∀ ev, m = .publish ev → ok ev → bufferCap ≤ s.buffer.length → ∀ e ∈ s.buffer, ok e

variable {ok}

theorem invalidations_append (s : State) (f : Frame) :
    State.invalidations { s with written := s.written ++ [f] } =
      s.invalidations ++ match f with
        | .invalidate ev => [ev]
        | _ => [] := by
  rw [State.invalidations, List.filterMap_append]
  cases f <;> rfl

theorem visible_publish (s : State) (ev : Watch.Event) :
    visible ok s (.publish ev) = if ok ev then some (.publish ev) else none := rfl

theorem Filtered.step_publish_of_lt {a : Filtered} (h : a.buffer.length < bufferCap)
    (ev : Watch.Event) : a.step (.publish ev) = { a with buffer := a.buffer ++ [ev] } := if_pos h

theorem Filtered.step_publish_of_le {a : Filtered} (h : bufferCap ≤ a.buffer.length)
    (ev : Watch.Event) : a.step (.publish ev) = a := if_neg (Nat.not_lt.mpr h)

/-- A clean move is one of the filtered stream, or nothing to it. -/
theorem filtered_step {s s' : State} {m : Move} (hclean : Clean ok s m)
    (hstep : step ok s m = some s') :
    s'.filtered ok = match visible ok s m with
      | some v => (s.filtered ok).step v
      | none => s.filtered ok := by
  cases m with
  | publish ev =>
    simp only [step] at hstep
    by_cases hret : s.returned = true
    · rw [if_pos hret] at hstep
      cases hstep
    rw [if_neg hret, Option.some.injEq] at hstep
    rw [visible_publish]
    by_cases hroom : s.buffer.length < bufferCap
    · rw [if_pos hroom] at hstep
      -- the filtered buffer is no longer, so it has room too
      have hlen : (s.buffer.filter ok).length < bufferCap :=
        Nat.lt_of_le_of_lt (List.length_filter_le ok s.buffer) hroom
      have hfiltered : s'.filtered ok = ⟨(s.buffer ++ [ev]).filter ok, s.invalidations⟩ := by
        rw [← hstep]
        rfl
      rw [hfiltered, List.filter_append]
      by_cases hok : ok ev
      · rw [if_pos hok, List.filter_cons_of_pos hok]
        exact (Filtered.step_publish_of_lt (a := s.filtered ok) hlen ev).symm
      · rw [if_neg hok, List.filter_cons_of_neg hok, List.filter_nil, List.append_nil]
        rfl
    · rw [if_neg hroom] at hstep
      rw [← hstep]
      by_cases hok : ok ev
      · -- it is full of events that the client may get
        have hall : s.buffer.filter ok = s.buffer :=
          List.filter_eq_self.mpr (hclean ev rfl hok (Nat.not_lt.mp hroom))
        rw [if_pos hok]
        refine (Filtered.step_publish_of_le (a := s.filtered ok) ?_ ev).symm
        show bufferCap ≤ (s.buffer.filter ok).length
        rw [hall]
        exact Nat.not_lt.mp hroom
      · rw [if_neg hok]
  | recv =>
    simp only [step] at hstep
    split at hstep
    · rename_i ev buffer hret hbuffer
      rw [Option.some.injEq] at hstep
      have hold : s.filtered ok = ⟨(ev :: buffer).filter ok, s.invalidations⟩ := by
        rw [State.filtered, hbuffer]
      rw [← hstep, hold]
      simp only [visible, hbuffer, State.filtered]
      by_cases hok : ok ev
      · simp only [if_pos hok, List.filter_cons_of_pos hok, Filtered.step]
        exact congrArg _ (invalidations_append { s with buffer } (.invalidate ev))
      · simp only [if_neg hok, List.filter_cons_of_neg hok]
        rfl
    · cases hstep
  | heartbeat unix =>
    simp only [step] at hstep
    split_ifs at hstep with hret
    rw [Option.some.injEq] at hstep
    rw [← hstep]
    simp only [visible, State.filtered, Filtered.step, invalidations_append, List.append_nil]
  | ctxDone =>
    simp only [step] at hstep
    split_ifs at hstep with hret
    rw [Option.some.injEq] at hstep
    rw [← hstep]
    rfl

/-- In a clean run the filtered stream goes through the schedule. -/
theorem filtered_run : ∀ {s s' : State} {ms : List Move}, Transition.Along (step ok) (Clean ok) s ms →
    Transition.run (step ok) s ms = some s' →
    s'.filtered ok = (schedule ok s ms).foldl Filtered.step (s.filtered ok)
  | s, s', [], _, hrun => by
    rw [Transition.run_nil, Option.some.injEq] at hrun
    rw [hrun]
    rfl
  | s, s', m :: ms, ⟨hclean, halong⟩, hrun => by
    obtain ⟨k, hk, hrest⟩ := Transition.run_cons_eq_some.mp hrun
    have hstep := filtered_step hclean hk
    rw [filtered_run (halong k hk) hrest, schedule, hk, List.foldl_append]
    cases hv : visible ok s m with
    | none =>
      rw [hv] at hstep
      rw [hstep]
      rfl
    | some v =>
      rw [hv] at hstep
      rw [hstep]
      rfl

theorem clean_of_room {s : State} {m : Move} (h : s.buffer.length < bufferCap) : Clean ok s m :=
  fun _ _ _ hfull => absurd h (Nat.not_lt.mpr hfull)

end Visible

/-- **Non-interference of the stream.** Two clean runs with the same schedule, up to the events of
clusters that the client may not get, write the same invalidation frames. -/
theorem stream_nonInterference (toLower : GoString → GoString) (policy : Policy) (id : Auth.Identity)
    {ms₁ ms₂ : List Move} {s₁ s₂ : State}
    (hrun₁ : Transition.run (step (authorized toLower policy id)) {} ms₁ = some s₁)
    (hrun₂ : Transition.run (step (authorized toLower policy id)) {} ms₂ = some s₂)
    (hschedule : schedule (authorized toLower policy id) {} ms₁ =
      schedule (authorized toLower policy id) {} ms₂)
    (hclean₁ : Transition.Along (step (authorized toLower policy id))
      (Clean (authorized toLower policy id)) {} ms₁)
    (hclean₂ : Transition.Along (step (authorized toLower policy id))
      (Clean (authorized toLower policy id)) {} ms₂) :
    s₁.invalidations = s₂.invalidations := by
  have hfiltered : s₁.filtered (authorized toLower policy id) =
      s₂.filtered (authorized toLower policy id) := by
    rw [filtered_run hclean₁ hrun₁, filtered_run hclean₂ hrun₂, hschedule]
  exact congrArg Filtered.invalidations hfiltered

/-! ## A busy cluster -/

/-- The policy that lets one user get `dev`. -/
def devOnly : Policy where
  defaultAction := Auth.actionDeny
  rules := [⟨["user:ada"], ["get"], ["dev"], Auth.actionAllow⟩]

/-- What that user may get. -/
def adaGets : Watch.Event → Bool := authorized GoString.asciiLower devOnly { subject := "ada" }

/-- An event of a Kustomization in a cluster. -/
def kustomizationEvent (cluster name : GoString) : Watch.Event :=
  ⟨cluster, "Kustomization", "MODIFIED", "flux-system", name⟩

/-- Two events of `dev`, of which the handler receives one. -/
def quietMoves : List Move :=
  [.publish (kustomizationEvent "dev" "web"), .publish (kustomizationEvent "dev" "db"), .recv]

/-- The same, with events of `prod` before the first that fill the buffer. -/
def busyMoves : List Move :=
  List.replicate 64 (.publish (kustomizationEvent "prod" "web")) ++
    .publish (kustomizationEvent "dev" "web") :: List.replicate 64 .recv ++
    [.publish (kustomizationEvent "dev" "db"), .recv]

/-- A user who may only get `dev` reads from the frames how busy `prod` is. -/
theorem stream_interference :
    ¬ ∀ (toLower : GoString → GoString) (policy : Policy) (id : Auth.Identity)
      (ms₁ ms₂ : List Move) (s₁ s₂ : State),
      let ok := authorized toLower policy id
      Transition.run (step ok) {} ms₁ = some s₁ → Transition.run (step ok) {} ms₂ = some s₂ →
        schedule ok {} ms₁ = schedule ok {} ms₂ → s₁.invalidations = s₂.invalidations := by
  intro h
  have hbusy : Transition.run (step adaGets) {} busyMoves =
      some { written := [.hello, .invalidate (kustomizationEvent "dev" "db")] } := by decide +kernel
  have hquiet : Transition.run (step adaGets) {} quietMoves =
      some
        { buffer := [kustomizationEvent "dev" "db"]
          written := [.hello, .invalidate (kustomizationEvent "dev" "web")] } := by decide +kernel
  have hschedule : schedule adaGets {} busyMoves = schedule adaGets {} quietMoves := by
    decide +kernel
  have hsame := h _ _ _ _ _ _ _ hbusy hquiet hschedule
  exact absurd hsame (by decide +kernel)

/-- One event of `prod` in front makes no difference. -/
theorem stream_nonInterference_calm :
    ∃ s₁ s₂, Transition.run (step adaGets) {} [.publish (kustomizationEvent "prod" "web"), .recv,
        .publish (kustomizationEvent "dev" "web"), .recv] = some s₁ ∧
      Transition.run (step adaGets) {} [.publish (kustomizationEvent "dev" "web"), .recv] = some s₂ ∧
      s₁.invalidations = s₂.invalidations := by
  have hprod : step adaGets {} (.publish (kustomizationEvent "prod" "web")) =
      some { buffer := [kustomizationEvent "prod" "web"] } := rfl
  have hskip : step adaGets { buffer := [kustomizationEvent "prod" "web"] } .recv = some {} := by
    decide +kernel
  have hdev : step adaGets {} (.publish (kustomizationEvent "dev" "web")) =
      some { buffer := [kustomizationEvent "dev" "web"] } := rfl
  have hwrite : step adaGets { buffer := [kustomizationEvent "dev" "web"] } .recv =
      some { written := [.hello, .invalidate (kustomizationEvent "dev" "web")] } := by
    decide +kernel
  have hrun : Transition.run (step adaGets) {} [.publish (kustomizationEvent "dev" "web"), .recv] =
      some { written := [.hello, .invalidate (kustomizationEvent "dev" "web")] } := by
    simp only [Transition.run, hdev, hwrite, Option.bind_some]
  have hrun' : Transition.run (step adaGets) {} [.publish (kustomizationEvent "prod" "web"), .recv,
      .publish (kustomizationEvent "dev" "web"), .recv] =
      some { written := [.hello, .invalidate (kustomizationEvent "dev" "web")] } := by
    simp only [Transition.run, hprod, hskip, hdev, hwrite, Option.bind_some]
  have hclean : Transition.Along (step adaGets) (Clean adaGets) {}
      [.publish (kustomizationEvent "dev" "web"), .recv] :=
    .cons (clean_of_room (by decide)) hdev (.cons (clean_of_room (by decide)) hwrite trivial)
  refine ⟨_, _, hrun', hrun, ?_⟩
  exact stream_nonInterference GoString.asciiLower devOnly { subject := "ada" } hrun' hrun
    (by decide +kernel)
    (.cons (clean_of_room (by decide)) hprod (.cons (clean_of_room (by decide)) hskip hclean)) hclean

end Stream

end Yafu.Api
