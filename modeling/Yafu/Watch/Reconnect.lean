import Yafu.Watch.Hub
import Mathlib.Data.Finset.Basic

/-!
# Watch streams and reconnects

Reference: `internal/watch/watcher.go`.

`watchKind` and `consume` for one kind of one cluster, beside the objects of the kind and the end of
the stream that the API server holds. A watch without `resourceVersion` first delivers one `ADDED`
for each object that exists, then every change until it ends; what the watcher has not received waits
in the channel.
-/

namespace Yafu.Watch.Reconnect

open Transition

/-- Namespace and name of an object of the kind. -/
structure ObjectKey where
  ns : GoString
  name : GoString
deriving DecidableEq, Repr

/-- A change of an object of the kind. -/
inductive Change
  | create
  | update
  | delete
deriving DecidableEq, Repr

/-- The `watch.EventType` of the change. -/
def Change.eventType : Change → GoString
  | .create => "ADDED"
  | .update => "MODIFIED"
  | .delete => "DELETED"

/-- The objects after the change, `none` where the server does not take it. -/
def Change.apply (objects : Finset ObjectKey) (key : ObjectKey) : Change → Option (Finset ObjectKey)
  | .create => if key ∈ objects then none else some (insert key objects)
  | .update => if key ∈ objects then some objects else none
  | .delete => if key ∈ objects then some (objects.erase key) else none

/-- `apiwatch.Event`; `object` is there if it is a `client.Object`. -/
structure WatchEvent where
  type : GoString
  object : Option ObjectKey
deriving DecidableEq, Repr

/-- `apiwatch.Error`. -/
def errorType : GoString := "ERROR"

/-- What `isNoKindError` tells apart. -/
inductive WatchError
  | noKindMatch
  | noResourceMatch
  | other
deriving DecidableEq, Repr

/-- `isNoKindError`. -/
def isNoKindError : WatchError → Bool
  | .noKindMatch => true
  | .noResourceMatch => true
  | .other => false

/-- `nextBackoff`, in seconds. -/
def nextBackoff (d : ℕ) : ℕ := if 30 < 2 * d then 30 else 2 * d

/-- Where `watchKind` is: at the head of its loop, in `Watch`, in the `select` after a failed start,
in `consume`, or returned. -/
inductive Phase
  | head
  | starting
  | backingOff
  | consuming
  | returned
deriving DecidableEq, Repr

/-- The watcher, with the objects of the kind and the stream: what waits in its channel, and whether
the server still sends. -/
structure Watcher where
  objects : Finset ObjectKey
  phase : Phase := .head
  backoff : ℕ := 1
  queue : List WatchEvent := []
  sending : Bool := false
  cancelled : Bool := false
deriving DecidableEq

/-- What happens to the objects, the stream and the watcher. -/
inductive Label
  | change (c : Change) (key : ObjectKey)
  | notObject (type : GoString)
  | streamEnd
  | streamError
  | cancel
  | loop
  | watch (replay : List ObjectKey)
  | watchFail (err : WatchError)
  | waited
  | receive
  | done
deriving DecidableEq, Repr

/-- The server sends an event, if it holds a stream. -/
def Watcher.send (w : Watcher) (ev : WatchEvent) : Watcher :=
  if w.sending then { w with queue := w.queue ++ [ev] } else w

/-- The deferred `wch.Stop` of `consume`, which goes on in another phase. -/
def Watcher.stop (w : Watcher) (phase : Phase) : Watcher :=
  { w with queue := [], sending := false, phase }

/-- One step. -/
def step (w : Watcher) : Label → Option Watcher
  | .change c key =>
    (c.apply w.objects key).map fun objects =>
      { w with objects }.send ⟨c.eventType, some key⟩
  | .notObject type => if type = errorType then none else some (w.send ⟨type, none⟩)
  | .streamEnd => if w.sending then some { w with sending := false } else none
  | .streamError =>
    -- an error closes the channel behind it
    if w.sending then some { w.send ⟨errorType, none⟩ with sending := false } else none
  | .cancel => some { w with cancelled := true }
  | .loop =>
    if w.phase = .head then
      some { w with phase := if w.cancelled then .returned else .starting }
    else none
  | .watch replay =>
    if w.phase = .starting ∧ replay.Nodup ∧ replay.toFinset = w.objects then
      some { w with
        phase := .consuming
        backoff := 1
        queue := replay.map fun key => ⟨Change.create.eventType, some key⟩
        sending := true }
    else none
  | .watchFail err =>
    if w.phase = .starting then
      some { w with phase := if isNoKindError err then .returned else .backingOff }
    else none
  | .waited =>
    if w.phase = .backingOff then
      some { w with phase := .head, backoff := nextBackoff w.backoff }
    else none
  | .receive =>
    if w.phase = .consuming then
      match w.queue with
      | ev :: rest => some (if ev.type = errorType then w.stop .head else { w with queue := rest })
      -- the channel is closed once the server does not send
      | [] => if w.sending then none else some (w.stop .head)
    else none
  | .done =>
    match w.cancelled, w.phase with
    | true, .backingOff => some { w with phase := .returned }
    | true, .consuming => some (w.stop .returned)
    | _, _ => none

/-! ## What is seen of a run -/

/-- A change of an object, the end of a stream, or a call of `Hub.Publish`. -/
inductive Mark
  | changed (c : Change) (key : ObjectKey)
  | ended
  | published (ev : Event)
deriving DecidableEq, Repr

/-- The event that `consume` publishes. -/
def toEvent (cluster kind : GoString) (type : GoString) (key : ObjectKey) : Event where
  cluster
  kind
  verb := type
  ns := key.ns
  name := key.name

/-- The calls of `Hub.Publish` in one round of `consume`. -/
def publishes (cluster kind : GoString) : List WatchEvent → List Mark
  | [] => []
  | ev :: _ =>
    if ev.type = errorType then []
    else (ev.object.map fun key => .published (toEvent cluster kind ev.type key)).toList

/-- What a step shows. -/
def marks (cluster kind : GoString) (w : Watcher) : Label → List Mark
  | .change c key => [.changed c key]
  | .streamEnd => [.ended]
  | .streamError => [.ended]
  | .receive => publishes cluster kind w.queue
  | _ => []

/-- What a run shows. -/
def trace (cluster kind : GoString) : Watcher → List Label → List Mark :=
  emitted step (marks cluster kind)

/-- Every change since a stream last ended has been followed by a call of `Hub.Publish` for the kind
and the cluster. -/
def Followed (cluster kind : GoString) (t : List Mark) : Prop :=
  ∀ before c key after, t = before ++ .changed c key :: after → .ended ∉ after →
    ∃ ev, .published ev ∈ after ∧ ev.cluster = cluster ∧ ev.kind = kind

variable {cluster kind : GoString} {t : List Mark}

theorem not_followed_changed (c : Change) (key : ObjectKey) :
    ¬ Followed cluster kind (t ++ [.changed c key]) := by
  intro h
  obtain ⟨ev, hev, -⟩ := h t c key [] rfl List.not_mem_nil
  exact List.not_mem_nil hev

/-- A change that is not the last mark lies before the last mark. -/
theorem mem_of_concat_eq {m : Mark} {c : Change} {key : ObjectKey} {before after : List Mark}
    (h : t ++ [m] = before ++ .changed c key :: after) (hm : m ≠ .changed c key) : m ∈ after := by
  rcases List.eq_nil_or_concat after with rfl | ⟨after, last, rfl⟩
  · exact absurd (List.append_inj' h rfl).2 (by simpa using hm)
  · rw [List.concat_eq_append, ← List.cons_append, ← List.append_assoc] at h
    have hlast := (List.append_inj' h rfl).2
    rw [List.singleton_inj.mp hlast, List.concat_eq_append]
    exact List.mem_append_right _ (List.mem_singleton_self _)

theorem followed_published (type : GoString) (key : ObjectKey) :
    Followed cluster kind (t ++ [.published (toEvent cluster kind type key)]) :=
  fun _ _ _ _ h _ => ⟨_, mem_of_concat_eq h nofun, rfl, rfl⟩

/-! ## A stream that the server still sends -/

/-- The objects in the channel, which `consume` publishes. -/
def Watcher.waiting (w : Watcher) : List ObjectKey := w.queue.filterMap WatchEvent.object

@[simp] theorem sending_send (w : Watcher) (ev : WatchEvent) :
    (w.send ev).sending = w.sending := by
  unfold Watcher.send
  split <;> rfl

theorem waiting_send {w : Watcher} (h : w.sending = true) (ev : WatchEvent) :
    (w.send ev).waiting = w.waiting ++ ev.object.toList := by
  rw [Watcher.send, if_pos h, Watcher.waiting, List.filterMap_append]
  cases hev : ev.object with
  | none => simp [hev, Watcher.waiting]
  | some key => simp [hev, Watcher.waiting]

/-- A label that changes an object. -/
def Label.IsChange : Label → Prop
  | .change _ _ => True
  | _ => False

variable {m m' k w : Watcher} {a : Label} {pre post : List Label} {replay : List ObjectKey}

/-- A change waits in a stream that the server still sends. -/
theorem waiting_change (hchange : a.IsChange) (h : step m a = some m')
    (hsending : m'.sending = true) : m.sending = true ∧ m'.waiting ≠ [] := by
  cases a with
  | change c key =>
    obtain ⟨objects, -, rfl⟩ := Option.map_eq_some_iff.mp h
    rw [sending_send] at hsending
    refine ⟨hsending, ?_⟩
    rw [waiting_send hsending, Option.toList_some]
    exact List.append_ne_nil_of_right_ne_nil _ (List.cons_ne_nil _ _)
  | _ => exact absurd hchange id

/-- A step that keeps the stream and what waits in it. -/
def Silent (m m' : Watcher) : Prop := m'.sending = m.sending ∧ m'.waiting = m.waiting

/-- What `consume` does with the next event of a stream that goes on. -/
theorem receive_sending (cluster kind : GoString) (h : step m .receive = some m') (hsending : m'.sending = true) :
    m.sending = true ∧ ∃ ev rest, m.queue = ev :: rest ∧ m'.queue = rest ∧
      marks cluster kind m .receive =
        (ev.object.map fun key => .published (toEvent cluster kind ev.type key)).toList := by
  simp only [step] at h
  split at h
  · split at h
    · next ev rest hq =>
      obtain rfl := Option.some.inj h
      split at hsending
      · cases hsending
      · next hev =>
        rw [if_neg hev]
        exact ⟨hsending, ev, rest, hq, rfl, by rw [marks, hq, publishes, if_neg hev]⟩
    · split at h
      · cases h
      · obtain rfl := Option.some.inj h
        cases hsending
  · cases h

/-- The next event is published, or it holds no client object. -/
theorem receive_waiting (cluster kind : GoString) (h : step m .receive = some m') (hsending : m'.sending = true) :
    m.sending = true ∧
      ((∃ type key, m.waiting = key :: m'.waiting ∧
          marks cluster kind m .receive = [.published (toEvent cluster kind type key)]) ∨
        (m'.waiting = m.waiting ∧ marks cluster kind m .receive = [])) := by
  obtain ⟨hs, ev, rest, hq, hq', hmarks⟩ := receive_sending cluster kind h hsending
  refine ⟨hs, ?_⟩
  rw [hmarks, Watcher.waiting, Watcher.waiting, hq, hq', List.filterMap_cons]
  cases ev.object with
  | none => exact .inr ⟨rfl, rfl⟩
  | some key => exact .inl ⟨_, key, rfl, rfl⟩

/-- The steps of the watcher beside `Watch` and `receive`, and what is no client object, keep a stream
that goes on. -/
theorem silent_of_step (cluster kind : GoString) (h : step m a = some m') (hsending : m'.sending = true)
    (hchange : ¬ a.IsChange) (hwatch : ∀ replay, a ≠ .watch replay) (hreceive : a ≠ .receive) :
    marks cluster kind m a = [] ∧ Silent m m' := by
  cases a with
  | change c key => exact absurd trivial hchange
  | notObject type =>
    simp only [step] at h
    split at h
    · cases h
    · obtain rfl := Option.some.inj h
      rw [sending_send] at hsending
      refine ⟨rfl, sending_send m _, ?_⟩
      rw [waiting_send hsending, Option.toList_none, List.append_nil]
  | streamEnd =>
    simp only [step, Option.ite_none_right_eq_some, Option.some.injEq] at h
    rw [← h.2] at hsending
    cases hsending
  | streamError =>
    simp only [step, Option.ite_none_right_eq_some, Option.some.injEq] at h
    rw [← h.2] at hsending
    cases hsending
  | cancel =>
    obtain rfl := Option.some.inj h
    exact ⟨rfl, rfl, rfl⟩
  | loop =>
    simp only [step, Option.ite_none_right_eq_some, Option.some.injEq] at h
    rw [← h.2]
    exact ⟨rfl, rfl, rfl⟩
  | watch replay => exact absurd rfl (hwatch replay)
  | watchFail err =>
    simp only [step, Option.ite_none_right_eq_some, Option.some.injEq] at h
    rw [← h.2]
    exact ⟨rfl, rfl, rfl⟩
  | waited =>
    simp only [step, Option.ite_none_right_eq_some, Option.some.injEq] at h
    rw [← h.2]
    exact ⟨rfl, rfl, rfl⟩
  | receive => exact absurd rfl hreceive
  | done =>
    simp only [step] at h
    split at h
    · obtain rfl := Option.some.inj h
      exact ⟨rfl, rfl, rfl⟩
    · obtain rfl := Option.some.inj h
      cases hsending
    · cases h

/-! ## From the start of a stream -/

/-- The stream has nothing to deliver. -/
def Idle (replay : List ObjectKey) (post : List Label) : Prop :=
  replay = [] ∧ ∀ a ∈ post, ¬ a.IsChange

theorem idle_concat : Idle replay (post ++ [a]) ↔ Idle replay post ∧ ¬ a.IsChange := by
  rw [Idle, Idle, List.forall_mem_append, List.forall_mem_singleton, and_assoc]

/-- How far a stream has come since it was started in `s`, after the trace `t`: a stream with
nothing to deliver has shown nothing, and in another one an object waits or a call of `Publish` has
followed the last change. -/
structure Caught (cluster kind : GoString) (t : List Mark) (s : Watcher) (replay : List ObjectKey)
    (post : List Label) (k : Watcher) : Prop where
  idle : Idle replay post → k.waiting = [] ∧ trace cluster kind s post = []
  busy : ¬ Idle replay post →
    k.waiting ≠ [] ∨ Followed cluster kind (t ++ trace cluster kind s post)

theorem Caught.step {s : Watcher} (hc : Caught cluster kind t s replay post m)
    (hrun : run step s post = some m) (h : step m a = some m') (hsending : m'.sending = true)
    (hwatch : ∀ replay, a ≠ .watch replay) :
    Caught cluster kind t s replay (post ++ [a]) m' := by
  have htrace : trace cluster kind s (post ++ [a]) =
      trace cluster kind s post ++ marks cluster kind m a := emitted_concat hrun
  by_cases hchange : a.IsChange
  · -- the stream delivers the change
    exact ⟨fun hidle => absurd hchange (idle_concat.mp hidle).2,
      fun _ => .inl (waiting_change hchange h hsending).2⟩
  · have hidle_iff : Idle replay (post ++ [a]) ↔ Idle replay post :=
      idle_concat.trans (and_iff_left hchange)
    have hkeep : marks cluster kind m a = [] → m'.waiting = m.waiting →
        Caught cluster kind t s replay (post ++ [a]) m' := by
      intro hmarks hwaiting
      rw [hmarks, List.append_nil] at htrace
      constructor <;> rw [hidle_iff, hwaiting, htrace]
      · exact hc.idle
      · exact hc.busy
    by_cases hreceive : a = .receive
    · subst hreceive
      obtain ⟨-, ⟨type, key, hwaiting, hmarks⟩ | ⟨hwaiting, hmarks⟩⟩ :=
        receive_waiting cluster kind h hsending
      · refine ⟨fun hidle => ?_, fun _ => .inr ?_⟩
        · have hnil := (hc.idle (hidle_iff.mp hidle)).1
          rw [hwaiting] at hnil
          cases hnil
        · rw [htrace, hmarks, ← List.append_assoc]
          exact followed_published type key
      · exact hkeep hmarks hwaiting
    · obtain ⟨hmarks, -, hwaiting⟩ :=
        silent_of_step cluster kind h hsending hchange hwatch hreceive
      exact hkeep hmarks hwaiting

/-- The server sends the stream that a step leaves it sending, unless the step has started it. -/
theorem sending_of_step (h : step m a = some m') (hsending : m'.sending = true)
    (hwatch : ∀ replay, a ≠ .watch replay) : m.sending = true := by
  by_cases hchange : a.IsChange
  · exact (waiting_change hchange h hsending).1
  · by_cases hreceive : a = .receive
    · subst hreceive
      obtain ⟨hm, -⟩ := receive_sending [] [] h hsending
      exact hm
    · obtain ⟨-, hm, -⟩ := silent_of_step [] [] h hsending hchange hwatch hreceive
      exact hm ▸ hsending

/-- What `Watch` starts. -/
theorem watch_inv (h : step m (.watch replay) = some k) :
    replay.toFinset = m.objects ∧ k.waiting = replay := by
  simp only [step, Option.ite_none_right_eq_some, Option.some.injEq] at h
  obtain ⟨⟨-, -, hreplay⟩, rfl⟩ := h
  refine ⟨hreplay, ?_⟩
  rw [Watcher.waiting, List.filterMap_map]
  exact List.filterMap_some

theorem caught_of_watch (t : List Mark) (h : step m (.watch replay) = some k)
    (hrun : run step k post = some w) (hlast : ∀ replay, .watch replay ∉ post)
    (hsending : w.sending = true) : Caught cluster kind t k replay post w := by
  refine run_history (I := fun post w => (∀ replay, .watch replay ∉ post) → w.sending = true →
    Caught cluster kind t k replay post w) ?_ ?_ hrun hlast hsending
  · have hwaiting := (watch_inv h).2
    refine fun _ _ => ⟨fun hidle => ⟨hwaiting.trans hidle.1, rfl⟩, fun hbusy => .inl ?_⟩
    rw [hwaiting]
    exact fun hnil => hbusy ⟨hnil, nofun⟩
  · intro post m a m' hm ih ha hlast hsending
    have hwatch : ∀ replay, a ≠ .watch replay := by
      rintro replay rfl
      exact hlast replay (List.mem_append_right _ (List.mem_singleton_self _))
    have hbefore : ∀ replay, .watch replay ∉ post :=
      fun replay hmem => hlast replay (List.mem_append_left _ hmem)
    exact (ih hbefore (sending_of_step ha hsending hwatch)).step hm ha hsending hwatch

/-- Once all of a stream that goes on is consumed, every change since the stream before it ended is
followed by a call of `Hub.Publish` for the kind and the cluster, exactly when an object of the kind
existed at its start, or one was changed since, or the changes before its start had been followed
already. -/
theorem followed_iff (cluster kind : GoString) {objects : Finset ObjectKey}
    (hpre : run step { objects } pre = some m) (hwatch : step m (.watch replay) = some k)
    (hpost : run step k post = some w) (hlast : ∀ replay, .watch replay ∉ post)
    (hsending : w.sending = true) (hconsumed : w.queue = []) :
    Followed cluster kind (trace cluster kind { objects } (pre ++ .watch replay :: post)) ↔
      m.objects.Nonempty ∨ (∃ a ∈ post, a.IsChange) ∨
        Followed cluster kind (trace cluster kind { objects } pre) := by
  have htrace : trace cluster kind { objects } (pre ++ .watch replay :: post) =
      trace cluster kind { objects } pre ++ trace cluster kind k post := by
    rw [trace, emitted_append hpre, emitted_cons hwatch]
    rfl
  have hcaught : Caught cluster kind (trace cluster kind { objects } pre) k replay post w :=
    caught_of_watch _ hwatch hpost hlast hsending
  have hobjects : m.objects.Nonempty ↔ replay ≠ [] := by
    rw [← (watch_inv hwatch).1, List.toFinset_nonempty_iff]
  have hwaiting : w.waiting = [] := by rw [Watcher.waiting, hconsumed, List.filterMap_nil]
  rw [htrace, hobjects]
  by_cases hidle : Idle replay post
  · -- the run shows nothing since the start
    rw [(hcaught.idle hidle).2, List.append_nil]
    have hquiet : ¬ ∃ a ∈ post, a.IsChange := fun ⟨a, ha, hchange⟩ => hidle.2 a ha hchange
    simp only [hidle.1, hquiet, ne_eq, not_true_eq_false, false_or]
  · have hfollowed := (hcaught.busy hidle).resolve_left (absurd hwaiting)
    refine iff_of_true hfollowed ?_
    by_contra hnone
    push Not at hnone
    exact hidle ⟨hnone.1, hnone.2.1⟩

/-! ### The last object of the kind -/

/-- The application `web`. -/
def web : ObjectKey := ⟨"default", "web"⟩

/-- A stream that delivered the one object there is, and ended. -/
def firstStream : List Label := [.loop, .watch [web], .receive, .streamEnd]

/-- Where the object is updated before the watcher comes back, the replay is published after it. -/
theorem followed_updated :
    Followed "prod" "Kustomization" (trace "prod" "Kustomization" { objects := {web} }
      ((firstStream ++ [.change .update web, .receive, .loop]) ++ .watch [web] :: [.receive])) := by
  obtain ⟨m, hm, k, hk, w, hw, hobjects, hsending, hqueue⟩ : ∃ m, run step { objects := {web} }
      (firstStream ++ [.change .update web, .receive, .loop]) = some m ∧
      ∃ k, step m (.watch [web]) = some k ∧ ∃ w, run step k [.receive] = some w ∧
      m.objects = {web} ∧ w.sending = true ∧ w.queue = [] :=
    ⟨_, rfl, _, rfl, _, rfl, rfl, rfl, rfl⟩
  rw [followed_iff "prod" "Kustomization" hm hk hw (by simp) hsending hqueue, hobjects]
  exact .inl (Finset.singleton_nonempty web)

/-- Where it is deleted before the watcher comes back, all of the next stream is consumed and nothing
is published after the deletion. -/
theorem not_followed_deleted :
    ∃ w, run step { objects := {web} }
        (firstStream ++ [.change .delete web, .receive, .loop, .watch []]) = some w ∧
      w.sending = true ∧ w.queue = [] ∧
      ¬ Followed "prod" "Kustomization" (trace "prod" "Kustomization" { objects := {web} }
        (firstStream ++ [.change .delete web, .receive, .loop, .watch []])) := by
  refine ⟨_, rfl, rfl, rfl, ?_⟩
  have htrace : trace "prod" "Kustomization" { objects := {web} }
      (firstStream ++ [.change .delete web, .receive, .loop, .watch []]) =
      [.published (toEvent "prod" "Kustomization" "ADDED" web), .ended] ++
        [.changed .delete web] := by rfl
  rw [htrace]
  exact not_followed_changed _ _

end Yafu.Watch.Reconnect
