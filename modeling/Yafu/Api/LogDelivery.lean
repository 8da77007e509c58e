import Yafu.Api.LogStream

/-!
# What the log stream delivers

Reference: the loop of `logsStream` in `internal/api/logs.go`.

The end of the log is signalled twice: the channel of lines is closed, and an error of the scanner
is on a channel of its own. A `select` with several cases ready takes any of them, so that the
handler may take the error while lines are still unread, or the closed channel while the error is. A
run in which it does neither delivers the log, and no other run does.
-/

namespace Yafu.Api.LogStream

open Transition (run Along emitted)

/-! ## Frames -/

/-- A frame of the stream after the first. -/
inductive Frame
  | heartbeat
  | line (text : GoString)
  | close
  | error (err : GoString)
deriving DecidableEq, Repr

/-- A frame as it is written. -/
def Frame.text : Frame → GoString
  | .heartbeat => ": heartbeat\n\n"
  | .line text => writeSSE [] text
  | .close => writeSSE "close" "stream ended"
  | .error err => writeSSE "error" err

/-- The frame that a move writes. -/
def frame (s : State) : Move → List Frame
  | .heartbeat => [.heartbeat]
  | .recvLine => (s.lines.take 1).map .line
  | .recvClosed => [.close]
  | .recvErr => s.scanErr.toList.map .error
  | _ => []

/-- The state when the first frame has been written. -/
def start (opened : GoString) (stream : LogFollow) : State :=
  { unread := stream.lines, fin := stream.fin, written := opened }

/-- The frames of a run. -/
def frames (opened : GoString) (stream : LogFollow) (moves : List Move) : List Frame :=
  emitted step frame (start opened stream) moves

/-- The frames but for heartbeats. -/
def content (fs : List Frame) : List Frame := fs.filter (· ≠ .heartbeat)

/-- The frame that the end of the scanner calls for, none as long as the log goes on. -/
def terminal : ScanEnd → List Frame
  | .open => []
  | .eof => [.close]
  | .failed err => [.error err]

/-- What is to be delivered. -/
def delivery (stream : LogFollow) : List Frame :=
  stream.lines.map .line ++ terminal stream.fin

/-- The frames so far are from the front of what is to be delivered, all of it when the handler has
returned. -/
def Delivered (stream : LogFollow) (s : State) (fs : List Frame) : Prop :=
  content fs <+: delivery stream ∧ (s.returned = true → content fs = delivery stream)

/-- The handler does not take the error of the scanner before the lines, nor the end of the lines
before the error. -/
def InTurn (s : State) (m : Move) : Prop :=
  (m = .recvErr → s.lines = []) ∧ (m = .recvClosed → s.scanErr = none)

/-! ## A move -/

/-- What a move does. -/
inductive Moves (s : State) : Move → State → Prop
  | scan {line : GoString} {unread : List GoString} (hscanner : s.scanner = .scanning)
      (hunread : s.unread = line :: unread) :
      Moves s .scan { s with unread, lines := s.lines ++ [line] }
  | scanEnd {scanErr : Option GoString} (hscanner : s.scanner = .scanning) (hunread : s.unread = [])
      (hfin : s.fin = .eof ∧ scanErr = s.scanErr ∨ ∃ err, s.fin = .failed err ∧ scanErr = some err) :
      Moves s .scanEnd { s with scanner := .scanned, scanErr }
  | closeLines (hscanner : s.scanner = .scanned) : Moves s .closeLines { s with scanner := .closed }
  | ctxDone (hreturned : s.returned = false) : Moves s .ctxDone { s with returned := true }
  | heartbeat (hreturned : s.returned = false) :
      Moves s .heartbeat { s with written := s.written ++ Frame.heartbeat.text }
  | recvLine {line : GoString} {lines : List GoString} (hreturned : s.returned = false)
      (hlines : s.lines = line :: lines) :
      Moves s .recvLine { s with lines, written := s.written ++ (Frame.line line).text }
  | recvClosed (hreturned : s.returned = false) (hlines : s.lines = [])
      (hscanner : s.scanner = .closed) :
      Moves s .recvClosed { s with written := s.written ++ Frame.close.text, returned := true }
  | recvErr {err : GoString} (hreturned : s.returned = false) (herr : s.scanErr = some err) :
      Moves s .recvErr
        { s with scanErr := none, written := s.written ++ (Frame.error err).text, returned := true }

variable {s s' : State} {m : Move}

theorem moves_of_step (h : step s m = some s') : Moves s m s' := by
  cases m with
  | scan =>
    simp only [step] at h
    split at h
    · rename_i line unread hscanner hunread
      split_ifs at h
      rw [Option.some.injEq] at h
      rw [← h]
      exact .scan hscanner hunread
    · cases h
  | scanEnd =>
    simp only [step] at h
    split at h
    · rename_i hscanner hunread hfin
      rw [Option.some.injEq] at h
      rw [← h]
      exact .scanEnd hscanner hunread (.inl ⟨hfin, rfl⟩)
    · rename_i err hscanner hunread hfin
      rw [Option.some.injEq] at h
      rw [← h]
      exact .scanEnd hscanner hunread (.inr ⟨err, hfin, rfl⟩)
    · cases h
  | closeLines =>
    simp only [step] at h
    split_ifs at h with hscanner
    rw [Option.some.injEq] at h
    rw [← h]
    exact .closeLines hscanner
  | ctxDone =>
    simp only [step] at h
    split_ifs at h with hreturned
    rw [Option.some.injEq] at h
    rw [← h]
    exact .ctxDone (Bool.not_eq_true _ ▸ hreturned)
  | heartbeat =>
    simp only [step] at h
    split_ifs at h with hreturned
    rw [Option.some.injEq] at h
    rw [← h]
    exact .heartbeat (Bool.not_eq_true _ ▸ hreturned)
  | recvLine =>
    simp only [step] at h
    split at h
    · rename_i line lines hreturned hlines
      rw [Option.some.injEq] at h
      rw [← h]
      exact .recvLine hreturned hlines
    · cases h
  | recvClosed =>
    simp only [step] at h
    split at h
    · rename_i hreturned hlines hscanner
      rw [Option.some.injEq] at h
      rw [← h]
      exact .recvClosed hreturned hlines hscanner
    · cases h
  | recvErr =>
    simp only [step] at h
    split at h
    · rename_i err hreturned herr
      rw [Option.some.injEq] at h
      rw [← h]
      exact .recvErr hreturned herr
    · cases h

/-- What a move writes is its frame. -/
theorem written_step (h : step s m = some s') :
    s'.written = s.written ++ (frame s m).flatMap Frame.text := by
  cases moves_of_step h with
  | scan => exact (List.append_nil _).symm
  | scanEnd => exact (List.append_nil _).symm
  | closeLines => exact (List.append_nil _).symm
  | ctxDone => exact (List.append_nil _).symm
  | heartbeat => simp [frame]
  | recvLine hreturned hlines => simp [frame, hlines]
  | recvClosed => simp [frame]
  | recvErr hreturned herr => simp [frame, herr]

/-- A handler that has returned writes no more. -/
theorem frame_of_returned (h : step s m = some s') (hreturned : s.returned = true) :
    frame s m = [] ∧ s'.returned = true := by
  cases moves_of_step h with
  | scan => exact ⟨rfl, hreturned⟩
  | scanEnd => exact ⟨rfl, hreturned⟩
  | closeLines => exact ⟨rfl, hreturned⟩
  | ctxDone hnot => rw [hnot] at hreturned; cases hreturned
  | heartbeat hnot => rw [hnot] at hreturned; cases hreturned
  | recvLine hnot => rw [hnot] at hreturned; cases hreturned
  | recvClosed hnot => rw [hnot] at hreturned; cases hreturned
  | recvErr hnot => rw [hnot] at hreturned; cases hreturned

/-! ## What holds of a run -/

/-- Where the scanner is says what it has left, and whether its error is waiting. -/
structure Sound (stream : LogFollow) (s : State) (fs : List Frame) : Prop where
  fin : s.fin = stream.fin
  drained : s.scanner ≠ .scanning → s.unread = [] ∧ stream.fin ≠ .open
  failed : ∀ err, s.scanErr = some err → stream.fin = .failed err ∧ s.scanner ≠ .scanning
  waiting : ∀ err, s.scanner ≠ .scanning → stream.fin = .failed err → s.returned = false →
    s.scanErr = some err
  going : s.returned = false →
    ∃ read, content fs = read.map .line ∧ stream.lines = read ++ s.lines ++ s.unread

variable {opened : GoString} {stream : LogFollow} {fs : List Frame} {moves : List Move}

theorem sound_start : Sound stream (start opened stream) [] where
  fin := rfl
  drained h := absurd rfl h
  failed _ h := by cases h
  waiting _ h := absurd rfl h
  going _ := ⟨[], rfl, rfl⟩

theorem content_append (fs gs : List Frame) : content (fs ++ gs) = content fs ++ content gs :=
  List.filter_append ..

theorem content_of_quiet (h : frame s m = []) : content (fs ++ frame s m) = content fs := by
  rw [h, List.append_nil]

theorem sound_step (hs : Sound stream s fs) (h : step s m = some s') :
    Sound stream s' (fs ++ frame s m) := by
  cases moves_of_step h with
  | scan hscanner hunread =>
    refine { fin := hs.fin, drained := fun hnot => absurd hscanner hnot,
             failed := hs.failed, waiting := hs.waiting, going := fun hret => ?_ }
    obtain ⟨read, hread, hlines⟩ := hs.going hret
    refine ⟨read, (content_of_quiet rfl).trans hread, ?_⟩
    rw [hlines, hunread]
    simp only [List.append_assoc, List.singleton_append]
  | scanEnd hscanner hunread hfin =>
    -- only the end of the scanner sends an error
    have hnone : s.scanErr = none := by
      cases herr : s.scanErr with
      | none => rfl
      | some err => exact absurd hscanner (hs.failed err herr).2
    refine { fin := hs.fin, drained := fun _ => ⟨hunread, fun hopen => ?_⟩,
             failed := fun err herr => ?_, waiting := fun err _ hfailed _ => ?_,
             going := fun hret => ?_ }
    · rw [hs.fin] at hfin
      rcases hfin with ⟨heof, -⟩ | ⟨err, hfailed, -⟩
      · rw [hopen] at heof
        cases heof
      · rw [hopen] at hfailed
        cases hfailed
    · rcases hfin with ⟨-, hsame⟩ | ⟨err', hfailed, hsome⟩
      · rw [hsame, hnone] at herr
        cases herr
      · rw [hsome, Option.some.injEq] at herr
        exact ⟨by rw [← hs.fin, hfailed, herr], by simp⟩
    · rcases hfin with ⟨heof, -⟩ | ⟨err', hfailed', hsome⟩
      · rw [hs.fin, hfailed] at heof
        cases heof
      · rw [hs.fin, hfailed, ScanEnd.failed.injEq] at hfailed'
        rw [hsome, hfailed']
    · obtain ⟨read, hread, hlines⟩ := hs.going hret
      exact ⟨read, (content_of_quiet rfl).trans hread, hlines⟩
  | closeLines hscanner =>
    have hnot : s.scanner ≠ .scanning := by simp [hscanner]
    refine { fin := hs.fin, drained := fun _ => hs.drained hnot,
             failed := fun err herr => ⟨(hs.failed err herr).1, by simp⟩,
             waiting := fun err _ => hs.waiting err hnot, going := fun hret => ?_ }
    obtain ⟨read, hread, hlines⟩ := hs.going hret
    exact ⟨read, (content_of_quiet rfl).trans hread, hlines⟩
  | ctxDone =>
    exact { fin := hs.fin, drained := hs.drained, failed := hs.failed,
            waiting := fun _ _ _ hret => (by cases hret), going := fun hret => (by cases hret) }
  | heartbeat hret =>
    refine { fin := hs.fin, drained := hs.drained, failed := hs.failed, waiting := hs.waiting,
             going := fun _ => ?_ }
    obtain ⟨read, hread, hlines⟩ := hs.going hret
    refine ⟨read, ?_, hlines⟩
    rw [content_append, hread]
    exact List.append_nil _
  | @recvLine line lines hret hread' =>
    refine { fin := hs.fin, drained := hs.drained, failed := hs.failed, waiting := hs.waiting,
             going := fun _ => ?_ }
    obtain ⟨read, hread, hlines⟩ := hs.going hret
    refine ⟨read ++ [line], ?_, ?_⟩
    · rw [content_append, hread, List.map_append, frame, hread']
      rfl
    · rw [hlines, hread']
      simp only [List.append_assoc, List.cons_append, List.nil_append]
  | recvClosed =>
    exact { fin := hs.fin, drained := hs.drained, failed := hs.failed,
            waiting := fun _ _ _ hret => (by cases hret), going := fun hret => (by cases hret) }
  | recvErr =>
    exact { fin := hs.fin, drained := hs.drained, failed := fun _ herr => (by cases herr),
            waiting := fun _ _ _ hret => (by cases hret), going := fun hret => (by cases hret) }

theorem frames_concat (hrun : run step (start opened stream) moves = some s) (m : Move) :
    frames opened stream (moves ++ [m]) = frames opened stream moves ++ frame s m :=
  Transition.emitted_concat hrun

theorem sound_run : ∀ {s : State}, run step (start opened stream) moves = some s →
    Sound stream s (frames opened stream moves) :=
  Transition.run_history (I := fun as s => Sound stream s (frames opened stream as)) sound_start
    fun _ _ _ _ hm hs h => frames_concat hm _ ▸ sound_step hs h

/-- What has been written is the frames of the run. -/
theorem written_run : ∀ {s : State}, run step (start opened stream) moves = some s →
    s.written = opened ++ (frames opened stream moves).flatMap Frame.text :=
  Transition.run_history
    (I := fun as (s : State) =>
      s.written = opened ++ (frames opened stream as).flatMap Frame.text)
    (List.append_nil _).symm
    fun _ _ _ _ hm hinv h => by
      rw [written_step h, hinv, frames_concat hm, List.flatMap_append, List.append_assoc]

/-- A handler that goes on has taken everything in its turn; one that has returned has delivered
everything if and only if it has. -/
def Judged (opened : GoString) (stream : LogFollow) (moves : List Move) (s : State) : Prop :=
  (s.returned = false → Along step InTurn (start opened stream) moves) ∧
    (s.returned = true →
      (content (frames opened stream moves) = delivery stream ↔
        Along step InTurn (start opened stream) moves))

theorem inTurn_of_ne (herr : m ≠ .recvErr) (hclosed : m ≠ .recvClosed) : InTurn s m :=
  ⟨fun h => absurd h herr, fun h => absurd h hclosed⟩

/-- The end of the lines is the end of the delivery if and only if no error is waiting. -/
theorem recvClosed_iff (hs : Sound stream s fs) (hret : s.returned = false) (hlines : s.lines = [])
    (hscanner : s.scanner = .closed) :
    content (fs ++ [.close]) = delivery stream ↔ s.scanErr = none := by
  have hnot : s.scanner ≠ .scanning := by simp [hscanner]
  obtain ⟨hunread, hopen⟩ := hs.drained hnot
  obtain ⟨read, hread, hall⟩ := hs.going hret
  rw [hlines, hunread, List.append_nil, List.append_nil] at hall
  -- all lines are written, so that only the last frames are compared
  rw [content_append, hread, delivery, hall, List.append_cancel_left_eq]
  cases hfin : stream.fin with
  | «open» => exact absurd hfin hopen
  | eof =>
    refine ⟨fun _ => ?_, fun _ => rfl⟩
    cases herr : s.scanErr with
    | none => rfl
    | some err =>
      have := (hs.failed err herr).1
      rw [hfin] at this
      cases this
  | failed err =>
    rw [hs.waiting err hnot hfin hret]
    exact iff_of_false (fun h => nomatch h) (fun h => nomatch h)

/-- The error of the scanner is the end of the delivery if and only if no line is unread. -/
theorem recvErr_iff {err : GoString} (hs : Sound stream s fs) (hret : s.returned = false)
    (herr : s.scanErr = some err) :
    content (fs ++ [.error err]) = delivery stream ↔ s.lines = [] := by
  obtain ⟨hfin, hnot⟩ := hs.failed err herr
  obtain ⟨read, hread, hall⟩ := hs.going hret
  rw [(hs.drained hnot).1, List.append_nil] at hall
  rw [content_append, hread, delivery, hall, hfin, List.map_append, List.append_assoc,
    List.append_cancel_left_eq]
  constructor
  · intro h
    -- the frames of unread lines would stand beside the one of the error
    have hlen := congrArg List.length h
    simp only [content, terminal, List.length_append, List.length_map, List.length_singleton] at hlen
    have hle := List.length_filter_le (· ≠ Frame.heartbeat) [Frame.error err]
    rw [List.length_singleton] at hle
    exact List.length_eq_zero_iff.mp (by omega)
  · intro h
    rw [h]
    rfl

theorem judged_step (hrun : run step (start opened stream) moves = some s)
    (hj : Judged opened stream moves s)
    (h : step s m = some s') (hconnected : m ≠ .ctxDone) :
    Judged opened stream (moves ++ [m]) s' := by
  have hs := sound_run hrun
  have hframes := frames_concat hrun m
  have halong := Transition.along_concat (P := InTurn) (a := m) hrun
  -- the handler has returned, or goes on, or returns now
  have hquiet : s.returned = true → InTurn s m → Judged opened stream (moves ++ [m]) s' := by
    intro hret hturn
    obtain ⟨hnone, hret'⟩ := frame_of_returned h hret
    refine ⟨fun hgoing => absurd hret' (by simp [hgoing]), fun _ => ?_⟩
    rw [hframes, content_of_quiet hnone, hj.2 hret, halong, and_iff_left hturn]
  have hgoes : s.returned = false → s'.returned = false → InTurn s m →
      Judged opened stream (moves ++ [m]) s' := fun hret hret' hturn =>
    ⟨fun _ => halong.mpr ⟨hj.1 hret, hturn⟩, fun hgone => absurd hgone (by simp [hret'])⟩
  have hreturns : s.returned = false → s'.returned = true →
      (content (frames opened stream moves ++ frame s m) = delivery stream ↔ InTurn s m) →
      Judged opened stream (moves ++ [m]) s' := by
    intro hret hret' hiff
    refine ⟨fun hgoing => absurd hret' (by simp [hgoing]), fun _ => ?_⟩
    rw [hframes, hiff, halong, and_iff_right (hj.1 hret)]
  have hboth : ∀ r : Bool, s.returned = r → s'.returned = r → InTurn s m →
      Judged opened stream (moves ++ [m]) s' := by
    rintro (_ | _) hret hret'
    · exact hgoes hret hret'
    · exact hquiet hret
  cases moves_of_step h with
  | scan => exact hboth _ rfl rfl (inTurn_of_ne Move.noConfusion Move.noConfusion)
  | scanEnd => exact hboth _ rfl rfl (inTurn_of_ne Move.noConfusion Move.noConfusion)
  | closeLines => exact hboth _ rfl rfl (inTurn_of_ne Move.noConfusion Move.noConfusion)
  | ctxDone => exact absurd rfl hconnected
  | heartbeat => exact hboth _ rfl rfl (inTurn_of_ne Move.noConfusion Move.noConfusion)
  | recvLine => exact hboth _ rfl rfl (inTurn_of_ne Move.noConfusion Move.noConfusion)
  | recvClosed hret hlines hscanner =>
    refine hreturns hret rfl ((recvClosed_iff hs hret hlines hscanner).trans ?_)
    exact ⟨fun hnone => ⟨Move.noConfusion, fun _ => hnone⟩, fun hturn => hturn.2 rfl⟩
  | @recvErr err hret herr =>
    refine hreturns hret rfl ?_
    have hframe : frame s .recvErr = [.error err] := by rw [frame, herr]; rfl
    rw [hframe, recvErr_iff hs hret herr]
    exact ⟨fun hlines => ⟨fun _ => hlines, Move.noConfusion⟩, fun hturn => hturn.1 rfl⟩

theorem judged_run : ∀ {s : State}, run step (start opened stream) moves = some s →
    .ctxDone ∉ moves → Judged opened stream moves s :=
  Transition.run_history
    (I := fun as s => .ctxDone ∉ as → Judged opened stream as s)
    (fun _ => ⟨fun _ => trivial, fun h => by cases h⟩)
    fun _ _ _ _ hm ih h hnot => by
      rw [List.mem_append, List.mem_singleton, not_or] at hnot
      exact judged_step hm (ih hnot.1) h (Ne.symm hnot.2)

theorem delivered_iff_along (hrun : run step (start opened stream) moves = some s)
    (hconnected : .ctxDone ∉ moves) :
    Delivered stream s (frames opened stream moves) ↔
      Along step InTurn (start opened stream) moves := by
  have hs := sound_run hrun
  have hj := judged_run hrun hconnected
  cases hret : s.returned with
  | false =>
    obtain ⟨read, hread, hall⟩ := hs.going hret
    refine iff_of_true ⟨?_, fun h => by rw [hret] at h; cases h⟩ (hj.1 hret)
    rw [hread, delivery, hall, List.append_assoc, List.map_append, List.append_assoc]
    exact List.prefix_append _ _
  | true =>
    rw [← hj.2 hret]
    exact ⟨fun hdel => hdel.2 hret, fun heq => ⟨heq ▸ List.prefix_refl _, fun _ => heq⟩⟩

/-- Nothing is lost of a log in which the scanner does not fail. -/
theorem delivered_of_not_failed (hrun : run step (start opened stream) moves = some s)
    (hconnected : .ctxDone ∉ moves) (hfin : ∀ err, stream.fin ≠ .failed err) :
    Delivered stream s (frames opened stream moves) := by
  have halong : ∀ {s : State}, run step (start opened stream) moves = some s →
      Along step InTurn (start opened stream) moves := by
    refine Transition.run_history
      (I := fun as _ => Along step InTurn (start opened stream) as) trivial ?_
    intro as s m s' hm ih h
    refine (Transition.along_concat hm).mpr ⟨ih, ?_, fun _ => ?_⟩
    · rintro rfl
      cases moves_of_step h with
      | recvErr _ herr => exact absurd ((sound_run hm).failed _ herr).1 (hfin _)
    · cases herr : s.scanErr with
      | none => rfl
      | some err => exact absurd ((sound_run hm).failed err herr).1 (hfin err)
  exact (delivered_iff_along hrun hconnected).mpr (halong hrun)

/-- A handler that has not returned has something to take, or the scanner something to do, until the
lines of a log that goes on are delivered. -/
theorem goes_on (hs : Sound stream s fs) (hret : s.returned = false) :
    content fs = delivery stream ∨
      ∃ m, m ≠ .heartbeat ∧ m ≠ .ctxDone ∧ InTurn s m ∧ step s m ≠ none := by
  -- four moves are always in their turn
  have hgo : ∀ m ∈ [Move.scan, .scanEnd, .closeLines, .recvLine], step s m ≠ none →
      ∃ m, m ≠ .heartbeat ∧ m ≠ .ctxDone ∧ InTurn s m ∧ step s m ≠ none := by
    intro m hm hstep
    refine ⟨m, ?_, ?_, inTurn_of_ne ?_ ?_, hstep⟩
    all_goals
      rintro rfl
      simp at hm
  cases hlines : s.lines with
  | cons line lines => exact .inr (hgo .recvLine (by simp) (by simp [step, hret, hlines]))
  | nil =>
    cases hscanner : s.scanner with
    | scanning =>
      cases hunread : s.unread with
      | cons line unread =>
        exact .inr (hgo .scan (by simp) (by simp [step, hscanner, hunread, hlines, linesCap]))
      | nil =>
        cases hfin : s.fin with
        | «open» =>
          -- the log goes on, and what it has so far is delivered
          obtain ⟨read, hread, hall⟩ := hs.going hret
          refine .inl ?_
          rw [hread, delivery, hall, hlines, hunread, ← hs.fin, hfin]
          simp only [terminal, List.append_nil]
        | eof => exact .inr (hgo .scanEnd (by simp) (by simp [step, hscanner, hunread, hfin]))
        | failed err =>
          exact .inr (hgo .scanEnd (by simp) (by simp [step, hscanner, hunread, hfin]))
    | scanned => exact .inr (hgo .closeLines (by simp) (by simp [step, hscanner]))
    | closed =>
      cases herr : s.scanErr with
      | none =>
        refine .inr ⟨.recvClosed, Move.noConfusion, Move.noConfusion,
          ⟨Move.noConfusion, fun _ => herr⟩, ?_⟩
        simp [step, hret, hlines, hscanner]
      | some err =>
        refine .inr ⟨.recvErr, Move.noConfusion, Move.noConfusion,
          ⟨fun _ => hlines, Move.noConfusion⟩, ?_⟩
        simp [step, hret, herr]

/-- What is left to do but for heartbeats. -/
def left (s : State) : ℕ :=
  2 * s.unread.length + s.lines.length +
    (match s.scanner with | .scanning => 2 | .scanned => 1 | .closed => 0) +
    if s.returned then 0 else 1

theorem left_step (h : step s m = some s') :
    left s' ≤ left s ∧ (m ≠ .heartbeat → left s' < left s) := by
  cases moves_of_step h with
  | scan hscanner hunread => simp [left, hunread]; omega
  | scanEnd hscanner => simp [left, hscanner]
  | closeLines hscanner => simp [left, hscanner]
  | ctxDone hret => simp [left, hret]
  | heartbeat => exact ⟨Nat.le_refl _, fun hnot => absurd rfl hnot⟩
  | recvLine hret hlines => simp [left, hlines]
  | recvClosed hret => simp [left, hret]
  | recvErr hret => simp [left, hret]

/-- **Delivery of the log.** As long as the client stays connected, what has been written is the frames of
the run, and they are lines of the log from the first on and after the last of them the frame for the end
of the scanner, if and only if the handler takes everything in its turn. It can go on until it is done, and
there is a bound on the moves but for heartbeats. -/
theorem delivered_iff (hrun : run step (start opened stream) moves = some s)
    (hconnected : .ctxDone ∉ moves) :
    s.written = opened ++ (frames opened stream moves).flatMap Frame.text ∧
      (Delivered stream s (frames opened stream moves) ↔
        Along step InTurn (start opened stream) moves) ∧
      (s.returned = true ∨ content (frames opened stream moves) = delivery stream ∨
        ∃ m, m ≠ .heartbeat ∧ m ≠ .ctxDone ∧ InTurn s m ∧ step s m ≠ none) ∧
      moves.countP (· ≠ .heartbeat) ≤ 2 * stream.lines.length + 3 := by
  refine ⟨written_run hrun, delivered_iff_along hrun hconnected, ?_, ?_⟩
  · cases hret : s.returned with
    | false => exact .inr (goes_on (sound_run hrun) hret)
    | true => exact .inl rfl
  · have hbound := Transition.countP_add_le (μ := left) (p := (· ≠ .heartbeat))
      (fun _ _ _ h => (left_step h).1)
      (fun _ _ _ h hp => (left_step h).2 (of_decide_eq_true hp)) hrun
    have hstart : left (start opened stream) = 2 * stream.lines.length + 3 := rfl
    omega

/-! ## An error of the scanner -/

/-- A log of one line in which the scanner fails. -/
def failing : LogFollow := { lines := ["a"], fin := .failed "token too long" }

/-- The moves of a handler that takes the error first. -/
def errFirst : List Move := [.scan, .scanEnd, .recvErr]

/-- The line of a log in which the scanner fails may be lost. -/
theorem line_lost :
    ¬ ∀ (opened : GoString) (stream : LogFollow) (moves : List Move) (s : State),
      run step (start opened stream) moves = some s → .ctxDone ∉ moves →
        Delivered stream s (frames opened stream moves) := by
  intro h
  obtain ⟨s, hrun⟩ : ∃ s, run step (start [] failing) errFirst = some s := ⟨_, rfl⟩
  exact absurd (h [] failing errFirst s hrun (by decide)).1 (by decide)

/-- The moves of a handler that takes the line first. -/
def lineFirst : List Move := [.scan, .scanEnd, .recvLine, .heartbeat, .recvErr]

theorem delivered_iff_lineFirst :
    ∃ s, run step (start [] failing) lineFirst = some s ∧
      Delivered failing s (frames [] failing lineFirst) := by
  obtain ⟨s, hrun⟩ : ∃ s, run step (start [] failing) lineFirst = some s := ⟨_, rfl⟩
  have hquiet : ∀ s m, m ≠ .recvErr → m ≠ .recvClosed → InTurn s m := fun _ _ => inTurn_of_ne
  refine ⟨s, hrun, (delivered_iff hrun (by decide)).2.1.mpr ?_⟩
  refine .cons (hquiet _ .scan (by decide) (by decide)) rfl ?_
  refine .cons (hquiet _ .scanEnd (by decide) (by decide)) rfl ?_
  refine .cons (hquiet _ .recvLine (by decide) (by decide)) rfl ?_
  refine .cons (hquiet _ .heartbeat (by decide) (by decide)) rfl ?_
  exact .cons ⟨fun _ => rfl, Move.noConfusion⟩ rfl trivial

end Yafu.Api.LogStream
