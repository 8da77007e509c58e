import Yafu.Api.Handler
import Yafu.Lib.Transition

/-!
# The log stream of a pod

Reference: `logsStream` and `writeSSE` in `internal/api/logs.go`.

A goroutine scans the log and sends the lines on a channel, the error of the scanner on another; the
handler writes what it receives, and a heartbeat whenever the timer fires. `step` is one move of
either of them, so that a run is one interleaving.
-/

namespace Yafu.Api

open Yafu.Auth (Policy)
open Yafu.Cluster (Registry)

/-! ## Frames -/

/-- `writeSSE`. -/
def writeSSE (event data : GoString) : GoString :=
  (if event = [] then [] else ("event: " : GoString) ++ event ++ ("\n" : GoString)) ++
    (GoString.split '\n'.toUInt8 data).flatMap
      (fun line => ("data: " : GoString) ++ line ++ ("\n" : GoString)) ++ ("\n" : GoString)

/-- `containerSuffix`. -/
def containerSuffix (c : GoString) : GoString :=
  if c = [] then [] else (" container=" : GoString) ++ c

namespace LogStream

/-! ## The loop -/

/-- The capacity of the channel `lines`. -/
def linesCap : ℕ := 64

/-- Where the scanner is: in its loop, behind it, or done with `lines` closed. -/
inductive Scanner
  | scanning
  | scanned
  | closed
deriving DecidableEq, Repr

/-- The scanner, the two channels, and what the handler has written. -/
structure State where
  scanner : Scanner := .scanning
  unread : List GoString
  fin : ScanEnd
  lines : List GoString := []
  scanErr : Option GoString := none
  written : GoString
  returned : Bool := false
deriving DecidableEq, Repr

/-- A move: of the scanner the first three, of the handler the others, by the case of its `select`.
-/
inductive Move
  | scan
  | scanEnd
  | closeLines
  | ctxDone
  | heartbeat
  | recvLine
  | recvClosed
  | recvErr
deriving DecidableEq, Repr

/-- One move. -/
def step (s : State) : Move → Option State
  | .scan =>
    match s.scanner, s.unread with
    | .scanning, line :: unread =>
      -- the goroutine waits where the channel is full
      if s.lines.length < linesCap then some { s with unread, lines := s.lines ++ [line] } else none
    | _, _ => none
  | .scanEnd =>
    match s.scanner, s.unread, s.fin with
    | .scanning, [], .eof => some { s with scanner := .scanned }
    | .scanning, [], .failed err => some { s with scanner := .scanned, scanErr := some err }
    | _, _, _ => none
  | .closeLines => if s.scanner = .scanned then some { s with scanner := .closed } else none
  | .ctxDone => if s.returned then none else some { s with returned := true }
  | .heartbeat =>
    if s.returned then none
    else some { s with written := s.written ++ (": heartbeat\n\n" : GoString) }
  | .recvLine =>
    match s.returned, s.lines with
    | false, line :: lines => some { s with lines, written := s.written ++ writeSSE [] line }
    | _, _ => none
  | .recvClosed =>
    match s.returned, s.lines, s.scanner with
    | false, [], .closed =>
      some { s with written := s.written ++ writeSSE "close" "stream ended", returned := true }
    | _, _, _ => none
  | .recvErr =>
    match s.returned, s.scanErr with
    | false, some err =>
      -- whether a line is left in the channel or not
      some { s with scanErr := none, written := s.written ++ writeSSE "error" err, returned := true }
    | _, _ => none

/-- What may have been written at some moment, from the first frame on. -/
def written (opened : GoString) (stream : LogFollow) : Set GoString :=
  {w | ∃ moves s, Transition.run step
    { unread := stream.lines, fin := stream.fin, written := opened } moves = some s ∧ s.written = w}

end LogStream

/-! ## The handler -/

/-- The headers of a stream. -/
def streamHeaders : Headers :=
  [("Content-Type", "text/event-stream"), ("Cache-Control", "no-cache"), ("Connection", "keep-alive"),
    ("X-Accel-Buffering", "no")]

/-- The two parts of `?pod=<ns>/<name>`, if neither is empty. -/
def podSpec (spec : GoString) : Option (GoString × GoString) :=
  (GoString.cut '/'.toUInt8 spec).filter fun p => p.1 ≠ [] && p.2 ≠ []

/-- `logsStream` behind the checks. -/
def logsStreamOf (r : Request) (e : Entry) : Set Response :=
  match e.clients.kube with
  | none =>
    {writeError [] statusServiceUnavailable "kubernetes clientset unavailable on this cluster"}
  | some kube =>
    match podSpec (r.http.query "pod") with
    | none => {writeError [] Http.statusBadRequest "?pod=<ns>/<name> is required"}
    | some (ns, name) =>
      if !r.flusher then
        {writeError [] Http.statusInternalServerError "streaming unsupported on this connection"}
      else
        match kube.followLogs ns name (r.http.query "container") 100 with
        | .error err =>
          {writeError [] Http.statusBadGateway (("could not open log stream: " : GoString) ++ err)}
        | .ok stream =>
          let opened := writeSSE "open"
            (("streaming " : GoString) ++ ns ++ ("/" : GoString) ++ name ++
              containerSuffix (r.http.query "container"))
          (fun w => { headers := streamHeaders, body := .stream w }) '' LogStream.written opened stream

/-- `applicationsHandler.logsStream`. -/
def logsStream (rt : Runtime) (policy : Policy) (registry : Option (Registry Clients)) (r : Request)
    (p : AppPath) : Set Response :=
  withEntry rt policy registry r [] p.cluster fun e => logsStreamOf r e

end Yafu.Api
