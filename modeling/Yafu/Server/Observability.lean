import Yafu.Lib.Utf8
import Mathlib.Data.List.Basic

/-!
# What is recorded of a request

Reference: `internal/server/middleware.go`, `New` in `internal/server/server.go`,
`internal/metrics/metrics.go`.

A handler is what it does to any `http.ResponseWriter`, so that a middleware can hand on a writer of
its own. `conn` is the writer of `net/http`: the first final `WriteHeader` or the first `Write` fixes
the status, later ones change nothing, and a code that is not of three digits panics.

`withObservability` records when the wrapped handler returns; a panic passes it by and is answered
by `withRecover` around it.
-/

namespace Yafu.Server.Observability

/-! ## Writers -/

/-- `http.ResponseWriter` on the state `ω`. `writeHeader` also says whether it panicked. -/
structure ResponseWriter (ω : Type) where
  setHeader : GoString → GoString → ω → ω
  writeHeader : ℤ → ω → ω × Bool
  write : ω → ω

/-- A connection: its response headers, the informational responses sent, and the status line. -/
structure Conn where
  headers : List (GoString × GoString) := []
  informational : List ℤ := []
  status : Option ℤ := none
deriving DecidableEq

def statusOK : ℤ := 200

def statusInternalServerError : ℤ := 500

/-- A code that `checkWriteHeaderCode` panics on. -/
def invalidCode (code : ℤ) : Bool := code < 100 || 999 < code

/-- A code of an informational response; after 101 no further header is sent. -/
def informationalCode (code : ℤ) : Bool := 100 ≤ code && code ≤ 199 && code ≠ 101

/-- `WriteHeader` of `net/http`. -/
def Conn.writeHeader (code : ℤ) (c : Conn) : Conn × Bool :=
  match c.status with
  | some _ => (c, false)
  | none =>
    if invalidCode code then (c, true)
    else if informationalCode code then
      ({ c with informational := c.informational ++ [code] }, false)
    else ({ c with status := some code }, false)

/-- `Write` of `net/http`, as far as the header goes. -/
def Conn.write (c : Conn) : Conn := { c with status := some (c.status.getD statusOK) }

/-- The writer of `net/http`. -/
def conn : ResponseWriter Conn where
  setHeader k v c := { c with headers := (k, v) :: c.headers }
  writeHeader := Conn.writeHeader
  write := Conn.write

/-- The status that reaches the client: `finishRequest` sends 200 where no header was written. -/
def Conn.finish (c : Conn) : ℤ := c.status.getD statusOK

/-- `statusRecorder`: a writer and the last code passed to `WriteHeader`. -/
structure StatusRecorder (ω : Type) where
  writer : ω
  status : ℤ

/-- The methods of `statusRecorder`: its own `WriteHeader`, the others of the embedded writer. -/
def statusRecorder {ω : Type} (w : ResponseWriter ω) : ResponseWriter (StatusRecorder ω) where
  setHeader k v r := { r with writer := w.setHeader k v r.writer }
  writeHeader code r := (⟨(w.writeHeader code r.writer).1, code⟩, (w.writeHeader code r.writer).2)
  write r := { r with writer := w.write r.writer }

/-! ## Handlers -/

/-- What the middlewares read of a request. -/
structure Request where
  method : GoString
  path : GoString
  headers : List (GoString × GoString) := []
  requestId : GoString := []
deriving DecidableEq

/-- What a request leaves outside its response. -/
inductive Effect where
  | requestsTotal (method path : GoString) (status : ℤ)
  | requestDuration (method path : GoString)
  | accessLog (method path : GoString) (status : ℤ) (requestId : GoString)
  | panicLog (path requestId : GoString)
deriving DecidableEq

/-- How a handler ends. -/
structure Result (ω : Type) where
  writer : ω
  panicked : Bool
  effects : List Effect

/-- `http.Handler`. -/
abbrev Handler := {ω : Type} → ResponseWriter ω → Request → ω → Result ω

/-- `middleware`. -/
abbrev Middleware := Handler → Handler

/-- `chain`. -/
def chain (h : Handler) : List Middleware → Handler
  | [] => h
  | mw :: mws => mw (chain h mws)

/-- `withRequestID`; `uuid` is what `uuid.NewString` returns. -/
def withRequestID (uuid : GoString) : Middleware := fun next _ w r s =>
  let id := (r.headers.lookup ("X-Request-ID" : GoString)).getD []
  let id := if id = [] then uuid else id
  next w { r with requestId := id } (w.setHeader "X-Request-ID" id s)

/-- The label values that `WithLabelValues` takes: it panics on one that is not UTF-8. The digits
of a status are. -/
structure Prometheus where
  accepts : GoString → Bool
  accepts_eq : ∀ value, accepts value = Utf8.validString value

/-- `withObservability`. -/
def withObservability (prom : Prometheus) : Middleware := fun next _ w r s =>
  let res := next (statusRecorder w) r ⟨s, statusOK⟩
  let status := res.writer.status
  if res.panicked then ⟨res.writer.writer, true, res.effects⟩
  else if prom.accepts r.method && prom.accepts r.path then
    ⟨res.writer.writer, false, res.effects ++ [.requestsTotal r.method r.path status,
      .requestDuration r.method r.path, .accessLog r.method r.path status r.requestId]⟩
  else ⟨res.writer.writer, true, res.effects⟩

/-- `http.Error`. -/
def httpError {ω : Type} (w : ResponseWriter ω) (code : ℤ) (s : ω) : ω :=
  let s := w.setHeader "Content-Type" "text/plain; charset=utf-8" s
  let s := w.setHeader "X-Content-Type-Options" "nosniff" s
  w.write (w.writeHeader code s).1

/-- `withRecover`. -/
def withRecover : Middleware := fun next _ w r s =>
  let res := next w r s
  if res.panicked then
    ⟨httpError w statusInternalServerError res.writer, false,
      res.effects ++ [.panicLog r.path r.requestId]⟩
  else res

/-! ## What a handler does -/

/-- A call on the writer, as far as the header goes. -/
inductive Call where
  | writeHeader (code : ℤ)
  | write
deriving DecidableEq

/-- What a handler does for one request: its calls on the writer, and whether it ends in a panic of
its own. -/
structure Script where
  calls : List Call
  panics : Bool
deriving DecidableEq

/-- Make the calls one after the other, up to the first that panics. -/
def runCalls {ω : Type} (w : ResponseWriter ω) : List Call → ω → ω × Bool
  | [], s => (s, false)
  | .write :: cs, s => runCalls w cs (w.write s)
  | .writeHeader code :: cs, s =>
    if (w.writeHeader code s).2 then ((w.writeHeader code s).1, true)
    else runCalls w cs (w.writeHeader code s).1

/-- The handler that follows a script for each request. -/
def scripted (script : Request → Script) : Handler := fun w r s =>
  let out := runCalls w (script r).calls s
  ⟨out.1, out.2 || (script r).panics, []⟩

/-- The handler that `New` serves, around the traced mux. -/
def handler (prom : Prometheus) (uuid : GoString) (traced : Request → Script) : Handler :=
  chain (scripted traced) [withRequestID uuid, withRecover, withObservability prom]

/-- One request served on a new connection. -/
def serve (prom : Prometheus) (uuid : GoString) (traced : Request → Script) (r : Request) :
    Result Conn :=
  handler prom uuid traced conn r {}

/-! ## What is recorded -/

/-- The status labels of the request counter's increments. -/
def increments (effects : List Effect) : List ℤ :=
  effects.filterMap fun
    | .requestsTotal _ _ status => some status
    | _ => none

/-- The status fields of the access log. -/
def logged (effects : List Effect) : List ℤ :=
  effects.filterMap fun
    | .accessLog _ _ status _ => some status
    | _ => none

/-- One increment and one record, with the status that reached the client. -/
def ObservedOnce (res : Result Conn) : Prop :=
  increments res.effects = [res.writer.finish] ∧ logged res.effects = [res.writer.finish]

/-- The status that the calls send: that of the first final header, or of the first write. -/
def firstCode : List Call → Option ℤ
  | [] => none
  | .write :: _ => some statusOK
  | .writeHeader code :: cs => if informationalCode code then firstCode cs else some code

/-- The calls pass an invalid code while no header is written. -/
def badCode : List Call → Bool
  | [] => false
  | .write :: _ => false
  | .writeHeader code :: cs => invalidCode code || (informationalCode code && badCode cs)

/-- The code of the last `WriteHeader`. -/
def lastCode : List Call → Option ℤ
  | [] => none
  | .write :: cs => lastCode cs
  | .writeHeader code :: cs => some ((lastCode cs).getD code)

/-- The handler returns, and its last `WriteHeader` has the code that goes out. -/
structure Plain (script : Script) : Prop where
  returns : script.panics = false
  valid : badCode script.calls = false
  last : (lastCode script.calls).getD statusOK = (firstCode script.calls).getD statusOK

/-- The method and the path can be label values. -/
def Labelled (r : Request) : Prop :=
  Utf8.validString r.method = true ∧ Utf8.validString r.path = true

/-! ## The calls on a connection -/

theorem runCalls_sent {c : Conn} {status : ℤ} (h : c.status = some status) (calls : List Call) :
    (runCalls conn calls c).1.status = some status ∧ (runCalls conn calls c).2 = false := by
  induction calls generalizing c with
  | nil => exact ⟨h, rfl⟩
  | cons call calls ih =>
    cases call with
    | write =>
      have hwrite : (Conn.write c).status = some status := by rw [Conn.write, h, Option.getD_some]
      exact ih hwrite
    | writeHeader code =>
      have hcall : Conn.writeHeader code c = (c, false) := by rw [Conn.writeHeader, h]
      simp only [runCalls, conn, hcall]
      exact ih h

/-- A connection without a header panics on a bad code and else sends the first one. -/
theorem runCalls_conn {c : Conn} (h : c.status = none) (calls : List Call) :
    (runCalls conn calls c).2 = badCode calls ∧
      (badCode calls = false → (runCalls conn calls c).1.status = firstCode calls) := by
  induction calls generalizing c with
  | nil => exact ⟨rfl, fun _ => h⟩
  | cons call calls ih =>
    cases call with
    | write =>
      have hwrite : (Conn.write c).status = some statusOK := by rw [Conn.write, h, Option.getD_none]
      obtain ⟨hstatus, hpanic⟩ := runCalls_sent hwrite calls
      exact ⟨hpanic, fun _ => hstatus⟩
    | writeHeader code =>
      by_cases hbad : invalidCode code = true
      · have hcall : Conn.writeHeader code c = (c, true) := by
          rw [Conn.writeHeader, h]
          simp [hbad]
        simp [runCalls, conn, hcall, badCode, hbad]
      · by_cases hinfo : informationalCode code = true
        · have hcall : Conn.writeHeader code c =
              ({ c with informational := c.informational ++ [code] }, false) := by
            rw [Conn.writeHeader, h]
            simp [hbad, hinfo]
          simp only [runCalls, conn, hcall, badCode, firstCode, hinfo, if_true, Bool.true_and,
            Bool.eq_false_iff.mpr hbad, Bool.false_or, Bool.false_eq_true, if_false]
          exact ih h
        · have hcall : Conn.writeHeader code c = ({ c with status := some code }, false) := by
            rw [Conn.writeHeader, h]
            simp [hbad, hinfo]
          obtain ⟨hstatus, hpanic⟩ := runCalls_sent (c := { c with status := some code }) rfl calls
          simp only [runCalls, conn, hcall, badCode, firstCode, Bool.eq_false_iff.mpr hinfo,
            Bool.false_and, Bool.or_false, Bool.eq_false_iff.mpr hbad, Bool.false_eq_true, if_false]
          exact ⟨hpanic, fun _ => hstatus⟩

/-- A recorder makes the calls on its writer and keeps the last code. -/
theorem runCalls_statusRecorder {ω : Type} (w : ResponseWriter ω) (calls : List Call) :
    ∀ rec : StatusRecorder ω,
      (runCalls (statusRecorder w) calls rec).1.writer = (runCalls w calls rec.writer).1 ∧
        (runCalls (statusRecorder w) calls rec).2 = (runCalls w calls rec.writer).2 ∧
        ((runCalls w calls rec.writer).2 = false →
          (runCalls (statusRecorder w) calls rec).1.status = (lastCode calls).getD rec.status) := by
  induction calls with
  | nil => exact fun _ => ⟨rfl, rfl, fun _ => rfl⟩
  | cons call calls ih =>
    intro rec
    cases call with
    | write => exact ih { rec with writer := w.write rec.writer }
    | writeHeader code =>
      by_cases hpanic : (w.writeHeader code rec.writer).2 = true
      · simp [runCalls, statusRecorder, hpanic]
      · simpa [runCalls, statusRecorder, hpanic, lastCode] using
          ih ⟨(w.writeHeader code rec.writer).1, code⟩

/-! ## One request -/

section Serve

variable {prom : Prometheus} {uuid : GoString} {traced : Request → Script} {r : Request}

/-- The request that `withRequestID` hands on. -/
def tagged (uuid : GoString) (r : Request) : Request :=
  let id := (r.headers.lookup ("X-Request-ID" : GoString)).getD []
  { r with requestId := if id = [] then uuid else id }

/-- The connection that it hands on. -/
def opened (uuid : GoString) (r : Request) : Conn :=
  { headers := [(("X-Request-ID" : GoString), (tagged uuid r).requestId)] }

/-- What the wrapped handler leaves of the connection and of its recorder. -/
def inner (uuid : GoString) (traced : Request → Script) (r : Request) :
    StatusRecorder Conn × Bool :=
  runCalls (statusRecorder conn) (traced (tagged uuid r)).calls ⟨opened uuid r, statusOK⟩

/-- The layers inside `withRecover`. -/
def observed (prom : Prometheus) (uuid : GoString) (traced : Request → Script) (r : Request) :
    Result Conn :=
  withObservability prom (scripted traced) conn (tagged uuid r) (opened uuid r)

theorem labels_accepted (prom : Prometheus) (r : Request) :
    (prom.accepts r.method && prom.accepts r.path) = true ↔ Labelled r := by
  rw [Bool.and_eq_true, prom.accepts_eq, prom.accepts_eq, Labelled]

/-- A handler that returns is recorded, with the code of its last `WriteHeader`. -/
theorem observed_of_returns (prom : Prometheus) (hlabels : Labelled r)
    (hpanics : (traced (tagged uuid r)).panics = false) (hinner : (inner uuid traced r).2 = false) :
    observed prom uuid traced r = ⟨(inner uuid traced r).1.writer, false,
      [.requestsTotal r.method r.path (inner uuid traced r).1.status,
        .requestDuration r.method r.path,
        .accessLog r.method r.path (inner uuid traced r).1.status (tagged uuid r).requestId]⟩ := by
  have hreturned : ((inner uuid traced r).2 || (traced (tagged uuid r)).panics) = false := by
    rw [hinner, hpanics, Bool.or_false]
  have haccepts := (labels_accepted prom r).mpr hlabels
  exact (if_neg (Bool.eq_false_iff.mp hreturned)).trans (if_pos haccepts)

/-- A panic, of the handler or of the counter, leaves nothing recorded. -/
theorem observed_of_panics (prom : Prometheus)
    (h : (traced (tagged uuid r)).panics = true ∨ (inner uuid traced r).2 = true ∨ ¬ Labelled r) :
    (observed prom uuid traced r).panicked = true ∧
      (observed prom uuid traced r).effects = [] := by
  have hobs : observed prom uuid traced r =
      if ((inner uuid traced r).2 || (traced (tagged uuid r)).panics) = true then
        ⟨(inner uuid traced r).1.writer, true, []⟩
      else if (prom.accepts r.method && prom.accepts r.path) = true then
        ⟨(inner uuid traced r).1.writer, false,
          [.requestsTotal r.method r.path (inner uuid traced r).1.status,
            .requestDuration r.method r.path,
            .accessLog r.method r.path (inner uuid traced r).1.status (tagged uuid r).requestId]⟩
      else ⟨(inner uuid traced r).1.writer, true, []⟩ := rfl
  rw [hobs]
  by_cases hpanicked : ((inner uuid traced r).2 || (traced (tagged uuid r)).panics) = true
  · rw [if_pos hpanicked]
    exact ⟨rfl, rfl⟩
  · rw [Bool.or_eq_true, not_or] at hpanicked
    have hlabels : ¬ Labelled r := (h.resolve_left hpanicked.2).resolve_left hpanicked.1
    rw [if_neg (by rw [Bool.or_eq_true, not_or]; exact hpanicked),
      if_neg fun haccepts => hlabels ((labels_accepted prom r).mp haccepts)]
    exact ⟨rfl, rfl⟩

theorem serve_of_returned (h : (observed prom uuid traced r).panicked = false) :
    serve prom uuid traced r = observed prom uuid traced r := if_neg (Bool.eq_false_iff.mp h)

theorem effects_serve_of_panicked (h : (observed prom uuid traced r).panicked = true) :
    (serve prom uuid traced r).effects =
      (observed prom uuid traced r).effects ++ [.panicLog r.path (tagged uuid r).requestId] :=
  congrArg Result.effects (if_pos h)

/-- What the wrapped handler leaves, read off its calls. -/
theorem inner_spec (uuid : GoString) (traced : Request → Script) (r : Request) :
    (inner uuid traced r).2 = badCode (traced (tagged uuid r)).calls ∧
      ((inner uuid traced r).2 = false →
        (inner uuid traced r).1.writer.finish =
            (firstCode (traced (tagged uuid r)).calls).getD statusOK ∧
          (inner uuid traced r).1.status =
            (lastCode (traced (tagged uuid r)).calls).getD statusOK) := by
  have hopened : (opened uuid r).status = none := rfl
  obtain ⟨hpanic, hsent⟩ := runCalls_conn hopened (traced (tagged uuid r)).calls
  obtain ⟨hwriter, hrec, hlast⟩ :=
    runCalls_statusRecorder conn (traced (tagged uuid r)).calls ⟨opened uuid r, statusOK⟩
  refine ⟨hrec.trans hpanic, fun hinner => ⟨?_, hlast (hrec.symm.trans hinner)⟩⟩
  have hbad : badCode (traced (tagged uuid r)).calls = false :=
    hpanic.symm.trans (hrec.symm.trans hinner)
  rw [inner, Conn.finish, hwriter, hsent hbad]

/-- Without a record there is no increment. -/
theorem increments_of_panics (prom : Prometheus)
    (h : (traced (tagged uuid r)).panics = true ∨ (inner uuid traced r).2 = true ∨ ¬ Labelled r) :
    increments (serve prom uuid traced r).effects = [] := by
  obtain ⟨hpanicked, heffects⟩ := observed_of_panics prom h
  rw [effects_serve_of_panicked hpanicked, heffects]
  rfl

/-- A request that is recorded carries the last code in both records, and its client has the
first one. -/
theorem serve_of_returns (prom : Prometheus) (hlabels : Labelled r)
    (hreturns : (traced (tagged uuid r)).panics = false) (hinner : (inner uuid traced r).2 = false) :
    increments (serve prom uuid traced r).effects =
        [(lastCode (traced (tagged uuid r)).calls).getD statusOK] ∧
      logged (serve prom uuid traced r).effects =
        [(lastCode (traced (tagged uuid r)).calls).getD statusOK] ∧
      (serve prom uuid traced r).writer.finish =
        (firstCode (traced (tagged uuid r)).calls).getD statusOK := by
  obtain ⟨hfirst, hlast⟩ := (inner_spec uuid traced r).2 hinner
  have hobs := observed_of_returns prom hlabels hreturns hinner
  have hserve : serve prom uuid traced r = observed prom uuid traced r :=
    serve_of_returned (by rw [hobs])
  rw [hserve, hobs, ← hfirst, ← hlast]
  exact ⟨rfl, rfl, rfl⟩

/-- A request is observed once and truthfully exactly when its method and path can be labels, its
handler returns, passes no invalid code to an unwritten header, and the code of its last
`WriteHeader` is the one that goes out. -/
theorem observedOnce_iff (prom : Prometheus) (uuid : GoString) (traced : Request → Script)
    (r : Request) :
    ObservedOnce (serve prom uuid traced r) ↔
      Labelled r ∧ Plain (traced (tagged uuid r)) := by
  obtain ⟨hpanic, -⟩ := inner_spec uuid traced r
  by_cases h : (traced (tagged uuid r)).panics = true ∨ (inner uuid traced r).2 = true ∨ ¬ Labelled r
  · -- nothing is recorded
    constructor
    · rintro ⟨hone, -⟩
      rw [increments_of_panics prom h] at hone
      exact absurd hone nofun
    · rintro ⟨hlabels, hplain⟩
      rcases h with hp | hi | hl
      · exact absurd (hp.symm.trans hplain.returns) nofun
      · exact absurd ((hi.symm.trans hpanic).trans hplain.valid) nofun
      · exact absurd hlabels hl
  · rw [not_or, not_or, not_not, Bool.not_eq_true, Bool.not_eq_true] at h
    obtain ⟨hreturns, hinner, hlabels⟩ := h
    obtain ⟨hincrements, hlogged, hclient⟩ := serve_of_returns prom hlabels hreturns hinner
    rw [ObservedOnce, hincrements, hlogged, hclient]
    constructor
    · rintro ⟨heq, -⟩
      exact ⟨hlabels, hreturns, hpanic.symm.trans hinner, List.head_eq_of_cons_eq heq⟩
    · rintro ⟨-, hplain⟩
      rw [hplain.last]
      exact ⟨rfl, rfl⟩

end Serve

/-- A counter that takes what is UTF-8. -/
def utf8Labels : Prometheus := ⟨Utf8.validString, fun _ => rfl⟩

/-- A request whose handler panics before it writes anything. -/
def panicked : Result Conn :=
  serve utf8Labels "7b0c" (fun _ => ⟨[], true⟩) { method := "GET", path := "/api/v1/clusters" }

/-- The client is answered with 500, and neither the counter nor the access log has it. -/
theorem not_observedOnce_panicked :
    panicked.writer.finish = 500 ∧ increments panicked.effects = [] ∧
      logged panicked.effects = [] ∧ ¬ ObservedOnce panicked := by
  have hnone : increments panicked.effects = [] := rfl
  refine ⟨rfl, hnone, rfl, ?_⟩
  rintro ⟨hone, -⟩
  exact absurd (hnone.symm.trans hone) nofun

end Yafu.Server.Observability
