import Yafu.Lib.ClockOrder
import Yafu.Lib.JsonMarshal
import Yafu.Lib.Lines
import Yafu.Server.Mediation

/-!
# What the audit log accounts for

Reference: `Logger.Record` in `internal/audit/audit.go`, which writes "one Record per Record() call as
a JSON line".

The mutex of the logger puts the calls of `Record` one after another, and each of them writes its line
in one piece. Whatever is in the strings of a record, the line has one end, so that the log can be
taken apart line by line (`map_parse_log`), and every call to a cluster is found in it (`accounted`).
-/

namespace Yafu.Audit

open Json (Value marshal)
open Utf8 (coerce)

/-! ## Records as JSON -/

/-- A member of a struct, if it is not empty. -/
def omitempty (key value : GoString) : List (GoString × Value) :=
  if value = [] then [] else [(key, .string value)]

/-- The text of an outcome. -/
def Outcome.text : Outcome → GoString
  | .ok => "ok"
  | .denied => "denied"
  | .error => "error"

/-- The members of an `Identity`. -/
def Identity.fields (id : Identity) : List (GoString × Value) :=
  let subject : List (GoString × Value) := [("subject", .string id.subject)]
  let groups : List (GoString × Value) :=
    if id.groups = [] then [] else [("groups", .array (id.groups.map .string))]
  subject ++ omitempty "email" id.email ++ groups

/-- The members of a `Resource`. -/
def Resource.fields (r : Resource) : List (GoString × Value) :=
  let cluster : List (GoString × Value) := [("cluster", .string r.cluster)]
  cluster ++ omitempty "ns" r.ns ++ omitempty "kind" r.kind ++ omitempty "name" r.name

/-- The members of a `Record`. -/
def Record.fields (r : Record) : List (GoString × Value) :=
  let ts : List (GoString × Value) := [("ts", .string (Clock.rfc3339Nano r.timestamp))]
  let what : List (GoString × Value) :=
    [("identity", .object r.identity.fields), ("verb", .string r.verb),
      ("resource", .object r.resource.fields), ("outcome", .string r.outcome.text)]
  ts ++ omitempty "request_id" r.requestId ++ what ++ omitempty "error" r.error ++
    omitempty "remote_addr" r.remoteAddr

/-- A record as it is encoded. -/
def Record.value (r : Record) : Value := .object r.fields

/-- `Encode`. A time beyond the year 9999 is an error, and nothing is written. -/
def encode (r : Record) : GoString :=
  if Clock.year r.timestamp ≤ 9999 then marshal r.value ++ ['\n'.toUInt8] else []

/-- What a log has written for these records. -/
def logText (rs : List Record) : GoString := rs.flatMap encode

/-- The lines of a log that have an end. -/
def logLines (text : GoString) : List GoString := (GoString.split '\n'.toUInt8 text).dropLast

/-! ## Reading a log -/

/-- The string at a path of member names. -/
def stringAt : List GoString → Value → Option GoString
  | [], .string s => some s
  | key :: path, .object ms => (ms.lookup key).bind (stringAt path)
  | _, _ => none

/-- A line says something at a path. -/
def Says (line : GoString) (path : List GoString) (s : GoString) : Prop :=
  (Json.parse line).bind (stringAt path) = some (coerce s)

theorem fitFields_iff {d : ℕ} {ms : List (GoString × Value)} :
    Json.FitFields d ms ↔ ∀ m ∈ ms, Json.Fits d m.2 := by
  induction ms with
  | nil => exact ⟨nofun, fun _ => trivial⟩
  | cons m ms ih =>
    rw [List.forall_mem_cons, ← ih]
    exact Iff.rfl

theorem fits_omitempty {d : ℕ} {key value : GoString} : ∀ m ∈ omitempty key value, Json.Fits d m.2 := by
  intro m hm
  unfold omitempty at hm
  split_ifs at hm
  · cases hm
  · rw [List.mem_singleton.mp hm]
    trivial

theorem fits_strings (d : ℕ) (ss : List GoString) : Json.FitElements d (ss.map .string) := by
  induction ss with
  | nil => trivial
  | cons s ss ih => exact ⟨trivial, ih⟩

theorem fits_identity (id : Identity) : ∀ m ∈ id.fields, Json.Fits 9998 m.2 := by
  intro m hm
  unfold Identity.fields at hm
  rcases List.mem_append.mp hm with hm | hm
  · rcases List.mem_append.mp hm with hm | hm
    · rw [List.mem_singleton.mp hm]
      trivial
    · exact fits_omitempty m hm
  · split_ifs at hm
    · cases hm
    · rw [List.mem_singleton.mp hm]
      exact ⟨9997, rfl, fits_strings 9997 id.groups⟩

theorem fits_resource (r : Resource) : ∀ m ∈ r.fields, Json.Fits 9998 m.2 := by
  intro m hm
  simp only [Resource.fields, List.mem_append, List.mem_singleton] at hm
  rcases hm with ((rfl | hm) | hm) | hm
  · trivial
  · exact fits_omitempty m hm
  · exact fits_omitempty m hm
  · exact fits_omitempty m hm

/-- A record is shallow. -/
theorem fits_record (r : Record) : Json.Fits Json.maxNestingDepth r.value := by
  refine ⟨9999, rfl, fitFields_iff.mpr fun m hm => ?_⟩
  simp only [Record.fields, List.mem_append, List.mem_cons, List.not_mem_nil, or_false] at hm
  rcases hm with (((rfl | hm) | (rfl | rfl | rfl | rfl)) | hm) | hm
  · trivial
  · exact fits_omitempty m hm
  · exact ⟨9998, rfl, fitFields_iff.mpr (fits_identity r.identity)⟩
  · trivial
  · exact ⟨9998, rfl, fitFields_iff.mpr (fits_resource r.resource)⟩
  · trivial
  · exact fits_omitempty m hm
  · exact fits_omitempty m hm

/-- **A log is taken apart line by line.** Each record is on a line of its own, whatever its strings
hold, and is read back with them coerced to valid UTF-8. -/
theorem map_parse_log {rs : List Record} (hyear : ∀ r ∈ rs, Clock.year r.timestamp ≤ 9999) :
    logLines (logText rs) = rs.map (fun r => marshal r.value) ∧
      (logLines (logText rs)).map Json.parse = rs.map fun r => some (Json.coerced r.value) := by
  have htext : logText rs = GoString.unlines (rs.map fun r => marshal r.value) := by
    induction rs with
    | nil => rfl
    | cons r rs ih =>
      obtain ⟨hr, hrs⟩ := List.forall_mem_cons.mp hyear
      rw [logText, List.flatMap_cons, ← logText, ih hrs, encode, if_pos hr]
      rfl
  have hlines : logLines (logText rs) = rs.map fun r => marshal r.value := by
    have hplain : ∀ l ∈ rs.map fun r => marshal r.value, '\n'.toUInt8 ∉ l := by
      intro l hl hmem
      obtain ⟨r, -, rfl⟩ := List.mem_map.mp hl
      exact absurd ((Json.isText_marshal (fits_record r)).plain _ hmem) (by decide)
    rw [logLines, htext, GoString.split_unlines hplain, List.dropLast_concat]
  refine ⟨hlines, ?_⟩
  rw [hlines, List.map_map]
  exact List.map_congr_left fun r _ => Json.parse_marshal (fits_record r)

/-! ## What a record says -/

theorem coerce_key {key : GoString} (h : ∀ c ∈ key, c < 0x80) : coerce key = key :=
  Utf8.coerce_of_ascii h

/-- Names in ASCII are found as they are. -/
theorem lookup_coercedFields {ms : List (GoString × Value)} (h : ∀ m ∈ ms, ∀ c ∈ m.1, c < 0x80)
    (key : GoString) : (Json.coercedFields ms).lookup key = (ms.lookup key).map Json.coerced := by
  induction ms with
  | nil => rfl
  | cons m ms ih =>
    obtain ⟨hm, hms⟩ := List.forall_mem_cons.mp h
    rw [Json.coercedFields, List.lookup_cons, List.lookup_cons, coerce_key hm, ih hms]
    split <;> rfl

/-- The names of the members. -/
def keys : List GoString :=
  ["ts", "request_id", "identity", "verb", "resource", "outcome", "error", "remote_addr", "subject",
    "email", "groups", "cluster", "ns", "kind", "name"]

theorem ascii_keys : ∀ key ∈ keys, ∀ c ∈ key, c < 0x80 := by
  have hall : ∀ key ∈ keys, (key.all fun c => decide (c < 0x80)) = true := by decide
  exact fun key hkey => GoString.forall_mem_of_all (hall key hkey)

/-- The names of these members are among those. -/
def Named (ms : List (GoString × Value)) : Prop := (ms.map Prod.fst).all keys.contains = true

theorem named_record (r : Record) : Named r.fields := by
  unfold Named Record.fields omitempty
  split_ifs <;> rfl

theorem named_identity (id : Identity) : Named id.fields := by
  unfold Named Identity.fields omitempty
  split_ifs <;> rfl

theorem named_resource (r : Resource) : Named r.fields := by
  unfold Named Resource.fields omitempty
  split_ifs <;> rfl

/-- What is found behind a name is what has been written there. -/
theorem stringAt_coerced {ms : List (GoString × Value)} (hnamed : Named ms)
    {key : GoString} {v : Value} (h : ms.lookup key = some v) (path : List GoString) :
    stringAt (key :: path) (Json.coerced (.object ms)) = stringAt path (Json.coerced v) := by
  have hascii : ∀ m ∈ ms, ∀ c ∈ m.1, c < 0x80 := by
    intro m hm
    have hkey := List.all_eq_true.mp hnamed m.1 (List.mem_map_of_mem hm)
    exact ascii_keys m.1 (List.contains_iff_mem.mp hkey)
  show ((Json.coercedFields ms).lookup key).bind (stringAt path) = _
  rw [lookup_coercedFields hascii, h]
  rfl

theorem lookup_record (r : Record) :
    r.fields.lookup ("identity" : GoString) = some (.object r.identity.fields) ∧
      r.fields.lookup ("verb" : GoString) = some (.string r.verb) ∧
      r.fields.lookup ("resource" : GoString) = some (.object r.resource.fields) ∧
      r.fields.lookup ("outcome" : GoString) = some (.string r.outcome.text) := by
  unfold Record.fields omitempty
  split_ifs <;> exact ⟨rfl, rfl, rfl, rfl⟩

theorem lookup_subject (id : Identity) :
    id.fields.lookup ("subject" : GoString) = some (.string id.subject) := rfl

theorem lookup_resource {r : Resource} (hns : r.ns ≠ []) (hkind : r.kind ≠ []) (hname : r.name ≠ []) :
    r.fields.lookup ("cluster" : GoString) = some (.string r.cluster) ∧
      r.fields.lookup ("ns" : GoString) = some (.string r.ns) ∧
      r.fields.lookup ("kind" : GoString) = some (.string r.kind) ∧
      r.fields.lookup ("name" : GoString) = some (.string r.name) := by
  unfold Resource.fields omitempty
  rw [if_neg hns, if_neg hkind, if_neg hname]
  exact ⟨rfl, rfl, rfl, rfl⟩

/-- A line tells who has done what to which object, and how it has ended. -/
structure Tells (line : GoString) (r : Record) : Prop where
  subject : Says line ["identity", "subject"] r.identity.subject
  verb : Says line ["verb"] r.verb
  cluster : Says line ["resource", "cluster"] r.resource.cluster
  ns : Says line ["resource", "ns"] r.resource.ns
  kind : Says line ["resource", "kind"] r.resource.kind
  name : Says line ["resource", "name"] r.resource.name
  outcome : Says line ["outcome"] r.outcome.text

theorem tells_record {r : Record} (hns : r.resource.ns ≠ []) (hkind : r.resource.kind ≠ [])
    (hname : r.resource.name ≠ []) : Tells (marshal r.value) r := by
  obtain ⟨hidentity, hverb, hresource, houtcome⟩ := lookup_record r
  obtain ⟨hcluster, hns, hkind, hname⟩ := lookup_resource hns hkind hname
  have htells : ∀ {path : List GoString} {s : GoString},
      stringAt path (Json.coerced r.value) = some (coerce s) → Says (marshal r.value) path s := by
    intro path s h
    rw [Says, Json.parse_marshal (fits_record r)]
    exact h
  have hmember := @stringAt_coerced r.fields (named_record r)
  have hplace := @stringAt_coerced r.resource.fields (named_resource r.resource)
  refine ⟨htells ?_, htells ?_, htells ?_, htells ?_, htells ?_, htells ?_, htells ?_⟩
  · exact (hmember hidentity _).trans
      (stringAt_coerced (named_identity r.identity) (lookup_subject r.identity) [])
  · exact hmember hverb []
  · exact (hmember hresource _).trans (hplace hcluster [])
  · exact (hmember hresource _).trans (hplace hns [])
  · exact (hmember hresource _).trans (hplace hkind [])
  · exact (hmember hresource _).trans (hplace hname [])
  · exact hmember houtcome []

end Yafu.Audit

namespace Yafu.Server.Mediation

open Yafu.Api
open Yafu.Audit

/-! ## What is accounted for -/

/-- A request, the server as it was when it was served, and what it came to. -/
structure Service where
  sys : System
  req : RawRequest
  exchange : Exchange
  served : ∃ exchanges, sys.handle req = .served exchanges ∧ exchange ∈ exchanges

/-- The log of a server, in the order in which its requests were recorded. -/
def auditLog (services : List Service) : GoString :=
  logText (services.flatMap fun s => s.exchange.audit)

/-- **Every call to a cluster is accounted for.** The log is the records of the requests line by line,
and for every call that has been made to a cluster it has a line that names the caller, the object and
the verb, which the policy has allowed. -/
theorem accounted {services : List Service}
    (hyear : ∀ s ∈ services, ∀ rec ∈ s.exchange.audit, Clock.year rec.timestamp ≤ 9999) :
    (logLines (auditLog services)).map Json.parse =
        (services.flatMap fun s => s.exchange.audit).map (fun rec => some (Json.coerced rec.value)) ∧
      ∀ s ∈ services, ∀ c call, (c, call) ∈ s.exchange.calls →
        ∃ line ∈ logLines (auditLog services), ∃ rec ∈ s.exchange.audit, ∃ id, Tells line rec ∧
          s.sys.identify s.req = .ok id ∧ rec.identity.subject = id.subject ∧
          c = rec.resource.cluster ∧
          calledFor call = (rec.resource.kind, rec.resource.ns, rec.resource.name) ∧
          s.sys.policy.authorize s.sys.mutations.toLower id rec.verb c = true := by
  have hall : ∀ rec ∈ services.flatMap fun s => s.exchange.audit, Clock.year rec.timestamp ≤ 9999 := by
    intro rec hrec
    obtain ⟨s, hs, hrec⟩ := List.mem_flatMap.mp hrec
    exact hyear s hs rec hrec
  obtain ⟨hlines, hparse⟩ := map_parse_log hall
  refine ⟨hparse, fun s hs c call hcall => ?_⟩
  obtain ⟨exchanges, hhandle, hx⟩ := s.served
  obtain ⟨u, id, route, values, -, hid, -, rfl⟩ := System.handle_eq_served_iff.mp hhandle
  obtain ⟨rec, p, r, e, haudit, rfl, rfl, hobject, hrec⟩ := System.recorded_of_calls hx hcall
  obtain ⟨-, hns, hkind, hname⟩ := hrec.complete
  have hmem : rec ∈ s.exchange.audit := by
    rw [haudit]
    exact List.mem_singleton_self rec
  refine ⟨Json.marshal rec.value, ?_, rec, hmem, r.identity, ?_, hid, ?_, ?_, ?_, ?_⟩
  · rw [auditLog, hlines]
    exact List.mem_map_of_mem (List.mem_flatMap.mpr ⟨s, hs, hmem⟩)
  · refine tells_record ?_ ?_ ?_ <;> rw [hrec.place] <;> assumption
  · rw [hrec.who]
  · rw [hrec.place]
  · rw [hrec.place]
    exact hobject
  · rw [hrec.what]
    exact hrec.authorized

/-- What the request to suspend `apps` comes to. -/
def suspendServed : Served :=
  serveMutation appsSystem.mutations appsSystem.policy (appsSystem.registry.map (Cluster.Registry.map Prod.snd))
    { identity := Auth.anonymousIdentity } prodPath (.mutate .applications .suspend)

/-- The request to suspend `apps`, served. -/
def suspendService : Service where
  sys := appsSystem
  req := suspendApps
  exchange :=
    { answer := .response suspendServed.response
      audit := suspendServed.audit
      calls := suspendServed.calls.map fun call => (prodPath.cluster, call) }
  served := ⟨_, System.handle_eq_served_iff.mpr
    ⟨{ path := suspendApps.target }, Auth.anonymousIdentity, .mutation (.mutate .applications .suspend),
      Routing.objectNames.zip [prodPath.cluster, prodPath.ns, prodPath.kind, prodPath.name],
      by decide +kernel, rfl, by decide +kernel, rfl⟩, rfl⟩

/-- The log tells that `apps` has been suspended. -/
theorem accounted_suspendApps : ∃ line ∈ logLines (auditLog [suspendService]),
    Says line ["identity", "subject"] "anonymous" ∧ Says line ["verb"] "suspend" ∧
      Says line ["resource", "name"] "apps" := by
  have hyear : ∀ s ∈ [suspendService], ∀ rec ∈ s.exchange.audit, Clock.year rec.timestamp ≤ 9999 := by
    intro s hs rec hrec
    obtain rfl := List.mem_singleton.mp hs
    obtain rfl := List.mem_singleton.mp hrec
    decide +kernel
  obtain ⟨line, hline, rec, hrec, id, htells, -⟩ := (accounted hyear).2 suspendService
    (List.mem_singleton_self _) prodPath.cluster (.get prodPath.kind prodPath.ns prodPath.name)
    List.mem_cons_self
  obtain rfl := List.mem_singleton.mp hrec
  exact ⟨line, hline, htells.subject, htells.verb, htells.name⟩

end Yafu.Server.Mediation
