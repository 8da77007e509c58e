import Yafu.Api.HelmDiff
import Yafu.Api.KustomizeDiff
import Yafu.Api.Sources

/-!
# The rendered diff of an application

Reference: `internal/api/render.go`.

A failure to render is no failure of the request: what is known of the source by then is answered
together with the error.
-/

namespace Yafu.Api

open Yafu.Auth (Policy)
open Yafu.Cluster (Registry)
open Yafu.Render

/-- `statusFromErr`. -/
def statusFromErr (err : ApiError) : ℕ :=
  match err.kind with
  | .notFound => statusNotFound
  | .forbidden => statusForbidden
  | _ => Http.statusInternalServerError

/-- The source of the response and the rows, or the error, that rendering comes to. -/
structure Rendered where
  source : Types.RenderSource
  rows : Except GoString (List RenderResource)

section Entry

variable (rt : Runtime) (sort : SortSlice rowLess) (e : Entry)

/-- What the diff asks the cluster of an entry. -/
def diffEnv : Env := ⟨e.clients.getUnstructured, rt.marshalYAML, rt.getOpCodes⟩

/-! ## Kustomizations -/

/-- `gitRefDescription`. -/
def gitRefDescription : Option GitRepositoryRef → GoString
  | none => []
  | some ref =>
    if ref.branch ≠ [] then ref.branch
    else if ref.tag ≠ [] then ref.tag
    else if ref.semVer ≠ [] then ref.semVer
    else if ref.name ≠ [] then ref.name
    else ref.commit

/-- What `getKustomizationSource` returns. -/
structure FluxSource where
  toObjectMeta : ObjectMeta
  artifact : Option Artifact
  kind : GoString
  ref : GoString

/-- The source as it is fetched, or the error of `Get`. -/
def sourceAnswer {α : Type} (kind key : GoString) (answer : Except ApiError α)
    (source : α → FluxSource) : Except GoString FluxSource :=
  match answer with
  | .error err =>
    .error (("get " : GoString) ++ kind ++ (" " : GoString) ++ key ++ (": " : GoString) ++ err.text)
  | .ok a => .ok (source a)

/-- `getKustomizationSource`. -/
def getKustomizationSource (k : Kustomization) : Except GoString FluxSource :=
  let srcNs := if k.sourceRef.namespace = [] then k.namespace else k.sourceRef.namespace
  let key := srcNs ++ ("/" : GoString) ++ k.sourceRef.name
  if k.sourceRef.kind = "GitRepository" then
    sourceAnswer "GitRepository" key (e.clients.getGitRepository srcNs k.sourceRef.name) fun g =>
      ⟨g.toObjectMeta, g.artifact, "GitRepository", gitRefDescription g.reference⟩
  else if k.sourceRef.kind = "OCIRepository" then
    sourceAnswer "OCIRepository" key (e.clients.getOCIRepository srcNs k.sourceRef.name) fun o =>
      ⟨o.toObjectMeta, o.artifact, "OCIRepository", ociRepoRef o.reference⟩
  else if k.sourceRef.kind = "Bucket" then
    sourceAnswer "Bucket" key (e.clients.getBucket srcNs k.sourceRef.name) fun b =>
      ⟨b.toObjectMeta, b.artifact, "Bucket", []⟩
  else .error (("unsupported source kind " : GoString) ++ rt.quote k.sourceRef.kind)

/-- The rows of a Kustomization whose source has this artifact. -/
def renderArtifact (k : Kustomization) (art : Artifact) : Except GoString (List RenderResource) :=
  match rt.fetchAndExtract art.url art.digest with
  | .error err => .error (("fetch artifact: " : GoString) ++ err)
  | .ok ex =>
    match buildKustomization rt.toTools ex k.path with
    | .error err => .error (("kustomize build: " : GoString) ++ err)
    | .ok yml =>
      kustomizationRows sort (diffEnv rt e) rt.unmarshalYAML k.targetNamespace yml k.inventory

/-- `renderKustomization`. -/
def renderKustomizationApp (k : Kustomization) : Rendered :=
  let source : Types.RenderSource := { method := "kustomize build" }
  match getKustomizationSource rt e k with
  | .error err => ⟨source, .error err⟩
  | .ok src =>
    let obj := src.toObjectMeta
    let source :=
      { source with name := obj.name, «namespace» := obj.namespace, kind := src.kind, ref := src.ref }
    match src.artifact with
    | none =>
      ⟨source, .error (("source " : GoString) ++ obj.namespace ++ ("/" : GoString) ++ obj.name ++
        (" has no artifact yet — wait for the source to reconcile" : GoString))⟩
    | some art => ⟨{ source with revision := art.revision }, renderArtifact rt sort e k art⟩

/-! ## Helm releases -/

/-- `findChartRoot`. -/
def findChartRoot (ex : Extracted) : Except GoString GoString :=
  if ex.stat (Path.joinClean ex.dir "Chart.yaml") then .ok ex.dir
  else
    match ex.readDir ex.dir with
    | .error err => .error (("scan extracted artifact: " : GoString) ++ err)
    | .ok entries =>
      let subs := (entries.filter (·.2)).map fun entry => Path.joinClean ex.dir entry.1
      match subs.find? fun sub => ex.stat (Path.joinClean sub "Chart.yaml") with
      | some sub => .ok sub
      | none => .error (("no Chart.yaml found under " : GoString) ++ ex.dir)

/-- The chart of a release, extracted, with the directory of it and where it comes from. -/
structure HelmChartDir where
  ex : Extracted
  chartDir : GoString
  info : Types.RenderSource

/-- `materializeHelmChart`. -/
def materializeHelmChart (hr : HelmRelease) : Except GoString HelmChartDir :=
  if hr.helmChart = [] then
    .error "HelmRelease has no status.helmChart yet — wait for the release to reconcile at least once"
  else
    match GoString.cut '/'.toUInt8 hr.helmChart with
    | none => .error (("malformed HelmRelease.status.helmChart " : GoString) ++ rt.quote hr.helmChart)
    | some (hcNs, hcName) =>
      let chart := ("HelmChart " : GoString) ++ hcNs ++ ("/" : GoString) ++ hcName
      match e.clients.getHelmChart hcNs hcName with
      | .error err => .error (("get " : GoString) ++ chart ++ (": " : GoString) ++ err.text)
      | .ok hc =>
        match hc.artifact with
        | none => .error (chart ++ (" has no artifact yet" : GoString))
        | some art =>
          match rt.fetchAndExtract art.url art.digest with
          | .error err => .error (("fetch chart artifact: " : GoString) ++ err)
          | .ok ex =>
            match findChartRoot ex with
            | .error err => .error err
            | .ok chartDir =>
              .ok
                { ex, chartDir
                  info :=
                    { name := hc.sourceRef.name, «namespace» := hcNs, kind := hc.sourceRef.kind
                      ref := hc.version, revision := art.revision } }

/-- `renderHelmRelease`, with `none` for a panic, which is what a release in storage and no
clientset come to. -/
def renderHelmReleaseApp (hr : HelmRelease) (fuel : ℕ) : Option (Option Rendered) :=
  let method : GoString := "helm template"
  match materializeHelmChart rt e hr with
  | .error err => some (some ⟨{ method }, .error err⟩)
  | .ok chart =>
    let source := { chart.info with method }
    let releaseName := if hr.getReleaseName = [] then hr.name else hr.getReleaseName
    let releaseNs := if hr.getReleaseNamespace = [] then hr.namespace else hr.getReleaseNamespace
    match renderHelmRelease rt.toTools chart.ex chart.chartDir hr.values releaseName releaseNs with
    | .error err => some (some ⟨source, .error (("helm template: " : GoString) ++ err)⟩)
    | .ok rendered =>
      match e.clients.kube, hr.history with
      | none, some _ :: _ => some none
      | kube, history =>
        let getSecret := match kube with
          | some kube => kube.getSecret
          | none => fun _ _ => .notFound
        (helmReleaseInventory getSecret rt.storage rt.newDecoder fuel history hr.storageNamespace).map
          fun inventory => some ⟨source, .ok (helmRows sort (diffEnv rt e) rendered inventory)⟩

/-! ## The handler -/

/-- The response for what was rendered. -/
def renderResponse (p : AppPath) (rendered : Rendered) : Response where
  body := .render
    { appId := p.id
      source := rendered.source
      renderedAt := Clock.rfc3339 rt.now
      resources := match rendered.rows with
        | .error _ => []
        | .ok rows => rows
      error := match rendered.rows with
        | .error err => err
        | .ok _ => [] }

/-- `render` behind the checks. -/
def renderOf (p : AppPath) (fuel : ℕ) : Option Response :=
  if p.kind = "Kustomization" then
    match e.clients.getKustomization p.ns p.name with
    | .error err => some (writeError jsonHeaders (statusFromErr err) err.text)
    | .ok k => some (renderResponse rt p (renderKustomizationApp rt sort e k))
  else if p.kind = "HelmRelease" then
    match e.clients.getHelmRelease p.ns p.name with
    | .error err => some (writeError jsonHeaders (statusFromErr err) err.text)
    | .ok hr =>
      (renderHelmReleaseApp rt sort e hr fuel).map fun
        | none => panicked
        | some rendered => renderResponse rt p rendered
  else
    some (writeError jsonHeaders Http.statusBadRequest
      (("unsupported kind " : GoString) ++ rt.quote p.kind))

end Entry

/-- `applicationsHandler.render`. -/
def render (rt : Runtime) (policy : Policy) (registry : Option (Registry Clients)) (r : Request)
    (sort : SortSlice rowLess) (p : AppPath) : Set Response :=
  withEntry rt policy registry r jsonHeaders p.cluster fun e => eventually (renderOf rt sort e p)

end Yafu.Api
