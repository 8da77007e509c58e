import Yafu.Lib.Path
import Yafu.Render.Diff
import Yafu.Render.Manifest

/-!
# From an artifact to objects

Reference: `internal/render/kustomize.go`, `internal/render/helm.go`.

What the renderers do up to the text that `kustomize build` or the template engine produces;
`renderKustomization` and `parseRenderedFiles` go on from there.
-/

namespace Yafu.Render

/-- The directory that `FetchAndExtract` leaves, the paths that exist, and what `ReadDir` answers:
names, and whether they are those of directories. -/
structure Extracted where
  dir : GoString
  stat : GoString → Bool
  readDir : GoString → Except GoString (List (GoString × Bool))

/-- The files of a loaded chart. -/
abbrev Chart := List (GoString × GoString)

/-- What rendering takes from elsewhere: `FetchAndExtract` as the artifact server answers it,
`krusty` with an error of the build or of `AsYaml`, the chart loader and the template engine of
Helm, the encoders and decoders, `%q` of `fmt`, and the matcher of `go-difflib`. -/
structure Tools where
  fetchAndExtract : GoString → GoString → Except GoString Extracted
  krusty : Extracted → GoString → Except GoString (Except GoString GoString)
  loadChart : Extracted → GoString → Except GoString Chart
  toRenderValues : Chart → Object → GoString → GoString → Except GoString Object
  renderChart : Chart → Object → Except GoString (List (GoString × GoString))
  marshalYAML : Object → Except GoString GoString
  unmarshalYAML : GoString → Except GoString Object
  unmarshalJSON : GoString → Except GoString Object
  quote : GoString → GoString
  getOpCodes : List GoString → List GoString → List OpCode

variable (tools : Tools) (ex : Extracted)

/-! ## Kustomizations -/

/-- The names of the file that `RenderKustomization` looks for. -/
def kustomizationFiles : List GoString := ["kustomization.yaml", "kustomization.yml", "Kustomization"]

/-- The directory that `spec.path` means. -/
def kustomizationTarget (specPath : GoString) : GoString :=
  let path : GoString := if specPath = [] then "./" else specPath
  Path.joinClean ex.dir ((path.cutPrefix "./").getD path)

/-- `RenderKustomization` up to the text that `kustomize build` produces. -/
def buildKustomization (specPath : GoString) : Except GoString GoString :=
  let target := kustomizationTarget ex specPath
  if (".." : GoString) <+: Path.rel ex.dir target then
    .error (("kustomization path " : GoString) ++ tools.quote specPath ++
      (" escapes artifact root" : GoString))
  else if (kustomizationFiles.any fun name => ex.stat (Path.joinClean target name)) = false then
    .error (("no kustomization.yaml under " : GoString) ++ tools.quote specPath)
  else
    match tools.krusty ex target with
    | .error err => .error (("kustomize build: " : GoString) ++ err)
    | .ok (.error err) => .error (("serialize kustomize result: " : GoString) ++ err)
    | .ok (.ok yml) => .ok yml

/-! ## Helm releases -/

/-- The values of a release, from the text of `spec.values`. -/
def releaseValues (values : Option GoString) : Except GoString Object :=
  match values with
  | none | some [] => .ok []
  | some raw =>
    match tools.unmarshalJSON raw with
    | .error err => .error (("decode HelmRelease spec.values: " : GoString) ++ err)
    | .ok values => .ok values

/-- `RenderHelmRelease`, for a release with this name and namespace. -/
def renderHelmRelease (chartDir : GoString) (values : Option GoString)
    (releaseName releaseNs : GoString) : Except GoString (List Object) :=
  match tools.loadChart ex chartDir with
  | .error err => .error (("load chart at " : GoString) ++ chartDir ++ (": " : GoString) ++ err)
  | .ok chart =>
    match releaseValues tools values with
    | .error err => .error err
    | .ok values =>
      match tools.toRenderValues chart values releaseName releaseNs with
      | .error err => .error (("compose render values: " : GoString) ++ err)
      | .ok values =>
        match tools.renderChart chart values with
        | .error err => .error (("helm template: " : GoString) ++ err)
        | .ok rendered => parseRenderedFiles tools.unmarshalYAML rendered releaseNs

end Yafu.Render
