import Yafu.Render.Artifact
import Yafu.Render.Build

/-!
# Which paths are accepted

Reference: the checks of names in `extractTarGz` (`internal/render/artifact.go`) and of `spec.path` in
`RenderKustomization` (`internal/render/kustomize.go`).

Both end with a `filepath.Rel` that must not begin with two dots. That refuses what leads out of the
directory, and with it every path whose first element merely begins with two dots.
-/

namespace Yafu.Render

open GoString Path

/-! ## Entries of an archive -/

namespace Artifact

variable {h : Host} {i : ℕ} {d : Disk} {hdr : Header} {dir : GoString}

/-- The entry leads to a call of package `os`. -/
def Accepted (h : Host) (i : ℕ) (dir : GoString) (d : Disk) (hdr : Header) : Prop :=
  (extractEntry h i dir d hdr).1.calls ≠ d.calls

/-- The cleaned path is relative and does not lead above where it is taken. -/
def Contained (name : GoString) : Prop :=
  (clean name).head? ≠ some slash ∧ (cleanElems name).head? ≠ some dots

theorem calls_mkdirAll (path : GoString) :
    (d.mkdirAll h i path).1.calls = d.calls ++ [.mkdirAll path] := rfl

theorem calls_openFile (path : GoString) :
    (d.openFile h i path).1.calls = d.calls ++ [.openFile path] := rfl

theorem calls_fillFile (dst : GoString) :
    (fillFile h i d hdr dst).1.calls = d.calls ++ [.write dst, .close dst] := by
  have hcopy : (d.copyClose h i dst hdr.content (maxFileSize + 1)).1.calls =
      d.calls ++ [.write dst, .close dst] := rfl
  rw [← hcopy, fillFile]
  split <;> rename_i heq
  · rw [heq]
  · rw [heq]
  · rw [heq]
    split_ifs
    · rfl
    · rfl

/-- A regular file leads to a call at least. -/
theorem calls_extractFile (dst : GoString) :
    ∃ calls, (extractFile h i d hdr dst).1.calls = d.calls ++ .mkdirAll (Path.dir dst) :: calls := by
  have hmkdir := @calls_mkdirAll h i d (Path.dir dst)
  rw [extractFile]
  split
  · next d₁ err heq =>
    rw [heq] at hmkdir
    exact ⟨[], hmkdir⟩
  · next d₁ heq =>
    rw [heq] at hmkdir
    have hopen := @calls_openFile h i d₁ dst
    rw [hmkdir] at hopen
    split
    · next d₂ err heq' =>
      rw [heq'] at hopen
      exact ⟨_, hopen.trans (List.append_assoc _ _ _)⟩
    · next d₂ heq' =>
      rw [heq'] at hopen
      refine ⟨[.openFile dst, .write dst, .close dst], (calls_fillFile dst).trans ?_⟩
      rw [show d₂.calls = _ from hopen, List.append_assoc, List.append_assoc]
      rfl

theorem accepted_iff (htype : hdr.typeflag = typeDir ∨ hdr.typeflag = typeReg) :
    Accepted h i dir d hdr ↔ hdr.name.head? ≠ some slash ∧
      ¬ (clean hdr.name = dots ∨ ("../" : GoString) <+: clean hdr.name) ∧
      ¬ dots <+: rel dir (destination dir hdr.name) := by
  have hgrown : ∀ {calls : List Call} {c : Call} {cs : List Call}, calls = d.calls ++ c :: cs →
      calls ≠ d.calls := by
    rintro _ c cs rfl heq
    exact absurd (List.append_right_eq_self.mp heq) (List.cons_ne_nil c cs)
  rw [Accepted, extractEntry]
  split_ifs with habs hup hrel hdir hreg
  · exact iff_of_false (fun hne => hne rfl) fun hall => hall.1 habs
  · exact iff_of_false (fun hne => hne rfl) fun hall => hall.2.1 hup
  · exact iff_of_false (fun hne => hne rfl) fun hall => hall.2.2 hrel
  · refine iff_of_true ?_ ⟨habs, hup, hrel⟩
    have hmkdir := @calls_mkdirAll h i d (destination dir hdr.name)
    split <;> rename_i heq <;> rw [heq] at hmkdir
    · exact hgrown hmkdir
    · exact hgrown hmkdir
  · obtain ⟨calls, hcalls⟩ := @calls_extractFile h i d hdr (destination dir hdr.name)
    exact iff_of_true (hgrown hcalls) ⟨habs, hup, hrel⟩
  · exact absurd htype (not_or.mpr ⟨hdir, hreg⟩)
  · exact absurd htype (not_or.mpr ⟨hdir, hreg⟩)

/-- What is accepted is contained and has no first element that begins with two dots. -/
theorem accepted_iff_contained (hdir : dir ≠ [])
    (htype : hdr.typeflag = typeDir ∨ hdr.typeflag = typeReg) :
    Accepted h i dir d hdr ↔ Contained hdr.name ∧ ¬ Dotted (cleanElems hdr.name) := by
  rw [accepted_iff htype, Contained, ne_eq, ne_eq, head?_clean, and_assoc]
  refine and_congr_right fun hroot => ?_
  rw [leadsUp_iff hroot]
  refine and_congr_right fun hup => ?_
  have hdots : dots ∉ cleanElems hdr.name := fun hmem =>
    hup (head?_of_dots_mem (List.nil_append _).symm hmem)
  have helems : cleanElems (destination dir hdr.name) = cleanElems dir ++ cleanElems hdr.name := by
    have hkey := key_joinClean hdir (p := hdr.name) (mt List.mem_reverse.mp hdots)
    rw [key, key, key, ← List.reverse_append, List.reverse_inj] at hkey
    exact hkey
  rw [not_dots_prefix_rel_iff]
  constructor
  · rintro ⟨rest, hrest, -, hdotted⟩
    rwa [List.append_cancel_left (helems.symm.trans hrest)]
  · exact fun hdotted => ⟨_, helems, hdots, hdotted⟩

end Artifact

/-! ## The path of a Kustomization -/

variable {tools : Tools} {ex : Extracted}

/-- The error for a path that leads out of the artifact. -/
def escapesError (tools : Tools) (specPath : GoString) : GoString :=
  ("kustomization path " : GoString) ++ tools.quote specPath ++ (" escapes artifact root" : GoString)

/-- `RenderKustomization` does not refuse the path. -/
def AcceptsPath (tools : Tools) (ex : Extracted) (specPath : GoString) : Prop :=
  buildKustomization tools ex specPath ≠ .error (escapesError tools specPath)

/-- No other error has the text. -/
theorem acceptsPath_iff (specPath : GoString) :
    AcceptsPath tools ex specPath ↔ ¬ dots <+: rel ex.dir (kustomizationTarget ex specPath) := by
  have hne : ∀ l s : GoString, 9 ≤ l.length → l.take 9 ≠ "kustomiza" →
      l ++ s ≠ escapesError tools specPath := by
    intro l s hlen hl heq
    have htake := congrArg (List.take 9) heq
    rw [List.take_append_of_le_length hlen] at htake
    exact hl htake
  rw [AcceptsPath, buildKustomization]
  split_ifs with hrel hfile
  · exact iff_of_false (fun h => h rfl) fun h => h hrel
  · exact iff_of_true (fun h => hne _ _ (by decide) (by decide) (Except.error.inj h)) hrel
  · refine iff_of_true ?_ hrel
    split
    · exact fun h => hne _ _ (by decide) (by decide) (Except.error.inj h)
    · exact fun h => hne _ _ (by decide) (by decide) (Except.error.inj h)
    · exact nofun

/-- The `./` in front makes no difference below a directory. -/
theorem cleanElems_kustomizationTarget (hdir : ex.dir ≠ []) (specPath : GoString) :
    cleanElems (kustomizationTarget ex specPath) = cleanElems (joinClean ex.dir specPath) := by
  have hjoin : ∀ s, cleanElems (joinClean ex.dir s) =
      ((split slash s).foldl (cleanStep (ex.dir.head? = some slash))
        ((split slash ex.dir).foldl (cleanStep (ex.dir.head? = some slash)) [])).reverse := by
    intro s
    have hhead : (ex.dir ++ slash :: s).head? = ex.dir.head? := by
      obtain ⟨b, dir, hb⟩ := List.exists_cons_of_ne_nil hdir
      rw [hb]
      rfl
    have hclean := congrArg List.reverse (key_clean (ex.dir ++ slash :: s))
    rw [key, key, List.reverse_reverse, List.reverse_reverse] at hclean
    rw [joinClean, if_pos hdir, hclean, cleanElems, hhead, split_append_cons, List.foldl_append]
  have hdot : ∀ s, split slash (("./" : GoString) ++ s) = ("." : GoString) :: split slash s := fun s =>
    split_append (by decide : slash ∉ ("." : GoString)) s
  have hskip : ∀ acc, cleanStep (ex.dir.head? = some slash) acc "." = acc := fun _ => if_pos (.inr rfl)
  rw [kustomizationTarget]
  split_ifs with hempty
  · rw [hempty]
    rfl
  · cases hcut : specPath.cutPrefix "./" with
    | none => rfl
    | some rest =>
      rw [cutPrefix_eq_some_iff.mp hcut, Option.getD_some, hjoin, hjoin, hdot, List.foldl_cons, hskip]

/-- What is accepted is within the artifact, under a first element that does not begin with two dots. -/
theorem acceptsPath_iff_within (hdir : ex.dir ≠ []) (specPath : GoString) :
    AcceptsPath tools ex specPath ↔ ∃ rest,
      cleanElems (joinClean ex.dir specPath) = cleanElems ex.dir ++ rest ∧ dots ∉ rest ∧
        ¬ Dotted rest := by
  rw [acceptsPath_iff, not_dots_prefix_rel_iff, cleanElems_kustomizationTarget hdir]

/-! ## Both checks -/

/-- The first element behind those of the directory is longer than the two dots that it begins with. -/
def DottedBelow (dir targ : GoString) : Prop :=
  ∃ rest, cleanElems targ = cleanElems dir ++ rest ∧ Dotted rest

/-- Each check accepts exactly what stays inside, except for a first element that merely begins with two
dots. -/
theorem checks_exact_iff {h : Artifact.Host} {i : ℕ} {d : Artifact.Disk} {hdr : Artifact.Header}
    {path : GoString} (hdir : ex.dir ≠ []) (hrel : path.head? ≠ some slash) (hname : hdr.name = path)
    (htype : hdr.typeflag = Artifact.typeDir ∨ hdr.typeflag = Artifact.typeReg) :
    ((Artifact.Accepted h i ex.dir d hdr ↔ Artifact.Contained path) ↔ ¬ Dotted (cleanElems path)) ∧
      ((AcceptsPath tools ex path ↔ Within ex.dir (joinClean ex.dir path)) ↔
        ¬ DottedBelow ex.dir (joinClean ex.dir path)) := by
  subst hname
  constructor
  · rw [Artifact.accepted_iff_contained hdir htype]
    constructor
    · intro hexact hdotted
      obtain ⟨e, he, -, hne⟩ := id hdotted
      -- a first element other than `..` does not lead up
      have hcontained : Artifact.Contained hdr.name :=
        ⟨mt (head?_clean _).mp hrel, fun hup => hne (Option.some.inj (he.symm.trans hup))⟩
      exact (hexact.mpr hcontained).2 hdotted
    · exact fun hdotted => and_iff_left hdotted
  · rw [acceptsPath_iff_within hdir]
    constructor
    · rintro hexact ⟨rest, hrest, hdotted⟩
      have hdots : dots ∉ rest := by
        intro hmem
        obtain ⟨e, he, -, hne⟩ := hdotted
        exact hne (Option.some.inj (he.symm.trans (head?_of_dots_mem hrest hmem)))
      obtain ⟨rest', hrest', -, hnot⟩ := hexact.mpr ⟨rest, hrest, hdots⟩
      exact hnot (List.append_cancel_left (hrest'.symm.trans hrest) ▸ hdotted)
    · intro hbelow
      exact exists_congr fun rest => and_congr_right fun hrest =>
        and_iff_left fun hdotted => hbelow ⟨rest, hrest, hdotted⟩

/-- An artifact with a directory `..data` in it, as a mounted ConfigMap has one. -/
def dataArtifact : Extracted where
  dir := "/tmp/yafu-render-1"
  stat _ := true
  readDir _ := .ok [("..data", true)]

/-- An entry of it. -/
def dataEntry : Artifact.Header := { name := "..data/app.yaml", typeflag := Artifact.typeReg }

/-- A builder that makes nothing of a directory. -/
def emptyTools : Tools where
  fetchAndExtract _ _ := .ok dataArtifact
  krusty _ _ := .ok (.ok [])
  loadChart _ _ := .ok []
  toRenderValues _ values _ _ := .ok values
  renderChart _ _ := .ok []
  marshalYAML _ := .ok []
  unmarshalYAML _ := .ok []
  unmarshalJSON _ := .ok []
  quote s := s
  getOpCodes _ _ := []

/-- A path with a second element that begins with two dots goes through both checks. -/
theorem checks_exact_deep :
    (Artifact.Accepted Artifact.stuckHost 0 dataArtifact.dir ⟨Artifact.tmpTree, []⟩
        { dataEntry with name := "deploy/..data" } ↔ Artifact.Contained "deploy/..data") ∧
      (AcceptsPath emptyTools dataArtifact "deploy/..data" ↔
        Within dataArtifact.dir (joinClean dataArtifact.dir "deploy/..data")) := by
  have hexact : ((Artifact.Accepted Artifact.stuckHost 0 dataArtifact.dir ⟨Artifact.tmpTree, []⟩
          { dataEntry with name := "deploy/..data" } ↔ Artifact.Contained "deploy/..data") ↔
        ¬ Dotted (cleanElems "deploy/..data")) ∧
      ((AcceptsPath emptyTools dataArtifact "deploy/..data" ↔
          Within dataArtifact.dir (joinClean dataArtifact.dir "deploy/..data")) ↔
        ¬ DottedBelow dataArtifact.dir (joinClean dataArtifact.dir "deploy/..data")) :=
    checks_exact_iff (by decide) (by decide) rfl (.inr rfl)
  have hsplit : cleanElems "deploy/..data" = [("deploy" : GoString), ("..data" : GoString)] := by
    decide +kernel
  have hjoin : cleanElems (joinClean dataArtifact.dir "deploy/..data") =
      cleanElems dataArtifact.dir ++ [("deploy" : GoString), ("..data" : GoString)] := by
    decide +kernel
  have hdotted : ¬ Dotted [("deploy" : GoString), ("..data" : GoString)] := by
    rintro ⟨e, he, hpre, -⟩
    rw [← Option.some.inj he] at hpre
    exact absurd hpre (by decide)
  refine ⟨hexact.1.mpr (by rwa [hsplit]), hexact.2.mpr ?_⟩
  rintro ⟨rest, hrest, hbelow⟩
  exact hdotted (List.append_cancel_left (hjoin.symm.trans hrest) ▸ hbelow)

/-- An entry and a path that are contained, and refused. -/
theorem checks_refuse_data :
    Artifact.Contained dataEntry.name ∧
      ¬ Artifact.Accepted Artifact.stuckHost 0 dataArtifact.dir ⟨Artifact.tmpTree, []⟩ dataEntry ∧
      Within dataArtifact.dir (joinClean dataArtifact.dir "..data") ∧
      ¬ AcceptsPath emptyTools dataArtifact "..data" := by
  have hname : cleanElems dataEntry.name = [("..data" : GoString), ("app.yaml" : GoString)] := by
    decide +kernel
  have hjoin : cleanElems (joinClean dataArtifact.dir "..data") =
      cleanElems dataArtifact.dir ++ [("..data" : GoString)] := by
    decide +kernel
  refine ⟨⟨by decide +kernel, by rw [hname]; decide⟩, fun h => ?_, ⟨_, hjoin, by decide⟩, fun h => ?_⟩
  · refine ((Artifact.accepted_iff_contained (by decide) (.inr rfl)).mp h).2 ?_
    rw [hname]
    exact ⟨"..data", rfl, by decide, by decide⟩
  · obtain ⟨rest, hrest, -, hdotted⟩ := (acceptsPath_iff_within (by decide) _).mp h
    rw [List.append_cancel_left (hrest.symm.trans hjoin)] at hdotted
    exact hdotted ⟨"..data", rfl, by decide, by decide⟩

end Yafu.Render
