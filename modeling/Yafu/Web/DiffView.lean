import Mathlib.Data.List.Forall2
import Yafu.Render.Coverage
import Yafu.Render.Hunks

/-!
# What the diff tab shows

Reference: `countByStatus`, `ResourcePane`, `SplitDiff` and `UnifiedDiff` in
`web/src/pages/AppDetail.tsx`.

A row of the response is a verdict and, if the object has drifted, the lines of a hunk. The tab lays
these lines out once more, in two columns or in one. `shows_verdicts` says that nothing is lost on the
way: every row is counted under one status, its pane is the one of its verdict, and both layouts have
all lines of both sides under their numbers. One thing is not shown: why the lookup of an object has
failed that is in the inventory and was not rendered.
-/

namespace Yafu.Web.DiffView

open Yafu.Render

/-! ## The two layouts -/

/-- A place in a column: `(no line)`, or a line with its number. -/
inductive Cell
  | noLine
  | line (number : Option ℕ) (text : GoString)
deriving DecidableEq, Repr

/-- A column of `SplitDiff`, where the lines of the other side leave their places empty. -/
def column (other : GoString) (number : RenderLine → Option ℕ) (lines : List RenderLine) : List Cell :=
  lines.map fun l => if l.kind = other then .noLine else .line (number l) l.text

def desiredColumn : List RenderLine → List Cell := column "add" (·.desiredLn)
def liveColumn : List RenderLine → List Cell := column "del" (·.liveLn)

/-- A line of `UnifiedDiff`, with a number for each side. -/
structure UnifiedLine where
  desiredLn : Option ℕ
  liveLn : Option ℕ
  text : GoString
deriving DecidableEq, Repr

/-- A hunk of `UnifiedDiff`. -/
def unifiedDiff (lines : List RenderLine) : List UnifiedLine :=
  lines.filterMap fun l =>
    if l.kind = ("empty" : GoString) then none else some ⟨l.desiredLn, l.liveLn, l.text⟩

inductive Layout
  | split
  | unified

/-- What is below the head of `ResourcePane`. -/
inductive Pane
  | renderError (output : GoString)
  | inSync
  | missing
  | extra
  | splitDiff (hunks : List (List Cell × List Cell))
  | unifiedDiff (hunks : List (List UnifiedLine))
deriving DecidableEq

/-- `DiffBody`. -/
def diffBody (r : RenderResource) : Layout → Pane
  | .split => .splitDiff (r.hunks.map fun h => (desiredColumn h.lines, liveColumn h.lines))
  | .unified => .unifiedDiff (r.hunks.map fun h => unifiedDiff h.lines)

/-- `ResourcePane`. An error without a text is not in the response. -/
def resourcePane (r : RenderResource) (layout : Layout) : Pane :=
  if r.status = "render-error" then
    .renderError (if r.renderError = [] then "(no output)" else r.renderError)
  else if r.status = "in-sync" then .inSync
  else if r.status = "missing-on-cluster" then .missing
  else if r.status = "extra-on-cluster" then .extra
  else diffBody r layout

/-- The keys of `countByStatus`. -/
def statuses : List GoString :=
  ["in-sync", "drifted", "missing-on-cluster", "extra-on-cluster", "render-error"]

/-- `countByStatus`, at one key. -/
def countByStatus (resources : List RenderResource) (status : GoString) : ℕ :=
  resources.countP (·.status = status)

/-- All counts of `countByStatus` together. -/
def total (resources : List RenderResource) : ℕ :=
  countByStatus resources "in-sync" + countByStatus resources "drifted" +
    countByStatus resources "missing-on-cluster" + countByStatus resources "extra-on-cluster" +
    countByStatus resources "render-error"

/-! ## The lines of a hunk -/

/-- The lines that `computeHunks` makes: a line has the numbers of the sides that its kind is for. -/
inductive Sided : RenderLine → Prop
  | context (i j : ℕ) (text : GoString) : Sided ⟨"context", some i, some j, text⟩
  | del (i : ℕ) (text : GoString) : Sided ⟨"del", some i, none, text⟩
  | add (j : ℕ) (text : GoString) : Sided ⟨"add", none, some j, text⟩

section Sided

variable {dlines llines : List GoString} {lines : List RenderLine}

theorem sided_delLines {i j : ℕ} : ∀ l ∈ delLines dlines i j, Sided l := by
  intro l hl
  obtain ⟨k, -, rfl⟩ := List.mem_map.mp hl
  exact .del _ _

theorem sided_addLines {i j : ℕ} : ∀ l ∈ addLines llines i j, Sided l := by
  intro l hl
  obtain ⟨k, -, rfl⟩ := List.mem_map.mp hl
  exact .add _ _

theorem sided_lines (op : OpCode) : ∀ l ∈ op.lines dlines llines, Sided l := by
  intro l hl
  unfold OpCode.lines at hl
  split_ifs at hl
  · obtain ⟨k, -, rfl⟩ := List.mem_map.mp hl
    exact .context _ _ _
  · exact sided_delLines l hl
  · exact sided_addLines l hl
  · exact (List.mem_append.mp hl).elim (sided_delLines l) (sided_addLines l)
  · exact absurd hl List.not_mem_nil

/-! ## Laid out -/

/-- The lines in a column. -/
def shownLines (cells : List Cell) : List (Option ℕ × GoString) :=
  cells.filterMap fun
    | .noLine => none
    | .line number text => some (number, text)

/-- The lines that have a number of one side. -/
def numberedBy (number : UnifiedLine → Option ℕ) (rows : List UnifiedLine) :
    List (Option ℕ × GoString) :=
  rows.filterMap fun r => (number r).map fun n => (some n, r.text)

/-- What stands side by side: one line that both sides have, or a line and an empty place. -/
inductive Aligned (dlines llines : List GoString) : Cell → Cell → Prop
  | both {i j : ℕ} {text : GoString} : dlines[i]? = some text → llines[j]? = some text →
      Aligned dlines llines (.line (some (i + 1)) text) (.line (some (j + 1)) text)
  | desired (number : Option ℕ) (text : GoString) : Aligned dlines llines (.line number text) .noLine
  | live (number : Option ℕ) (text : GoString) : Aligned dlines llines .noLine (.line number text)

theorem side_eq_filterMap (kind : GoString) (number : RenderLine → Option ℕ) (lines : List RenderLine) :
    side kind number lines = lines.filterMap fun l =>
      if l.kind = ("context" : GoString) ∨ l.kind = kind then some (number l, l.text) else none := by
  rw [side, ← List.filterMap_eq_map, List.filterMap_filter]
  simp only [decide_eq_true_eq, Function.comp_apply]

theorem shownLines_desiredColumn (h : ∀ l ∈ lines, Sided l) :
    shownLines (desiredColumn lines) = desiredSide lines := by
  rw [shownLines, desiredColumn, column, List.filterMap_map, desiredSide, side_eq_filterMap]
  exact List.filterMap_congr fun l hl => by cases h l hl <;> rfl

theorem shownLines_liveColumn (h : ∀ l ∈ lines, Sided l) :
    shownLines (liveColumn lines) = liveSide lines := by
  rw [shownLines, liveColumn, column, List.filterMap_map, liveSide, side_eq_filterMap]
  exact List.filterMap_congr fun l hl => by cases h l hl <;> rfl

theorem numberedBy_desiredLn (h : ∀ l ∈ lines, Sided l) :
    numberedBy (·.desiredLn) (unifiedDiff lines) = desiredSide lines := by
  rw [numberedBy, unifiedDiff, List.filterMap_filterMap, desiredSide, side_eq_filterMap]
  exact List.filterMap_congr fun l hl => by cases h l hl <;> rfl

theorem numberedBy_liveLn (h : ∀ l ∈ lines, Sided l) :
    numberedBy (·.liveLn) (unifiedDiff lines) = liveSide lines := by
  rw [numberedBy, unifiedDiff, List.filterMap_filterMap, liveSide, side_eq_filterMap]
  exact List.filterMap_congr fun l hl => by cases h l hl <;> rfl

theorem aligned_columns : ∀ {lines : List RenderLine}, (∀ l ∈ lines, Sided l) →
    (∀ l ∈ lines, ContextAgrees dlines llines l) →
      List.Forall₂ (Aligned dlines llines) (desiredColumn lines) (liveColumn lines)
  | [], _, _ => .nil
  | l :: ls, h, hcontext => by
    obtain ⟨hl, hls⟩ := List.forall_mem_cons.mp h
    obtain ⟨hagrees, hcontext'⟩ := List.forall_mem_cons.mp hcontext
    refine .cons ?_ (aligned_columns hls hcontext')
    cases hl with
    | context i j text =>
      obtain ⟨i', j', hi, hj, hdesired, hlive⟩ := hagrees rfl
      obtain rfl := Option.some.inj hi
      obtain rfl := Option.some.inj hj
      exact .both hdesired hlive
    | del i text => exact .desired _ _
    | add j text => exact .live _ _

/-- Both layouts have all lines of both sides, in order and under their numbers. -/
structure ShowsBoth (dlines llines : List GoString) (lines : List RenderLine) : Prop where
  desired : shownLines (desiredColumn lines) = numbered 0 dlines
  live : shownLines (liveColumn lines) = numbered 0 llines
  aligned : List.Forall₂ (Aligned dlines llines) (desiredColumn lines) (liveColumn lines)
  unifiedDesired : numberedBy (·.desiredLn) (unifiedDiff lines) = numbered 0 dlines
  unifiedLive : numberedBy (·.liveLn) (unifiedDiff lines) = numbered 0 llines

theorem showsBoth_of_tiles {ops : List OpCode} (h : Tiles dlines llines 0 0 ops) :
    ShowsBoth dlines llines (ops.flatMap (OpCode.lines · dlines llines)) := by
  obtain ⟨hdesired, hlive, hcontext⟩ := covers_flatMap h
  have hsided : ∀ l ∈ ops.flatMap (OpCode.lines · dlines llines), Sided l := by
    intro l hl
    obtain ⟨op, -, hl⟩ := List.mem_flatMap.mp hl
    exact sided_lines op l hl
  exact
    { desired := (shownLines_desiredColumn hsided).trans hdesired
      live := (shownLines_liveColumn hsided).trans hlive
      aligned := aligned_columns hsided hcontext
      unifiedDesired := (numberedBy_desiredLn hsided).trans hdesired
      unifiedLive := (numberedBy_liveLn hsided).trans hlive }

end Sided

/-! ## Verdicts -/

section Verdicts

variable {env : Env} {opts : DiffOptions} {r : RenderResource}

/-- The row of a key: its verdict, what a reconcile would do, and what its pane shows. -/
structure RowOf (k : ResourceKey) (status would : GoString) (pane : Layout → Pane)
    (r : RenderResource) : Prop where
  key : r.key = k
  status : r.status = status
  reconcileWould : r.reconcileWould = would
  pane : ∀ layout, resourcePane r layout = pane layout

/-- The lines of one hunk in a layout. -/
def hunkPane (lines : List RenderLine) : Layout → Pane
  | .split => .splitDiff [(desiredColumn lines, liveColumn lines)]
  | .unified => .unifiedDiff [unifiedDiff lines]

/-- The row of a rendered object, by what the lookup and `yaml.Marshal` have said of the object. An
error is in the pane. -/
inductive ShowsRendered (env : Env) (want : Object) (r : RenderResource) : Prop
  | missing {err : GoString} : env.getLive (keyOf want) = .notFound err →
      RowOf (keyOf want) "missing-on-cluster" "create" (fun _ => .missing) r → ShowsRendered env want r
  | unread {err : GoString} : env.getLive (keyOf want) = .failed err →
      RowOf (keyOf want) "render-error" ""
        (fun _ => .renderError (if err = [] then "(no output)" else err)) r → ShowsRendered env want r
  | unwritten {live : Object} : env.getLive (keyOf want) = .found live →
      (¬ ∃ w l, env.marshal (stripServerSideNoise want) = .ok w ∧
        env.marshal (stripServerSideNoise live) = .ok l) →
      RowOf (keyOf want) "render-error" ""
        (fun _ => .renderError (("serialise yaml: " : GoString) ++
          errText (env.marshal (stripServerSideNoise want)) ++ (" / " : GoString) ++
            errText (env.marshal (stripServerSideNoise live)))) r → ShowsRendered env want r
  | inSync {live : Object} {yaml : GoString} : env.getLive (keyOf want) = .found live →
      env.marshal (stripServerSideNoise want) = .ok yaml →
      env.marshal (stripServerSideNoise live) = .ok yaml →
      RowOf (keyOf want) "in-sync" "" (fun _ => .inSync) r → ShowsRendered env want r
  | drifted {live : Object} {w l : GoString} {lines : List RenderLine} :
      env.getLive (keyOf want) = .found live → env.marshal (stripServerSideNoise want) = .ok w →
      env.marshal (stripServerSideNoise live) = .ok l → w ≠ l →
      RowOf (keyOf want) "drifted" "update" (hunkPane lines) r →
      ShowsBoth (hunkLines w) (hunkLines l) lines → ShowsRendered env want r

/-- The row of an object of the inventory that was not rendered. If the lookup has failed, the row
carries the error, but the pane is the one of an object that was found. -/
inductive ShowsExtra (env : Env) (inv : ResourceKey) (r : RenderResource) : Prop
  | found {live : Object} : env.getLive inv = .found live → r.renderError = [] →
      RowOf inv "extra-on-cluster" "delete" (fun _ => .extra) r → ShowsExtra env inv r
  | unread {err : GoString} : env.getLive inv = .failed err → r.renderError = err →
      RowOf inv "extra-on-cluster" "delete" (fun _ => .extra) r → ShowsExtra env inv r

/-- The matcher gives op codes that go over both sides. -/
def Matches (env : Env) : Prop := ∀ dlines llines, Tiles dlines llines 0 0 (env.getOpCodes dlines llines)

theorem showsRendered_classifyOne (hmatches : Matches env) (want : Object) :
    ShowsRendered env want (classifyOne env want (keyOf want)) := by
  rcases hlive : env.getLive (keyOf want) with live | err | err
  · rcases hw : env.marshal (stripServerSideNoise want) with errA | w
    · refine .unwritten hlive ?_ ?_
      · rintro ⟨w, l, hw', -⟩
        cases hw.symm.trans hw'
      · simp only [classifyOne, hlive, hw]
        exact ⟨rfl, rfl, rfl, fun _ => rfl⟩
    rcases hl : env.marshal (stripServerSideNoise live) with errB | l
    · refine .unwritten hlive ?_ ?_
      · rintro ⟨w, l, -, hl'⟩
        cases hl.symm.trans hl'
      · simp only [classifyOne, hlive, hw, hl]
        exact ⟨rfl, rfl, rfl, fun _ => rfl⟩
    by_cases heq : w = l
    · subst heq
      refine .inSync hlive hw hl ?_
      simp only [classifyOne, hlive, hw, hl, if_true]
      exact ⟨rfl, rfl, rfl, fun _ => rfl⟩
    · refine .drifted hlive hw hl heq ?_ (showsBoth_of_tiles (hmatches _ _))
      simp only [classifyOne, hlive, hw, hl, if_neg heq]
      exact ⟨rfl, rfl, rfl, fun layout => by cases layout <;> rfl⟩
  · refine .missing hlive ?_
    simp only [classifyOne, hlive]
    exact ⟨rfl, rfl, rfl, fun _ => rfl⟩
  · refine .unread hlive ?_
    simp only [classifyOne, hlive]
    exact ⟨rfl, rfl, rfl, fun _ => rfl⟩

theorem showsExtra_extraRow {inv : ResourceKey} (h : extraRow env inv = some r) :
    ShowsExtra env inv r := by
  obtain ⟨hstatus, hwould⟩ := status_of_extraRow h
  have hrow : RowOf inv "extra-on-cluster" "delete" (fun _ => .extra) r := by
    refine ⟨(extraRow_eq_some h).1, hstatus, hwould, fun layout => ?_⟩
    rw [resourcePane, hstatus]
    rfl
  rcases hlive : env.getLive inv with live | err | err <;> simp only [extraRow, hlive] at h
  · obtain rfl := Option.some.inj h
    exact .found hlive rfl hrow
  · cases h
  · obtain rfl := Option.some.inj h
    exact .unread hlive rfl hrow

/-- The second pass has one row for each object that is not gone. -/
theorem forall₂_showsExtra (env : Env) : ∀ invs : List ResourceKey,
    List.Forall₂ (ShowsExtra env) (invs.filter (!env.gone ·)) (invs.filterMap (extraRow env))
  | [] => .nil
  | inv :: invs => by
    have ih := forall₂_showsExtra env invs
    cases hrow : extraRow env inv with
    | none =>
      have hgone : env.gone inv = true := (extraRow_eq_none_iff env inv).mp hrow
      rwa [List.filterMap_cons_none hrow, List.filter_cons_of_neg (by simp [hgone])]
    | some r =>
      have hgone : env.gone inv = false := by
        rw [← Bool.not_eq_true, ← extraRow_eq_none_iff, hrow]
        exact Option.some_ne_none r
      rw [List.filterMap_cons_some hrow, List.filter_cons_of_pos (by simp [hgone])]
      exact .cons (showsExtra_extraRow hrow) ih

/-! ## Counts -/

theorem status_mem_of_mem {sort : SortSlice rowLess} (hr : r ∈ diffResources sort env opts) :
    r.status ∈ statuses := by
  rcases List.mem_append.mp ((perm_diffResources sort env opts).mem_iff.mp hr) with hr | hr
  · obtain ⟨want, -, rfl⟩ := List.mem_map.mp hr
    rcases hgone : env.gone (keyOf want) with _ | _
    · have hverdicts : ∀ v ∈ verdicts, v.1 ∈ statuses := by decide
      exact hverdicts _ (verdict_classifyOne hgone want)
    · rw [(verdict_of_gone hgone want).1]
      decide
  · obtain ⟨inv, -, hextra⟩ := List.mem_filterMap.mp hr
    rw [(status_of_extraRow hextra).1]
    decide

theorem countByStatus_cons (r : RenderResource) (rs : List RenderResource) (status : GoString) :
    countByStatus (r :: rs) status = countByStatus rs status + if r.status = status then 1 else 0 := by
  rw [countByStatus, List.countP_cons]
  simp only [decide_eq_true_eq]
  rfl

/-- Every row is counted once. -/
theorem total_eq_length : ∀ {rs : List RenderResource}, (∀ r ∈ rs, r.status ∈ statuses) →
    total rs = rs.length
  | [], _ => rfl
  | r :: rs, h => by
    obtain ⟨hr, hrs⟩ := List.forall_mem_cons.mp h
    have ih := total_eq_length hrs
    have hone : ∀ s ∈ statuses, (if s = ("in-sync" : GoString) then 1 else 0) +
        (if s = ("drifted" : GoString) then 1 else 0) +
        (if s = ("missing-on-cluster" : GoString) then 1 else 0) +
        (if s = ("extra-on-cluster" : GoString) then 1 else 0) +
        (if s = ("render-error" : GoString) then 1 else 0) = 1 := by
      decide
    have hcount := hone _ hr
    rw [total] at ih
    simp only [total, countByStatus_cons, List.length_cons]
    omega

/-- **What the tab shows is what was found.** The counts of the statuses come to the number of rows.
There is one row for each rendered object and one for each object of the inventory that was neither
rendered nor gone, each under its own key and with the pane of its verdict. -/
theorem shows_verdicts (hmatches : Matches env) (sort : SortSlice rowLess) (opts : DiffOptions) :
    total (diffResources sort env opts) = (diffResources sort env opts).length ∧
      ∃ wanted extras, (diffResources sort env opts).Perm (wanted ++ extras) ∧
        List.Forall₂ (ShowsRendered env) opts.rendered wanted ∧
        List.Forall₂ (ShowsExtra env) (opts.unrendered.filter (!env.gone ·)) extras := by
  refine ⟨total_eq_length fun _ hr => status_mem_of_mem hr, _, _, perm_diffResources sort env opts, ?_,
    forall₂_showsExtra env opts.unrendered⟩
  exact List.forall₂_map_right_iff.mpr
    (List.forall₂_same.mpr fun want _ => showsRendered_classifyOne hmatches want)

end Verdicts

section Secret

/-- How many lines two texts begin with in common. -/
def commonLines : List GoString → List GoString → ℕ
  | a :: as, b :: bs => if a = b then commonLines as bs + 1 else 0
  | _, _ => 0

theorem commonLines_spec : ∀ as bs : List GoString,
    commonLines as bs ≤ as.length ∧ commonLines as bs ≤ bs.length ∧
      ∀ k < commonLines as bs, as[k]? = bs[k]?
  | [], _ => ⟨Nat.zero_le _, Nat.zero_le _, fun k hk => absurd hk (Nat.not_lt_zero k)⟩
  | _ :: _, [] => ⟨Nat.zero_le _, Nat.zero_le _, fun k hk => absurd hk (Nat.not_lt_zero k)⟩
  | a :: as, b :: bs => by
    obtain ⟨hle, hle', heq⟩ := commonLines_spec as bs
    rw [commonLines]
    split_ifs with hab
    · refine ⟨Nat.succ_le_succ hle, Nat.succ_le_succ hle', fun k hk => ?_⟩
      cases k with
      | zero => exact congrArg some hab
      | succ k => exact heq k (Nat.lt_of_succ_lt_succ hk)
    · exact ⟨Nat.zero_le _, Nat.zero_le _, fun k hk => absurd hk (Nat.not_lt_zero k)⟩

/-- A Secret of a type. -/
def secret (type : GoString) : Object :=
  [("apiVersion", .str "v1"), ("kind", .str "Secret"), ("metadata", .obj [("name", .str "registry")]),
    ("type", .str type)]

def secretYAML (type : GoString) : GoString :=
  ("apiVersion: v1\nkind: Secret\nmetadata:\n  name: registry\ntype: " : GoString) ++ type ++ ("\n" : GoString)

/-- The Secret has another type on the cluster; the two documents differ in their last line. Of the
objects of the inventory, `old` cannot be read and `gone` is not there any more. -/
def secretEnv : Env where
  getLive k :=
    if k.nm = "old" then .failed "timeout"
    else if k.nm = "gone" then .notFound "not found"
    else .found (secret "kubernetes.io/tls")
  marshal o :=
    match o.get "type" with
    | some (.str type) => .ok (secretYAML type)
    | _ => .error "no type"
  getOpCodes dlines llines :=
    let n := commonLines dlines llines
    [⟨'e'.toUInt8, 0, n, 0, n⟩, ⟨'r'.toUInt8, n, dlines.length, n, llines.length⟩]

/-- The key of a Secret in the inventory. -/
def secretKey (name : GoString) : ResourceKey := ⟨⟨[], "v1", "Secret"⟩, [], name⟩

def secretDiff : DiffOptions := ⟨[secret "Opaque"], ["registry", "old", "gone", "spare"].map secretKey⟩

theorem matches_secretEnv : Matches secretEnv := by
  intro dlines llines
  obtain ⟨hle, hle', heq⟩ := commonLines_spec dlines llines
  have hequal : OpCode.Fits ⟨'e'.toUInt8, 0, commonLines dlines llines, 0, commonLines dlines llines⟩
      dlines llines :=
    ⟨⟨Nat.zero_le _, hle⟩, ⟨Nat.zero_le _, hle'⟩, .inl ⟨rfl, rfl, fun k hk => by
      rw [Nat.zero_add]
      exact heq k hk⟩⟩
  exact ⟨rfl, rfl, hequal, rfl, rfl, ⟨⟨hle, Nat.le_refl _⟩, ⟨hle', Nat.le_refl _⟩, .inr (.inr (.inr rfl))⟩,
    rfl, rfl⟩

/-- The Secret has drifted, `old` has a row that hides its error, and `spare` is to be deleted. -/
theorem shows_verdicts_secret :
    total (diffResources rowSort secretEnv secretDiff) =
        (diffResources rowSort secretEnv secretDiff).length ∧
      ∃ wanted extras, (diffResources rowSort secretEnv secretDiff).Perm (wanted ++ extras) ∧
        List.Forall₂ (ShowsRendered secretEnv) [secret "Opaque"] wanted ∧
        List.Forall₂ (ShowsExtra secretEnv) [secretKey "old", secretKey "spare"] extras :=
  shows_verdicts matches_secretEnv rowSort secretDiff

end Secret

end Yafu.Web.DiffView
