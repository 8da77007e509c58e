import Yafu.Lib.Path
import Yafu.Server.Observability
import Mathlib.Data.Finset.Card

/-!
# How many series the requests create

Reference: `internal/server/middleware.go`, `New` in `internal/server/server.go`,
`internal/web/web.go`, `internal/web/embed_dev.go`, `internal/metrics/metrics.go`.

The labels `method` and `path` are taken from the request as it came. A path that no pattern of the
mux is made for goes to the catch-all of the embedded UI, which answers it, and it is a label of its
own from then on.
-/

namespace Yafu.Server.Observability

/-- The handler returns, and no call on the writer panics. -/
structure Returns (script : Script) : Prop where
  returns : script.panics = false
  valid : badCode script.calls = false

/-! ## The mux -/

/-- The embedded UI: the page of a build without it, or the file server of one with it. -/
inductive Bundle where
  | dev
  | embedded (fileServer : Request → Script) (returns : ∀ r, Returns (fileServer r))

/-- `handler` of the embedded UI. -/
def Bundle.handler : Bundle → Request → Script
  | .dev, _ => ⟨[.write], false⟩
  | .embedded fileServer _, r => fileServer r

/-- The paths of the patterns that `New` registers beside `/` and `/api/`. -/
def publicPaths : List GoString :=
  ["/metrics", "/healthz", "/readyz", "/auth/login", "/auth/callback", "/auth/logout"]

/-- The paths that a pattern other than `/` is made for, and those that the mux redirects. -/
def registered (path : GoString) : Bool :=
  publicPaths.contains path || path = "/api" || (path.cutPrefix "/api/").isSome ||
    Path.cleanTrailing path ≠ path

/-- The server around its routes. `otel` is what `otelhttp` makes of what the mux does: it hands
the calls on, so that a handler that returns still does. -/
structure Site where
  prom : Prometheus
  bundle : Bundle
  routes : Request → Script
  otel : Script → Script
  otel_returns : ∀ script, Returns script → Returns (otel script)

namespace Site

variable (site : Site)

/-- The mux: the catch-all takes what is not registered. -/
def mux (r : Request) : Script :=
  if registered r.path then site.routes r else site.bundle.handler r

/-- The handler that the middlewares are put around. -/
def traced (r : Request) : Script := site.otel (site.mux r)

/-- What requests leave behind; each comes with the id generated for it. -/
def effects (traffic : List (GoString × Request)) : List Effect :=
  traffic.flatMap fun a => (serve site.prom a.1 site.traced a.2).effects

end Site

/-- The label combinations of `HTTPRequestsTotal`. -/
def requestsTotalLabels (effects : List Effect) : Finset (GoString × GoString × ℤ) :=
  (effects.filterMap fun
    | .requestsTotal method path status => some (method, path, status)
    | _ => none).toFinset

/-- The label combinations of `HTTPRequestDuration`. -/
def requestDurationLabels (effects : List Effect) : Finset (GoString × GoString) :=
  (effects.filterMap fun
    | .requestDuration method path => some (method, path)
    | _ => none).toFinset

/-- Some number bounds the label combinations of any requests. -/
def Bounded (site : Site) : Prop :=
  ∃ bound, ∀ traffic, (requestsTotalLabels (site.effects traffic)).card ≤ bound ∧
    (requestDurationLabels (site.effects traffic)).card ≤ bound

/-! ## Pages that do not exist -/

def letterX : UInt8 := 'x'.toUInt8

/-- `/x`, `/xx`, `/xxx`, … -/
def page (n : ℕ) : GoString := Path.slash :: List.replicate (n + 1) letterX

/-- A request for such a page, without credentials. -/
def visit (n : ℕ) : GoString × Request := ([], { method := "GET", path := page n })

theorem page_injective : Function.Injective page := by
  intro n m h
  have hlength := congrArg List.length h
  rw [page, page, List.length_cons, List.length_cons, List.length_replicate,
    List.length_replicate] at hlength
  omega

theorem slash_notMem_replicate (n : ℕ) : Path.slash ∉ List.replicate n letterX := by
  intro h
  exact absurd (List.eq_of_mem_replicate h) (by decide)

theorem cleanTrailing_page (n : ℕ) : Path.cleanTrailing (page n) = page n := by
  have hsecond : (List.replicate (n + 1) letterX).head? = some letterX := rfl
  have hclean : Path.clean (page n) = page n := by
    refine Path.clean_slash_cons (slash_notMem_replicate _) nofun ?_ ?_
    · intro h
      rw [h] at hsecond
      exact absurd hsecond (by decide)
    · intro h
      rw [h] at hsecond
      exact absurd hsecond (by decide)
  rw [Path.cleanTrailing, hclean, if_neg]
  rintro ⟨hlast, hnot⟩
  exact hnot hlast

theorem registered_page (n : ℕ) : registered (page n) = false := by
  have hsecond : (page n)[1]? = some letterX := rfl
  have hpublic : publicPaths.contains (page n) = false := by
    rw [← Bool.not_eq_true, List.contains_iff_mem]
    exact fun h => absurd hsecond ((by decide : ∀ p ∈ publicPaths, p[1]? ≠ some letterX) _ h)
  have hapi : page n ≠ "/api" := fun h => absurd (h ▸ hsecond) (by decide)
  have hbelow : (page n).cutPrefix "/api/" = none := by
    refine Option.eq_none_iff_forall_ne_some.mpr fun rest h => ?_
    rw [GoString.cutPrefix_eq_some_iff] at h
    rw [h] at hsecond
    exact absurd hsecond nofun
  rw [registered, hpublic, decide_eq_false hapi, hbelow, cleanTrailing_page]
  simp

theorem labelled_visit (n : ℕ) : Labelled (visit n).2 := by
  refine ⟨Utf8.validString_of_ascii (by decide +kernel : ∀ c ∈ ("GET" : GoString), c < 0x80), ?_⟩
  refine Utf8.validString_of_ascii fun c hc => ?_
  rcases List.mem_cons.mp hc with rfl | hx
  · decide
  · rw [List.eq_of_mem_replicate hx]
    decide

/-! ## Every page is a series of its own -/

section Visits

variable (site : Site)

theorem returns_traced_visit (n : ℕ) (id : GoString) :
    Returns (site.traced (tagged id (visit n).2)) := by
  refine site.otel_returns _ ?_
  have hmux : site.mux (tagged id (visit n).2) = site.bundle.handler (tagged id (visit n).2) := by
    refine if_neg ?_
    rw [Bool.not_eq_true]
    exact registered_page n
  rw [hmux]
  cases site.bundle with
  | dev => exact ⟨rfl, rfl⟩
  | embedded fileServer hreturns => exact hreturns _

/-- A visit is recorded under its own path. -/
theorem effects_visit (n : ℕ) : ∃ status, ∃ id,
    (serve site.prom (visit n).1 site.traced (visit n).2).effects =
      [.requestsTotal "GET" (page n) status, .requestDuration "GET" (page n),
        .accessLog "GET" (page n) status id] := by
  have hscript := returns_traced_visit site n (visit n).1
  have hinner := (inner_spec (visit n).1 site.traced (visit n).2).1
  have hobs := observed_of_returns site.prom (labelled_visit n) hscript.returns
    (hinner.trans hscript.valid)
  have hserve := serve_of_returned (by rw [hobs] :
    (observed site.prom (visit n).1 site.traced (visit n).2).panicked = false)
  rw [hserve, hobs]
  exact ⟨_, _, rfl⟩

/-- The first visits. -/
def visits (n : ℕ) : List (GoString × Request) := (List.range n).map visit

theorem mem_effects_visits {n i : ℕ} (h : i < n) :
    ∃ status, .requestsTotal "GET" (page i) status ∈ site.effects (visits n) ∧
      .requestDuration "GET" (page i) ∈ site.effects (visits n) := by
  obtain ⟨status, id, heffects⟩ := effects_visit site i
  have hvisit : visit i ∈ visits n := List.mem_map_of_mem (List.mem_range.mpr h)
  refine ⟨status, List.mem_flatMap.mpr ⟨visit i, hvisit, ?_⟩,
    List.mem_flatMap.mpr ⟨visit i, hvisit, ?_⟩⟩
  · rw [heffects]
    exact List.mem_cons_self
  · rw [heffects]
    exact List.mem_cons_of_mem _ List.mem_cons_self

/-- Labels that have every one of the first pages as a path are at least as many. -/
theorem le_card_of_pages {α : Type*} {labels : Finset α} (path : α → GoString) {n : ℕ}
    (h : ∀ i < n, ∃ l ∈ labels, path l = page i) : n ≤ labels.card := by
  have hsub : (Finset.range n).image page ⊆ labels.image path := by
    intro p hp
    obtain ⟨i, hi, rfl⟩ := Finset.mem_image.mp hp
    obtain ⟨l, hl, hpath⟩ := h i (Finset.mem_range.mp hi)
    exact Finset.mem_image.mpr ⟨l, hl, hpath⟩
  calc n = ((Finset.range n).image page).card := by
        rw [Finset.card_image_of_injective _ page_injective, Finset.card_range]
    _ ≤ (labels.image path).card := Finset.card_le_card hsub
    _ ≤ labels.card := Finset.card_image_le

theorem le_card_labels_visits (n : ℕ) :
    n ≤ (requestsTotalLabels (site.effects (visits n))).card ∧
      n ≤ (requestDurationLabels (site.effects (visits n))).card := by
  constructor
  · refine le_card_of_pages (fun l => l.2.1) fun i hi => ?_
    obtain ⟨status, htotal, -⟩ := mem_effects_visits site hi
    exact ⟨("GET", page i, status), List.mem_toFinset.mpr (List.mem_filterMap.mpr ⟨_, htotal, rfl⟩),
      rfl⟩
  · refine le_card_of_pages (fun l => l.2) fun i hi => ?_
    obtain ⟨-, -, hduration⟩ := mem_effects_visits site hi
    exact ⟨("GET", page i), List.mem_toFinset.mpr (List.mem_filterMap.mpr ⟨_, hduration, rfl⟩), rfl⟩

end Visits

/-- No number bounds the label combinations of either metric, whatever the routes: requests without
credentials for pages that do not exist create as many as they like. -/
theorem labels_unbounded (site : Site) :
    ¬ Bounded site ∧ ∀ bound, ∃ traffic : List (GoString × Request),
      (∀ a ∈ traffic, a.2.headers = [] ∧ registered a.2.path = false) ∧
        bound < (requestsTotalLabels (site.effects traffic)).card ∧
        bound < (requestDurationLabels (site.effects traffic)).card := by
  constructor
  · rintro ⟨bound, h⟩
    have hmany := (le_card_labels_visits site (bound + 1)).1
    have hfew := (h (visits (bound + 1))).1
    omega
  · intro bound
    obtain ⟨htotal, hduration⟩ := le_card_labels_visits site (bound + 1)
    refine ⟨visits (bound + 1), fun a ha => ?_, htotal, hduration⟩
    obtain ⟨n, -, rfl⟩ := List.mem_map.mp ha
    exact ⟨rfl, registered_page n⟩

/-- A build without the UI, with handlers that only write. -/
def devSite : Site where
  prom := utf8Labels
  bundle := .dev
  routes := fun _ => ⟨[.write], false⟩
  otel := id
  otel_returns := fun _ h => h

/-- Requests for one page after the other are enough for as many series as one likes. -/
theorem not_bounded_devSite : ¬ Bounded devSite := by
  rintro ⟨bound, h⟩
  have hmany := (le_card_labels_visits devSite (bound + 1)).2
  have hfew := (h (visits (bound + 1))).2
  omega

end Yafu.Server.Observability
