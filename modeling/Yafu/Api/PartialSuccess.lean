import Yafu.Api.NonInterference

/-!
# Partial success

Reference: `list` and the functions for one cluster in `internal/api/applications.go`, `sources.go`,
`alerts.go` and `images.go`.

A list accounts for every cluster that is asked by what that cluster answers and nothing else: with
an error, or with the rows of its objects. The lists differ in what they make of a call that fails.
That the Kustomizations, the alerts or the image policies cannot be listed is an error of the
cluster; the providers and the image repositories only embellish the rows and are best-effort.
-/

namespace Yafu.Api

open Yafu.Auth (Policy)
open Yafu.Cluster (Time Registry)

/-! ## Accounts -/

section Accounts

variable {ρ : Type}

/-- The error under which a cluster appears. -/
def errorOf (account : Entry → Except GoString (List ρ)) (e : Entry) : Option Types.ClusterError :=
  match account e with
  | .error err => some ⟨e.name, err⟩
  | .ok _ => none

/-- The rows that a cluster contributes. -/
def rowsOf (account : Entry → Except GoString (List ρ)) (e : Entry) : List ρ :=
  (account e).toOption.getD []

/-- The errors and the items of a list are those of these clusters, each once. -/
structure Accounted (account : Entry → Except GoString (List ρ)) (clusters : List Entry)
    (l : Types.Listing ρ) : Prop where
  errors : l.errors.Perm (clusters.filterMap (errorOf account))
  items : l.items.Perm (clusters.flatMap (rowsOf account))

/-- The clusters that a request for a list is about. -/
def askedClusters (rt : Runtime) (policy : Policy) (registry : Option (Registry Clients))
    (r : Request) : List Entry :=
  match registry with
  | none => []
  | some reg => selectEntries rt policy r (r.http.query "cluster") reg.list

/-- Every answer of a list, and there is one, accounts for the clusters in the same way: with an
error if the cluster is failing, with these rows if it lists them. -/
def PartialSuccess (rt : Runtime)
    (list : Policy → Option (Registry Clients) → Request → Set (Types.Listing ρ))
    (Failing : Entry → Prop) (Lists : Entry → List ρ → Prop) : Prop :=
  ∃ account : Entry → Except GoString (List ρ),
    (∀ e, Failing e → ∃ err, account e = .error err) ∧
      (∀ e rows, Lists e rows → account e = .ok rows) ∧
      ∀ policy registry r, (list policy registry r).Nonempty ∧
        ∀ l ∈ list policy registry r, Accounted account (askedClusters rt policy registry r) l

theorem items_collect (results : List (Except Types.ClusterError (List ρ))) :
    (collect results).items = results.flatMap fun result => result.toOption.getD [] := by
  induction results with
  | nil => rfl
  | cons result results ih =>
    cases result with
    | error err =>
      rw [collect, ih, List.flatMap_cons]
      rfl
    | ok rows =>
      rw [collect, ih, List.flatMap_cons]
      rfl

/-- What a list that fans out is made of: the rows of the clusters, in the order in which these
answered. -/
theorem items_listing {rt : Runtime} {policy : Policy} {registry : Option (Registry Clients)}
    {r : Request} {fetch : Entry → Except GoString (List ρ)} {finish : List ρ → List ρ}
    (hnil : finish [] = []) {l : Types.Listing ρ}
    (h : l ∈ listing rt policy registry r fetch finish (r.http.query "cluster")) :
    ∃ merged, merged.Perm ((askedClusters rt policy registry r).flatMap (rowsOf fetch)) ∧
      l.items = finish merged := by
  cases registry with
  | none =>
    obtain rfl : l = ⟨[], []⟩ := h
    exact ⟨[], .refl _, hnil.symm⟩
  | some reg =>
    obtain ⟨results, hreceived, rfl⟩ := h
    refine ⟨_, ?_, rfl⟩
    rw [items_collect]
    -- the results come in the order of the goroutines, each once
    refine (hreceived.perm.flatMap_right _).trans (.of_eq ?_)
    rw [List.flatMap_map]
    refine List.flatMap_congr fun e _ => ?_
    rw [clusterResult, rowsOf]
    cases fetch e <;> rfl

/-- A list that fans out accounts for each cluster by what is fetched from it. -/
theorem accounted_listing {rt : Runtime} {policy : Policy} {registry : Option (Registry Clients)}
    {r : Request} {fetch : Entry → Except GoString (List ρ)} {finish : List ρ → List ρ}
    (hfinish : ∀ rows, (finish rows).Perm rows) {l : Types.Listing ρ}
    (h : l ∈ listing rt policy registry r fetch finish (r.http.query "cluster")) :
    Accounted fetch (askedClusters rt policy registry r) l := by
  obtain ⟨merged, hmerged, hitems⟩ := items_listing (List.perm_nil.mp (hfinish [])) h
  refine ⟨?_, hitems ▸ (hfinish merged).trans hmerged⟩
  cases registry with
  | none =>
    obtain rfl : l = ⟨[], []⟩ := h
    exact .refl _
  | some reg => exact errors_listing h

theorem partialSuccess_listing {rt : Runtime} {fetch : Entry → Except GoString (List ρ)}
    {finish : List ρ → List ρ} {Failing : Entry → Prop} {Lists : Entry → List ρ → Prop}
    (hfinish : ∀ rows, (finish rows).Perm rows) (hfailing : ∀ e, Failing e → ∃ err, fetch e = .error err)
    (hlists : ∀ e rows, Lists e rows → fetch e = .ok rows) :
    PartialSuccess rt
      (fun policy registry r => listing rt policy registry r fetch finish (r.http.query "cluster"))
      Failing Lists :=
  ⟨fetch, hfailing, hlists, fun _ _ _ => ⟨listing_nonempty _, fun _ h => accounted_listing hfinish h⟩⟩

end Accounts

/-! ## What the lists make of one cluster -/

/-- A cluster that is not asked for objects. -/
def Down (e : Entry) : Prop := e.status.reachable = false ∨ e.status.fluxInstalled = false

/-- A cluster that is. -/
def Up (e : Entry) : Prop := e.status.reachable = true ∧ e.status.fluxInstalled = true

/-- The objects of a kind that may not be installed. -/
def ListsOptional {α : Type} (answer : Except ApiError (List α)) (items : List α) : Prop :=
  answer = .ok items ∨ (∃ err, answer = .error err ∧ isImageCRDsMissing err = true) ∧ items = []

theorem bestEffort_of_listsOptional {α : Type} {answer : Except ApiError (List α)} {items : List α}
    (h : ListsOptional answer items) : bestEffort answer = items := by
  rcases h with rfl | ⟨⟨err, rfl, -⟩, rfl⟩
  · rfl
  · rfl

theorem checkFlux_of_down {ρ : Type} {e : Entry} (h : Down e) (rows : Except GoString (List ρ)) :
    ∃ err, checkFlux e rows = .error err := by
  rw [checkFlux]
  rcases h with h | h
  · exact ⟨_, by rw [h]; rfl⟩
  · cases e.status.reachable with
    | false => exact ⟨_, rfl⟩
    | true => exact ⟨_, by rw [h]; rfl⟩

theorem checkFlux_of_up {ρ : Type} {e : Entry} (h : Up e) (rows : Except GoString (List ρ)) :
    checkFlux e rows = rows := by
  rw [checkFlux, h.1, h.2]
  rfl

/-- An error behind the checks is an error of the cluster. -/
theorem checkFlux_of_error {ρ : Type} (e : Entry) {err : GoString} {rows : Except GoString (List ρ)}
    (h : rows = .error err) : ∃ err, checkFlux e rows = .error err := by
  rw [checkFlux, h]
  split_ifs
  · exact ⟨_, rfl⟩
  · exact ⟨_, rfl⟩
  · exact ⟨_, rfl⟩

/-- A cluster that no row of the applications can come from. -/
def ApplicationsFail (e : Entry) : Prop := Down e ∨ ∃ err, e.clients.kustomizations = .error err

/-- The rows of the Kustomizations and of the HelmReleases of a cluster. -/
def ListsApplications (now : Time) (e : Entry) (rows : List Types.Application) : Prop :=
  Up e ∧ ∃ ks hrs, e.clients.kustomizations = .ok ks ∧ ListsOptional e.clients.helmReleases hrs ∧
    rows = ks.map (kustomizationToApp now e) ++ hrs.map (helmReleaseToApp now e)

/-- The rows of the sources of a cluster. -/
def ListsSources (now : Time) (e : Entry) (rows : List Types.Source) : Prop :=
  Up e ∧ ∃ gits helms ocis buckets, ListsOptional e.clients.gitRepositories gits ∧
    ListsOptional e.clients.helmRepositories helms ∧ ListsOptional e.clients.ociRepositories ocis ∧
    ListsOptional e.clients.buckets buckets ∧
    rows = gits.map (gitRepoToSource now e) ++ helms.map (helmRepoToSource now e) ++
      ocis.map (ociRepoToSource now e) ++ buckets.map (bucketToSource now e)

/-- A cluster that no row of the alerts can come from. -/
def AlertsFail (e : Entry) : Prop := Down e ∨ ∃ err, e.clients.alerts = .error err

/-- The rows of the alerts of a cluster, with the providers that are listed. -/
def ListsAlerts (now : Time) (e : Entry) (rows : List Types.Alert) : Prop :=
  Up e ∧ ∃ alerts, e.clients.alerts = .ok alerts ∧
    rows = alerts.map fun a =>
      alertToDTO now e a (indexed Provider.toObjectMeta (bestEffort e.clients.providers)
        (a.namespace ++ ("/" : GoString) ++ a.providerRef))

/-- A cluster that no row of the image updates can come from. -/
def UpdatesFail (e : Entry) : Prop :=
  Down e ∨ ∃ err, e.clients.imagePolicies = .error err ∧ isImageCRDsMissing err = false

/-- The rows of the image policies of a cluster, with the repositories that are listed. -/
def ListsUpdates (now : Time) (e : Entry) (rows : List Types.ImageUpdate) : Prop :=
  Up e ∧ ∃ policies, ListsOptional e.clients.imagePolicies policies ∧
    rows = policies.map fun p => imagePolicyToUpdate now e p (bestEffort e.clients.imageRepositories)

section Lists

variable {now : Time} {e : Entry}

theorem listApplications_error (h : ApplicationsFail e) :
    ∃ err, listApplicationsForCluster now e = .error err := by
  rcases h with h | ⟨err, h⟩
  · exact checkFlux_of_down h _
  · exact checkFlux_of_error e (by rw [h])

theorem listApplications_ok {rows : List Types.Application} (h : ListsApplications now e rows) :
    listApplicationsForCluster now e = .ok rows := by
  obtain ⟨hup, ks, hrs, hks, hhrs, rfl⟩ := h
  rw [listApplicationsForCluster, checkFlux_of_up hup, hks, bestEffort_of_listsOptional hhrs]

theorem listSources_ok {rows : List Types.Source} (h : ListsSources now e rows) :
    listSourcesForCluster now e = .ok rows := by
  obtain ⟨hup, gits, helms, ocis, buckets, hgits, hhelms, hocis, hbuckets, rfl⟩ := h
  rw [listSourcesForCluster, checkFlux_of_up hup, bestEffort_of_listsOptional hgits,
    bestEffort_of_listsOptional hhelms, bestEffort_of_listsOptional hocis,
    bestEffort_of_listsOptional hbuckets]

theorem listAlerts_error (h : AlertsFail e) : ∃ err, listAlertsForCluster now e = .error err := by
  rcases h with h | ⟨err, h⟩
  · exact checkFlux_of_down h _
  · exact checkFlux_of_error e (by rw [h])

theorem listAlerts_ok {rows : List Types.Alert} (h : ListsAlerts now e rows) :
    listAlertsForCluster now e = .ok rows := by
  obtain ⟨hup, alerts, halerts, rfl⟩ := h
  rw [listAlertsForCluster, checkFlux_of_up hup, halerts]

theorem listImageUpdates_error (h : UpdatesFail e) :
    ∃ err, listImageUpdatesForCluster now e = .error err := by
  rcases h with h | ⟨err, h, hmissing⟩
  · exact checkFlux_of_down h _
  · refine @checkFlux_of_error _ e (("list ImagePolicies: " : GoString) ++ err.text) _ ?_
    rw [h]
    exact if_neg (by simp [hmissing])

theorem listImageUpdates_ok {rows : List Types.ImageUpdate} (h : ListsUpdates now e rows) :
    listImageUpdatesForCluster now e = .ok rows := by
  obtain ⟨hup, policies, hpolicies, rfl⟩ := h
  rw [listImageUpdatesForCluster, checkFlux_of_up hup]
  rcases hpolicies with hok | ⟨⟨err, herr, hmissing⟩, rfl⟩
  · rw [hok]
  · rw [herr]
    exact if_pos hmissing

end Lists

/-- **Partial success of the lists.** Each list accounts for the clusters that it asks by what each answers
alone. A cluster that is down, or on which the Kustomizations, the alerts or (unless their types are not
installed) the image policies cannot be listed, appears in the errors and contributes nothing; a cluster on
which every kind is listed or not installed contributes the row of each object once and no error, providers
and image repositories left aside. -/
theorem lists_partialSuccess (rt : Runtime) (sorts : Sorts) :
    PartialSuccess rt
        (fun policy registry r => listApplications rt policy registry r sorts.applications)
        ApplicationsFail (ListsApplications rt.now) ∧
      PartialSuccess rt (fun policy registry r => listSources rt policy registry r sorts.sources)
        Down (ListsSources rt.now) ∧
      PartialSuccess rt (fun policy registry r => listAlerts rt policy registry r sorts.alerts)
        AlertsFail (ListsAlerts rt.now) ∧
      PartialSuccess rt
        (fun policy registry r => listImageUpdates rt policy registry r sorts.updates)
        UpdatesFail (ListsUpdates rt.now) := by
  refine ⟨?_, ?_, ?_, ?_⟩
  · exact partialSuccess_listing sorts.applications.perm (fun _ => listApplications_error)
      fun _ _ => listApplications_ok
  · exact partialSuccess_listing sorts.sources.perm (fun _ h => checkFlux_of_down h _)
      fun _ _ => listSources_ok
  · exact partialSuccess_listing sorts.alerts.perm (fun _ => listAlerts_error) fun _ _ => listAlerts_ok
  · exact partialSuccess_listing sorts.updates.perm (fun _ => listImageUpdates_error)
      fun _ _ => listImageUpdates_ok

/-! ## Providers that cannot be listed -/

/-- A cluster whose providers may not be listed. -/
def noProviders : Entry :=
  let e := reachableEntry "dev"
  { e with clients := { e.clients with
      providers := .error { text := "providers is forbidden", kind := .forbidden } } }

/-- That the providers of a cluster cannot be listed is no error. -/
theorem providers_unreported :
    ¬ ∀ (rt : Runtime) (sorts : Sorts) (policy : Policy) (reg : Registry Clients) (r : Request)
      (l : Types.Listing Types.Alert), l ∈ listAlerts rt policy (some reg) r sorts.alerts →
        ∀ e ∈ askedClusters rt policy (some reg) r, Up e →
          (∃ err, e.clients.providers = .error err ∧ isImageCRDsMissing err = false) →
            ∃ err ∈ l.errors, err.cluster = e.name := by
  intro h
  let registry : Registry Clients := ⟨[noProviders], fun _ => some noProviders⟩
  have hasked : askedClusters idleRuntime Auth.defaultAllowAllPolicy (some registry) devRequest =
      [noProviders] := rfl
  obtain ⟨l, hl⟩ : (listAlerts idleRuntime Auth.defaultAllowAllPolicy (some registry) devRequest
    keySorts.alerts).Nonempty := listing_nonempty _
  have herrors : l.errors = [] := by
    have hperm := (accounted_listing keySorts.alerts.perm hl).errors
    rw [hasked] at hperm
    exact hperm.eq_nil
  obtain ⟨err, herr, -⟩ := h idleRuntime keySorts Auth.defaultAllowAllPolicy registry devRequest l hl
    noProviders (hasked ▸ List.mem_singleton_self _) ⟨rfl, rfl⟩ ⟨_, rfl, rfl⟩
  rw [herrors] at herr
  cases herr

end Yafu.Api
