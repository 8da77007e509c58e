import Yafu.Cluster.Registry

/-!
# The file registry and its metrics

Reference: `internal/cluster/registry_file.go`, `internal/cluster/metrics_adapter.go`,
`internal/metrics/metrics.go`.

`NewFileRegistry` registers the contexts of a kubeconfig and then the explicit clusters. Each
registration stores an entry under its name and appends the name to `order`, also where the name is
registered already. `order` is therefore free of duplicates only for configurations that name each
cluster once.
-/

namespace Yafu.Cluster

/-- `ClusterConfig`. -/
structure ClusterConfig where
  name : String
  displayName : String := ""
  region : String := ""
  environment : String := ""
  fluxNamespace : String := ""
  kubeconfig : String := ""
  context : String := ""

/-- `ClusterDefaults`. -/
structure ClusterDefaults where
  environment : String := ""
  fluxNamespace : String := ""

/-- `DiscoverConfig`. -/
structure DiscoverConfig where
  kubeconfig : String := ""
  defaults : ClusterDefaults := {}

/-- `FileConfig`. -/
structure FileConfig where
  clusters : List ClusterConfig := []
  discoverContexts : Option DiscoverConfig := none

/-- `defaultFluxNamespace`. -/
def defaultFluxNamespace : String := "flux-system"

/-- `defaultIfEmpty`. -/
def defaultIfEmpty (s d : String) : String := if s = "" then d else s

/-- The cluster that discovery registers for a context. -/
def DiscoverConfig.clusterConfig (d : DiscoverConfig) (ctxName : String) : ClusterConfig where
  name := ctxName
  environment := d.defaults.environment
  fluxNamespace := defaultIfEmpty d.defaults.fluxNamespace defaultFluxNamespace

/-- The keys of a kubeconfig's `Contexts` in the order a `range` over the map visits them. -/
structure Contexts where
  names : List String
  nodup : names.Nodup

/-- What `clientcmd` and the client constructors make of the kubeconfigs. An empty path stands for
the default loading rules, an empty context for the current one. `ρ` is `*rest.Config`, `κ` the
three clients. -/
structure Outside (ρ κ : Type*) where
  load : String → Except String Contexts
  clientConfig : (explicitPath context : String) → Except String ρ
  newClients : ρ → Except String κ

/-- The errors of `NewFileRegistry`, one constructor for each wrapping. -/
inductive ConfigError where
  | cluster (name : String) (err : ConfigError)
  | nameRequired
  | restConfig (err : String)
  | loadKubeconfig (err : String)
  | clients (err : String)
deriving DecidableEq

/-- `FileRegistry`: every ordered name is mapped, to an entry of that name. -/
structure FileRegistry (κ : Type*) where
  entries : String → Option (Entry κ)
  order : List String
  mem_order : ∀ name, name ∈ order ↔ (entries name).isSome
  name_eq : ∀ name e, entries name = some e → e.name = name

variable {ρ κ : Type*}

namespace FileRegistry

/-- The registry before the first registration. -/
def empty : FileRegistry κ where
  entries := fun _ => none
  order := []
  mem_order := by simp
  name_eq := by simp

/-- Store an entry under its name and append the name to `order`. -/
def add (r : FileRegistry κ) (e : Entry κ) : FileRegistry κ where
  entries := Function.update r.entries e.name (some e)
  order := r.order ++ [e.name]
  mem_order := by
    intro n
    by_cases hn : n = e.name
    · simp [hn]
    · simp [hn, r.mem_order n]
  name_eq := by
    intro n e' he
    by_cases hn : n = e.name
    · rw [hn, Function.update_self, Option.some.injEq] at he
      rw [hn, he]
    · rw [Function.update_of_ne hn] at he
      exact r.name_eq n e' he

/-- `addFromRESTConfig`. -/
def addFromRESTConfig (o : Outside ρ κ) (r : FileRegistry κ) (name : String) (c : ClusterConfig)
    (cfg : ρ) : Except ConfigError (FileRegistry κ) :=
  match o.newClients cfg with
  | .error err => .error (.clients err)
  | .ok clients => .ok (r.add {
      name := name
      displayName := defaultIfEmpty c.displayName name
      region := c.region
      environment := c.environment
      fluxNamespace := defaultIfEmpty c.fluxNamespace defaultFluxNamespace
      clients := clients })

/-- `addExplicit`. -/
def addExplicit (o : Outside ρ κ) (r : FileRegistry κ) (c : ClusterConfig) :
    Except ConfigError (FileRegistry κ) :=
  if c.name = "" then .error .nameRequired
  else match o.clientConfig c.kubeconfig c.context with
    | .error err => .error (.restConfig err)
    | .ok cfg => r.addFromRESTConfig o c.name c cfg

/-- The loop of `addFromDiscovery`: a context without a configuration or clients is skipped. -/
def addContexts (o : Outside ρ κ) (d : DiscoverConfig) (r : FileRegistry κ) :
    List String → FileRegistry κ
  | [] => r
  | ctxName :: rest =>
    match o.clientConfig d.kubeconfig ctxName with
    | .error _ => r.addContexts o d rest
    | .ok cfg =>
      match r.addFromRESTConfig o ctxName (d.clusterConfig ctxName) cfg with
      | .error _ => r.addContexts o d rest
      | .ok r' => r'.addContexts o d rest

/-- `addFromDiscovery`. -/
def addFromDiscovery (o : Outside ρ κ) (r : FileRegistry κ) (d : DiscoverConfig) :
    Except ConfigError (FileRegistry κ) :=
  match o.load d.kubeconfig with
  | .error err => .error (.loadKubeconfig err)
  | .ok contexts => .ok (r.addContexts o d contexts.names)

/-- The loop of `NewFileRegistry` over the explicit clusters. -/
def addClusters (o : Outside ρ κ) (r : FileRegistry κ) :
    List ClusterConfig → Except ConfigError (FileRegistry κ)
  | [] => .ok r
  | c :: rest =>
    match r.addExplicit o c with
    | .error err => .error (.cluster c.name err)
    | .ok r' => r'.addClusters o rest

end FileRegistry

/-- `NewFileRegistry`. -/
def newFileRegistry (o : Outside ρ κ) (cfg : FileConfig) : Except ConfigError (FileRegistry κ) :=
  match cfg.discoverContexts with
  | none => FileRegistry.empty.addClusters o cfg.clusters
  | some d =>
    match FileRegistry.empty.addFromDiscovery o d with
    | .error err => .error err
    | .ok r => r.addClusters o cfg.clusters

namespace FileRegistry

/-- `FileRegistry.List`: the map is read at the ordered names, which are all mapped. -/
def list (r : FileRegistry κ) : List (Entry κ) :=
  r.order.pmap (fun name h => (r.entries name).get h) fun name => (r.mem_order name).mp

/-- `FileRegistry.Get`. -/
def get (r : FileRegistry κ) (name : String) : Option (Entry κ) := r.entries name

/-- `e.SetStatus(s)` on the entry under a name, as `probeAll` does it. -/
def setStatus (r : FileRegistry κ) (name : String) (s : Status) : FileRegistry κ where
  entries := Function.update r.entries name ((r.entries name).map (Entry.setStatus · s))
  order := r.order
  mem_order := by
    intro n
    by_cases hn : n = name
    · simp [hn, r.mem_order name]
    · simp [hn, r.mem_order n]
  name_eq := by
    intro n e he
    by_cases hn : n = name
    · rw [hn, Function.update_self, Option.map_eq_some_iff] at he
      obtain ⟨e', he', rfl⟩ := he
      rw [hn, ← r.name_eq name e' he', Entry.setStatus]
    · rw [Function.update_of_ne hn] at he
      exact r.name_eq n e he

/-- The registry after the probes' writes, in the order they happen. -/
def probed (r : FileRegistry κ) (writes : List (String × Status)) : FileRegistry κ :=
  writes.foldl (fun r w => r.setStatus w.1 w.2) r

end FileRegistry

/-! ## The metrics collector -/

/-- `metrics.RegistryEntry`. -/
structure RegistryEntry where
  name : String
  reachable : Bool
  apps : ℕ
  ready : ℕ
  failing : ℕ
  suspended : ℕ
  sources : ℕ

/-- `metricsAdapter.Snapshot` of the listed entries. -/
def snapshot (entries : List (Entry κ)) : List RegistryEntry :=
  entries.map fun e => {
    name := e.name
    reachable := e.status.reachable
    apps := e.status.summary.apps
    ready := e.status.summary.ready
    failing := e.status.summary.failing
    suspended := e.status.summary.suspended
    sources := e.status.summary.sources }

/-- A constant metric: the name of its description, its labels and its value. -/
structure Metric where
  desc : String
  labels : List (String × String)
  value : ℕ

/-- The series of a metric, by which a scrape tells duplicates. -/
def Metric.series (m : Metric) : String × List (String × String) := (m.desc, m.labels)

/-- The gauges of one cluster. -/
def clusterGauges (e : RegistryEntry) : List Metric :=
  [("yafu_cluster_reachable", if e.reachable then 1 else 0), ("yafu_cluster_apps", e.apps),
    ("yafu_cluster_apps_ready", e.ready), ("yafu_cluster_apps_failing", e.failing),
    ("yafu_cluster_apps_suspended", e.suspended), ("yafu_cluster_sources", e.sources)].map
    fun g => ⟨g.1, [("cluster", e.name)], g.2⟩

/-- `registryCollector.Collect`. -/
def collect (entries : List RegistryEntry) : List Metric :=
  ⟨"yafu_clusters_total", [], entries.length⟩ :: entries.flatMap clusterGauges

/-! ## What gets registered -/

/-- The context of a kubeconfig has a configuration that clients can be built for. -/
def Outside.builds (o : Outside ρ κ) (explicitPath context : String) : Bool :=
  match o.clientConfig explicitPath context with
  | .error _ => false
  | .ok cfg => (o.newClients cfg).toBool

/-- The contexts that discovery registers. -/
def discovered (o : Outside ρ κ) (cfg : FileConfig) : List String :=
  match cfg.discoverContexts with
  | none => []
  | some d =>
    match o.load d.kubeconfig with
    | .error _ => []
    | .ok contexts => contexts.names.filter (o.builds d.kubeconfig)

/-- No explicit cluster has the name of another one or of a discovered context. -/
def DistinctNames (o : Outside ρ κ) (cfg : FileConfig) : Prop :=
  (cfg.clusters.map ClusterConfig.name).Nodup ∧ ∀ c ∈ cfg.clusters, c.name ∉ discovered o cfg

/-- The names a configuration registers. -/
def Registered (o : Outside ρ κ) (cfg : FileConfig) (name : String) : Prop :=
  name ∈ discovered o cfg ∨ ∃ c ∈ cfg.clusters, c.name = name

/-- What the readers of the registry count on. -/
structure Consistent (o : Outside ρ κ) (cfg : FileConfig) (r : FileRegistry κ) : Prop where
  once : ∀ name, Registered o cfg name → (r.list.map Entry.name).count name = 1
  same : ∀ e ∈ r.list, r.get e.name = some e
  get : ∀ name, (r.get name).isSome ↔ ∃ e ∈ r.list, e.name = name
  series : ((collect (snapshot r.list)).map Metric.series).Nodup

theorem discovered_nodup (o : Outside ρ κ) (cfg : FileConfig) : (discovered o cfg).Nodup := by
  rw [discovered]
  cases cfg.discoverContexts with
  | none => exact List.nodup_nil
  | some d =>
    dsimp only
    cases o.load d.kubeconfig with
    | error _ => exact List.nodup_nil
    | ok contexts => exact contexts.nodup.filter _

namespace FileRegistry

theorem order_addFromRESTConfig {o : Outside ρ κ} {r r' : FileRegistry κ} {name : String}
    {c : ClusterConfig} {cfg : ρ} (h : r.addFromRESTConfig o name c cfg = .ok r') :
    r'.order = r.order ++ [name] := by
  rw [addFromRESTConfig] at h
  cases hclients : o.newClients cfg with
  | error err =>
    rw [hclients] at h
    exact absurd h nofun
  | ok clients =>
    rw [hclients, Except.ok.injEq] at h
    rw [← h]
    rfl

theorem order_addExplicit {o : Outside ρ κ} {r r' : FileRegistry κ} {c : ClusterConfig}
    (h : r.addExplicit o c = .ok r') : r'.order = r.order ++ [c.name] := by
  rw [addExplicit] at h
  by_cases hname : c.name = ""
  · rw [if_pos hname] at h
    exact absurd h nofun
  · rw [if_neg hname] at h
    cases hcfg : o.clientConfig c.kubeconfig c.context with
    | error err =>
      rw [hcfg] at h
      exact absurd h nofun
    | ok cfg =>
      rw [hcfg] at h
      exact order_addFromRESTConfig h

theorem toBool_addFromRESTConfig (o : Outside ρ κ) (r : FileRegistry κ) (name : String)
    (c : ClusterConfig) (cfg : ρ) :
    (r.addFromRESTConfig o name c cfg).toBool = (o.newClients cfg).toBool := by
  rw [addFromRESTConfig]
  cases o.newClients cfg with
  | error err => rfl
  | ok clients => rfl

theorem order_addContexts (o : Outside ρ κ) (d : DiscoverConfig) (names : List String) :
    ∀ r : FileRegistry κ, (r.addContexts o d names).order =
      r.order ++ names.filter (o.builds d.kubeconfig) := by
  induction names with
  | nil =>
    intro r
    rw [addContexts, List.filter_nil, List.append_nil]
  | cons ctxName rest ih =>
    intro r
    rw [addContexts]
    cases hcfg : o.clientConfig d.kubeconfig ctxName with
    | error err =>
      have hbuilds : o.builds d.kubeconfig ctxName = false := by rw [Outside.builds, hcfg]
      rw [List.filter_cons_of_neg (by simp [hbuilds])]
      exact ih r
    | ok cfg =>
      have hbuilds : o.builds d.kubeconfig ctxName =
          (r.addFromRESTConfig o ctxName (d.clusterConfig ctxName) cfg).toBool := by
        rw [toBool_addFromRESTConfig, Outside.builds, hcfg]
      dsimp only
      cases hadd : r.addFromRESTConfig o ctxName (d.clusterConfig ctxName) cfg with
      | error err =>
        rw [hadd] at hbuilds
        rw [List.filter_cons_of_neg (by simp [hbuilds, Except.toBool])]
        exact ih r
      | ok r' =>
        rw [hadd] at hbuilds
        rw [List.filter_cons_of_pos hbuilds]
        dsimp only
        rw [ih r', order_addFromRESTConfig hadd, List.append_assoc, List.singleton_append]

theorem order_addClusters {o : Outside ρ κ} {clusters : List ClusterConfig} :
    ∀ {r r' : FileRegistry κ}, r.addClusters o clusters = .ok r' →
      r'.order = r.order ++ clusters.map ClusterConfig.name := by
  induction clusters with
  | nil =>
    intro r r' h
    rw [addClusters, Except.ok.injEq] at h
    rw [h, List.map_nil, List.append_nil]
  | cons c rest ih =>
    intro r r' h
    rw [addClusters] at h
    cases hadd : r.addExplicit o c with
    | error err =>
      rw [hadd] at h
      exact absurd h nofun
    | ok m =>
      rw [hadd] at h
      rw [ih h, order_addExplicit hadd, List.map_cons, List.append_assoc, List.singleton_append]

end FileRegistry

/-- The order slice holds the discovered contexts and then the explicit clusters. -/
theorem order_newFileRegistry {o : Outside ρ κ} {cfg : FileConfig} {r : FileRegistry κ}
    (h : newFileRegistry o cfg = .ok r) :
    r.order = discovered o cfg ++ cfg.clusters.map ClusterConfig.name := by
  rw [newFileRegistry] at h
  rw [discovered]
  cases hd : cfg.discoverContexts with
  | none =>
    rw [hd] at h
    exact FileRegistry.order_addClusters h
  | some d =>
    rw [hd] at h
    dsimp only at h ⊢
    rw [FileRegistry.addFromDiscovery] at h
    cases hload : o.load d.kubeconfig with
    | error err =>
      rw [hload] at h
      exact absurd h nofun
    | ok contexts =>
      rw [hload] at h
      rw [FileRegistry.order_addClusters h, FileRegistry.order_addContexts]
      rfl

theorem mem_order_iff_registered {o : Outside ρ κ} {cfg : FileConfig} {r : FileRegistry κ}
    (h : newFileRegistry o cfg = .ok r) (name : String) :
    name ∈ r.order ↔ Registered o cfg name := by
  rw [order_newFileRegistry h, List.mem_append, List.mem_map, Registered]

theorem nodup_order_iff {o : Outside ρ κ} {cfg : FileConfig} {r : FileRegistry κ}
    (h : newFileRegistry o cfg = .ok r) : r.order.Nodup ↔ DistinctNames o cfg := by
  rw [order_newFileRegistry h, List.nodup_append', DistinctNames]
  constructor
  · rintro ⟨-, hclusters, hdisj⟩
    exact ⟨hclusters, fun c hc hmem => hdisj hmem (List.mem_map_of_mem hc)⟩
  · rintro ⟨hclusters, hdisj⟩
    refine ⟨discovered_nodup o cfg, hclusters, fun name hname hmem => ?_⟩
    obtain ⟨c, hc, rfl⟩ := List.mem_map.mp hmem
    exact hdisj c hc hname

/-! ## What the readers see -/

namespace FileRegistry

theorem map_name_list (r : FileRegistry κ) : r.list.map Entry.name = r.order := by
  have hname : ∀ name h, ((r.entries name).get h).name = name := fun name h =>
    r.name_eq name _ (Option.some_get h).symm
  rw [list, List.map_pmap]
  simp only [hname, List.pmap_eq_map, List.map_id']

theorem mem_list {r : FileRegistry κ} {e : Entry κ} : e ∈ r.list ↔ r.get e.name = some e := by
  rw [list, List.mem_pmap, get]
  constructor
  · rintro ⟨name, hname, rfl⟩
    have hget := (Option.some_get ((r.mem_order name).mp hname)).symm
    rw [r.name_eq name _ hget]
    exact hget
  · intro he
    refine ⟨e.name, (r.mem_order e.name).mpr (by rw [he]; rfl), ?_⟩
    exact Option.get_of_eq_some _ he

theorem get_isSome_iff {r : FileRegistry κ} {name : String} :
    (r.get name).isSome ↔ ∃ e ∈ r.list, e.name = name := by
  rw [get, ← r.mem_order, ← map_name_list, List.mem_map]

theorem order_probed (r : FileRegistry κ) (writes : List (String × Status)) :
    (r.probed writes).order = r.order := by
  rw [probed]
  induction writes generalizing r with
  | nil => rfl
  | cons w writes ih => exact ih (r.setStatus w.1 w.2)

end FileRegistry

/-- One scrape has no series twice if the entries have distinct names. -/
theorem nodup_series {entries : List (Entry κ)} (h : (entries.map Entry.name).Nodup) :
    ((collect (snapshot entries)).map Metric.series).Nodup := by
  have hnames : ∀ e : RegistryEntry, ∀ s ∈ (clusterGauges e).map Metric.series,
      s.2 = [("cluster", e.name)] := by
    intro e s hs
    obtain ⟨m, hm, rfl⟩ := List.mem_map.mp hs
    obtain ⟨g, -, rfl⟩ := List.mem_map.mp hm
    rfl
  rw [collect, List.map_cons, List.map_flatMap, List.nodup_cons, List.nodup_flatMap]
  refine ⟨fun hmem => ?_, fun e _ => ?_, ?_⟩
  · -- the global gauge has no label
    obtain ⟨e, -, hs⟩ := List.mem_flatMap.mp hmem
    exact absurd (hnames e _ hs) (by simp [Metric.series])
  · simp [clusterGauges, Metric.series]
  · rw [snapshot, List.pairwise_map]
    refine (List.pairwise_map.mp h).imp fun {a b} hab s ha hb => hab ?_
    have hlabels := (hnames _ s ha).symm.trans (hnames _ s hb)
    simpa using hlabels

/-- A registry that was built is consistent, whatever the probes have written since, exactly when
no name is registered twice. -/
theorem newFileRegistry_consistent_iff {o : Outside ρ κ} {cfg : FileConfig} {r : FileRegistry κ}
    (h : newFileRegistry o cfg = .ok r) :
    (∀ writes, Consistent o cfg (r.probed writes)) ↔ DistinctNames o cfg := by
  rw [← nodup_order_iff h]
  constructor
  · intro hall
    have honce := (hall []).once
    rw [FileRegistry.map_name_list, FileRegistry.order_probed] at honce
    refine List.nodup_iff_count_le_one.mpr fun name => ?_
    by_cases hname : name ∈ r.order
    · have := honce name ((mem_order_iff_registered h name).mp hname)
      omega
    · rw [List.count_eq_zero_of_not_mem hname]
      omega
  · intro hnodup writes
    have hnames : ((r.probed writes).list.map Entry.name) = r.order := by
      rw [FileRegistry.map_name_list, FileRegistry.order_probed]
    refine ⟨fun name hname => ?_, fun e => FileRegistry.mem_list.mp,
      fun name => FileRegistry.get_isSome_iff, nodup_series (hnames ▸ hnodup)⟩
    rw [hnames]
    exact List.count_eq_one_of_mem hnodup ((mem_order_iff_registered h name).mpr hname)

/-- A kubeconfig with one context, whose configurations and clients can all be built. -/
def oneContext : Outside Unit Unit where
  load := fun _ => .ok ⟨["dev"], List.nodup_singleton _⟩
  clientConfig := fun _ _ => .ok ()
  newClients := fun _ => .ok ()

theorem newFileRegistry_consistent_iff_dev :
    ∃ r, newFileRegistry oneContext ⟨[⟨"prod", "", "", "", "", "", ""⟩], some {}⟩ = .ok r ∧
      ((∀ writes, Consistent oneContext ⟨[⟨"prod", "", "", "", "", "", ""⟩], some {}⟩
        (r.probed writes)) ↔
        DistinctNames oneContext ⟨[⟨"prod", "", "", "", "", "", ""⟩], some {}⟩) :=
  ⟨_, rfl, newFileRegistry_consistent_iff rfl⟩

/-- An explicit cluster that carries the name of a discovered context is listed twice, and every
one of its series is collected twice. -/
theorem newFileRegistry_duplicate :
    ∃ r, newFileRegistry oneContext ⟨[⟨"dev", "", "", "", "", "", ""⟩], some {}⟩ = .ok r ∧
      Registered oneContext ⟨[⟨"dev", "", "", "", "", "", ""⟩], some {}⟩ "dev" ∧
      (r.list.map Entry.name).count "dev" = 2 ∧
      ¬ ((collect (snapshot r.list)).map Metric.series).Nodup := by
  refine ⟨_, rfl, .inl ?_, ?_, ?_⟩
  · decide
  · rfl
  · decide

end Yafu.Cluster
