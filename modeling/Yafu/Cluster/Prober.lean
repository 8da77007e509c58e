import Yafu.Controllers.Reconcile

/-!
# Probing a cluster

Reference: `internal/cluster/prober.go`.

`probe` is given what the remote API server answers to the calls that `Probe` makes, in the order
it makes them. An answer that is not asked for (the lists after a failed `ServerVersion`) is not
read.
-/

namespace Yafu.Cluster

open Yafu.Controllers (Condition ConditionStatus)

/-- An error of `Client.List`, by the three tests `Probe` makes on it. -/
inductive ListError where
  | noMatch (text : String)
  | notFound (text : String)
  | notRegistered (text : String)
  | other (text : String)

/-- The CRD is absent: no probe error. -/
def ListError.absent : ListError → Bool
  | .noMatch _ => true
  | .notFound _ => true
  | .notRegistered _ => true
  | .other _ => false

/-- `err.Error()`. -/
def ListError.text : ListError → String
  | .noMatch text => text
  | .notFound text => text
  | .notRegistered text => text
  | .other text => text

/-- What `Probe` reads of a Kustomization or a HelmRelease. -/
structure FluxItem where
  suspend : Bool
  conditions : List Condition

/-- `isReady`: the first condition of type `Ready` decides. -/
def isReady : List Condition → Bool
  | [] => false
  | c :: conds => if c.type = "Ready" then c.status = .conditionTrue else isReady conds

/-- Count one item in a summary. -/
def Summary.tally (s : Summary) (item : FluxItem) : Summary :=
  let s := { s with apps := s.apps + 1 }
  if item.suspend then { s with suspended := s.suspended + 1 }
  else if isReady item.conditions then { s with ready := s.ready + 1 }
  else { s with failing := s.failing + 1 }

/-- Count the HelmReleases, of which a failed list has none. -/
def Summary.tallyListed (s : Summary) : Except ListError (List FluxItem) → Summary
  | .error _ => s
  | .ok items => items.foldl Summary.tally s

/-- Count the sources of one kind by how many of them were listed. -/
def Summary.addSources (s : Summary) : Except ListError ℕ → Summary
  | .error _ => s
  | .ok n => { s with sources := s.sources + n }

/-- What the remote API server answers to one `Probe`. The source lists are given by their
lengths. -/
structure Remote where
  serverVersion : Except String String
  kustomizations : Except ListError (List FluxItem)
  helmReleases : Except ListError (List FluxItem)
  gitRepositories : Except ListError ℕ
  helmRepositories : Except ListError ℕ
  ociRepositories : Except ListError ℕ
  buckets : Except ListError ℕ

/-- `Probe`. -/
def probe (now : Time) (remote : Remote) : Status :=
  match remote.serverVersion with
  | .error err => { lastProbe := now, lastError := "discovery: " ++ err }
  | .ok gitVersion =>
    let s : Status := { lastProbe := now, reachable := true, kubernetesVersion := gitVersion }
    match remote.kustomizations with
    | .error err =>
      if err.absent then s else { s with lastError := "list kustomizations: " ++ err.text }
    | .ok items =>
      { s with
        fluxInstalled := true
        summary := (((((items.foldl Summary.tally {}).tallyListed remote.helmReleases).addSources
          remote.gitRepositories).addSources remote.helmRepositories).addSources
          remote.ociRepositories).addSources remote.buckets }

/-- Flux is found only on a cluster that answered. -/
theorem reachable_of_fluxInstalled {now : Time} {remote : Remote}
    (h : (probe now remote).fluxInstalled = true) : (probe now remote).reachable = true := by
  unfold probe at h ⊢
  cases hversion : remote.serverVersion with
  | error err =>
    rw [hversion] at h
    exact absurd h Bool.false_ne_true
  | ok gitVersion =>
    dsimp only
    cases remote.kustomizations with
    | error err =>
      by_cases habsent : err.absent = true
      · simp [habsent]
      · simp [habsent]
    | ok items => rfl

end Yafu.Cluster
