import Yafu.Lib.Glob

/-!
# RBAC policies

Reference: `internal/auth/policy.go`, and `Identity` from `internal/auth/auth.go`.

`Policy.authorize` takes the first rule that matches; an action that is not the word `deny` counts
as `allow`, and a rule with a malformed glob does not match by that glob.

`strings.ToLower` is the parameter `toLower`: no result depends on how a group name is folded.
-/

namespace Yafu.Auth

/-- `Identity`. -/
structure Identity where
  subject : GoString := []
  email : GoString := []
  name : GoString := []
  groups : List GoString := []
deriving DecidableEq, Repr

/-- `Identity.HasGroup`. -/
def Identity.hasGroup (toLower : GoString → GoString) (i : Identity) (g : GoString) : Bool :=
  i.groups.any fun h => toLower h = toLower g

/-- `Action`: any string that a policy file puts there. -/
abbrev Action := GoString

/-- `ActionAllow`. -/
def actionAllow : Action := "allow"

/-- `ActionDeny`. -/
def actionDeny : Action := "deny"

/-- `Rule`. -/
structure Rule where
  subjects : List GoString := []
  verbs : List GoString := []
  clusters : List GoString := []
  action : Action := []
deriving DecidableEq, Repr

/-- `Policy`. -/
structure Policy where
  defaultAction : Action := []
  rules : List Rule := []
deriving DecidableEq, Repr

/-- `DefaultAllowAllPolicy`. -/
def defaultAllowAllPolicy : Policy := { defaultAction := actionAllow }

/-! ## Matching -/

/-- One round of the loop of `matchSubjects`. -/
def matchSubject (toLower : GoString → GoString) (id : Identity) (s : GoString) : Bool :=
  if s = "*" then true
  else
    match s.cutPrefix "user:" with
    | some u => u ≠ [] && (u = id.subject || u = id.email)
    | none =>
      match s.cutPrefix "group:" with
      | some g => g ≠ [] && id.hasGroup toLower g
      | none => false

/-- `Rule.matchSubjects`. -/
def Rule.matchSubjects (toLower : GoString → GoString) (r : Rule) (id : Identity) : Bool :=
  r.subjects.any (matchSubject toLower id)

/-- `matchAny`. -/
def matchAny (list : List GoString) (target : GoString) : Bool :=
  list.any fun v => v = "*" || v = target

/-- `matchClusters`; the error of `filepath.Match` is dropped. -/
def matchClusters (list : List GoString) (target : GoString) : Bool :=
  list.any fun p => p = "*" || p = target || Glob.matchPattern p target = .ok true

/-- `Rule.matches`. -/
def Rule.matches (toLower : GoString → GoString) (r : Rule) (id : Identity)
    (verb cluster : GoString) : Bool :=
  r.matchSubjects toLower id && matchAny r.verbs verb && matchClusters r.clusters cluster

/-- `Policy.Authorize`. -/
def Policy.authorize (toLower : GoString → GoString) (p : Policy) (id : Identity)
    (verb cluster : GoString) : Bool :=
  match p.rules.find? fun r => r.matches toLower id verb cluster with
  | some r => r.action ≠ actionDeny
  | none => p.defaultAction ≠ actionDeny

/-- `LoadPolicyFile`, given `os.ReadFile` and `yaml.Unmarshal`. -/
def loadPolicyFile (readFile : GoString → Except GoString GoString)
    (unmarshal : GoString → Except GoString Policy) (path : GoString) : Except GoString Policy :=
  match readFile path with
  | .error err => .error (("read policy " : GoString) ++ path ++ (": " : GoString) ++ err)
  | .ok data =>
    match unmarshal data with
    | .error err => .error (("parse policy " : GoString) ++ path ++ (": " : GoString) ++ err)
    | .ok p => .ok (if p.defaultAction = [] then { p with defaultAction := actionDeny } else p)

/-- A loaded policy never leaves the default out, and takes over the rules as they are. -/
theorem loadPolicyFile_ok {readFile : GoString → Except GoString GoString}
    {unmarshal : GoString → Except GoString Policy} {path : GoString} {p : Policy}
    (h : loadPolicyFile readFile unmarshal path = .ok p) :
    p.defaultAction ≠ [] ∧ ∃ data q, unmarshal data = .ok q ∧ p.rules = q.rules := by
  simp only [loadPolicyFile] at h
  split at h
  · simp at h
  rename_i data hread
  split at h
  · simp at h
  rename_i q hq
  split_ifs at h with hdef <;> simp only [Except.ok.injEq] at h <;> subst h
  · have hdeny : actionDeny ≠ [] := by decide
    exact ⟨hdeny, data, q, hq, rfl⟩
  · exact ⟨hdef, data, q, hq, rfl⟩

end Yafu.Auth
