import Yafu.Auth.Policy
import Mathlib.Data.List.Forall2

/-!
# When a policy fails closed

Reference: `internal/auth/policy.go`, the comments on `Rule.Action`, `Policy.DefaultAction` and
`LoadPolicyFile`, and the comment on `Config.Policy` in `internal/server/server.go`.

Two kinds of policies make `Policy.authorize` allow what they were written to refuse: those with an
action that is neither `allow` nor `deny`, and those with a malformed glob in a rule that does not
allow. `failsClosed_iff_clear` says for which requests neither of the two happens.
-/

namespace Yafu.Auth

/-- The action of the rule is `allow`, or omitted, which stands for `allow`. -/
def Rule.Allows (r : Rule) : Prop := r.action = actionAllow ∨ r.action = []

instance (r : Rule) : Decidable r.Allows := inferInstanceAs (Decidable (_ ∨ _))

/-- `g'` is the glob `g` with its syntax error repaired in some way. -/
structure RepairedGlob (g g' : GoString) : Prop where
  wellFormed : Glob.WellFormed g'
  kept : Glob.WellFormed g → g' = g

/-- `r'` is the rule `r` if that allows, and otherwise a well-formed `deny` rule in its place. -/
structure Rule.Repaired (r r' : Rule) : Prop where
  kept : r.Allows → r' = r
  subjects : r'.subjects = r.subjects
  verbs : r'.verbs = r.verbs
  clusters : ¬r.Allows → List.Forall₂ RepairedGlob r.clusters r'.clusters
  action : ¬r.Allows → r'.action = actionDeny

/-- `p'` is the policy `p` with well-formed `deny` rules, and a default that is `deny` unless it is
`allow`. -/
structure Policy.Repaired (p p' : Policy) : Prop where
  rules : List.Forall₂ Rule.Repaired p.rules p'.rules
  defaultAction :
    p'.defaultAction = if p.defaultAction = actionAllow then actionAllow else actionDeny

section Request

variable (toLower : GoString → GoString) (p : Policy) (id : Identity) (verb cluster : GoString)

/-- The first rule that matches has the action `allow` or none, or no rule matches and the default
is `allow`. -/
def AllowedOnPurpose : Prop :=
  match p.rules.find? fun r => r.matches toLower id verb cluster with
  | some r => r.Allows
  | none => p.defaultAction = actionAllow

/-- A request is allowed only on purpose, and only if it still is once the rules that do not allow
are made well-formed `deny` rules. -/
structure FailsClosed : Prop where
  onPurpose : p.authorize toLower id verb cluster → AllowedOnPurpose toLower p id verb cluster
  repaired : ∀ p', p.Repaired p' → p'.authorize toLower id verb cluster = false →
    p.authorize toLower id verb cluster = false

/-- The rules that are read before the deciding one, all of them if the default decides. -/
def Policy.skipped : List Rule :=
  p.rules.takeWhile fun r => !r.matches toLower id verb cluster

/-- A rule that does not allow, is about this identity and verb, and has a malformed glob. -/
structure Rule.Evaded (r : Rule) : Prop where
  notAllows : ¬r.Allows
  subjects : r.matchSubjects toLower id
  verbs : matchAny r.verbs verb
  malformed : ∃ g ∈ r.clusters, ¬Glob.WellFormed g

/-- The action that decides is `deny`, or it is `allow` (for a rule, also an omitted one) and no
rule that was skipped is evaded by a malformed glob. -/
def Clear : Prop :=
  match p.rules.find? fun r => r.matches toLower id verb cluster with
  | some r => r.action = actionDeny ∨
      r.Allows ∧ ∀ s ∈ p.skipped toLower id verb cluster, ¬s.Evaded toLower id verb
  | none => p.defaultAction = actionDeny ∨
      p.defaultAction = actionAllow ∧
        ∀ s ∈ p.skipped toLower id verb cluster, ¬s.Evaded toLower id verb

end Request

variable {toLower : GoString → GoString} {id : Identity} {verb cluster : GoString}

/-! ## Repairing one rule -/

theorem repairedGlobs_eq {gs gs' : List GoString} (h : List.Forall₂ RepairedGlob gs gs')
    (hwf : ∀ g ∈ gs, Glob.WellFormed g) : gs' = gs := by
  induction h with
  | nil => rfl
  | cons hg _ ih =>
    rw [List.forall_mem_cons] at hwf
    rw [hg.kept hwf.1, ih hwf.2]

/-- A rule that no malformed glob evades does not start to match when it is repaired. -/
theorem Rule.Repaired.matches_eq_false {r r' : Rule} (h : r.Repaired r')
    (hr : r.matches toLower id verb cluster = false) (hev : ¬r.Evaded toLower id verb) :
    r'.matches toLower id verb cluster = false := by
  by_cases hallows : r.Allows
  · rw [h.kept hallows]
    exact hr
  simp only [Rule.matches, Rule.matchSubjects, h.subjects, h.verbs, Bool.and_eq_false_iff] at hr ⊢
  rcases hr with hr | hr
  · exact Or.inl hr
  by_cases hwf : ∀ g ∈ r.clusters, Glob.WellFormed g
  · exact Or.inr (repairedGlobs_eq (h.clusters hallows) hwf ▸ hr)
  · -- with a malformed glob it is the subjects or the verbs that do not match
    left
    by_contra hmatch
    push Not at hwf
    simp only [not_or, Bool.not_eq_false] at hmatch
    exact hev ⟨hallows, hmatch.1, hmatch.2, hwf⟩

/-- The repair that puts `*` for every malformed glob. -/
def Rule.harden (r : Rule) : Rule :=
  if r.Allows then r
  else { r with
    action := actionDeny
    clusters := r.clusters.map fun g => if Glob.WellFormed g then g else "*" }

theorem wellFormed_star : Glob.WellFormed "*" := (Glob.wellFormed_iff _).mpr (by decide +kernel)

theorem Rule.repaired_harden (r : Rule) : r.Repaired r.harden := by
  by_cases hallows : r.Allows
  · rw [harden, if_pos hallows]
    exact ⟨fun _ => rfl, rfl, rfl, fun h => absurd hallows h, fun h => absurd hallows h⟩
  · rw [harden, if_neg hallows]
    refine ⟨fun h => absurd h hallows, rfl, rfl, fun _ => ?_, fun _ => rfl⟩
    refine List.forall₂_map_right_iff.mpr (List.forall₂_same.mpr fun g _ => ?_)
    by_cases hg : Glob.WellFormed g
    · exact ⟨by rwa [if_pos hg], fun _ => if_pos hg⟩
    · exact ⟨by rw [if_neg hg]; exact wellFormed_star, fun h => absurd h hg⟩

/-- Hardening makes an evaded rule match. -/
theorem Rule.Evaded.matches_harden {r : Rule} (h : r.Evaded toLower id verb) :
    r.harden.matches toLower id verb cluster = true := by
  obtain ⟨g, hg, hbad⟩ := h.malformed
  have hclusters : matchClusters r.harden.clusters cluster = true := by
    rw [harden, if_neg h.notAllows, matchClusters, List.any_eq_true]
    exact ⟨"*", List.mem_map.mpr ⟨g, hg, if_neg hbad⟩, by simp⟩
  simp only [Rule.matches, Rule.matchSubjects, (repaired_harden r).subjects,
    (repaired_harden r).verbs, Bool.and_eq_true]
  exact ⟨⟨h.subjects, h.verbs⟩, hclusters⟩

/-! ## The deciding rule -/

/-- Without an evaded rule in front, a repair leaves an allowing rule the first one that matches. -/
theorem find?_of_repaired {rs rs' : List Rule} (h : List.Forall₂ Rule.Repaired rs rs')
    (hskip : ∀ s ∈ rs.takeWhile fun r => !r.matches toLower id verb cluster,
      ¬s.Evaded toLower id verb)
    (hallows : ∀ r, rs.find? (fun r => r.matches toLower id verb cluster) = some r → r.Allows) :
    rs'.find? (fun r => r.matches toLower id verb cluster) =
      rs.find? (fun r => r.matches toLower id verb cluster) := by
  induction h with
  | nil => rfl
  | @cons r r' rs rs' hr _ ih =>
    rw [List.find?_cons, List.find?_cons]
    cases hm : r.matches toLower id verb cluster with
    | true =>
      have hkept : r' = r := hr.kept (hallows r (by simp [hm]))
      rw [hkept, hm]
    | false =>
      rw [List.takeWhile_cons_of_pos (by simp [hm]), List.forall_mem_cons] at hskip
      rw [hr.matches_eq_false hm hskip.1]
      refine ih hskip.2 fun q hq => hallows q ?_
      rw [List.find?_cons, hm]
      exact hq

/-- Behind an evaded rule, hardening makes a `deny` rule the first one that matches. -/
theorem find?_harden {rs : List Rule} {s : Rule}
    (hs : s ∈ rs.takeWhile fun r => !r.matches toLower id verb cluster)
    (hev : s.Evaded toLower id verb) :
    ∃ r, (rs.map Rule.harden).find? (fun r => r.matches toLower id verb cluster) = some r ∧
      r.action = actionDeny := by
  induction rs with
  | nil => simp at hs
  | cons r rs ih =>
    cases hm : r.matches toLower id verb cluster with
    | true => simp [hm] at hs
    | false =>
      rw [List.takeWhile_cons_of_pos (by simp [hm]), List.mem_cons] at hs
      rw [List.map_cons, List.find?_cons]
      cases hh : r.harden.matches toLower id verb cluster with
      | true =>
        refine ⟨r.harden, rfl, (Rule.repaired_harden r).action fun hallows => ?_⟩
        rw [(Rule.repaired_harden r).kept hallows, hm] at hh
        cases hh
      | false =>
        rcases hs with rfl | hs
        · rw [hev.matches_harden] at hh
          cases hh
        · exact ih hs

/-- The policy with every rule hardened. -/
def Policy.harden (p : Policy) : Policy where
  defaultAction := if p.defaultAction = actionAllow then actionAllow else actionDeny
  rules := p.rules.map Rule.harden

theorem Policy.repaired_harden (p : Policy) : p.Repaired p.harden where
  rules := List.forall₂_map_right_iff.mpr (List.forall₂_same.mpr fun r _ => r.repaired_harden)
  defaultAction := rfl

/-- A request for which an evaded rule was skipped is refused by the hardened policy. -/
theorem Policy.authorize_harden {p : Policy} {s : Rule} (hs : s ∈ p.skipped toLower id verb cluster)
    (hev : s.Evaded toLower id verb) : p.harden.authorize toLower id verb cluster = false := by
  obtain ⟨r, hr, hdeny⟩ := find?_harden hs hev
  simp [authorize, harden, hr, hdeny]

/-! ## The condition is exact -/

theorem actionAllow_ne_actionDeny : actionAllow ≠ actionDeny := by decide

theorem Rule.Allows.ne_deny {r : Rule} (h : r.Allows) : r.action ≠ actionDeny := by
  rcases h with h | h <;> rw [h] <;> decide

theorem FailsClosed.clear {p : Policy} (h : FailsClosed toLower p id verb cluster) :
    Clear toLower p id verb cluster := by
  -- an evaded rule in front would let the hardened policy refuse what is allowed here
  have hskip : p.authorize toLower id verb cluster →
      ∀ s ∈ p.skipped toLower id verb cluster, ¬s.Evaded toLower id verb := by
    intro hauth s hs hev
    have hrefused := h.repaired p.harden p.repaired_harden (Policy.authorize_harden hs hev)
    rw [hauth] at hrefused
    cases hrefused
  have hpurpose := h.onPurpose
  simp only [Clear, AllowedOnPurpose, Policy.authorize] at hpurpose hskip ⊢
  split
  · rename_i r hr
    simp only [hr] at hpurpose hskip
    by_cases hdeny : r.action = actionDeny
    · exact Or.inl hdeny
    · exact Or.inr ⟨hpurpose (by simpa using hdeny), hskip (by simpa using hdeny)⟩
  · rename_i hr
    simp only [hr] at hpurpose hskip
    by_cases hdeny : p.defaultAction = actionDeny
    · exact Or.inl hdeny
    · exact Or.inr ⟨hpurpose (by simpa using hdeny), hskip (by simpa using hdeny)⟩

theorem Clear.failsClosed {p : Policy} (h : Clear toLower p id verb cluster) :
    FailsClosed toLower p id verb cluster := by
  simp only [Clear] at h
  split at h
  · rename_i r hr
    rcases h with hdeny | ⟨hallows, hskip⟩
    · have hrefused : p.authorize toLower id verb cluster = false := by
        simp [Policy.authorize, hr, hdeny]
      exact ⟨fun hauth => by simp [hrefused] at hauth, fun _ _ _ => hrefused⟩
    · refine ⟨fun _ => by simpa [AllowedOnPurpose, hr] using hallows, fun p' hp' hfalse => ?_⟩
      have hsame := find?_of_repaired hp'.rules hskip (fun q hq => by
        rw [hr, Option.some.injEq] at hq
        exact hq ▸ hallows)
      simp [Policy.authorize, hsame, hr, hallows.ne_deny] at hfalse
  · rename_i hr
    rcases h with hdeny | ⟨hallow, hskip⟩
    · have hrefused : p.authorize toLower id verb cluster = false := by
        simp [Policy.authorize, hr, hdeny]
      exact ⟨fun hauth => by simp [hrefused] at hauth, fun _ _ _ => hrefused⟩
    · refine ⟨fun _ => by simpa [AllowedOnPurpose, hr] using hallow, fun p' hp' hfalse => ?_⟩
      have hsame := find?_of_repaired hp'.rules hskip (fun q hq => by simp [hr] at hq)
      simp [Policy.authorize, hsame, hr, hp'.defaultAction, hallow, actionAllow_ne_actionDeny]
        at hfalse

/-- **Failing closed.** For every policy and every request, the policy fails closed if and only if
the action that decides is exactly `allow` or `deny` (for a rule, none stands for `allow`), and an
allowed request was not let past a rule that does not allow by a malformed glob in that rule. -/
theorem failsClosed_iff_clear (toLower : GoString → GoString) (p : Policy) (id : Identity)
    (verb cluster : GoString) :
    FailsClosed toLower p id verb cluster ↔ Clear toLower p id verb cluster :=
  ⟨FailsClosed.clear, Clear.failsClosed⟩

/-! ### Three policies that allow what they should refuse -/

/-- A catch-all rule. -/
def everything (action : Action) : Rule := ⟨["*"], ["*"], ["*"], action⟩

/-- A `deny` rule for the production clusters whose glob lacks the closing bracket. -/
def openBracket : Policy where
  defaultAction := actionDeny
  rules := [{ everything actionDeny with clusters := ["prod-[a-z"] }, everything actionAllow]

/-- A `deny` rule with a capital letter. -/
def capitalDeny : Policy where
  rules := [everything "Deny"]

/-- The zero `Policy` allows everything; a policy file may say `Deny`, or lack a bracket. -/
theorem not_failsClosed_loaded :
    ¬FailsClosed GoString.asciiLower {} {} "delete" "prod-a" ∧
      (∃ p, loadPolicyFile .ok (fun _ => .ok capitalDeny) "rbac.yaml" = .ok p ∧
        ¬FailsClosed GoString.asciiLower p {} "delete" "prod-a") ∧
      ∃ p, loadPolicyFile .ok (fun _ => .ok openBracket) "rbac.yaml" = .ok p ∧
        ¬FailsClosed GoString.asciiLower p {} "delete" "prod-a" := by
  refine ⟨fun h => ?_, ⟨_, rfl, fun h => ?_⟩, ⟨_, rfl, fun h => ?_⟩⟩
  · have hpurpose : ([] : Action) = actionAllow := h.onPurpose (by decide +kernel)
    exact absurd hpurpose (by decide)
  · have hpurpose : (everything "Deny").Allows := h.onPurpose (by decide +kernel)
    exact absurd hpurpose (by decide)
  · have hrefused := h.repaired _ (Policy.repaired_harden _) (by decide +kernel)
    exact absurd hrefused (by decide +kernel)

end Yafu.Auth
