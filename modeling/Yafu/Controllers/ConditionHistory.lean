import Yafu.Controllers.Coherence
import Mathlib.Data.List.Induction

/-!
# A history of `setCondition` calls

Reference: `setCondition` in `internal/controllers/cluster_controller.go`.

The routine finds, compares and overwrites in place, so that what a list says depends on the whole
history of calls. The history of one type is the calls for it, in order: the last of them says the
status, the reason and the message, and the one behind which the status has been kept since says the
transition time. The list is described by that, call by call from the end.
-/

namespace Yafu.Controllers

open Yafu.Cluster

/-- The arguments of one call, and the time at which it asks for it. -/
structure ConditionCall where
  t : String
  ok : Bool
  reason : String
  msg : String
  gen : ℕ
  now : Time
deriving DecidableEq, Repr

def ConditionCall.set (call : ConditionCall) (conds : List Condition) : List Condition :=
  setCondition call.t call.ok call.reason call.msg call.gen call.now conds

/-- The list after the calls, from an empty one. -/
def conditionsAfter (calls : List ConditionCall) : List Condition :=
  calls.foldl (fun conds call => call.set conds) []

def callsFor (t : String) (calls : List ConditionCall) : List ConditionCall :=
  calls.filter (·.t = t)

/-- Of the calls for one type, the one that changed the status to what it has been since. -/
def LastChange (calls : List ConditionCall) (call : ConditionCall) : Prop :=
  ∃ before after, calls = before ++ call :: after ∧
    (∀ prev, before.getLast? = some prev → prev.ok ≠ call.ok) ∧ ∀ later ∈ after, later.ok = call.ok

/-- What a condition of the list says of the calls for its type. -/
structure Records (calls : List ConditionCall) (c : Condition) : Prop where
  last : ∃ call, (callsFor c.type calls).getLast? = some call ∧ c.status = .ofBool call.ok ∧
    c.reason = call.reason ∧ c.message = call.msg ∧ c.observedGeneration = call.gen
  transition : ∃ call, LastChange (callsFor c.type calls) call ∧ c.lastTransitionTime = call.now

@[simp] theorem conditionsAfter_nil : conditionsAfter [] = [] := rfl

@[simp] theorem conditionsAfter_concat (calls : List ConditionCall) (call : ConditionCall) :
    conditionsAfter (calls ++ [call]) = call.set (conditionsAfter calls) := by
  rw [conditionsAfter, List.foldl_append, List.foldl_cons, List.foldl_nil]
  rfl

theorem callsFor_concat_self (calls : List ConditionCall) (call : ConditionCall) :
    callsFor call.t (calls ++ [call]) = callsFor call.t calls ++ [call] := by
  simp [callsFor]

theorem callsFor_concat_ne {t : String} {call : ConditionCall} (h : call.t ≠ t)
    (calls : List ConditionCall) : callsFor t (calls ++ [call]) = callsFor t calls := by
  simp [callsFor, h]

theorem ofBool_injective : Function.Injective ConditionStatus.ofBool := by
  intro a b h
  cases a <;> cases b <;> first | rfl | exact absurd h (by decide)

/-! ## The last change, call by call -/

section LastChange

variable {calls : List ConditionCall} {call prev : ConditionCall}

theorem lastChange_first (call : ConditionCall) : LastChange [call] call :=
  ⟨[], [], rfl, by simp, by simp⟩

/-- A call with another status is the last change. -/
theorem lastChange_concat (hprev : calls.getLast? = some prev) (h : prev.ok ≠ call.ok) :
    LastChange (calls ++ [call]) call := by
  refine ⟨calls, [], rfl, ?_, by simp⟩
  intro p hp
  obtain rfl : prev = p := Option.some.inj (hprev.symm.trans hp)
  exact h

/-- From the last change on, the calls have the status of the last one. -/
theorem LastChange.ok_eq (h : LastChange calls call) (hlast : calls.getLast? = some prev) :
    prev.ok = call.ok := by
  obtain ⟨before, after, rfl, -, hafter⟩ := h
  rcases List.eq_nil_or_concat after with rfl | ⟨init, later, rfl⟩
  · have hcall : (before ++ [call]).getLast? = some call := by simp
    exact congrArg ConditionCall.ok (Option.some.inj (hlast.symm.trans hcall))
  · have hlater : (before ++ call :: (init ++ [later])).getLast? = some later := by
      rw [← List.cons_append, ← List.append_assoc, List.getLast?_concat]
    rw [List.concat_eq_append] at hlast hafter
    obtain rfl : prev = later := Option.some.inj (hlast.symm.trans hlater)
    exact hafter prev (by simp)

/-- A call that keeps the status is no change. -/
theorem LastChange.concat (h : LastChange calls call) {next : ConditionCall}
    (hnext : next.ok = call.ok) : LastChange (calls ++ [next]) call := by
  obtain ⟨before, after, rfl, hbefore, hafter⟩ := h
  refine ⟨before, after ++ [next], by simp, hbefore, ?_⟩
  intro later hlater
  rcases List.mem_append.mp hlater with hold | hnew
  · exact hafter later hold
  · rw [List.mem_singleton.mp hnew, hnext]

end LastChange

/-! ## One call -/

section Set

variable {call : ConditionCall} {conds : List Condition}

/-- What a call leaves of a condition it finds. -/
def ConditionCall.overwrite (call : ConditionCall) (c : Condition) : Condition :=
  { c with
    lastTransitionTime := if c.status = .ofBool call.ok then c.lastTransitionTime else call.now
    status := .ofBool call.ok, reason := call.reason, message := call.msg,
    observedGeneration := call.gen }

/-- What a call appends where it finds none. -/
def ConditionCall.fresh (call : ConditionCall) : Condition :=
  ⟨call.t, .ofBool call.ok, call.gen, call.now, call.reason, call.msg⟩

/-- The condition of the type that a call sets is overwritten, or new. -/
theorem mem_set_self {c : Condition} (hnodup : (conds.map Condition.type).Nodup)
    (hc : c ∈ call.set conds) (ht : c.type = call.t) :
    (∃ d ∈ conds, d.type = call.t ∧ c = call.overwrite d) ∨
      (call.t ∉ conds.map Condition.type ∧ c = call.fresh) := by
  induction conds with
  | nil => exact .inr ⟨List.not_mem_nil, List.mem_singleton.mp hc⟩
  | cons d cs ih =>
    obtain ⟨hnot, hcs⟩ := List.nodup_cons.mp hnodup
    rw [ConditionCall.set, setCondition] at hc
    by_cases hd : d.type = call.t
    · rw [if_pos hd] at hc
      rcases List.mem_cons.mp hc with rfl | hmem
      · exact .inl ⟨d, List.mem_cons_self, hd, rfl⟩
      · exact absurd (List.mem_map.mpr ⟨c, hmem, ht.trans hd.symm⟩) hnot
    · rw [if_neg hd] at hc
      rcases List.mem_cons.mp hc with rfl | hmem
      · exact absurd ht hd
      · rcases ih hcs hmem with ⟨e, he, hte, heq⟩ | ⟨hfresh, heq⟩
        · exact .inl ⟨e, List.mem_cons_of_mem d he, hte, heq⟩
        · refine .inr ⟨?_, heq⟩
          rw [List.map_cons, List.mem_cons, not_or]
          exact ⟨Ne.symm hd, hfresh⟩

/-- The conditions of the other types are left alone, in their order. -/
theorem filter_ne_set :
    (call.set conds).filter (·.type ≠ call.t) = conds.filter (·.type ≠ call.t) := by
  induction conds with
  | nil => simp [ConditionCall.set, setCondition]
  | cons d cs ih =>
    rw [ConditionCall.set, setCondition]
    by_cases hd : d.type = call.t
    · rw [if_pos hd]
      simp [hd]
    · rw [if_neg hd, List.filter_cons_of_pos (by simpa using hd),
        List.filter_cons_of_pos (by simpa using hd)]
      exact congrArg (d :: ·) ih

end Set

/-! ## The whole history -/

theorem nodup_conditionsAfter (calls : List ConditionCall) :
    ((conditionsAfter calls).map Condition.type).Nodup := by
  induction calls using List.reverseRecOn with
  | nil => exact List.nodup_nil
  | append_singleton calls call ih =>
    rw [conditionsAfter_concat]
    exact nodup_setCondition ih

/-- A type has a condition when there was a call for it, and not before. -/
theorem type_mem_conditionsAfter (calls : List ConditionCall) (t : String) :
    t ∈ (conditionsAfter calls).map Condition.type ↔ callsFor t calls ≠ [] := by
  induction calls using List.reverseRecOn with
  | nil => simp [callsFor]
  | append_singleton calls call ih =>
    rw [conditionsAfter_concat, ConditionCall.set]
    by_cases ht : call.t = t
    · subst ht
      rw [callsFor_concat_self]
      refine iff_of_true ?_ (by simp)
      by_cases hold : call.t ∈ (conditionsAfter calls).map Condition.type
      · rwa [types_setCondition_of_mem hold]
      · rw [types_setCondition_of_notMem hold]
        simp
    · rw [callsFor_concat_ne ht, ← ih]
      by_cases hold : call.t ∈ (conditionsAfter calls).map Condition.type
      · rw [types_setCondition_of_mem hold]
      · rw [types_setCondition_of_notMem hold, List.mem_append, List.mem_singleton]
        exact or_iff_left (Ne.symm ht)

theorem Records.of_fresh {calls : List ConditionCall} {call : ConditionCall}
    (h : callsFor call.t calls = []) : Records (calls ++ [call]) call.fresh := by
  have hcalls : callsFor call.t (calls ++ [call]) = [call] := by
    rw [callsFor_concat_self, h, List.nil_append]
  exact {
    last := ⟨call, by rw [ConditionCall.fresh, hcalls]; rfl, rfl, rfl, rfl, rfl⟩
    transition := ⟨call, by rw [ConditionCall.fresh, hcalls]; exact lastChange_first call, rfl⟩ }

theorem Records.overwrite {calls : List ConditionCall} {call : ConditionCall} {d : Condition}
    (h : Records calls d) (ht : d.type = call.t) : Records (calls ++ [call]) (call.overwrite d) := by
  have hcalls : callsFor d.type (calls ++ [call]) = callsFor d.type calls ++ [call] := by
    rw [ht, callsFor_concat_self]
  obtain ⟨prev, hprev, hstatus, -⟩ := h.last
  obtain ⟨change, hchange, htime⟩ := h.transition
  refine ⟨⟨call, ?_, rfl, rfl, rfl, rfl⟩, ?_⟩
  · show (callsFor d.type (calls ++ [call])).getLast? = some call
    rw [hcalls, List.getLast?_concat]
  · show ∃ c, LastChange (callsFor d.type (calls ++ [call])) c ∧
      (if d.status = .ofBool call.ok then d.lastTransitionTime else call.now) = c.now
    rw [hcalls]
    by_cases hkept : d.status = .ofBool call.ok
    · have hok : prev.ok = call.ok := ofBool_injective (hstatus.symm.trans hkept)
      rw [if_pos hkept]
      exact ⟨change, hchange.concat (hok.symm.trans (hchange.ok_eq hprev)), htime⟩
    · have hok : prev.ok ≠ call.ok := fun heq => hkept (heq ▸ hstatus)
      rw [if_neg hkept]
      exact ⟨call, lastChange_concat hprev hok, rfl⟩

theorem records_of_mem {calls : List ConditionCall} {c : Condition}
    (hc : c ∈ conditionsAfter calls) : Records calls c := by
  induction calls using List.reverseRecOn generalizing c with
  | nil => exact absurd hc List.not_mem_nil
  | append_singleton calls call ih =>
    rw [conditionsAfter_concat] at hc
    by_cases ht : c.type = call.t
    · rcases mem_set_self (nodup_conditionsAfter calls) hc ht with
        ⟨d, hd, hdt, rfl⟩ | ⟨hfresh, rfl⟩
      · exact (ih hd).overwrite hdt
      · rw [type_mem_conditionsAfter, not_not] at hfresh
        exact Records.of_fresh hfresh
    · have hcalls : callsFor c.type (calls ++ [call]) = callsFor c.type calls :=
        callsFor_concat_ne (Ne.symm ht) calls
      obtain ⟨hlast, htransition⟩ := ih ((mem_setCondition_of_ne ht).mp hc)
      exact ⟨hcalls ▸ hlast, hcalls ▸ htransition⟩

/-- After any calls there is one condition for each type called for. It says what the last call for
the type said, since the time of the last call that changed the status. The next call leaves the
conditions of the other types as they are. -/
theorem conditionsAfter_history (calls : List ConditionCall) :
    ((conditionsAfter calls).map Condition.type).Nodup ∧
      (∀ t, t ∈ (conditionsAfter calls).map Condition.type ↔ callsFor t calls ≠ []) ∧
      (∀ c ∈ conditionsAfter calls, Records calls c) ∧
      ∀ call, (conditionsAfter (calls ++ [call])).filter (·.type ≠ call.t) =
        (conditionsAfter calls).filter (·.type ≠ call.t) := by
  refine ⟨nodup_conditionsAfter calls, type_mem_conditionsAfter calls,
    fun c hc => records_of_mem hc, fun call => ?_⟩
  rw [conditionsAfter_concat]
  exact filter_ne_set

/-- Kept, changed, kept: the time is that of the call in the middle. -/
example : (conditionsAfter [⟨"Ready", true, "A", "", 1, 5⟩, ⟨"Ready", false, "B", "", 1, 7⟩,
    ⟨"Ready", false, "C", "", 2, 9⟩]).map (fun c => (c.reason, c.lastTransitionTime)) =
      [("C", 7)] := by decide

end Yafu.Controllers
