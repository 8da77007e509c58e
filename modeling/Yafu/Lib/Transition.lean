import Mathlib.Data.List.Basic
import Mathlib.Data.List.Induction

/-!
# Runs of a deterministic labelled transition system

A step function `step : σ → α → Option σ` answers `none` where a label is not enabled. All
nondeterminism (schedules, clocks, what the outside world answers) sits in the labels, so that a
run is the list of its labels and a concrete run can be evaluated.

`Along ok` restricts a run to labels that satisfy a condition in the state they are taken from; the
invariant rule `run_induct` carries that condition to the step it is needed for. `Always good` says
something of every state that a run passes through, and `always_iff_along` which runs do so. What a
run puts out beside its states is `emitted`.
-/

namespace Transition

variable {σ α : Type*}

/-- The state after taking the labels in order, `none` if one of them is not enabled. -/
def run (step : σ → α → Option σ) : σ → List α → Option σ
  | s, [] => some s
  | s, a :: as => (step s a).bind fun s' => run step s' as

/-- Every label of the run satisfies `ok` in the state it is taken from. -/
def Along (step : σ → α → Option σ) (ok : σ → α → Prop) : σ → List α → Prop
  | _, [] => True
  | s, a :: as => ok s a ∧ ∀ s', step s a = some s' → Along step ok s' as

/-- Every state of the run is `good`, the first and the last included. -/
def Always (step : σ → α → Option σ) (good : σ → Prop) : σ → List α → Prop
  | s, [] => good s
  | s, a :: as => good s ∧ ∀ s', step s a = some s' → Always step good s' as

variable {step : σ → α → Option σ} {P : σ → α → Prop}

@[simp] theorem run_nil (s : σ) : run step s [] = some s := rfl

theorem run_cons (s : σ) (a : α) (as : List α) :
    run step s (a :: as) = (step s a).bind fun s' => run step s' as := rfl

theorem run_cons_eq_some {s s' : σ} {a : α} {as : List α} :
    run step s (a :: as) = some s' ↔ ∃ m, step s a = some m ∧ run step m as = some s' := by
  rw [run_cons, Option.bind_eq_some_iff]

/-- The invariant rule: what every permitted step preserves holds after every permitted run. -/
theorem run_induct {I : σ → Prop}
    (hstep : ∀ s a s', I s → P s a → step s a = some s' → I s') :
    ∀ {s s' : σ} {as : List α}, I s → Along step P s as → run step s as = some s' → I s'
  | s, s', [], hs, _, hrun => by
    rw [run_nil, Option.some.injEq] at hrun
    exact hrun ▸ hs
  | s, s', a :: as, hs, ⟨hok, halong⟩, hrun => by
    obtain ⟨m, hm, hrest⟩ := run_cons_eq_some.mp hrun
    exact run_induct hstep (hstep s a m hs hok hm) (halong m hm) hrest

/-- The invariant rule for what every step preserves. -/
theorem run_invariant {I : σ → Prop} (hstep : ∀ s a s', I s → step s a = some s' → I s') :
    ∀ {s s' : σ} {as : List α}, I s → run step s as = some s' → I s'
  | s, s', [], hs, hrun => by
    rw [run_nil, Option.some.injEq] at hrun
    exact hrun ▸ hs
  | s, s', a :: as, hs, hrun => by
    obtain ⟨m, hm, hrest⟩ := run_cons_eq_some.mp hrun
    exact run_invariant hstep (hstep s a m hs hm) hrest

theorem run_append {s s' : σ} : ∀ {as bs : List α},
    run step s (as ++ bs) = some s' ↔ ∃ m, run step s as = some m ∧ run step m bs = some s'
  | [], bs => by simp
  | a :: as, bs => by
    rw [List.cons_append, run_cons_eq_some]
    constructor
    · rintro ⟨k, hk, hrest⟩
      obtain ⟨m, hm, hbs⟩ := run_append.mp hrest
      exact ⟨m, run_cons_eq_some.mpr ⟨k, hk, hm⟩, hbs⟩
    · rintro ⟨m, hm, hbs⟩
      obtain ⟨k, hk, hrest⟩ := run_cons_eq_some.mp hm
      exact ⟨k, hk, run_append.mpr ⟨m, hrest, hbs⟩⟩

theorem run_concat {s s' : σ} {as : List α} {a : α} :
    run step s (as ++ [a]) = some s' ↔ ∃ m, run step s as = some m ∧ step m a = some s' := by
  rw [run_append]
  refine exists_congr fun m => and_congr_right fun _ => ?_
  rw [run_cons, Option.bind_eq_some_iff]
  simp

/-- The invariant rule for what is said of a state and of the run that leads to it. -/
theorem run_history {s : σ} {I : List α → σ → Prop} (hstart : I [] s)
    (hstep : ∀ as m a m', run step s as = some m → I as m → step m a = some m' →
      I (as ++ [a]) m') {as : List α} : ∀ {s' : σ}, run step s as = some s' → I as s' := by
  induction as using List.reverseRecOn with
  | nil =>
    intro s' h
    rw [run_nil, Option.some.injEq] at h
    exact h ▸ hstart
  | append_singleton as a ih =>
    intro s' h
    obtain ⟨m, hm, ha⟩ := run_concat.mp h
    exact hstep as m a s' hm (ih hm) ha

theorem Along.cons {s m : σ} {a : α} {as : List α} (hok : P s a) (hstep : step s a = some m)
    (h : Along step P m as) : Along step P s (a :: as) :=
  ⟨hok, fun _ hs' => Option.some.inj (hstep.symm.trans hs') ▸ h⟩

/-- A permitted run of `as ++ bs` is a permitted run of `bs` from where `as` ends. -/
theorem Along.append {s m : σ} : ∀ {as bs : List α},
    Along step P s (as ++ bs) → run step s as = some m → Along step P m bs
  | [], bs, h, hrun => by
    rw [run_nil, Option.some.injEq] at hrun
    exact hrun ▸ h
  | a :: as, bs, ⟨_, h⟩, hrun => by
    obtain ⟨k, hk, hrest⟩ := run_cons_eq_some.mp hrun
    exact (h k hk).append hrest

/-- The last label of a permitted run is permitted in the state before it, if there is one. -/
theorem along_concat {s m : σ} {a : α} : ∀ {as : List α}, run step s as = some m →
    (Along step P s (as ++ [a]) ↔ Along step P s as ∧ P m a)
  | [], hrun => by
    rw [run_nil, Option.some.injEq] at hrun
    subst hrun
    exact ⟨fun h => ⟨trivial, h.1⟩, fun h => ⟨h.2, fun _ _ => trivial⟩⟩
  | b :: as, hrun => by
    obtain ⟨k, hk, hrest⟩ := run_cons_eq_some.mp hrun
    constructor
    · rintro ⟨hb, h⟩
      obtain ⟨hall, ha⟩ := (along_concat hrest).mp (h k hk)
      exact ⟨.cons hb hk hall, ha⟩
    · rintro ⟨⟨hb, h⟩, ha⟩
      exact .cons hb hk ((along_concat hrest).mpr ⟨h k hk, ha⟩)

/-- Two conditions that agree in every state with the invariant hold along the same runs. -/
theorem along_congr {I : σ → Prop} {Q : σ → α → Prop}
    (hstep : ∀ s a s', I s → step s a = some s' → I s') (h : ∀ s a, I s → (P s a ↔ Q s a)) :
    ∀ {s : σ} {as : List α}, I s → (Along step P s as ↔ Along step Q s as)
  | _, [], _ => Iff.rfl
  | s, a :: _, hs => by
    refine and_congr (h s a hs) (forall_congr' fun s' => forall_congr' fun hs' => ?_)
    exact along_congr hstep h (hstep s a s' hs hs')

theorem Always.head {good : σ → Prop} {s : σ} : ∀ {as : List α}, Always step good s as → good s
  | [], h => h
  | _ :: _, h => h.1

/-- A run passes through good states only when each of its labels is one that leads to a good state
again. The invariant `I` holds as long as that is so; `D` is asked of the labels alone. -/
theorem always_iff_along {I good : σ → Prop} {D : α → Prop}
    (hgood : ∀ s a, I s → good s → D a → (P s a ↔ ∀ s', step s a = some s' → good s'))
    (hinv : ∀ s a s', I s → D a → P s a → step s a = some s' → I s') :
    ∀ {s : σ} {as : List α}, I s → good s → (∀ a ∈ as, D a) →
      (Always step good s as ↔ Along step P s as)
  | s, [], _, hs, _ => ⟨fun _ => trivial, fun _ => hs⟩
  | s, a :: as, hI, hs, hD => by
    have hlabels : ∀ b ∈ as, D b := fun b hb => hD b (List.mem_cons_of_mem a hb)
    have ha : D a := hD a List.mem_cons_self
    constructor
    · rintro ⟨-, h⟩
      have hok : P s a := (hgood s a hI hs ha).mpr fun s' hs' => (h s' hs').head
      refine ⟨hok, fun s' hs' => ?_⟩
      exact (always_iff_along hgood hinv (hinv s a s' hI ha hok hs') (h s' hs').head hlabels).mp
        (h s' hs')
    · rintro ⟨hok, h⟩
      refine ⟨hs, fun s' hs' => ?_⟩
      have hgood' : good s' := (hgood s a hI hs ha).mp hok s' hs'
      exact (always_iff_along hgood hinv (hinv s a s' hI ha hok hs') hgood' hlabels).mpr (h s' hs')

/-! ## What a run puts out -/

/-- What the steps of a run put out, in order. -/
def emitted {β : Type*} (step : σ → α → Option σ) (out : σ → α → List β) : σ → List α → List β
  | _, [] => []
  | s, a :: as => out s a ++ ((step s a).map fun s' => emitted step out s' as).getD []

theorem emitted_cons {β : Type*} {out : σ → α → List β} {s m : σ} {a : α} (h : step s a = some m)
    (as : List α) : emitted step out s (a :: as) = out s a ++ emitted step out m as := by
  rw [emitted, h, Option.map_some, Option.getD_some]

theorem emitted_append {β : Type*} {out : σ → α → List β} {s m : σ} :
    ∀ {as : List α}, run step s as = some m → ∀ bs,
      emitted step out s (as ++ bs) = emitted step out s as ++ emitted step out m bs
  | [], hrun, bs => by
    rw [run_nil, Option.some.injEq] at hrun
    rw [hrun, List.nil_append, emitted, List.nil_append]
  | b :: as, hrun, bs => by
    obtain ⟨k, hk, hrest⟩ := run_cons_eq_some.mp hrun
    rw [List.cons_append, emitted_cons hk, emitted_cons hk, emitted_append hrest, List.append_assoc]

theorem emitted_concat {β : Type*} {out : σ → α → List β} {s m : σ} {a : α} {as : List α}
    (h : run step s as = some m) :
    emitted step out s (as ++ [a]) = emitted step out s as ++ out m a := by
  rw [emitted_append h, emitted]
  cases step m a with
  | none => exact congrArg _ (List.append_nil _)
  | some k => exact congrArg _ (List.append_nil _)

/-- A measure that no step raises and each step of a kind lowers bounds how many there are of them.
-/
theorem countP_add_le {μ : σ → ℕ} {p : α → Bool}
    (hle : ∀ s a s', step s a = some s' → μ s' ≤ μ s)
    (hlt : ∀ s a s', step s a = some s' → p a = true → μ s' < μ s) :
    ∀ {s s' : σ} {as : List α}, run step s as = some s' → as.countP p + μ s' ≤ μ s
  | s, s', [], hrun => by
    rw [run_nil, Option.some.injEq] at hrun
    rw [hrun, List.countP_nil]
    omega
  | s, s', a :: as, hrun => by
    obtain ⟨m, hm, hrest⟩ := run_cons_eq_some.mp hrun
    have ih := countP_add_le hle hlt hrest
    by_cases hp : p a = true
    · have := hlt s a m hm hp
      rw [List.countP_cons_of_pos hp]
      omega
    · have := hle s a m hm
      rw [List.countP_cons_of_neg hp]
      omega

end Transition
