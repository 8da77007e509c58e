import Yafu.Lib.Transition
import Mathlib.Algebra.GroupWithZero.Nat
import Mathlib.Data.List.Count

/-!
# A loop that starts its jobs behind a semaphore

A dispatcher goes through `n` jobs. For each it adds one to a wait group, sends into a channel of
capacity `k`, and starts a worker; after the last one it waits for the group to be empty and returns
the output. A worker makes its request, stores the answer in its own slot, receives from the channel
and leaves the group. All interleavings are runs of `step`; what a request is answered with is in the
label.

The channel and the group are counters. `Inv` says of which workers they are the number, from which
the bound on the requests in flight and the absence of deadlocks follow; `History` says of each
worker what the run has done for it. Each step lowers `left`, so that no run is longer than
`8 * n + 1`.
-/

namespace BoundedPool

open Transition

variable {β : Type*}

/-- Where a worker is. -/
inductive Phase (β : Type*)
  | absent
  | spawned
  | fetching
  | fetched (b : β)
  | stored
  | released
  | finished

/-- What a worker does next. -/
inductive Act (β : Type*)
  | start
  | answer (b : β)
  | store
  | release
  | done

/-- Where the dispatcher is in the loop for the job `next`, or behind the loop. -/
inductive Dispatcher
  | adding
  | acquiring
  | spawning
  | returned
deriving DecidableEq

structure Pool (β : Type*) where
  dispatcher : Dispatcher
  next : ℕ
  sem : ℕ
  group : ℕ
  phases : List (Phase β)
  out : List β

/-- The steps: the four of the dispatcher, and those of the worker of a job. -/
inductive Move (β : Type*)
  | add
  | acquire
  | spawn
  | wait
  | worker (i : ℕ) (act : Act β)

def Phase.next : Phase β → Act β → Option (Phase β)
  | .spawned, .start => some .fetching
  | .fetching, .answer b => some (.fetched b)
  | .fetched _, .store => some .stored
  | .stored, .release => some .released
  | .released, .done => some .finished
  | _, _ => none

/-- The output after the step of a worker. -/
def Phase.write (p : Phase β) (act : Act β) (i : ℕ) (out : List β) : List β :=
  match p, act with
  | .fetched b, .store => out.set i b
  | _, _ => out

/-- How many tokens a step takes out of the channel. -/
def Act.frees : Act β → ℕ
  | .release => 1
  | _ => 0

/-- By how much a step lowers the group. -/
def Act.leaves : Act β → ℕ
  | .done => 1
  | _ => 0

/-- The dispatcher and the workers with a loop over `n` jobs and a channel of capacity `k`. -/
def step (n k : ℕ) (s : Pool β) : Move β → Option (Pool β)
  | .add =>
    if s.dispatcher = .adding ∧ s.next < n then
      some { s with dispatcher := .acquiring, group := s.group + 1 }
    else none
  | .acquire =>
    if s.dispatcher = .acquiring ∧ s.sem < k then
      some { s with dispatcher := .spawning, sem := s.sem + 1 }
    else none
  | .spawn =>
    if s.dispatcher = .spawning then
      some { s with dispatcher := .adding, next := s.next + 1, phases := s.phases.set s.next .spawned }
    else none
  | .wait =>
    if s.dispatcher = .adding ∧ s.next = n ∧ s.group = 0 then some { s with dispatcher := .returned }
    else none
  | .worker i act =>
    s.phases[i]?.bind fun p => (p.next act).bind fun q =>
      if act.frees ≤ s.sem then
        some { s with
          phases := s.phases.set i q, out := p.write act i s.out, sem := s.sem - act.frees,
          group := s.group - act.leaves }
      else none

def start (n : ℕ) (zero : β) : Pool β where
  dispatcher := .adding
  next := 0
  sem := 0
  group := 0
  phases := List.replicate n .absent
  out := List.replicate n zero

/-! ## Phases -/

namespace Phase

/-- The worker has a token in the channel. -/
def holds : Phase β → Bool
  | .spawned | .fetching | .fetched _ | .stored => true
  | _ => false

/-- The worker is in the group. -/
def joined : Phase β → Bool
  | .absent | .finished => false
  | _ => true

def isFetching : Phase β → Bool
  | .fetching => true
  | _ => false

def isStarted : Phase β → Bool
  | .absent | .spawned => false
  | _ => true

def isAnswered : Phase β → Bool
  | .absent | .spawned | .fetching => false
  | _ => true

def isWritten : Phase β → Bool
  | .stored | .released | .finished => true
  | _ => false

/-- How many steps the worker has left. -/
def left : Phase β → ℕ
  | .absent | .spawned => 5
  | .fetching => 4
  | .fetched _ => 3
  | .stored => 2
  | .released => 1
  | .finished => 0

end Phase

def Act.isStart : Act β → Bool
  | .start => true
  | _ => false

def Act.isAnswer : Act β → Bool
  | .answer _ => true
  | _ => false

/-- What one step of a worker does to everything that is counted. -/
structure Phase.Steps (p : Phase β) (act : Act β) (q : Phase β) : Prop where
  holds : p.holds.toNat = q.holds.toNat + act.frees
  joined : p.joined.toNat = q.joined.toNat + act.leaves
  started : q.isStarted.toNat = p.isStarted.toNat + act.isStart.toNat
  answered : q.isAnswered.toNat = p.isAnswered.toNat + act.isAnswer.toNat
  left : p.left = q.left + 1
  present : p.joined = true

theorem Phase.steps_of_next {p q : Phase β} {act : Act β} (h : p.next act = some q) :
    p.Steps act q := by
  cases p <;> cases act <;> cases h <;> constructor <;> rfl

/-- A worker that is in the group can take its next step. -/
theorem Phase.exists_next (b : β) {p : Phase β} (h : p.joined = true) :
    ∃ act q, p.next act = some q ∧ (∀ b', act = .answer b' → b' = b) ∧ (act.frees = 0 ∨ p.holds = true) := by
  cases p with
  | absent => cases h
  | spawned => exact ⟨.start, .fetching, rfl, nofun, .inl rfl⟩
  | fetching => exact ⟨.answer b, .fetched b, rfl, fun b' hb' => by cases hb'; rfl, .inl rfl⟩
  | fetched b' => exact ⟨.store, .stored, rfl, nofun, .inl rfl⟩
  | stored => exact ⟨.release, .released, rfl, nofun, .inr rfl⟩
  | released => exact ⟨.done, .finished, rfl, nofun, .inl rfl⟩
  | finished => cases h

/-! ## Counting over a list in which one entry changes -/

theorem sum_map_set {α : Type*} (w : α → ℕ) {l : List α} {i : ℕ} {a : α} (h : l[i]? = some a) (b : α) :
    ((l.set i b).map w).sum + w a = (l.map w).sum + w b := by
  induction l generalizing i with
  | nil => cases h
  | cons c l ih =>
    cases i with
    | zero =>
      obtain rfl : c = a := Option.some.inj h
      rw [List.set_cons_zero, List.map_cons, List.map_cons, List.sum_cons, List.sum_cons]
      omega
    | succ i =>
      have htail := ih (i := i) h
      rw [List.set_cons_succ, List.map_cons, List.map_cons, List.sum_cons, List.sum_cons]
      omega

theorem countP_eq_sum {α : Type*} (p : α → Bool) (l : List α) :
    l.countP p = (l.map fun a => (p a).toNat).sum := by
  induction l with
  | nil => rfl
  | cons a l ih =>
    rw [List.countP_cons, List.map_cons, List.sum_cons, ih]
    cases p a <;> simp [Nat.add_comm]

theorem countP_set_add {α : Type*} (p : α → Bool) {l : List α} {i : ℕ} {a : α} (h : l[i]? = some a)
    (b : α) : (l.set i b).countP p + (p a).toNat = l.countP p + (p b).toNat := by
  rw [countP_eq_sum, countP_eq_sum]
  exact sum_map_set _ h b

/-! ## The invariant -/

/-- The channel holds a token for each worker that has one and for the dispatcher between its send
and the start of the worker; the group counts the workers in it and the job that was added. -/
structure Inv (n k : ℕ) (s : Pool β) : Prop where
  phases : s.phases.length = n
  out : s.out.length = n
  next_le : s.next ≤ n
  next_lt : s.dispatcher = .acquiring ∨ s.dispatcher = .spawning → s.next < n
  absent : ∀ i, i < n → (s.phases[i]? = some .absent ↔ s.next ≤ i)
  sem : s.sem = s.phases.countP Phase.holds + if s.dispatcher = .spawning then 1 else 0
  sem_le : s.sem ≤ k
  group : s.group = s.phases.countP Phase.joined +
    if s.dispatcher = .acquiring ∨ s.dispatcher = .spawning then 1 else 0
  returned : s.dispatcher = .returned → s.next = n ∧ s.group = 0

section Step

variable {n k : ℕ} {s s' : Pool β} {m : Move β}

/-- What a step has found and what it leaves behind. -/
inductive Stepped (n k : ℕ) (s : Pool β) : Move β → Pool β → Prop
  | add (hdispatcher : s.dispatcher = .adding) (hnext : s.next < n) :
    Stepped n k s .add { s with dispatcher := .acquiring, group := s.group + 1 }
  | acquire (hdispatcher : s.dispatcher = .acquiring) (hfree : s.sem < k) :
    Stepped n k s .acquire { s with dispatcher := .spawning, sem := s.sem + 1 }
  | spawn (hdispatcher : s.dispatcher = .spawning) :
    Stepped n k s .spawn
      { s with dispatcher := .adding, next := s.next + 1, phases := s.phases.set s.next .spawned }
  | wait (hdispatcher : s.dispatcher = .adding) (hnext : s.next = n) (hzero : s.group = 0) :
    Stepped n k s .wait { s with dispatcher := .returned }
  | worker {i : ℕ} {p q : Phase β} {act : Act β} (hp : s.phases[i]? = some p)
    (hq : p.next act = some q) (hfrees : act.frees ≤ s.sem) :
    Stepped n k s (.worker i act)
      { s with
        phases := s.phases.set i q, out := p.write act i s.out, sem := s.sem - act.frees,
        group := s.group - act.leaves }

theorem step_eq_some_iff : step n k s m = some s' ↔ Stepped n k s m s' := by
  constructor
  · intro h
    cases m with
    | add =>
      rw [step] at h
      split_ifs at h with hok
      obtain rfl := Option.some.inj h
      exact .add hok.1 hok.2
    | acquire =>
      rw [step] at h
      split_ifs at h with hok
      obtain rfl := Option.some.inj h
      exact .acquire hok.1 hok.2
    | spawn =>
      rw [step] at h
      split_ifs at h with hok
      obtain rfl := Option.some.inj h
      exact .spawn hok
    | wait =>
      rw [step] at h
      split_ifs at h with hok
      obtain rfl := Option.some.inj h
      exact .wait hok.1 hok.2.1 hok.2.2
    | worker i act =>
      obtain ⟨p, hp, h⟩ := Option.bind_eq_some_iff.mp h
      obtain ⟨q, hq, h⟩ := Option.bind_eq_some_iff.mp h
      split_ifs at h with hfrees
      obtain rfl := Option.some.inj h
      exact .worker hp hq hfrees
  · intro h
    cases h with
    | add hdispatcher hnext => exact if_pos ⟨hdispatcher, hnext⟩
    | acquire hdispatcher hfree => exact if_pos ⟨hdispatcher, hfree⟩
    | spawn hdispatcher => exact if_pos hdispatcher
    | wait hdispatcher hnext hzero => exact if_pos ⟨hdispatcher, hnext, hzero⟩
    | worker hp hq hfrees => rw [step, hp, Option.bind_some, hq, Option.bind_some, if_pos hfrees]

theorem Stepped.isSome (h : Stepped n k s m s') : (step n k s m).isSome = true :=
  Option.isSome_iff_exists.mpr ⟨s', step_eq_some_iff.mpr h⟩

theorem length_write (p : Phase β) (act : Act β) (i : ℕ) (out : List β) :
    (p.write act i out).length = out.length := by
  unfold Phase.write
  split
  · exact List.length_set
  · rfl

theorem inv_start (n k : ℕ) (zero : β) : Inv n k (start n zero) where
  phases := List.length_replicate
  out := List.length_replicate
  next_le := Nat.zero_le n
  next_lt := by simp [start]
  absent i hi := by simp [start, hi]
  sem := by simp [start, List.countP_replicate, Phase.holds]
  sem_le := Nat.zero_le k
  group := by simp [start, List.countP_replicate, Phase.joined]
  returned := nofun

theorem Inv.worker {i : ℕ} {p q : Phase β} {act : Act β} (h : Inv n k s)
    (hp : s.phases[i]? = some p) (hq : p.next act = some q) (hfrees : act.frees ≤ s.sem) :
    Inv n k { s with
      phases := s.phases.set i q, out := p.write act i s.out, sem := s.sem - act.frees,
      group := s.group - act.leaves } := by
  have hsteps := Phase.steps_of_next hq
  have hholds := countP_set_add Phase.holds hp q
  have hjoined := countP_set_add Phase.joined hp q
  have hsem := h.sem
  have hgroup := h.group
  constructor
  · rw [List.length_set, h.phases]
  · rw [length_write, h.out]
  · exact h.next_le
  · exact h.next_lt
  · intro j hj
    by_cases hij : i = j
    · subst hij
      -- neither the old phase nor the new one is the first
      have hold : ¬ s.next ≤ i := by
        rw [← h.absent i hj, hp, Option.some.injEq]
        rintro rfl
        exact Bool.false_ne_true hsteps.present
      have hnew : q ≠ .absent := by
        rintro rfl
        have hleft := hsteps.left
        cases p <;> simp [Phase.left] at hleft
      have hi : i < s.phases.length := h.phases ▸ hj
      rw [List.getElem?_set_self hi, Option.some.injEq]
      exact iff_of_false hnew hold
    · rw [List.getElem?_set_ne hij]
      exact h.absent j hj
  · have heq := hsteps.holds
    simp only
    omega
  · exact Nat.le_trans (Nat.sub_le _ _) h.sem_le
  · have heq := hsteps.joined
    simp only
    omega
  · intro hreturned
    obtain ⟨hnext, hzero⟩ := h.returned hreturned
    exact ⟨hnext, by rw [hzero, Nat.zero_sub]⟩

theorem Inv.spawn (h : Inv n k s) (hdispatcher : s.dispatcher = .spawning) :
    Inv n k
      { s with
        dispatcher := .adding, next := s.next + 1, phases := s.phases.set s.next .spawned } := by
  have hnext := h.next_lt (.inr hdispatcher)
  have habsent := (h.absent s.next hnext).mpr (Nat.le_refl _)
  have hholds := countP_set_add Phase.holds habsent .spawned
  have hjoined := countP_set_add Phase.joined habsent .spawned
  have hsem := h.sem
  have hgroup := h.group
  rw [hdispatcher] at hsem hgroup
  refine ⟨by rw [List.length_set, h.phases], h.out, hnext, nofun, ?_, ?_, h.sem_le, ?_, nofun⟩
  · intro i hi
    by_cases hij : s.next = i
    · subst hij
      have hlt : s.next < s.phases.length := h.phases ▸ hi
      rw [List.getElem?_set_self hlt, Option.some.injEq]
      exact iff_of_false nofun (Nat.not_succ_le_self _)
    · rw [List.getElem?_set_ne hij, h.absent i hi]
      show s.next ≤ i ↔ s.next + 1 ≤ i
      omega
  · simp [Phase.holds] at hholds hsem ⊢
    omega
  · simp [Phase.joined] at hjoined hgroup ⊢
    omega

theorem inv_step (h : Inv n k s) (hstep : step n k s m = some s') : Inv n k s' := by
  have hsem := h.sem
  have hgroup := h.group
  cases step_eq_some_iff.mp hstep with
  | add hdispatcher hnext =>
    rw [hdispatcher] at hsem hgroup
    exact ⟨h.phases, h.out, h.next_le, fun _ => hnext, h.absent, hsem, h.sem_le, by simp [hgroup],
      nofun⟩
  | acquire hdispatcher hfree =>
    have hnext := h.next_lt (.inl hdispatcher)
    rw [hdispatcher] at hsem hgroup
    exact ⟨h.phases, h.out, h.next_le, fun _ => hnext, h.absent, by simp [hsem], hfree,
      by simp [hgroup], nofun⟩
  | spawn hdispatcher => exact h.spawn hdispatcher
  | wait hdispatcher hnext hzero =>
    rw [hdispatcher] at hsem hgroup
    exact ⟨h.phases, h.out, h.next_le, nofun, h.absent, hsem, h.sem_le, hgroup,
      fun _ => ⟨hnext, hzero⟩⟩
  | worker hp hq hfrees => exact h.worker hp hq hfrees

theorem inv_of_run {zero : β} {as : List (Move β)} (h : run (step n k) (start n zero) as = some s) :
    Inv n k s :=
  run_invariant (fun _ _ _ => inv_step) (inv_start n k zero) h

/-! ## The bound -/

/-- The requests that are being made. -/
def Pool.inFlight (s : Pool β) : ℕ := s.phases.countP Phase.isFetching

/-- There are never more requests in flight than the channel has places. -/
theorem Inv.inFlight_le (h : Inv n k s) : s.inFlight ≤ k := by
  have hholds : s.inFlight ≤ s.phases.countP Phase.holds := by
    refine List.countP_mono_left fun p _ hp => ?_
    cases p <;> first | rfl | cases hp
  have hsem := h.sem
  have hle := h.sem_le
  omega

/-! ## Progress -/

/-- The worker of a job that is in the group can go on. -/
theorem exists_worker_step (h : Inv n k s) (answer : ℕ → β) {i : ℕ} {p : Phase β}
    (hp : s.phases[i]? = some p) (hjoined : p.joined = true) :
    ∃ act, (∀ b, act = .answer b → b = answer i) ∧ (step n k s (.worker i act)).isSome = true := by
  obtain ⟨act, q, hq, hanswer, hfrees⟩ := Phase.exists_next (answer i) hjoined
  refine ⟨act, hanswer, (Stepped.worker hp hq ?_).isSome⟩
  rcases hfrees with hzero | hholds
  · rw [hzero]
    exact Nat.zero_le _
  · -- a worker that has a token leaves one in the channel
    have hpos : 0 < s.phases.countP Phase.holds :=
      List.countP_pos_iff.mpr ⟨p, List.mem_of_getElem? hp, hholds⟩
    have hsem := h.sem
    have hle : act.frees ≤ 1 := by cases act <;> simp [Act.frees]
    omega

theorem exists_joined {t : Phase β → Bool} (ht : ∀ p, t p = true → p.joined = true)
    (h : 0 < s.phases.countP t) : ∃ (i : ℕ) (p : Phase β), s.phases[i]? = some p ∧ p.joined = true := by
  obtain ⟨p, hp, htp⟩ := List.countP_pos_iff.mp h
  obtain ⟨i, hi⟩ := List.getElem?_of_mem hp
  exact ⟨i, p, hi, ht p htp⟩

/-- Until the dispatcher has returned something can happen, with whatever answers to the requests. -/
theorem Inv.progress (h : Inv n k s) (hk : 0 < k) (answer : ℕ → β)
    (hnot : s.dispatcher ≠ .returned) :
    ∃ m, (∀ i b, m = .worker i (.answer b) → b = answer i) ∧ (step n k s m).isSome = true := by
  have hsem := h.sem
  have hgroup := h.group
  have worker (hex : ∃ (i : ℕ) (p : Phase β), s.phases[i]? = some p ∧ p.joined = true) :
      ∃ m, (∀ i b, m = .worker i (.answer b) → b = answer i) ∧ (step n k s m).isSome = true := by
    obtain ⟨i, p, hp, hjoined⟩ := hex
    obtain ⟨act, hact, hstep⟩ := exists_worker_step h answer hp hjoined
    refine ⟨.worker i act, fun j b hm => ?_, hstep⟩
    cases hm
    exact hact b rfl
  rcases hdispatcher : s.dispatcher with _ | _ | _ | _
  · rcases Nat.lt_or_eq_of_le h.next_le with hnext | hnext
    · exact ⟨.add, nofun, (Stepped.add hdispatcher hnext).isSome⟩
    · rcases Nat.eq_zero_or_pos s.group with hzero | hpos
      · exact ⟨.wait, nofun, (Stepped.wait hdispatcher hnext hzero).isSome⟩
      · rw [hdispatcher, if_neg (by decide), Nat.add_zero] at hgroup
        exact worker (exists_joined (fun _ hp => hp) (hgroup ▸ hpos))
  · by_cases hfree : s.sem < k
    · exact ⟨.acquire, nofun, (Stepped.acquire hdispatcher hfree).isSome⟩
    · -- the channel is full, so that some worker has a token
      rw [hdispatcher, if_neg (by decide), Nat.add_zero] at hsem
      refine worker (exists_joined (t := Phase.holds) (fun p hp => ?_) (by omega))
      cases p <;> first | rfl | cases hp
  · exact ⟨.spawn, nofun, (Stepped.spawn hdispatcher).isSome⟩
  · exact absurd hdispatcher hnot

/-! ## Termination -/

/-- How many steps the dispatcher has left. -/
def Pool.dispatchLeft (n : ℕ) (s : Pool β) : ℕ :=
  match s.dispatcher with
  | .adding => 3 * (n - s.next) + 1
  | .acquiring => 3 * (n - s.next)
  | .spawning => 3 * (n - s.next) - 1
  | .returned => 0

/-- How many steps are left. -/
def Pool.left (n : ℕ) (s : Pool β) : ℕ := (s.phases.map Phase.left).sum + s.dispatchLeft n

theorem left_step (h : Inv n k s) (hstep : step n k s m = some s') : s.left n = s'.left n + 1 := by
  cases step_eq_some_iff.mp hstep with
  | add hdispatcher hnext =>
    simp only [Pool.left, Pool.dispatchLeft, hdispatcher]
    omega
  | acquire hdispatcher hfree =>
    have hnext := h.next_lt (.inl hdispatcher)
    simp only [Pool.left, Pool.dispatchLeft, hdispatcher]
    omega
  | spawn hdispatcher =>
    have hnext := h.next_lt (.inr hdispatcher)
    have hsum := sum_map_set Phase.left ((h.absent s.next hnext).mpr (Nat.le_refl _)) .spawned
    simp only [Pool.left, Pool.dispatchLeft, hdispatcher]
    simp only [Phase.left] at hsum
    omega
  | wait hdispatcher hnext hzero =>
    simp only [Pool.left, Pool.dispatchLeft, hdispatcher, hnext]
    omega
  | @worker i p q act hp hq hfrees =>
    have hsum := sum_map_set Phase.left hp q
    have hleft := (Phase.steps_of_next hq).left
    simp only [Pool.left, Pool.dispatchLeft]
    omega

theorem left_start (n : ℕ) (zero : β) : (start n zero).left n = 8 * n + 1 := by
  simp only [Pool.left, Pool.dispatchLeft, start, List.map_replicate, Phase.left,
    List.sum_replicate_nat]
  omega

/-- A run and what is left of it are `8 * n + 1` steps together. -/
theorem length_add_left {zero : β} {as : List (Move β)}
    (h : run (step n k) (start n zero) as = some s) : as.length + s.left n = 8 * n + 1 := by
  refine run_history (I := fun as s => as.length + s.left n = 8 * n + 1) ?_ ?_ h
  · rw [List.length_nil, left_start, Nat.zero_add]
  · intro as s m s' hrun ih hstep
    have hleft := left_step (inv_of_run hrun) hstep
    rw [List.length_append, List.length_singleton]
    omega

/-- From everywhere the dispatcher can still return. -/
theorem Inv.exists_returned (hk : 0 < k) (answer : ℕ → β) {s : Pool β} (h : Inv n k s) :
    ∃ bs s', (∀ m ∈ bs, ∀ i b, m = .worker i (.answer b) → b = answer i) ∧
      run (step n k) s bs = some s' ∧ s'.dispatcher = .returned := by
  induction hleft : s.left n generalizing s with
  | zero =>
    by_cases hreturned : s.dispatcher = .returned
    · exact ⟨[], s, nofun, rfl, hreturned⟩
    · obtain ⟨m, -, hstep⟩ := h.progress hk answer hreturned
      obtain ⟨s', hs'⟩ := Option.isSome_iff_exists.mp hstep
      have hlt := left_step h hs'
      omega
  | succ l ih =>
    by_cases hreturned : s.dispatcher = .returned
    · exact ⟨[], s, nofun, rfl, hreturned⟩
    · obtain ⟨m, hm, hstep⟩ := h.progress hk answer hreturned
      obtain ⟨s', hs'⟩ := Option.isSome_iff_exists.mp hstep
      have hlt := left_step h hs'
      obtain ⟨bs, t, hbs, hrun, ht⟩ := ih (inv_step h hs') (by omega)
      exact ⟨m :: bs, t, List.forall_mem_cons.mpr ⟨hm, hbs⟩, run_cons_eq_some.mpr ⟨s', hs', hrun⟩, ht⟩

/-! ## What has happened to a job -/

/-- The request for a job is made. -/
def Move.starts (i : ℕ) : Move β → Bool
  | .worker j act => i = j && act.isStart
  | _ => false

/-- The request for a job is answered. -/
def Move.answers (i : ℕ) : Move β → Bool
  | .worker j act => i = j && act.isAnswer
  | _ => false

/-- What the run has done for the jobs. -/
structure History (as : List (Move β)) (s : Pool β) : Prop where
  started : ∀ i p, s.phases[i]? = some p → as.countP (Move.starts i) = p.isStarted.toNat
  answered : ∀ i p, s.phases[i]? = some p → as.countP (Move.answers i) = p.isAnswered.toNat
  fetched : ∀ i b, s.phases[i]? = some (.fetched b) → .worker i (.answer b) ∈ as
  written : ∀ i p, s.phases[i]? = some p → p.isWritten = true →
    ∃ b, .worker i (.answer b) ∈ as ∧ s.out[i]? = some b

theorem history_start (n : ℕ) (zero : β) : History [] (start n zero) := by
  have habsent : ∀ (i : ℕ) (p : Phase β), (start n zero).phases[i]? = some p → p = .absent := by
    intro i p hp
    rw [start, List.getElem?_replicate] at hp
    split_ifs at hp
    exact (Option.some.inj hp).symm
  constructor
  · intro i p hp
    rw [habsent i p hp]
    rfl
  · intro i p hp
    rw [habsent i p hp]
    rfl
  · intro i b hp
    cases habsent i _ hp
  · intro i p hp hwritten
    rw [habsent i p hp] at hwritten
    cases hwritten

variable {as : List (Move β)}

/-- A step of the dispatcher makes no request, and changes a phase only to start a worker. -/
theorem History.quiet (h : History as s) (hm : ∀ i act, m ≠ .worker i act) (hout : s'.out = s.out)
    (hphases : s'.phases = s.phases ∨
      ∃ i, s.phases[i]? = some .absent ∧ s'.phases = s.phases.set i .spawned) :
    History (as ++ [m]) s' := by
  have hstarts (i : ℕ) : (as ++ [m]).countP (Move.starts i) = as.countP (Move.starts i) := by
    cases m <;> first | exact absurd rfl (hm _ _) | simp [Move.starts]
  have hanswers (i : ℕ) : (as ++ [m]).countP (Move.answers i) = as.countP (Move.answers i) := by
    cases m <;> first | exact absurd rfl (hm _ _) | simp [Move.answers]
  have hmem {a : Move β} (ha : a ∈ as) : a ∈ as ++ [m] := List.mem_append_left [m] ha
  -- a worker that is started was absent, which is all the same to the history
  have hold : ∀ (i : ℕ) (p : Phase β), s'.phases[i]? = some p →
      s.phases[i]? = some p ∨ (s.phases[i]? = some .absent ∧ p = .spawned) := by
    intro i p hp
    rcases hphases with heq | ⟨j, hj, heq⟩
    · exact .inl (heq ▸ hp)
    · rw [heq] at hp
      by_cases hij : j = i
      · subst hij
        obtain ⟨hlt, -⟩ := List.getElem?_eq_some_iff.mp hj
        rw [List.getElem?_set_self hlt] at hp
        exact .inr ⟨hj, (Option.some.inj hp).symm⟩
      · rw [List.getElem?_set_ne hij] at hp
        exact .inl hp
  constructor
  · intro i p hp
    rw [hstarts]
    rcases hold i p hp with hsame | ⟨habsent, rfl⟩
    · exact h.started i p hsame
    · exact h.started i .absent habsent
  · intro i p hp
    rw [hanswers]
    rcases hold i p hp with hsame | ⟨habsent, rfl⟩
    · exact h.answered i p hsame
    · exact h.answered i .absent habsent
  · intro i b hp
    rcases hold i _ hp with hsame | ⟨-, heq⟩
    · exact hmem (h.fetched i b hsame)
    · cases heq
  · intro i p hp hwritten
    rcases hold i p hp with hsame | ⟨-, rfl⟩
    · obtain ⟨b, hb, hval⟩ := h.written i p hsame hwritten
      exact ⟨b, hmem hb, hout ▸ hval⟩
    · cases hwritten

theorem write_ne {p : Phase β} {act : Act β} {i j : ℕ} (h : i ≠ j) (out : List β) :
    (p.write act i out)[j]? = out[j]? := by
  unfold Phase.write
  split
  · exact List.getElem?_set_ne h
  · rfl

/-- A worker whose answer is stored has just stored it, or has had it stored before. -/
theorem written_of_next {p q : Phase β} {act : Act β} (h : p.next act = some q)
    (hq : q.isWritten = true) :
    (∃ b, p = .fetched b ∧ act = .store) ∨ (p.isWritten = true ∧ ∀ i out, p.write act i out = out) := by
  cases p <;> cases act <;> cases h
  · cases hq
  · cases hq
  · exact .inl ⟨_, rfl, rfl⟩
  · exact .inr ⟨rfl, fun _ _ => rfl⟩
  · exact .inr ⟨rfl, fun _ _ => rfl⟩

theorem act_of_next_fetched {p : Phase β} {act : Act β} {b : β} (h : p.next act = some (.fetched b)) :
    act = .answer b := by
  cases p <;> cases act <;> cases h
  rfl

theorem History.worker {i : ℕ} {p q : Phase β} {act : Act β} (h : History as s)
    (hlength : s.out.length = s.phases.length) (hp : s.phases[i]? = some p)
    (hq : p.next act = some q) (hs' : s'.phases = s.phases.set i q)
    (hout : s'.out = p.write act i s.out) : History (as ++ [.worker i act]) s' := by
  have hsteps := Phase.steps_of_next hq
  obtain ⟨hlt, -⟩ := List.getElem?_eq_some_iff.mp hp
  have hmem {a : Move β} (ha : a ∈ as) : a ∈ as ++ [.worker i act] := List.mem_append_left _ ha
  have hself : ∀ p', s'.phases[i]? = some p' → q = p' := by
    intro p' hp'
    rw [hs', List.getElem?_set_self hlt] at hp'
    exact Option.some.inj hp'
  have hother : ∀ j, i ≠ j → s'.phases[j]? = s.phases[j]? := by
    intro j hij
    rw [hs', List.getElem?_set_ne hij]
  constructor
  · intro j p' hp'
    rw [List.countP_append, List.countP_singleton]
    by_cases hij : i = j
    · subst hij
      rw [← hself p' hp', hsteps.started, h.started i p hp]
      cases act <;> simp [Move.starts, Act.isStart]
    · rw [hother j hij] at hp'
      simp [Move.starts, Ne.symm hij, h.started j p' hp']
  · intro j p' hp'
    rw [List.countP_append, List.countP_singleton]
    by_cases hij : i = j
    · subst hij
      rw [← hself p' hp', hsteps.answered, h.answered i p hp]
      cases act <;> simp [Move.answers, Act.isAnswer]
    · rw [hother j hij] at hp'
      simp [Move.answers, Ne.symm hij, h.answered j p' hp']
  · intro j b hp'
    by_cases hij : i = j
    · subst hij
      rw [hself _ hp'] at hq
      rw [act_of_next_fetched hq]
      exact List.mem_append_right as (List.mem_singleton_self _)
    · rw [hother j hij] at hp'
      exact hmem (h.fetched j b hp')
  · intro j p' hp' hwritten
    by_cases hij : i = j
    · subst hij
      rw [← hself p' hp'] at hwritten
      rcases written_of_next hq hwritten with ⟨b, rfl, rfl⟩ | ⟨hbefore, hsame⟩
      · refine ⟨b, hmem (h.fetched i b hp), ?_⟩
        rw [hout, Phase.write, List.getElem?_set_self (hlength ▸ hlt)]
      · obtain ⟨b, hb, hval⟩ := h.written i p hp hbefore
        exact ⟨b, hmem hb, by rw [hout, hsame, hval]⟩
    · rw [hother j hij] at hp'
      obtain ⟨b, hb, hval⟩ := h.written j p' hp' hwritten
      exact ⟨b, hmem hb, by rw [hout, write_ne hij, hval]⟩

theorem History.step (hinv : Inv n k s) (h : History as s)
    (hstep : BoundedPool.step n k s m = some s') : History (as ++ [m]) s' := by
  cases step_eq_some_iff.mp hstep with
  | add => exact h.quiet nofun rfl (.inl rfl)
  | acquire => exact h.quiet nofun rfl (.inl rfl)
  | spawn hdispatcher =>
    have hnext := hinv.next_lt (.inr hdispatcher)
    exact h.quiet nofun rfl (.inr ⟨s.next, (hinv.absent s.next hnext).mpr (Nat.le_refl _), rfl⟩)
  | wait => exact h.quiet nofun rfl (.inl rfl)
  | worker hp hq hfrees => exact h.worker (hinv.out.trans hinv.phases.symm) hp hq rfl rfl

theorem history_of_run {zero : β} (h : run (BoundedPool.step n k) (start n zero) as = some s) :
    History as s :=
  run_history (history_start n zero)
    (fun _ _ _ _ hrun hist hstep => hist.step (inv_of_run hrun) hstep) h

/-- When the dispatcher has returned, every worker has finished. -/
theorem Inv.finished (h : Inv n k s) (hreturned : s.dispatcher = .returned) {i : ℕ} (hi : i < n) :
    s.phases[i]? = some .finished := by
  obtain ⟨hnext, hzero⟩ := h.returned hreturned
  have hlt : i < s.phases.length := h.phases ▸ hi
  have hget : s.phases[i]? = some s.phases[i] := List.getElem?_eq_getElem hlt
  have hnone : s.phases.countP Phase.joined = 0 := by
    have hgroup := h.group
    omega
  have hjoined := List.countP_eq_zero.mp hnone _ (List.getElem_mem hlt)
  have hpresent : s.phases[i] ≠ .absent := by
    intro habsent
    have hle := (h.absent i hi).mp (hget.trans (congrArg some habsent))
    omega
  rw [hget]
  rcases hp : s.phases[i] with _ | _ | _ | b | _ | _ | _
  · exact absurd hp hpresent
  all_goals first | rfl | (rw [hp] at hjoined; exact absurd rfl hjoined)

/-- What was returned: each job has one request, one answer to it, and this answer in its slot. -/
theorem returned_of_run {zero : β} (h : run (BoundedPool.step n k) (start n zero) as = some s)
    (hreturned : s.dispatcher = .returned) : s.out.length = n ∧ ∀ i, i < n →
      as.countP (Move.starts i) = 1 ∧ as.countP (Move.answers i) = 1 ∧
        ∃ b, .worker i (.answer b) ∈ as ∧ s.out[i]? = some b := by
  have hinv := inv_of_run h
  have hist := history_of_run h
  refine ⟨hinv.out, fun i hi => ?_⟩
  have hfinished := hinv.finished hreturned hi
  exact ⟨hist.started i _ hfinished, hist.answered i _ hfinished, hist.written i _ hfinished rfl⟩

end Step

end BoundedPool
