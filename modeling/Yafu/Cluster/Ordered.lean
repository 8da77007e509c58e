import Yafu.Lib.OrderedMap
import Yafu.Cluster.Registry
import Mathlib.Data.List.Induction

/-!
# The registry as an insertion-ordered map

Reference: `internal/cluster/registry_crd.go`.

`CRDRegistry` keeps a map and an order slice in step; `OrderedMap` is one structure. The two answer
every sequence of calls alike. Beside that, the state after a sequence of calls is read off the
calls themselves: `Holds` says which entry is current, `BornAt` which `Set` put a name in its place.
-/

namespace Yafu.Cluster

variable {ε : Type*}

/-- A call of the registry. -/
inductive Call (ε : Type*) where
  | set (name : String) (e : ε)
  | delete (name : String)
  | get (name : String)
  | list

/-- What a call returns. -/
inductive Reply (ε : Type*) where
  | done
  | entry (e : Option ε)
  | entries (es : List ε)

namespace CRDRegistry

/-- The registry after a call. -/
def call (r : CRDRegistry ε) : Call ε → CRDRegistry ε
  | .set name e => r.set name e
  | .delete name => r.delete name
  | .get _ => r
  | .list => r

/-- What a call of the registry returns. -/
def reply (r : CRDRegistry ε) : Call ε → Reply ε
  | .set _ _ => .done
  | .delete _ => .done
  | .get name => .entry (r.get name)
  | .list => .entries r.list

/-- The registry after a sequence of calls. -/
def after (calls : List (Call ε)) : CRDRegistry ε := calls.foldl call new

/-- What a sequence of calls returns. -/
def replies (r : CRDRegistry ε) : List (Call ε) → List (Reply ε)
  | [] => []
  | c :: cs => r.reply c :: (r.call c).replies cs

@[ext] theorem ext {r r' : CRDRegistry ε} (he : r.entries = r'.entries) (ho : r.order = r'.order) :
    r = r' := by
  cases r
  cases r'
  subst he ho
  rfl

@[simp] theorem entries_set_self (r : CRDRegistry ε) (n : String) (e : ε) :
    (r.set n e).entries n = some e := get_set_self r n e

theorem entries_set_ne (r : CRDRegistry ε) {n m : String} (h : n ≠ m) (e : ε) :
    (r.set m e).entries n = r.entries n := get_set_ne r h e

@[simp] theorem entries_delete_self (r : CRDRegistry ε) (n : String) :
    (r.delete n).entries n = none := get_delete_self r n

theorem entries_delete_ne (r : CRDRegistry ε) {n m : String} (h : n ≠ m) :
    (r.delete m).entries n = r.entries n := get_delete_ne r h

theorem after_concat (calls : List (Call ε)) (c : Call ε) :
    after (calls ++ [c]) = (after calls).call c := by
  rw [after, List.foldl_append]
  rfl

end CRDRegistry

/-! ## The abstract map -/

/-- The abstract map after a call. -/
def mapCall (m : OrderedMap String ε) : Call ε → OrderedMap String ε
  | .set name e => m.set name e
  | .delete name => m.erase name
  | .get _ => m
  | .list => m

/-- What a call of the abstract map returns. -/
def mapReply (m : OrderedMap String ε) : Call ε → Reply ε
  | .set _ _ => .done
  | .delete _ => .done
  | .get name => .entry (m.lookup name)
  | .list => .entries m.values

/-- What a sequence of calls of the abstract map returns. -/
def mapReplies (m : OrderedMap String ε) : List (Call ε) → List (Reply ε)
  | [] => []
  | c :: cs => mapReply m c :: mapReplies (mapCall m c) cs

/-- The registry and the abstract map hold the same entries in the same order. -/
structure Simulates (r : CRDRegistry ε) (m : OrderedMap String ε) : Prop where
  entries : ∀ name, r.entries name = m.lookup name
  order : r.order = m.keys

theorem simulates_new : Simulates (CRDRegistry.new : CRDRegistry ε) OrderedMap.empty where
  entries _ := rfl
  order := rfl

theorem Simulates.set {r : CRDRegistry ε} {m : OrderedMap String ε} (h : Simulates r m)
    (name : String) (e : ε) : Simulates (r.set name e) (m.set name e) where
  entries n := by
    by_cases hn : n = name
    · subst hn
      rw [OrderedMap.lookup_set_self, CRDRegistry.entries_set_self]
    · rw [OrderedMap.lookup_set_ne hn, CRDRegistry.entries_set_ne r hn, h.entries]
  order := by
    show (if (r.entries name).isSome then r.order else r.order ++ [name]) = _
    by_cases hmem : name ∈ m.keys
    · rw [OrderedMap.keys_set_of_mem hmem, h.entries, if_pos (OrderedMap.mem_keys_iff.mp hmem),
        h.order]
    · rw [OrderedMap.keys_set_of_notMem hmem, h.entries,
        if_neg (fun hs => hmem (OrderedMap.mem_keys_iff.mpr hs)), h.order]

theorem Simulates.delete {r : CRDRegistry ε} {m : OrderedMap String ε} (h : Simulates r m)
    (name : String) : Simulates (r.delete name) (m.erase name) where
  entries n := by
    by_cases hn : n = name
    · subst hn
      rw [OrderedMap.lookup_erase_self, CRDRegistry.entries_delete_self]
    · rw [OrderedMap.lookup_erase_ne hn, CRDRegistry.entries_delete_ne r hn, h.entries]
  order := by
    rw [OrderedMap.keys_erase, ← h.order]
    rfl

theorem Simulates.call {r : CRDRegistry ε} {m : OrderedMap String ε} (h : Simulates r m) :
    ∀ c : Call ε, Simulates (r.call c) (mapCall m c)
  | .set name e => h.set name e
  | .delete name => h.delete name
  | .get _ => h
  | .list => h

theorem Simulates.list {r : CRDRegistry ε} {m : OrderedMap String ε} (h : Simulates r m) :
    r.list = m.values := by
  rw [CRDRegistry.list, OrderedMap.values_eq_filterMap, h.order, funext h.entries]

theorem Simulates.reply {r : CRDRegistry ε} {m : OrderedMap String ε} (h : Simulates r m) :
    ∀ c : Call ε, r.reply c = mapReply m c
  | .set _ _ => rfl
  | .delete _ => rfl
  | .get name => congrArg Reply.entry (h.entries name)
  | .list => congrArg Reply.entries h.list

theorem Simulates.replies {calls : List (Call ε)} :
    ∀ {r : CRDRegistry ε} {m : OrderedMap String ε}, Simulates r m →
      r.replies calls = mapReplies m calls := by
  induction calls with
  | nil =>
    intro r m _
    rfl
  | cons c cs ih =>
    intro r m h
    rw [CRDRegistry.replies, mapReplies, h.reply c, ih (h.call c)]

/-! ## The state read off the calls -/

/-- `name` was set and not deleted since. -/
def Present (calls : List (Call ε)) (name : String) : Prop :=
  ∃ before e later, calls = before ++ .set name e :: later ∧ Call.delete name ∉ later

/-- `e` is what the last `Set` of `name` stored, and `name` was not deleted since. -/
def Holds (calls : List (Call ε)) (name : String) (e : ε) : Prop :=
  ∃ before later, calls = before ++ .set name e :: later ∧ Call.delete name ∉ later ∧
    ∀ e', Call.set name e' ∉ later

/-- Call `i` is the first `Set` of `name` since its last `Delete`, and `name` is present. -/
def BornAt (calls : List (Call ε)) (name : String) (i : ℕ) : Prop :=
  ∃ before e later, calls = before ++ .set name e :: later ∧ Call.delete name ∉ later ∧
    ¬ Present before name ∧ i = before.length

/-- A marked place of a list with one more element is the new end or a place of the old list. -/
theorem split_concat_iff {α : Type*} {l before later : List α} {x c : α} :
    l ++ [c] = before ++ x :: later ↔
      (before = l ∧ x = c ∧ later = []) ∨
        ∃ later', later = later' ++ [c] ∧ l = before ++ x :: later' := by
  rcases List.eq_nil_or_concat later with rfl | ⟨later', d, rfl⟩
  · constructor
    · intro h
      obtain ⟨hl, hc⟩ := List.append_inj' h rfl
      exact .inl ⟨hl.symm, (List.cons.inj hc).1.symm, rfl⟩
    · rintro (⟨rfl, rfl, -⟩ | ⟨later', hnil, -⟩)
      · rfl
      · simp at hnil
  · rw [List.concat_eq_append, ← List.cons_append, ← List.append_assoc]
    constructor
    · intro h
      obtain ⟨hl, hc⟩ := List.append_inj' h rfl
      exact .inr ⟨later', by rw [hc], hl⟩
    · rintro (⟨-, -, hnil⟩ | ⟨l', hl', rfl⟩)
      · simp at hnil
      · obtain ⟨rfl, hd⟩ := List.append_inj' hl' rfl
        rw [hd]

theorem present_concat {calls : List (Call ε)} {c : Call ε} {name : String} :
    Present (calls ++ [c]) name ↔ (∃ e, c = .set name e) ∨ (Present calls name ∧ c ≠ .delete name) := by
  constructor
  · rintro ⟨before, e, later, hsplit, hdel⟩
    rcases split_concat_iff.mp hsplit with ⟨-, rfl, -⟩ | ⟨later', rfl, rfl⟩
    · exact .inl ⟨e, rfl⟩
    · rw [List.mem_append, not_or, List.mem_singleton] at hdel
      exact .inr ⟨⟨before, e, later', rfl, hdel.1⟩, Ne.symm hdel.2⟩
  · rintro (⟨e, rfl⟩ | ⟨⟨before, e, later, rfl, hdel⟩, hc⟩)
    · exact ⟨calls, e, [], rfl, List.not_mem_nil⟩
    · refine ⟨before, e, later ++ [c], by simp, ?_⟩
      rw [List.mem_append, not_or, List.mem_singleton]
      exact ⟨hdel, Ne.symm hc⟩

theorem holds_concat {calls : List (Call ε)} {c : Call ε} {name : String} {e : ε} :
    Holds (calls ++ [c]) name e ↔
      c = .set name e ∨ (Holds calls name e ∧ c ≠ .delete name ∧ ∀ e', c ≠ .set name e') := by
  constructor
  · rintro ⟨before, later, hsplit, hdel, hset⟩
    rcases split_concat_iff.mp hsplit with ⟨-, rfl, -⟩ | ⟨later', rfl, rfl⟩
    · exact .inl rfl
    · have hlast : c ∈ later' ++ [c] := by simp
      refine .inr ⟨⟨before, later', rfl, fun h => hdel (by simp [h]), fun e' h => hset e' ?_⟩, ?_, ?_⟩
      · simp [h]
      · rintro rfl
        exact hdel hlast
      · rintro e' rfl
        exact hset e' hlast
  · rintro (rfl | ⟨⟨before, later, rfl, hdel, hset⟩, hc, hcset⟩)
    · exact ⟨calls, [], rfl, List.not_mem_nil, fun _ => List.not_mem_nil⟩
    · refine ⟨before, later ++ [c], by simp, ?_, fun e' => ?_⟩
      · rw [List.mem_append, not_or, List.mem_singleton]
        exact ⟨hdel, Ne.symm hc⟩
      · rw [List.mem_append, not_or, List.mem_singleton]
        exact ⟨hset e', Ne.symm (hcset e')⟩

theorem bornAt_concat {calls : List (Call ε)} {c : Call ε} {name : String} {i : ℕ} :
    BornAt (calls ++ [c]) name i ↔
      ((∃ e, c = .set name e) ∧ ¬ Present calls name ∧ i = calls.length) ∨
        (BornAt calls name i ∧ c ≠ .delete name) := by
  constructor
  · rintro ⟨before, e, later, hsplit, hdel, hnew, hi⟩
    rcases split_concat_iff.mp hsplit with ⟨rfl, rfl, -⟩ | ⟨later', rfl, rfl⟩
    · exact .inl ⟨⟨e, rfl⟩, hnew, hi⟩
    · rw [List.mem_append, not_or, List.mem_singleton] at hdel
      exact .inr ⟨⟨before, e, later', rfl, hdel.1, hnew, hi⟩, Ne.symm hdel.2⟩
  · rintro (⟨⟨e, rfl⟩, hnew, rfl⟩ | ⟨⟨before, e, later, rfl, hdel, hnew, hi⟩, hc⟩)
    · exact ⟨calls, e, [], rfl, List.not_mem_nil, hnew, rfl⟩
    · refine ⟨before, e, later ++ [c], by simp, ?_, hnew, hi⟩
      rw [List.mem_append, not_or, List.mem_singleton]
      exact ⟨hdel, Ne.symm hc⟩

theorem BornAt.lt {calls : List (Call ε)} {name : String} {i : ℕ} (h : BornAt calls name i) :
    i < calls.length := by
  obtain ⟨before, e, later, rfl, -, -, rfl⟩ := h
  rw [List.length_append, List.length_cons]
  omega

/-! ## What the state is after any calls -/

namespace CRDRegistry

/-- What one call does to an entry. -/
theorem entries_call_iff {r : CRDRegistry ε} {c : Call ε} {name : String} {e : ε} :
    (r.call c).entries name = some e ↔
      c = .set name e ∨ (r.entries name = some e ∧ c ≠ .delete name ∧ ∀ e', c ≠ .set name e') := by
  cases c with
  | set n e' =>
    by_cases hn : name = n
    · subst hn
      simp [call]
    · simp [call, entries_set_ne _ hn, Ne.symm hn]
  | delete n =>
    by_cases hn : name = n
    · subst hn
      simp [call]
    · simp [call, entries_delete_ne _ hn, Ne.symm hn]
  | get n => simp [call]
  | list => simp [call]

theorem mem_order_call_iff {r : CRDRegistry ε} {c : Call ε} {name : String} :
    name ∈ (r.call c).order ↔ (∃ e, c = .set name e) ∨ (name ∈ r.order ∧ c ≠ .delete name) := by
  simp only [mem_order, Option.isSome_iff_exists, entries_call_iff]
  constructor
  · rintro ⟨e, hset | ⟨he, hdelete, -⟩⟩
    · exact .inl ⟨e, hset⟩
    · exact .inr ⟨⟨e, he⟩, hdelete⟩
  · rintro (⟨e, hset⟩ | ⟨⟨e, he⟩, hdelete⟩)
    · exact ⟨e, .inl hset⟩
    · by_cases hset : ∃ e', c = .set name e'
      · exact hset.imp fun _ => .inl
      · exact ⟨e, .inr ⟨he, hdelete, not_exists.mp hset⟩⟩

theorem mem_order_after {calls : List (Call ε)} {name : String} :
    name ∈ (after calls).order ↔ Present calls name := by
  induction calls using List.reverseRecOn with
  | nil =>
    constructor
    · intro h
      exact absurd h List.not_mem_nil
    · rintro ⟨before, e, later, h, -⟩
      simp at h
  | append_singleton calls c ih => rw [after_concat, present_concat, ← ih, mem_order_call_iff]

theorem entries_after {calls : List (Call ε)} {name : String} {e : ε} :
    (after calls).entries name = some e ↔ Holds calls name e := by
  induction calls using List.reverseRecOn with
  | nil =>
    constructor
    · intro h
      exact absurd h (by simp [after, new])
    · rintro ⟨before, later, h, -⟩
      simp at h
  | append_singleton calls c ih => rw [after_concat, holds_concat, ← ih, entries_call_iff]

/-- `Set` of a present name leaves the order alone. -/
theorem order_set_of_mem {r : CRDRegistry ε} {name : String} (h : name ∈ r.order) (e : ε) :
    (r.set name e).order = r.order := if_pos ((r.mem_order name).mp h)

/-- `Set` of an absent name puts it at the end. -/
theorem order_set_of_notMem {r : CRDRegistry ε} {name : String} (h : name ∉ r.order) (e : ε) :
    (r.set name e).order = r.order ++ [name] := if_neg fun hs => h ((r.mem_order name).mpr hs)

/-- The listed entries are those under the ordered names. -/
theorem list_forall₂ (r : CRDRegistry ε) :
    List.Forall₂ (fun name e => r.entries name = some e) r.order r.list := by
  rw [list]
  have hsome : ∀ name ∈ r.order, (r.entries name).isSome := fun name => (r.mem_order name).mp
  generalize r.order = order at hsome
  induction order with
  | nil => exact .nil
  | cons name order ih =>
    obtain ⟨e, he⟩ := Option.isSome_iff_exists.mp (hsome name (by simp))
    rw [List.filterMap_cons_some he]
    exact .cons he (ih fun n hn => hsome n (by simp [hn]))

/-- `Set` of a present name replaces what is listed in its place and nothing else. -/
theorem list_set_of_mem {r : CRDRegistry ε} {name : String} (h : name ∈ r.order) (e : ε) :
    (r.set name e).list =
      List.zipWith (fun n old => if n = name then e else old) r.order r.list := by
  have hall := r.list_forall₂
  rw [list, order_set_of_mem h]
  generalize r.order = order, r.list = listed at hall
  induction hall with
  | nil => rfl
  | @cons n old order listed hold _ ih =>
    rw [List.zipWith_cons_cons, ← ih]
    by_cases hn : n = name
    · subst hn
      rw [List.filterMap_cons_some (entries_set_self r n e), if_pos rfl]
    · rw [List.filterMap_cons_some ((entries_set_ne r hn e).trans hold), if_neg hn]

/-- `Set` of an absent name lists its entry last. -/
theorem list_set_of_notMem {r : CRDRegistry ε} {name : String} (h : name ∉ r.order) (e : ε) :
    (r.set name e).list = r.list ++ [e] := by
  have hothers : ∀ n ∈ r.order, (r.set name e).entries n = r.entries n := by
    intro n hn
    refine entries_set_ne r ?_ e
    rintro rfl
    exact h hn
  rw [list, order_set_of_notMem h, List.filterMap_append, List.filterMap_congr hothers,
    List.filterMap_cons_some (entries_set_self r name e), List.filterMap_nil, list]

/-- `Delete` of an absent name changes nothing. -/
theorem delete_of_notMem {r : CRDRegistry ε} {name : String} (h : name ∉ r.order) :
    r.delete name = r := by
  refine ext (funext fun n => ?_) (List.erase_of_not_mem h)
  by_cases hn : n = name
  · subst hn
    have hnone : r.entries n = none :=
      Option.not_isSome_iff_eq_none.mp fun hs => h ((r.mem_order n).mpr hs)
    rw [entries_delete_self, hnone]
  · exact entries_delete_ne r hn

/-- The names are ordered by the calls that put them there. -/
theorem order_sorted (calls : List (Call ε)) :
    (after calls).order.Pairwise fun n m => ∀ i j, BornAt calls n i → BornAt calls m j → i < j := by
  induction calls using List.reverseRecOn with
  | nil => exact List.Pairwise.nil
  | append_singleton calls c ih =>
    -- a name that keeps its place keeps the call it was born at
    have hkeep : ∀ l : List String, l.Sublist (after calls).order → (∀ n ∈ l, ∀ i,
        BornAt (calls ++ [c]) n i → BornAt calls n i) →
        l.Pairwise fun n m => ∀ i j, BornAt (calls ++ [c]) n i → BornAt (calls ++ [c]) m j → i < j :=
      fun l hl hold => (ih.sublist hl).imp_of_mem fun hn hm h i j hi hj =>
        h i j (hold _ hn i hi) (hold _ hm j hj)
    have hpast : ∀ n ∈ (after calls).order, ∀ i, BornAt (calls ++ [c]) n i → BornAt calls n i := by
      intro n hn i hi
      rcases bornAt_concat.mp hi with ⟨-, hnew, -⟩ | ⟨hold, -⟩
      · exact absurd (mem_order_after.mp hn) hnew
      · exact hold
    rw [after_concat]
    cases c with
    | set name e =>
      by_cases hmem : name ∈ (after calls).order
      · rw [call, order_set_of_mem hmem]
        exact hkeep _ (List.Sublist.refl _) hpast
      · rw [call, order_set_of_notMem hmem, List.pairwise_append]
        refine ⟨hkeep _ (List.Sublist.refl _) hpast, List.pairwise_singleton _ _, ?_⟩
        intro n hn m hm i j hi hj
        rw [List.mem_singleton] at hm
        subst hm
        -- the new name is born at this call, the others before it
        rcases bornAt_concat.mp hj with ⟨-, -, rfl⟩ | ⟨⟨before, e', later, rfl, hdel, -, -⟩, -⟩
        · exact (hpast n hn i hi).lt
        · exact absurd (mem_order_after.mpr ⟨before, e', later, rfl, hdel⟩) hmem
    | delete name =>
      exact hkeep _ List.erase_sublist fun n hn => hpast n (List.mem_of_mem_erase hn)
    | get name => exact hkeep _ (List.Sublist.refl _) hpast
    | list => exact hkeep _ (List.Sublist.refl _) hpast

theorem exists_bornAt {calls : List (Call ε)} {name : String} (h : Present calls name) :
    ∃ i, BornAt calls name i := by
  induction calls using List.reverseRecOn with
  | nil =>
    obtain ⟨before, e, later, h, -⟩ := h
    simp at h
  | append_singleton calls c ih =>
    by_cases hold : Present calls name ∧ c ≠ .delete name
    · obtain ⟨i, hi⟩ := ih hold.1
      exact ⟨i, bornAt_concat.mpr (.inr ⟨hi, hold.2⟩)⟩
    · obtain ⟨e, rfl⟩ := (present_concat.mp h).resolve_right hold
      have hnew : ¬ Present calls name := fun hp => hold ⟨hp, nofun⟩
      exact ⟨calls.length, bornAt_concat.mpr (.inl ⟨⟨e, rfl⟩, hnew, rfl⟩)⟩

/-- A deleted name is absent as long as it is not set. -/
theorem notMem_order_of_deleted (calls : List (Call ε)) {between : List (Call ε)} {name : String}
    (h : ∀ e, Call.set name e ∉ between) :
    name ∉ (after (calls ++ .delete name :: between)).order := by
  rw [mem_order_after]
  induction between using List.reverseRecOn with
  | nil =>
    rw [present_concat]
    rintro (⟨e, he⟩ | ⟨-, hdel⟩)
    · exact absurd he nofun
    · exact hdel rfl
  | append_singleton between c ih =>
    rw [← List.cons_append, ← List.append_assoc, present_concat]
    rintro (⟨e, rfl⟩ | ⟨hpres, -⟩)
    · exact h e (by simp)
    · exact ih (fun e he => h e (by simp [he])) hpres

end CRDRegistry

/-- What the registry is after a sequence of calls: its slice and its map agree, its entries are
those last set, and its order is that of the first `Set` since the last `Delete`. -/
structure InsertionOrdered (calls : List (Call ε)) (r : CRDRegistry ε) : Prop where
  order_nodup : r.order.Nodup
  mem_order : ∀ name, name ∈ r.order ↔ (r.entries name).isSome
  entries : ∀ name e, r.entries name = some e ↔ Holds calls name e
  list : List.Forall₂ (Holds calls) r.order r.list
  born : ∀ name ∈ r.order, ∃ i, BornAt calls name i
  sorted : r.order.Pairwise fun n m => ∀ i j, BornAt calls n i → BornAt calls m j → i < j

theorem CRDRegistry.insertionOrdered (calls : List (Call ε)) :
    InsertionOrdered calls (CRDRegistry.after calls) where
  order_nodup := (after calls).order_nodup
  mem_order := (after calls).mem_order
  entries _ _ := entries_after
  list := (after calls).list_forall₂.imp fun _ _ => entries_after.mp
  born _ h := exists_bornAt (mem_order_after.mp h)
  sorted := order_sorted calls

/-- The registry refines an insertion-ordered map: it answers every sequence of calls as the map
does, and after it a `Set` of a present name works in place, a `Delete` of an absent one changes
nothing, and a name deleted and set again goes to the end. -/
theorem crdRegistry_refines_orderedMap (calls : List (Call ε)) :
    CRDRegistry.new.replies calls = mapReplies OrderedMap.empty calls ∧
      InsertionOrdered calls (CRDRegistry.after calls) ∧
      (∀ name e, Present calls name →
        (CRDRegistry.after (calls ++ [.set name e])).order = (CRDRegistry.after calls).order ∧
          (CRDRegistry.after (calls ++ [.set name e])).list =
            List.zipWith (fun n old => if n = name then e else old)
              (CRDRegistry.after calls).order (CRDRegistry.after calls).list) ∧
      (∀ name, ¬ Present calls name →
        CRDRegistry.after (calls ++ [.delete name]) = CRDRegistry.after calls) ∧
      ∀ name e between, (∀ e', Call.set name e' ∉ between) →
        (CRDRegistry.after ((calls ++ .delete name :: between) ++ [.set name e])).order =
            (CRDRegistry.after (calls ++ .delete name :: between)).order ++ [name] ∧
          (CRDRegistry.after ((calls ++ .delete name :: between) ++ [.set name e])).list =
            (CRDRegistry.after (calls ++ .delete name :: between)).list ++ [e] := by
  refine ⟨simulates_new.replies, CRDRegistry.insertionOrdered calls, ?_, ?_, ?_⟩
  · intro name e hname
    have hmem := CRDRegistry.mem_order_after.mpr hname
    rw [CRDRegistry.after_concat]
    exact ⟨CRDRegistry.order_set_of_mem hmem e, CRDRegistry.list_set_of_mem hmem e⟩
  · intro name hname
    rw [CRDRegistry.after_concat]
    exact CRDRegistry.delete_of_notMem fun h => hname (CRDRegistry.mem_order_after.mp h)
  · intro name e between hbetween
    have hnot := CRDRegistry.notMem_order_of_deleted calls hbetween
    rw [CRDRegistry.after_concat]
    exact ⟨CRDRegistry.order_set_of_notMem hnot e, CRDRegistry.list_set_of_notMem hnot e⟩

end Yafu.Cluster
