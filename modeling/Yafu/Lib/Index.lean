import Yafu.Lib.OrderedMap
import Mathlib.Data.List.Induction

/-!
# Indexing a list by a key

Two ways to build a map from the elements of a list: with the last element of a key, and with all
elements of a key in their order. Either lookup is a question about the elements that have the key.
-/

namespace OrderedMap

variable {α κ : Type*} [DecidableEq κ]

/-- Under each key the last element that has it. -/
def indexLast (key : α → κ) (l : List α) : OrderedMap κ α :=
  l.foldl (fun m a => m.set (key a) a) empty

/-- Under each key the elements that have it, in their order. -/
def indexAll (key : α → κ) (l : List α) : OrderedMap κ (List α) :=
  l.foldl (fun m a => m.set (key a) ((m.lookup (key a)).getD [] ++ [a])) empty

variable (key : α → κ) (l : List α) (a : α) (k : κ)

@[simp] theorem indexLast_nil : indexLast key [] = empty := rfl

@[simp] theorem indexAll_nil : indexAll key [] = empty := rfl

theorem indexLast_concat : indexLast key (l ++ [a]) = (indexLast key l).set (key a) a := by
  rw [indexLast, List.foldl_concat, indexLast]

theorem indexAll_concat : indexAll key (l ++ [a]) =
    (indexAll key l).set (key a) (((indexAll key l).lookup (key a)).getD [] ++ [a]) := by
  rw [indexAll, List.foldl_concat, indexAll]

theorem filter_key_concat : (l ++ [a]).filter (fun b => key b = k) =
    if key a = k then l.filter (fun b => key b = k) ++ [a] else l.filter fun b => key b = k := by
  by_cases h : key a = k
  · simp [h]
  · simp [h]

theorem lookup_indexLast :
    (indexLast key l).lookup k = (l.filter fun a => key a = k).getLast? := by
  induction l using List.reverseRecOn with
  | nil => rfl
  | append_singleton l a ih =>
    rw [indexLast_concat, filter_key_concat]
    by_cases h : key a = k
    · rw [if_pos h, ← h, lookup_set_self, List.getLast?_concat]
    · rw [if_neg h, lookup_set_ne (Ne.symm h), ih]

/-- The elements under a key; a key without elements is not there. -/
theorem lookup_indexAll : (indexAll key l).lookup k =
    if (l.filter fun a => key a = k) = [] then none else some (l.filter fun a => key a = k) := by
  induction l using List.reverseRecOn with
  | nil => rfl
  | append_singleton l a ih =>
    rw [indexAll_concat, filter_key_concat]
    by_cases h : key a = k
    · have hold : (if (l.filter fun a => key a = k) = [] then none
          else some (l.filter fun a => key a = k)).getD [] = l.filter fun a => key a = k := by
        split
        · rename_i hnil
          rw [hnil, Option.getD_none]
        · rw [Option.getD_some]
      rw [if_pos h, h, lookup_set_self, ih, hold]
      exact (if_neg (List.append_ne_nil_of_right_ne_nil _ (List.cons_ne_nil a []))).symm
    · rw [if_neg h, lookup_set_ne (Ne.symm h), ih]

end OrderedMap
