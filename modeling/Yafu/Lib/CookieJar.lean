import Yafu.Lib.Http

/-!
# A cookie jar

What a browser does with the cookies of one server, whose paths all see the same ones: it keeps one
cookie for each name, and a response replaces it or takes it away.
-/

namespace Http

/-- The cookies that a browser sends to the server, by name. -/
abbrev Jar := List (GoString × GoString)

namespace Jar

/-- The cookie of a name is gone. -/
def drop (jar : Jar) (name : GoString) : Jar := jar.filter (·.1 ≠ name)

/-- `Set-Cookie`: a negative age takes the cookie away. -/
def store (jar : Jar) (c : Cookie) : Jar :=
  if c.maxAge < 0 then jar.drop c.name else (c.name, c.value) :: jar.drop c.name

/-- The cookies of a response. -/
def storeAll (jar : Jar) (cs : List Cookie) : Jar := cs.foldl store jar

/-- What is sent under a name. -/
def value (jar : Jar) (name : GoString) : Option GoString := Request.cookie { cookies := jar } name

variable {jar : Jar} {name other : GoString} {c : Cookie}

theorem value_drop_self : (jar.drop name).value name = none := by
  refine Option.map_eq_none_iff.mpr (List.find?_eq_none.mpr fun p hp hname => ?_)
  exact of_decide_eq_true (List.mem_filter.mp hp).2 (of_decide_eq_true hname)

theorem value_drop_ne (h : other ≠ name) : (jar.drop other).value name = jar.value name := by
  refine congrArg (Option.map Prod.snd) ?_
  show (jar.filter _).find? _ = jar.find? _
  rw [List.find?_filter]
  refine congrArg (fun p => List.find? p jar) (funext fun p => decide_eq_decide.mpr ?_)
  constructor
  · intro hp
    exact of_decide_eq_true hp.2
  · rintro rfl
    exact ⟨decide_eq_true h.symm, decide_eq_true rfl⟩

theorem value_store_self (hage : 0 ≤ c.maxAge) : (jar.store c).value c.name = some c.value := by
  rw [store, if_neg (Int.not_lt.mpr hage)]
  exact congrArg (Option.map Prod.snd) (List.find?_cons_of_pos (decide_eq_true rfl))

theorem value_store_removal (hage : c.maxAge < 0) : (jar.store c).value c.name = none := by
  rw [store, if_pos hage, value_drop_self]

theorem value_store_ne (h : c.name ≠ name) : (jar.store c).value name = jar.value name := by
  unfold store
  split_ifs
  · exact value_drop_ne h
  · rw [value, Request.cookie, List.find?_cons_of_neg (by simpa using h)]
    exact value_drop_ne h

end Jar

end Http
