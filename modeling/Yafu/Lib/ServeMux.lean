import Yafu.Lib.RequestTarget

/-!
# Routing requests

`http.ServeMux` with patterns that have a method, literal segments, wildcards and a slash at the end;
hosts, `{$}` and `{name...}` are left out. A node of the routing tree is the list of the patterns below
it, each as what is left of its segments. `Matches` says which paths a pattern is for, and the tree
finds a pattern if and only if there is one.
-/

namespace ServeMux

/-- A segment of a pattern. -/
inductive Segment where
  | literal (s : GoString)
  | wild (name : GoString)
  | multi
deriving DecidableEq, Repr

/-- A pattern; an empty method stands for every method. -/
structure Pattern where
  method : GoString := []
  segments : List Segment
deriving DecidableEq, Repr

/-- `url.PathUnescape`, and the segment as it is where that fails. -/
def pathUnescape (seg : GoString) : GoString := (Url.unescape .path seg).getD seg

/-! ## Patterns -/

/-- One segment of the text of a pattern. -/
def parseSegment (seg : GoString) : Segment :=
  if seg.head? = some '\x7b'.toUInt8 then .wild (seg.drop 1).dropLast else .literal (pathUnescape seg)

/-- The segments of the text of a pattern, a slash at the end included. -/
def parseSegments : List GoString → List Segment
  | [] => []
  | [seg] => if seg = [] then [.multi] else [parseSegment seg]
  | seg :: rest => parseSegment seg :: parseSegments rest

/-- `parsePattern`. -/
def parsePattern (s : GoString) : Pattern :=
  match GoString.cut ' '.toUInt8 s with
  | some (method, path) => ⟨method, parseSegments (GoString.split Path.slash (path.drop 1))⟩
  | none => ⟨[], parseSegments (GoString.split Path.slash (s.drop 1))⟩

/-- The names of the wildcards. -/
def Pattern.names (p : Pattern) : List GoString :=
  p.segments.filterMap fun
    | .wild name => some name
    | _ => none

/-! ## The routing tree -/

/-- The segments that `firstSegment` takes off a path that was split at its slashes. -/
def pathSegments : List GoString → List GoString
  | [] => []
  | [seg] => if seg = [] then ["/"] else [pathUnescape seg]
  | seg :: rest => pathUnescape seg :: pathSegments rest

/-- The segments of a path. -/
def segments (path : GoString) : List GoString := pathSegments (GoString.split Path.slash (path.drop 1))

/-- A node: the patterns below it, and what they lead to. -/
abbrev Node (ρ : Type*) := List (List Segment × ρ)

namespace Node

variable {ρ : Type*}

/-- The pattern that ends here. -/
def leaf (n : Node ρ) : Option ρ := (n.find? fun p => p.1 = []).map Prod.snd

/-- `emptyChild`: below a wildcard. -/
def emptyChild (n : Node ρ) : Node ρ :=
  n.filterMap fun
    | (.wild _ :: rest, r) => some (rest, r)
    | _ => none

/-- `findChild`: below a literal. -/
def findChild (n : Node ρ) (seg : GoString) : Node ρ :=
  if seg = [] then n.emptyChild
  else
    n.filterMap fun
      | (.literal s :: rest, r) => if s = seg then some (rest, r) else none
      | _ => none

/-- `multiChild`. -/
def multiChild (n : Node ρ) : Option ρ := (n.find? fun p => p.1 = [.multi]).map Prod.snd

/-- `matchPath`, for the segments of the path and the wildcards so far. -/
def matchPath : Node ρ → List GoString → List GoString → Option (ρ × List GoString)
  | n, [], vals => n.leaf.map (·, vals)
  | n, seg :: rest, vals =>
    ((n.findChild seg).matchPath rest vals).or <|
      (if seg ≠ "/" then n.emptyChild.matchPath rest (vals ++ [seg]) else none).or <|
        n.multiChild.map (·, vals)

end Node

/-! ## The mux -/

variable {ρ : Type*}

/-- What is registered. -/
abbrev Routes (ρ : Type*) := List (Pattern × ρ)

/-- The patterns of a method. -/
def Routes.node (routes : Routes ρ) (method : GoString) : Node (Pattern × ρ) :=
  routes.filterMap fun r => if r.1.method = method then some (r.1.segments, r) else none

/-- `matchMethodAndPath`. -/
def Routes.find (routes : Routes ρ) (method path : GoString) :
    Option ((Pattern × ρ) × List GoString) :=
  ((routes.node method).matchPath (segments path) []).or <|
    (if method = "HEAD" then (routes.node "GET").matchPath (segments path) [] else none).or <|
      (routes.node []).matchPath (segments path) []

/-- `exactMatch`: nothing is left of the path for a slash at the end of the pattern. -/
def exactMatch (p : Pattern) (path : GoString) : Bool :=
  if p.segments.getLast? ≠ some .multi then true
  else if path ≠ [] ∧ path.getLast? ≠ some Path.slash then false
  else p.segments.length = path.countP (· = Path.slash)

/-- `cleanPath`. -/
def cleanPath (p : GoString) : GoString :=
  if p = [] then [Path.slash]
  else Path.cleanTrailing (if p.head? = some Path.slash then p else Path.slash :: p)

/-- What becomes of a request; a handler gets the values of the wildcards by their names. -/
inductive Found (ρ : Type*) where
  | handler (route : ρ) (values : List (GoString × GoString))
  | redirect (path rawQuery : GoString)
  | methodNotAllowed
  | notFound
  | badRequest

/-- `matchingMethods` is not empty. -/
def Routes.otherMethods (routes : Routes ρ) (path : GoString) : Bool :=
  routes.any fun r => r.1.method ≠ [] &&
    (((routes.node r.1.method).matchPath (segments path) []).isSome ||
      ((routes.node r.1.method).matchPath (segments (path ++ [Path.slash])) []).isSome)

/-- `matchOrRedirect` redirects to the path with a slash at the end. -/
def Routes.addsSlash (routes : Routes ρ) (method path : GoString) : Bool :=
  let exact (path : GoString) :=
    match routes.find method path with
    | some ((p, _), _) => exactMatch p path
    | none => false
  !exact path && path.getLast? ≠ some Path.slash && exact (path ++ [Path.slash])

/-- `ServeHTTP`. -/
def Routes.serve (routes : Routes ρ) (method : GoString) (u : RequestURL) : Found ρ :=
  let path := if method = "CONNECT" then u.escapedPath else cleanPath u.escapedPath
  if u.path = "*" then .badRequest
  else if routes.addsSlash method path then .redirect (cleanPath u.path ++ [Path.slash]) u.rawQuery
  else if path ≠ u.escapedPath then .redirect path u.rawQuery
  else
    match routes.find method path with
    | some ((p, r), vals) => .handler r (p.names.zip vals)
    | none => if routes.otherMethods path then .methodNotAllowed else .notFound

/-! ## What a pattern is for -/

/-- A pattern is for a path with these segments; the values of its wildcards. -/
inductive Matches : List Segment → List GoString → List GoString → Prop
  | nil : Matches [] [] []
  | literal {s : GoString} {ps segs vals} : s ≠ [] → Matches ps segs vals →
      Matches (.literal s :: ps) (s :: segs) vals
  | wild {name seg : GoString} {ps segs vals} : seg ≠ "/" → Matches ps segs vals →
      Matches (.wild name :: ps) (seg :: segs) (seg :: vals)
  | multi {segs} : segs ≠ [] → Matches [.multi] segs []

/-- Literal segments stand for themselves. -/
theorem matches_literals {words : List GoString} (h : ∀ w ∈ words, w ≠ []) {ps segs vals} :
    Matches (words.map .literal ++ ps) segs vals ↔
      ∃ segs', segs = words ++ segs' ∧ Matches ps segs' vals := by
  induction words generalizing segs with
  | nil =>
    constructor
    · exact fun hm => ⟨segs, rfl, hm⟩
    · rintro ⟨segs', rfl, hm⟩
      exact hm
  | cons w words ih =>
    obtain ⟨hw, hwords⟩ := List.forall_mem_cons.mp h
    constructor
    · intro hm
      cases hm with
      | literal _ hm =>
        obtain ⟨segs', rfl, hps⟩ := (ih hwords).mp hm
        exact ⟨segs', rfl, hps⟩
    · rintro ⟨segs', rfl, hm⟩
      exact .literal hw ((ih hwords).mpr ⟨segs', rfl, hm⟩)

/-- A wildcard stands for every segment but the one that is a slash. -/
theorem matches_wilds {names : List GoString} {ps segs vals} :
    Matches (names.map .wild ++ ps) segs vals ↔
      ∃ new segs' vals', segs = new ++ segs' ∧ vals = new ++ vals' ∧ new.length = names.length ∧
        (∀ v ∈ new, v ≠ "/") ∧ Matches ps segs' vals' := by
  induction names generalizing segs vals with
  | nil =>
    constructor
    · exact fun hm => ⟨[], segs, vals, rfl, rfl, rfl, nofun, hm⟩
    · rintro ⟨new, segs', vals', rfl, rfl, hlen, -, hm⟩
      obtain rfl := List.length_eq_zero_iff.mp hlen
      exact hm
  | cons name names ih =>
    constructor
    · intro hm
      cases hm with
      | wild hslash hm =>
        obtain ⟨new, segs', vals', rfl, rfl, hlen, hnew, hps⟩ := ih.mp hm
        exact ⟨_ :: new, segs', vals', rfl, rfl, congrArg (· + 1) hlen,
          List.forall_mem_cons.mpr ⟨hslash, hnew⟩, hps⟩
    · rintro ⟨new, segs', vals', rfl, rfl, hlen, hnew, hm⟩
      obtain ⟨v, new, rfl⟩ := List.exists_cons_of_length_eq_add_one hlen
      obtain ⟨hv, hnew⟩ := List.forall_mem_cons.mp hnew
      exact .wild hv (ih.mpr ⟨new, segs', vals', rfl, rfl, Nat.succ.inj hlen, hnew, hm⟩)

namespace Node

variable {n : Node ρ} {segs vals vals' : List GoString} {r : ρ}

theorem mem_emptyChild {ps : List Segment} :
    (ps, r) ∈ n.emptyChild ↔ ∃ name, (.wild name :: ps, r) ∈ n := by
  unfold emptyChild
  rw [List.mem_filterMap]
  constructor
  · rintro ⟨⟨qs, r'⟩, hmem, h⟩
    split at h
    · rename_i name rest r'' heq
      rw [Option.some.injEq, Prod.mk.injEq] at h
      obtain ⟨rfl, rfl⟩ := h
      exact ⟨name, heq ▸ hmem⟩
    · cases h
  · rintro ⟨name, hmem⟩
    exact ⟨_, hmem, rfl⟩

theorem mem_findChild {ps : List Segment} {seg : GoString} (hseg : seg ≠ []) :
    (ps, r) ∈ n.findChild seg ↔ (.literal seg :: ps, r) ∈ n := by
  unfold findChild
  rw [if_neg hseg, List.mem_filterMap]
  constructor
  · rintro ⟨⟨qs, r'⟩, hmem, h⟩
    split at h
    · rename_i s rest r'' heq
      split_ifs at h with hs
      rw [Option.some.injEq, Prod.mk.injEq] at h
      obtain ⟨rfl, rfl⟩ := h
      exact hs ▸ heq ▸ hmem
    · cases h
  · intro hmem
    exact ⟨_, hmem, if_pos rfl⟩

/-- Below nothing, nothing is found. -/
theorem matchPath_nil : ∀ segs vals : List GoString, matchPath ([] : Node ρ) segs vals = none
  | [], _ => rfl
  | seg :: segs, vals => by
    have hchild : findChild ([] : Node ρ) seg = [] := ite_self _
    rw [matchPath, hchild, matchPath_nil segs vals, Option.none_or]
    show (if seg ≠ "/" then matchPath ([] : Node ρ) segs (vals ++ [seg]) else none).or none = none
    rw [matchPath_nil segs, ite_self, Option.none_or]

/-- A subtree is found for everything below it. -/
theorem matchPath_subtree (seg : GoString) (segs vals : List GoString) :
    matchPath ([([.multi], r)] : Node ρ) (seg :: segs) vals = some (r, vals) := by
  have hchild : findChild ([([.multi], r)] : Node ρ) seg = [] := by
    unfold findChild
    split_ifs <;> rfl
  have hempty : emptyChild ([([.multi], r)] : Node ρ) = [] := rfl
  rw [matchPath, hchild, hempty, matchPath_nil, matchPath_nil, ite_self]
  rfl

/-- What the tree finds is a pattern for the path, with the values of its wildcards. -/
theorem matchPath_sound : ∀ {n : Node ρ} {segs vals vals' : List GoString}, [] ∉ segs →
    n.matchPath segs vals = some (r, vals') →
      ∃ ps new, (ps, r) ∈ n ∧ Matches ps segs new ∧ vals' = vals ++ new
  | n, [], vals, vals', _, h => by
    obtain ⟨r', hleaf, heq⟩ := Option.map_eq_some_iff.mp h
    obtain ⟨rfl, rfl⟩ := Prod.mk.inj heq
    obtain ⟨⟨ps, r'⟩, hfind, rfl⟩ := Option.map_eq_some_iff.mp hleaf
    obtain rfl : ps = [] := by simpa using List.find?_some hfind
    exact ⟨[], [], List.mem_of_find?_eq_some hfind, .nil, (List.append_nil _).symm⟩
  | n, seg :: segs, vals, vals', hne, h => by
    rw [List.mem_cons, not_or] at hne
    rw [matchPath, Option.or_eq_some_iff, Option.or_eq_some_iff] at h
    rcases h with h | ⟨-, h | ⟨-, h⟩⟩
    · obtain ⟨ps, new, hmem, hps, rfl⟩ := matchPath_sound hne.2 h
      exact ⟨_, new, (mem_findChild (Ne.symm hne.1)).mp hmem, .literal (Ne.symm hne.1) hps, rfl⟩
    · split_ifs at h with hslash
      obtain ⟨ps, new, hmem, hps, rfl⟩ := matchPath_sound hne.2 h
      obtain ⟨name, hmem⟩ := mem_emptyChild.mp hmem
      exact ⟨_, seg :: new, hmem, .wild hslash hps, by rw [List.append_assoc, List.singleton_append]⟩
    · obtain ⟨r', hmulti, heq⟩ := Option.map_eq_some_iff.mp h
      obtain ⟨rfl, rfl⟩ := Prod.mk.inj heq
      obtain ⟨⟨ps, r'⟩, hfind, rfl⟩ := Option.map_eq_some_iff.mp hmulti
      obtain rfl : ps = [.multi] := by simpa using List.find?_some hfind
      exact ⟨_, [], List.mem_of_find?_eq_some hfind, .multi (List.cons_ne_nil _ _),
        (List.append_nil _).symm⟩

/-- A pattern for the path is found, that one or another one. -/
theorem matchPath_isSome {ps : List Segment} (h : Matches ps segs vals') :
    ∀ {n : Node ρ} (vals : List GoString), (ps, r) ∈ n → (n.matchPath segs vals).isSome := by
  induction h with
  | nil =>
    intro n vals hmem
    rw [matchPath, Option.isSome_map, leaf, Option.isSome_map, List.find?_isSome]
    exact ⟨_, hmem, rfl⟩
  | literal hs _ ih =>
    intro n vals hmem
    rw [matchPath, Option.isSome_or, ih vals ((mem_findChild hs).mpr hmem), Bool.true_or]
  | wild hslash _ ih =>
    intro n vals hmem
    rw [matchPath, Option.isSome_or, Option.isSome_or, if_pos hslash,
      ih _ (mem_emptyChild.mpr ⟨_, hmem⟩), Bool.true_or, Bool.or_true]
  | multi hne =>
    intro n vals hmem
    obtain ⟨seg, segs, rfl⟩ := List.exists_cons_of_ne_nil hne
    have hmulti : n.multiChild.isSome := by
      rw [multiChild, Option.isSome_map, List.find?_isSome]
      exact ⟨_, hmem, decide_eq_true rfl⟩
    rw [matchPath, Option.isSome_or, Option.isSome_or, Option.isSome_map, hmulti,
      Bool.or_true, Bool.or_true]

end Node

/-! ## Paths made of segments -/

theorem pathUnescape_eq_nil_iff (seg : GoString) : pathUnescape seg = [] ↔ seg = [] := by
  unfold pathUnescape
  rcases h : Url.unescape .path seg with _ | v
  · rfl
  · exact PercentEncoding.unescape_eq_nil_iff h

theorem pathUnescape_of_writes {seg v : GoString} (h : Browser.Writes seg v) :
    pathUnescape seg = v := by
  rw [pathUnescape, h.unescape, Option.getD_some]

theorem pathSegments_of_ne_nil : ∀ {es : List GoString}, (∀ e ∈ es, e ≠ []) →
    pathSegments es = es.map pathUnescape
  | [], _ => rfl
  | [e], h => by
    rw [pathSegments, if_neg (h e List.mem_cons_self)]
    rfl
  | e :: f :: es, h => by
    have ih := pathSegments_of_ne_nil fun g hg => h g (List.mem_cons_of_mem e hg)
    show pathUnescape e :: pathSegments (f :: es) = _
    rw [ih]
    rfl

theorem length_le_countP_join : ∀ es : List GoString,
    es.length ≤ (Path.slash :: Path.join es).countP (· = Path.slash)
  | [] => Nat.zero_le _
  | [e] => by
    rw [List.countP_cons]
    exact Nat.le_add_left _ _
  | e :: f :: es => by
    have ih := length_le_countP_join (f :: es)
    rw [List.countP_cons, Path.join, List.countP_append, List.length_cons]
    simp only [decide_true, if_true]
    omega

section Elements

variable {es : List GoString} (hne : es ≠ []) (hslash : ∀ e ∈ es, Path.slash ∉ e)

include hne hslash

theorem split_path : GoString.split Path.slash ((Path.slash :: Path.join es).drop 1) = es :=
  Path.split_join hne hslash

theorem segments_join (hnil : ∀ e ∈ es, e ≠ []) :
    segments (Path.slash :: Path.join es) = es.map pathUnescape := by
  unfold segments
  rw [split_path hne hslash, pathSegments_of_ne_nil hnil]

omit hslash in
theorem getLast?_join (hlast : es.getLast hne ≠ []) :
    (Path.join es).getLast? = (es.getLast hne).getLast? := by
  induction es with
  | nil => exact absurd rfl hne
  | cons e es ih =>
    rcases es with _ | ⟨f, es⟩
    · rfl
    · have hcons : (f :: es) ≠ [] := List.cons_ne_nil _ _
      rw [List.getLast_cons hcons] at hlast ⊢
      have hjoin : Path.join (f :: es) ≠ [] := fun h => by
        have hih := ih hcons hlast
        rw [h, List.getLast?_nil, eq_comm, List.getLast?_eq_none_iff] at hih
        exact hlast hih
      rw [Path.join, List.getLast?_append_of_ne_nil _ (List.cons_ne_nil _ _),
        List.getLast?_cons_of_ne_nil hjoin, ih hcons hlast]

/-- Such a path is clean if and only if its elements are. -/
theorem cleanPath_eq_self_iff (hlast : es.getLast hne ≠ []) :
    cleanPath (Path.slash :: Path.join es) = Path.slash :: Path.join es ↔
      ∀ e ∈ es, Path.Ordinary e := by
  have hend : (Path.slash :: Path.join es).getLast? ≠ some Path.slash := by
    have hmem := hslash _ (List.getLast_mem hne)
    have hget := getLast?_join hne hlast
    rw [List.getLast?_eq_some_getLast hlast] at hget
    intro h
    have hjoin : Path.join es ≠ [] := by
      intro hnil
      rw [hnil] at hget
      cases hget
    rw [List.getLast?_cons_of_ne_nil hjoin, hget, Option.some.injEq] at h
    exact hmem (h ▸ List.getLast_mem hlast)
  have hclean : cleanPath (Path.slash :: Path.join es) =
      Path.slash :: Path.join (Path.cleanElems (Path.slash :: Path.join es)) := by
    have hhead : (Path.slash :: Path.join es).head? = some Path.slash := rfl
    unfold cleanPath Path.cleanTrailing
    rw [if_neg (List.cons_ne_nil _ _), if_pos hhead, if_neg fun h => hend h.1, Path.clean,
      if_pos hhead]
  have hmem : ∀ e ∈ Path.cleanElems (Path.slash :: Path.join es), Path.slash ∉ e ∧ e ≠ [] :=
    fun e he => Path.mem_key (List.mem_reverse.mpr he)
  rw [hclean, List.cons.injEq, eq_self, true_and]
  constructor
  · intro h
    have hes : Path.cleanElems (Path.slash :: Path.join es) = es := by
      have hsplit := congrArg (GoString.split Path.slash) h
      rwa [Path.split_join hne hslash, Path.split_join ?_ fun e he => (hmem e he).1] at hsplit
      intro hnil
      rw [hnil] at h
      have hget := getLast?_join hne hlast
      rw [← h, eq_comm] at hget
      exact hlast (List.getLast?_eq_none_iff.mp hget)
    obtain ⟨names, k, hkey, hnames⟩ := Path.normal_key (Path.slash :: Path.join es)
    have hparents : Path.parents (decide ((Path.slash :: Path.join es).head? = some Path.slash)) k = [] :=
      rfl
    rw [hparents, List.append_nil, Path.key, hes] at hkey
    exact fun e he => hnames e (hkey ▸ List.mem_reverse.mpr he)
  · intro hord
    have hnormal : Path.Normal true es.reverse :=
      ⟨es.reverse, 0, (List.append_nil _).symm, fun e he => hord e (List.mem_reverse.mp he)⟩
    have hkey := Path.key_ofElems hnormal fun e he => ⟨hslash e he, (hord e he).ne_nil⟩
    have hes : Path.cleanElems (Path.slash :: Path.join es) = es := by
      have hkey' : (Path.cleanElems (Path.slash :: Path.join es)).reverse = es.reverse := hkey
      rw [← List.reverse_reverse (Path.cleanElems _), hkey', List.reverse_reverse]
    rw [hes]

end Elements

/-! ## What a mux finds -/

namespace Routes

variable {routes : Routes ρ} {method path : GoString} {p : Pattern} {r : ρ} {vals : List GoString}

theorem mem_node {ps : List Segment} {x : Pattern × ρ} :
    (ps, x) ∈ routes.node method ↔ x ∈ routes ∧ x.1.method = method ∧ ps = x.1.segments := by
  unfold node
  rw [List.mem_filterMap]
  constructor
  · rintro ⟨y, hmem, h⟩
    split_ifs at h with hmethod
    rw [Option.some.injEq, Prod.mk.injEq] at h
    obtain ⟨rfl, rfl⟩ := h
    exact ⟨hmem, hmethod, rfl⟩
  · rintro ⟨hmem, hmethod, rfl⟩
    exact ⟨x, hmem, if_pos hmethod⟩

/-- The values of a path's wildcards are determined. -/
theorem matches_unique {ps : List Segment} {segs vals vals' : List GoString}
    (h : Matches ps segs vals) (h' : Matches ps segs vals') : vals = vals' := by
  induction h generalizing vals' with
  | nil =>
    cases h'
    rfl
  | literal _ _ ih =>
    cases h' with
    | literal _ h' => exact ih h'
  | wild _ _ ih =>
    cases h' with
    | wild _ h' => rw [ih h']
  | multi _ =>
    cases h'
    rfl

/-- What is found is a route for the method and the path. -/
theorem find_sound (hne : [] ∉ segments path) (h : routes.find method path = some ((p, r), vals)) :
    (p, r) ∈ routes ∧ (p.method = method ∨ method = "HEAD" ∧ p.method = "GET" ∨ p.method = []) ∧
      Matches p.segments (segments path) vals := by
  have hnode : ∀ {m : GoString}, (routes.node m).matchPath (segments path) [] = some ((p, r), vals) →
      (p, r) ∈ routes ∧ p.method = m ∧ Matches p.segments (segments path) vals := by
    intro m hm
    obtain ⟨ps, new, hx, hps, rfl⟩ := Node.matchPath_sound hne hm
    obtain ⟨hmem, hmethod, rfl⟩ := mem_node.mp hx
    exact ⟨hmem, hmethod, hps⟩
  rw [find, Option.or_eq_some_iff, Option.or_eq_some_iff] at h
  rcases h with h | ⟨-, h | ⟨-, h⟩⟩
  · obtain ⟨hmem, hmethod, hps⟩ := hnode h
    exact ⟨hmem, .inl hmethod, hps⟩
  · split_ifs at h with hhead
    obtain ⟨hmem, hmethod, hps⟩ := hnode h
    exact ⟨hmem, .inr (.inl ⟨hhead, hmethod⟩), hps⟩
  · obtain ⟨hmem, hmethod, hps⟩ := hnode h
    exact ⟨hmem, .inr (.inr hmethod), hps⟩

/-- The only route of the method for the path is found. -/
theorem find_of_unique (hne : [] ∉ segments path) (hmem : (p, r) ∈ routes) (hmethod : p.method = method)
    (hmatch : Matches p.segments (segments path) vals)
    (hunique : ∀ q s, (q, s) ∈ routes → q.method = method →
      (∃ vals', Matches q.segments (segments path) vals') → (q, s) = (p, r)) :
    routes.find method path = some ((p, r), vals) := by
  obtain ⟨⟨x, vals'⟩, hfind⟩ := Option.isSome_iff_exists.mp
    (Node.matchPath_isSome hmatch [] (mem_node.mpr ⟨hmem, hmethod, rfl⟩))
  obtain ⟨ps, new, hx, hps, hvals⟩ := Node.matchPath_sound hne hfind
  obtain ⟨hmem', hmethod', rfl⟩ := mem_node.mp hx
  obtain rfl : x = (p, r) := hunique x.1 x.2 hmem' hmethod' ⟨new, hps⟩
  obtain rfl : vals' = vals := hvals.trans (matches_unique hps hmatch)
  rw [find, hfind, Option.some_or]

/-- A pattern without a slash at the end is matched in full. -/
theorem addsSlash_of_find (hfind : routes.find method path = some ((p, r), vals))
    (hmulti : p.segments.getLast? ≠ some .multi) : routes.addsSlash method path = false := by
  simp only [addsSlash, hfind, exactMatch, hmulti, ne_eq, not_false_eq_true, if_true, Bool.not_true,
    Bool.false_and]

/-- A subtree is found behind its slash already where the path has gone below it. -/
theorem addsSlash_of_subtree (hfind : routes.find method (path ++ [Path.slash]) = some ((p, r), vals))
    (hmulti : p.segments.getLast? = some .multi)
    (hlen : p.segments.length ≤ path.countP (· = Path.slash)) :
    routes.addsSlash method path = false := by
  have hcount : (path ++ [Path.slash]).countP (· = Path.slash) = path.countP (· = Path.slash) + 1 := by
    rw [List.countP_append]
    rfl
  have hexact : exactMatch p (path ++ [Path.slash]) = false := by
    unfold exactMatch
    rw [if_neg (not_not.mpr hmulti), if_neg fun h => h.2 List.getLast?_concat, hcount]
    exact decide_eq_false (by omega)
  simp only [addsSlash, hfind, hexact, Bool.and_false]

variable {u : RequestURL}

/-- A request for a clean path goes to the route of the path. -/
theorem serve_of_find (hstar : u.path ≠ "*") (hclean : cleanPath u.escapedPath = u.escapedPath)
    (hslash : routes.addsSlash method u.escapedPath = false)
    (hfind : routes.find method u.escapedPath = some ((p, r), vals)) :
    routes.serve method u = .handler r (p.names.zip vals) := by
  simp only [serve, hclean, ite_self, if_neg hstar, hslash, Bool.false_eq_true, if_false, ne_eq,
    not_true_eq_false, hfind]

/-- A handler gets no request but one for its pattern, by a clean path. -/
theorem exists_of_serve {values : List (GoString × GoString)}
    (h : routes.serve method u = .handler r values) :
    (method ≠ "CONNECT" → cleanPath u.escapedPath = u.escapedPath) ∧
      ∃ p vals, routes.find method u.escapedPath = some ((p, r), vals) ∧
        values = p.names.zip vals := by
  unfold serve at h
  generalize hpath : (if method = "CONNECT" then u.escapedPath else cleanPath u.escapedPath) = path at h
  rcases hfind : routes.find method path with _ | ⟨⟨q, s⟩, vals⟩
  · simp only [hfind] at h
    split_ifs at h
  · simp only [hfind] at h
    split_ifs at h with _ _ hsame
    obtain rfl : path = u.escapedPath := not_not.mp hsame
    rw [Found.handler.injEq] at h
    obtain ⟨rfl, rfl⟩ := h
    refine ⟨fun hconnect => ?_, q, vals, hfind, rfl⟩
    rwa [if_neg hconnect] at hpath

end Routes

/-- An absolute path is no request for `*`. -/
theorem path_ne_star {u : RequestURL} (h : u.escapedPath.head? = some '/'.toUInt8) :
    u.path ≠ "*" := by
  intro hstar
  unfold RequestURL.escapedPath at h
  split_ifs at h with hraw
  · obtain ⟨t, ht⟩ := List.head?_eq_some_iff.mp h
    have hunescape := hraw.2.2
    rw [ht, PercentEncoding.unescape_path_cons (by decide), hstar] at hunescape
    obtain ⟨t', -, heq⟩ := Option.map_eq_some_iff.mp hunescape
    exact absurd (congrArg List.head? heq) Url.slash_ne_star
  · exact Url.slash_ne_star h.symm

end ServeMux
