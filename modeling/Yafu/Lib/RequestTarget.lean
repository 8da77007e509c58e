import Yafu.Lib.PathElements
import Yafu.Lib.PercentEncoding

/-!
# Request targets

What a browser asks for when a page names a path of its own origin (the path state and the query
state of the URL standard), and the `url.URL` that a Go server makes of that. A segment is written by
escaping its value; a segment that is written as a dot or two is resolved by the browser.
-/

/-- `url.URL` of a request. -/
structure RequestURL extends URL where
  rawPath : GoString := []
deriving DecidableEq, Repr

/-! ## The browser -/

namespace Browser

open PercentEncoding

/-- The single-dot segments. -/
def singleDots : List GoString := [".", "%2e", "%2E"]

/-- The double-dot segments. -/
def doubleDots : List GoString :=
  ["..", ".%2e", ".%2E", "%2e.", "%2E.", "%2e%2e", "%2e%2E", "%2E%2e", "%2E%2E"]

/-- The segments of the path so far, the last one first, and those that are to come. -/
def resolve : List GoString → List GoString → List GoString
  | acc, [] => acc.reverse
  | acc, seg :: rest =>
    if doubleDots.contains seg then resolve (if rest = [] then [] :: acc.tail else acc.tail) rest
    else if singleDots.contains seg then resolve (if rest = [] then [] :: acc else acc) rest
    else resolve (seg :: acc) rest

/-- The bytes outside the path percent-encode set. -/
def pathKeeps (b : UInt8) : Bool := 0x20 < b && b < 0x7F && !("\"#<>?^`\x7b\x7d" : GoString).contains b

/-- The bytes outside the special-query percent-encode set. -/
def queryKeeps (b : UInt8) : Bool := 0x20 < b && b < 0x7F && !("\"#<>'" : GoString).contains b

/-- The path that is asked for. -/
def requestPath (path : GoString) : GoString :=
  Path.slash :: Path.join (resolve [] ((GoString.split Path.slash (path.drop 1)).map (encode pathKeeps)))

/-- The target of a request for a reference that begins with one slash and has no backslash, no
fragment, no tab and no line break. -/
def requestTarget (ref : GoString) : GoString :=
  match GoString.cut '?'.toUInt8 ref with
  | none => requestPath ref
  | some (path, query) => requestPath path ++ '?'.toUInt8 :: encode queryKeeps query

end Browser

/-! ## The server -/

namespace Url

open PercentEncoding (encode)

/-- The bytes that `shouldEscape` leaves alone in a path. -/
def pathSafe (b : UInt8) : Bool :=
  isLetter b || isDigit b || ("-_.~$&+,/:;=@" : GoString).contains b

/-- `escape` for a path. -/
def escapePath (s : GoString) : GoString := encode pathSafe s

/-- `validEncoded` for a path. -/
def validEncodedPath (s : GoString) : Bool :=
  s.all fun b => ("!$&'()*+,;=:@[]%" : GoString).contains b || pathSafe b

/-- `setPath`. -/
def setPath (u : URL) (p : GoString) : Option RequestURL :=
  (unescape .path p).map fun path =>
    { u with path, rawPath := if p = escapePath path then [] else p }

/-- `ParseRequestURI`. -/
def parseRequestURI (raw : GoString) : Option RequestURL :=
  if raw = [] ∨ ∃ b ∈ raw, IsControl b then none
  else if raw = "*" then some { path := "*" }
  else do
    let (scheme, rest) ← getScheme raw
    let scheme := GoString.asciiLower scheme
    let (rest, rawQuery) := (GoString.cut '?'.toUInt8 rest).getD (rest, [])
    if rest.head? ≠ some '/'.toUInt8 then
      if scheme ≠ [] then some { scheme, rawQuery } else none
    else if scheme ≠ [] ∧ (rest.cutPrefix "//").isSome then do
      let host ← parseAuthority ((rest.drop 2).takeWhile (· ≠ '/'.toUInt8))
      setPath { scheme, host, rawQuery } ((rest.drop 2).dropWhile (· ≠ '/'.toUInt8))
    else setPath { scheme, rawQuery } rest

end Url

/-- `EscapedPath`. -/
def RequestURL.escapedPath (u : RequestURL) : GoString :=
  if u.rawPath ≠ [] ∧ Url.validEncodedPath u.rawPath = true ∧
      Url.unescape .path u.rawPath = some u.path then u.rawPath
  else if u.path = "*" then "*"
  else Url.escapePath u.path

/-! ## Parsing a target -/

namespace Url

open PercentEncoding (unescape_path_cons)

theorem slash_ne_star : some '/'.toUInt8 ≠ ("*" : GoString).head? := by decide

/-- A target that is a path and a query. -/
theorem parseRequestURI_of_slash {path : GoString} (query : Option GoString)
    (hhead : path.head? = some '/'.toUInt8) (hmark : '?'.toUInt8 ∉ path)
    (hcontrol : ∀ b ∈ path ++ (query.map ('?'.toUInt8 :: ·)).getD [], ¬ IsControl b) :
    parseRequestURI (path ++ (query.map ('?'.toUInt8 :: ·)).getD []) =
      setPath { rawQuery := query.getD [] } path := by
  obtain ⟨t, rfl⟩ := List.head?_eq_some_iff.mp hhead
  have hnot : ¬ (('/'.toUInt8 :: t) ++ (query.map ('?'.toUInt8 :: ·)).getD [] = [] ∨
      ∃ b ∈ ('/'.toUInt8 :: t) ++ (query.map ('?'.toUInt8 :: ·)).getD [], IsControl b) := by
    rintro (h | ⟨b, hb, hc⟩)
    · cases h
    · exact hcontrol b hb hc
  have hstar : ('/'.toUInt8 :: t) ++ (query.map ('?'.toUInt8 :: ·)).getD [] ≠ ("*" : GoString) :=
    fun h => absurd (congrArg List.head? h) slash_ne_star
  have hscheme : getScheme (('/'.toUInt8 :: t) ++ (query.map ('?'.toUInt8 :: ·)).getD []) =
      some ([], ('/'.toUInt8 :: t) ++ (query.map ('?'.toUInt8 :: ·)).getD []) := rfl
  have hcut : (GoString.cut '?'.toUInt8
      (('/'.toUInt8 :: t) ++ (query.map ('?'.toUInt8 :: ·)).getD [])).getD
        (('/'.toUInt8 :: t) ++ (query.map ('?'.toUInt8 :: ·)).getD [], []) =
      ('/'.toUInt8 :: t, query.getD []) := by
    cases query with
    | none =>
      show (GoString.cut '?'.toUInt8 (('/'.toUInt8 :: t) ++ [])).getD _ = _
      rw [List.append_nil, GoString.cut_eq_none hmark]
      simp
    | some q =>
      show (GoString.cut '?'.toUInt8 (('/'.toUInt8 :: t) ++ '?'.toUInt8 :: q)).getD _ = _
      rw [GoString.cut_append hmark]
      rfl
  have hlower : GoString.asciiLower [] = [] := rfl
  unfold parseRequestURI
  rw [if_neg hnot, if_neg hstar]
  simp only [hscheme, Option.bind_eq_bind, Option.bind_some, hcut, hlower, List.head?_cons, ne_eq,
    not_true_eq_false, if_false, false_and]

/-- A path that is written properly stays as it is written. -/
theorem escapedPath_of_setPath {u : URL} {path : GoString} {v : RequestURL}
    (h : setPath u path = some v) (hhead : path.head? = some '/'.toUInt8)
    (hvalid : validEncodedPath path = true) : v.escapedPath = path := by
  obtain ⟨t, rfl⟩ := List.head?_eq_some_iff.mp hhead
  obtain ⟨decoded, hunescape, rfl⟩ := Option.map_eq_some_iff.mp h
  have hstar : decoded ≠ "*" := by
    rw [unescape_path_cons (by decide)] at hunescape
    obtain ⟨t', -, rfl⟩ := Option.map_eq_some_iff.mp hunescape
    exact fun h => absurd (congrArg List.head? h) slash_ne_star
  unfold RequestURL.escapedPath
  by_cases hdefault : '/'.toUInt8 :: t = escapePath decoded
  · rw [if_neg fun h => h.1 (if_pos hdefault), if_neg hstar]
    exact hdefault.symm
  · simp only [if_neg hdefault]
    rw [if_pos ⟨List.cons_ne_nil _ _, hvalid, hunescape⟩]

end Url

/-! ## Segments -/

namespace Browser

open PercentEncoding

/-- How a value is written as a segment of a path. -/
structure Writes (seg value : GoString) : Prop where
  kept : ∀ b ∈ seg, unreserved b = true ∨ b = '%'.toUInt8
  unescape : Url.unescape .path seg = some value
  single : seg ∈ singleDots ↔ value = "."
  double : seg ∈ doubleDots ↔ value = ".."

theorem unescape_singleDots : ∀ seg ∈ singleDots, Url.unescape .path seg = some "." := by
  decide +kernel

theorem unescape_doubleDots : ∀ seg ∈ doubleDots, Url.unescape .path seg = some ".." := by
  decide +kernel

theorem unescape_encodeURIComponent (s : GoString) :
    Url.unescape .path (encodeURIComponent s) = some s := by
  have hhost : Url.Encoding.path ≠ .host := nofun
  have hzone : Url.Encoding.path ≠ .zone := nofun
  show Url.unescape .path (encode unreserved s) = some s
  exact unescape_encode hhost hzone (by decide) (by decide) s

theorem writes_encodeURIComponent (s : GoString) : Writes (encodeURIComponent s) s where
  kept b hb := by
    obtain ⟨c, -, hb⟩ := List.mem_flatMap.mp hb
    have hlt := c.toNat_lt
    have hdigit : ∀ n < 16, unreserved (upperHexDigit n) = true := by decide +kernel
    split_ifs at hb with hkept
    · exact .inl (List.mem_singleton.mp hb ▸ hkept)
    · simp only [escapeByte, List.mem_cons, List.not_mem_nil, or_false] at hb
      rcases hb with rfl | rfl | rfl
      · exact .inr rfl
      · exact .inl (hdigit _ (by omega))
      · exact .inl (hdigit _ (by omega))
  unescape := unescape_encodeURIComponent s
  single := by
    constructor
    · intro h
      have heq := (unescape_encodeURIComponent s).symm.trans (unescape_singleDots _ h)
      exact Option.some.inj heq
    · rintro rfl
      decide +kernel
  double := by
    constructor
    · intro h
      have heq := (unescape_encodeURIComponent s).symm.trans (unescape_doubleDots _ h)
      exact Option.some.inj heq
    · rintro rfl
      decide +kernel

/-- A word that is kept as it is stands for itself. -/
theorem writes_literal {s : GoString} (h : ∀ b ∈ s, unreserved b = true) : Writes s s := by
  have hsame : encodeURIComponent s = s := by
    unfold encodeURIComponent encode
    rw [List.flatMap_congr fun b hb => if_pos (h b hb), List.flatMap_singleton']
  have hwrites := writes_encodeURIComponent s
  rwa [hsame] at hwrites

variable {seg value : GoString}

theorem Writes.slash_notMem (h : Writes seg value) : Path.slash ∉ seg := by
  intro hmem
  rcases h.kept _ hmem with h | h
  · exact absurd h (by decide)
  · exact absurd h (by decide)

theorem Writes.eq_nil_iff (h : Writes seg value) : seg = [] ↔ value = [] :=
  (unescape_eq_nil_iff h.unescape).symm

/-! ## Dot segments -/

/-- A segment that others follow. -/
def collapse (acc : List GoString) (seg : GoString) : List GoString :=
  if doubleDots.contains seg then acc.tail else if singleDots.contains seg then acc else seg :: acc

/-- The segment is no dot segment. -/
def Undotted (seg : GoString) : Prop := seg ∉ singleDots ∧ seg ∉ doubleDots

instance (seg : GoString) : Decidable (Undotted seg) := inferInstanceAs (Decidable (_ ∧ _))

/-- What is no dot segment names something. -/
theorem ordinary_of_undotted {seg : GoString} (h : Undotted seg) (hne : seg ≠ []) :
    Path.Ordinary seg where
  ne_nil := hne
  ne_dot := fun heq => h.1 (heq ▸ by decide)
  ne_dots := fun heq => h.2 (heq ▸ by decide)

theorem resolve_undotted : ∀ {segs : List GoString} (acc : List GoString),
    (∀ seg ∈ segs, Undotted seg) → resolve acc segs = acc.reverse ++ segs
  | [], acc, _ => (List.append_nil _).symm
  | seg :: segs, acc, h => by
    obtain ⟨hseg, hsegs⟩ := List.forall_mem_cons.mp h
    rw [resolve, if_neg (by simpa using hseg.2), if_neg (by simpa using hseg.1),
      resolve_undotted _ hsegs, List.reverse_cons, List.append_assoc, List.singleton_append]

/-- In front of segments that are no dots, all dots are ones that others follow. -/
theorem resolve_append {tail : List GoString} (hne : tail ≠ []) (htail : ∀ seg ∈ tail, Undotted seg) :
    ∀ (acc segs : List GoString), resolve acc (segs ++ tail) = (segs.foldl collapse acc).reverse ++ tail
  | acc, [] => resolve_undotted acc htail
  | acc, seg :: segs => by
    have hrest : segs ++ tail ≠ [] := List.append_ne_nil_of_right_ne_nil _ hne
    rw [List.cons_append, resolve, if_neg hrest, if_neg hrest, List.foldl_cons, collapse]
    split_ifs
    · exact resolve_append hne htail _ segs
    · exact resolve_append hne htail _ segs
    · exact resolve_append hne htail _ segs

theorem length_collapse_le (acc : List GoString) (seg : GoString) :
    (collapse acc seg).length ≤ acc.length + 1 := by
  unfold collapse
  split_ifs
  · rw [List.length_tail]
    omega
  · exact Nat.le_succ _
  · exact Nat.le_refl _

theorem length_foldl_collapse_le : ∀ (acc segs : List GoString),
    (segs.foldl collapse acc).length ≤ acc.length + segs.length
  | _, [] => Nat.le_refl _
  | acc, seg :: segs => by
    have hstep := length_collapse_le acc seg
    have hrest := length_foldl_collapse_le (collapse acc seg) segs
    rw [List.foldl_cons, List.length_cons]
    omega

/-- Where there is a dot segment, segments go missing. -/
theorem length_foldl_collapse_lt : ∀ (acc : List GoString) {segs : List GoString},
    (∃ seg ∈ segs, ¬ Undotted seg) → (segs.foldl collapse acc).length < acc.length + segs.length
  | acc, [], ⟨_, h, _⟩ => absurd h List.not_mem_nil
  | acc, seg :: segs, ⟨dot, hmem, hdot⟩ => by
    rw [List.foldl_cons, List.length_cons]
    by_cases hseg : Undotted seg
    · have hlt := length_foldl_collapse_lt (collapse acc seg)
        ⟨dot, (List.mem_cons.mp hmem).resolve_left fun h => hdot (h ▸ hseg), hdot⟩
      have hstep := length_collapse_le acc seg
      omega
    · have hstep : (collapse acc seg).length ≤ acc.length := by
        unfold collapse
        split_ifs with hdouble hsingle
        · rw [List.length_tail]
          omega
        · exact Nat.le_refl _
        · exact absurd ⟨by simpa using hsingle, by simpa using hdouble⟩ hseg
      have hrest := length_foldl_collapse_le (collapse acc seg) segs
      omega

theorem mem_foldl_collapse {e : GoString} : ∀ {acc segs : List GoString},
    e ∈ segs.foldl collapse acc → e ∈ acc ∨ e ∈ segs
  | _, [], h => .inl h
  | acc, seg :: segs, h => by
    rw [List.foldl_cons] at h
    rcases mem_foldl_collapse h with h | h
    · unfold collapse at h
      split_ifs at h
      · exact .inl (List.mem_of_mem_tail h)
      · exact .inl h
      · rcases List.mem_cons.mp h with rfl | h
        · exact .inr List.mem_cons_self
        · exact .inl h
    · exact .inr (List.mem_cons_of_mem _ h)

/-! ## From a reference to a URL -/

theorem encode_eq_self {keep : UInt8 → Bool} {s : GoString} (h : ∀ b ∈ s, keep b = true) :
    encode keep s = s := by
  unfold encode
  rw [List.flatMap_congr fun b hb => if_pos (h b hb), List.flatMap_singleton']

/-- A byte that means nothing in a path, to a browser and to a server. -/
structure PlainByte (b : UInt8) : Prop where
  kept : pathKeeps b = true
  mark : b ≠ '?'.toUInt8
  control : ¬ Url.IsControl b
  valid : (("!$&'()*+,;=:@[]%" : GoString).contains b || Url.pathSafe b) = true

theorem plainByte_slash : PlainByte Path.slash where
  kept := by decide
  mark := by decide
  control := by decide
  valid := by decide

theorem plainByte_of_unreserved {b : UInt8} (h : unreserved b = true ∨ b = '%'.toUInt8) :
    PlainByte b := by
  revert h
  refine GoString.forall_byte
    (p := fun b => unreserved b = true ∨ b = '%'.toUInt8 → PlainByte b) (fun n hn h => ?_) b
  have hall : ∀ n < 256, unreserved (UInt8.ofNat n) = true ∨ UInt8.ofNat n = '%'.toUInt8 →
      pathKeeps (UInt8.ofNat n) = true ∧ UInt8.ofNat n ≠ '?'.toUInt8 ∧
        ¬ Url.IsControl (UInt8.ofNat n) ∧
        (("!$&'()*+,;=:@[]%" : GoString).contains (UInt8.ofNat n) ||
          Url.pathSafe (UInt8.ofNat n)) = true := by
    decide +kernel
  obtain ⟨hkept, hmark, hcontrol, hvalid⟩ := hall n hn h
  exact ⟨hkept, hmark, hcontrol, hvalid⟩

theorem mem_resolve {e : GoString} : ∀ {acc segs : List GoString}, e ∈ resolve acc segs →
    e ∈ acc ∨ e ∈ segs ∨ e = []
  | acc, [], h => .inl (List.mem_reverse.mp h)
  | acc, seg :: segs, h => by
    have hnil : ∀ {l : List GoString}, e ∈ (if segs = [] then [] :: l else l) → e ∈ l ∨ e = [] := by
      intro l hl
      split_ifs at hl
      · exact (List.mem_cons.mp hl).symm
      · exact .inl hl
    have hcases : ∀ {acc' : List GoString}, (e ∈ acc' → e ∈ acc ∨ e = seg ∨ e = []) →
        e ∈ resolve acc' segs → e ∈ acc ∨ e ∈ seg :: segs ∨ e = [] := by
      intro acc' hacc h
      rcases mem_resolve h with h | h | h
      · rcases hacc h with h | rfl | h
        · exact .inl h
        · exact .inr (.inl List.mem_cons_self)
        · exact .inr (.inr h)
      · exact .inr (.inl (List.mem_cons_of_mem _ h))
      · exact .inr (.inr h)
    rw [resolve] at h
    split at h
    · exact hcases (fun h => (hnil h).imp List.mem_of_mem_tail .inr) h
    · split at h
      · exact hcases (fun h => (hnil h).imp_right .inr) h
      · exact hcases (fun h => (List.mem_cons.mp h).symm.imp_right .inl) h

/-- The path with these segments, and a query. -/
def reference (segs : List GoString) (query : Option GoString) : GoString :=
  Path.slash :: Path.join segs ++ (query.map ('?'.toUInt8 :: ·)).getD []

/-- The bytes of all segments are plain. -/
theorem plainByte_of_mem_join {segs : List GoString} (h : ∀ seg ∈ segs, seg = [] ∨ ∃ v, Writes seg v)
    {b : UInt8} (hb : b ∈ Path.slash :: Path.join segs) : PlainByte b := by
  rcases List.mem_cons.mp hb with rfl | hb
  · exact plainByte_slash
  rcases Path.mem_join hb with rfl | ⟨seg, hseg, hb⟩
  · exact plainByte_slash
  · rcases h seg hseg with rfl | ⟨v, hv⟩
    · exact absurd hb List.not_mem_nil
    · exact plainByte_of_unreserved (hv.kept b hb)

theorem unescape_join : ∀ {segs : List GoString}, (∀ seg ∈ segs, seg = [] ∨ ∃ v, Writes seg v) →
    ∃ path, Url.unescape .path (Path.join segs) = some path := by
  have hone : ∀ {seg : GoString}, (seg = [] ∨ ∃ v, Writes seg v) →
      ∃ path, Url.unescape .path seg = some path := by
    rintro seg (rfl | ⟨v, hv⟩)
    · exact ⟨[], rfl⟩
    · exact ⟨v, hv.unescape⟩
  intro segs h
  induction segs with
  | nil => exact ⟨[], rfl⟩
  | cons seg segs ih =>
    obtain ⟨hseg, hsegs⟩ := List.forall_mem_cons.mp h
    obtain ⟨v, hv⟩ := hone hseg
    obtain ⟨path, hpath⟩ := ih hsegs
    rcases segs with _ | ⟨next, segs⟩
    · exact ⟨v, hv⟩
    · refine ⟨v ++ Path.slash :: path, ?_⟩
      rw [Path.join, unescape_path_append hv, unescape_path_cons (by decide), hpath]
      rfl

theorem not_isControl_encode {q : GoString} {b : UInt8} (hb : b ∈ encode queryKeeps q) :
    ¬ Url.IsControl b := by
  have hkeeps : ∀ {b : UInt8}, queryKeeps b = true → ¬ Url.IsControl b := by
    intro b
    refine GoString.forall_byte (p := fun b => queryKeeps b = true → ¬ Url.IsControl b) ?_ b
    decide +kernel
  have hdigit : ∀ n < 16, queryKeeps (upperHexDigit n) = true := by decide +kernel
  obtain ⟨c, -, hb⟩ := List.mem_flatMap.mp hb
  have hlt := c.toNat_lt
  split_ifs at hb with hkept
  · exact hkeeps (List.mem_singleton.mp hb ▸ hkept)
  · simp only [escapeByte, List.mem_cons, List.not_mem_nil, or_false] at hb
    rcases hb with rfl | rfl | rfl
    · decide
    · exact hkeeps (hdigit _ (by omega))
    · exact hkeeps (hdigit _ (by omega))

/-- The browser asks for the path with its dot segments resolved. -/
theorem requestTarget_reference {segs : List GoString} (hne : segs ≠ [])
    (h : ∀ seg ∈ segs, ∃ v, Writes seg v) (query : Option GoString) :
    requestTarget (reference segs query) =
      reference (resolve [] segs) (query.map (encode queryKeeps)) := by
  have hplain : ∀ b ∈ Path.slash :: Path.join segs, PlainByte b :=
    fun b hb => plainByte_of_mem_join (fun seg hseg => .inr (h seg hseg)) hb
  have hmark : '?'.toUInt8 ∉ Path.slash :: Path.join segs := fun hb => (hplain _ hb).mark rfl
  have hpath : requestPath (Path.slash :: Path.join segs) =
      Path.slash :: Path.join (resolve [] segs) := by
    have hkept : segs.map (encode pathKeeps) = segs := by
      conv_rhs => rw [← List.map_id segs]
      refine List.map_congr_left fun seg hseg => encode_eq_self fun b hb => ?_
      exact (plainByte_of_unreserved ((h seg hseg).choose_spec.kept b hb)).kept
    have hsplit : GoString.split Path.slash (Path.join segs) = segs :=
      Path.split_join hne fun seg hseg => (h seg hseg).choose_spec.slash_notMem
    show Path.slash :: Path.join (resolve [] ((GoString.split Path.slash (Path.join segs)).map _)) = _
    rw [hsplit, hkept]
  unfold requestTarget
  cases query with
  | none =>
    rw [reference, Option.map_none, Option.getD_none, List.append_nil, GoString.cut_eq_none hmark]
    simp only [hpath]
    exact (List.append_nil _).symm
  | some q =>
    rw [reference, Option.map_some, Option.getD_some, GoString.cut_append hmark]
    simp only [hpath]
    rfl

/-- **A reference on its way.** The server is asked for the path with its dot segments resolved, as
it is written, and for the query. -/
theorem parse_requestTarget {segs : List GoString} (hne : segs ≠ [])
    (h : ∀ seg ∈ segs, ∃ v, Writes seg v) (query : Option GoString) :
    ∃ u, Url.parseRequestURI (requestTarget (reference segs query)) = some u ∧
      u.escapedPath = Path.slash :: Path.join (resolve [] segs) ∧
      u.rawQuery = (query.map (encode queryKeeps)).getD [] := by
  have hsegs : ∀ seg ∈ resolve [] segs, seg = [] ∨ ∃ v, Writes seg v := by
    intro seg hseg
    rcases mem_resolve hseg with hseg | hseg | hseg
    · exact absurd hseg List.not_mem_nil
    · exact .inr (h seg hseg)
    · exact .inl hseg
  have hplain := fun b => plainByte_of_mem_join hsegs (b := b)
  obtain ⟨path, hpath⟩ := unescape_join hsegs
  have hset : ∃ u, Url.setPath { rawQuery := (query.map (encode queryKeeps)).getD [] }
      (Path.slash :: Path.join (resolve [] segs)) = some u ∧
        u.rawQuery = (query.map (encode queryKeeps)).getD [] := by
    unfold Url.setPath
    rw [unescape_path_cons (by decide), hpath]
    exact ⟨_, rfl, rfl⟩
  obtain ⟨u, hu, hquery⟩ := hset
  have hcontrol : ∀ b ∈ reference (resolve [] segs) (query.map (encode queryKeeps)),
      ¬ Url.IsControl b := by
    intro b hb
    rcases List.mem_append.mp hb with hb | hb
    · exact (hplain b hb).control
    · cases query with
      | none => exact absurd hb List.not_mem_nil
      | some q =>
        rcases List.mem_cons.mp hb with rfl | hb
        · decide
        · exact not_isControl_encode hb
  refine ⟨u, ?_, Url.escapedPath_of_setPath hu rfl ?_, hquery⟩
  · rw [requestTarget_reference hne h]
    exact (Url.parseRequestURI_of_slash _ rfl (fun hb => (hplain _ hb).mark rfl) hcontrol).trans hu
  · exact List.all_eq_true.mpr fun b hb => (hplain b hb).valid

/-- One parameter that `encodeURIComponent` writes. -/
theorem parseQuery_parameter (name value : GoString) :
    Url.parseQuery (encode queryKeeps (encodeURIComponent name ++ '='.toUInt8 :: encodeURIComponent value)) =
      [(name, value)] := by
  have htwice : ∀ s, encode queryKeeps (encodeURIComponent s) =
      encode (fun b => unreserved b && queryKeeps b) s :=
    encode_encode (by decide) (by decide +kernel)
  have happend : encode queryKeeps (encodeURIComponent name ++ '='.toUInt8 :: encodeURIComponent value) =
      encode queryKeeps (encodeURIComponent name) ++
        '='.toUInt8 :: encode queryKeeps (encodeURIComponent value) :=
    List.flatMap_append
  rw [happend, htwice, htwice]
  have hhost : Url.Encoding.queryComponent ≠ .host := nofun
  have hzone : Url.Encoding.queryComponent ≠ .zone := nofun
  have hnot : ∀ {b : UInt8}, (unreserved b && queryKeeps b) = false → b ≠ '%'.toUInt8 →
      formSafe b = false → ∀ s, b ∉ encode (fun b => unreserved b && queryKeeps b) s :=
    fun hkeep hpercent hsafe s => notMem_encode hkeep hpercent hsafe s
  have hplain : ∀ {b : UInt8}, (unreserved b && queryKeeps b) = false → b ≠ '%'.toUInt8 →
      formSafe b = false → b ∉ encode (fun b => unreserved b && queryKeeps b) name ++
        encode (fun b => unreserved b && queryKeeps b) value := by
    intro b hkeep hpercent hsafe hmem
    rcases List.mem_append.mp hmem with h | h
    · exact hnot hkeep hpercent hsafe name h
    · exact hnot hkeep hpercent hsafe value h
  have hpairs := @parseQuery_pairs [(name, value)]
    (fun p => encode (fun b => unreserved b && queryKeeps b) p.1)
    (fun p => encode (fun b => unreserved b && queryKeeps b) p.2)
  rw [List.map_singleton, GoString.joinLines, List.intercalate_singleton] at hpairs
  refine hpairs fun p hp => ?_
  obtain rfl := List.mem_singleton.mp hp
  exact
    { readName := unescape_encode hhost hzone (by decide) (by decide) name
      readValue := unescape_encode hhost hzone (by decide) (by decide) value
      equals := hnot (by decide) (by decide) (by decide) name
      plain := ⟨hplain (by decide) (by decide) (by decide), hplain (by decide) (by decide) (by decide)⟩ }

end Browser
