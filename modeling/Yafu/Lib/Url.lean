import Yafu.Lib.GoString

/-!
# URLs

`net/url`: `Parse` and `ParseQuery`. A `URL` has the parts that its users look at; of the fragment
and the user information it matters whether they are well formed. Whether what stands in the
brackets of a host is an IPv6 address is not checked: an error and a host lead to the same refusal
everywhere.
-/

/-- `url.URL`. -/
structure URL where
  scheme : GoString := []
  host : GoString := []
  path : GoString := []
  rawQuery : GoString := []
deriving DecidableEq, Repr

namespace Url

open GoString (unhex before)

/-- The part of a URL that an escape stands in. -/
inductive Encoding
  | path
  | host
  | zone
  | userPassword
  | queryComponent
  | fragment
deriving DecidableEq, Repr

def isLetter (b : UInt8) : Bool :=
  ('a'.toUInt8 ≤ b && b ≤ 'z'.toUInt8) || ('A'.toUInt8 ≤ b && b ≤ 'Z'.toUInt8)

def isDigit (b : UInt8) : Bool := '0'.toUInt8 ≤ b && b ≤ '9'.toUInt8

/-- `shouldEscape` for a host or a zone. -/
def shouldEscapeHost (b : UInt8) : Bool :=
  !(isLetter b || isDigit b || ("!$&'()*+,;=:[]<>\"-_.~" : GoString).contains b)

/-- The byte of the escape `%hl`, if it may stand in that part. -/
def unescapeByte (mode : Encoding) (h l : UInt8) : Option UInt8 :=
  match unhex h, unhex l with
  | some x, some y =>
    let v := UInt8.ofNat (x * 16 + y)
    let percent := h = '2'.toUInt8 ∧ l = '5'.toUInt8
    if mode = .host ∧ x < 8 ∧ ¬ percent then none
    else if mode = .zone ∧ ¬ percent ∧ v ≠ ' '.toUInt8 ∧ shouldEscapeHost v = true then none
    else some v
  | _, _ => none

/-- `unescape`, `none` for an `EscapeError` or an `InvalidHostError`. -/
def unescape (mode : Encoding) : GoString → Option GoString
  | [] => some []
  | b :: s =>
    if b = '%'.toUInt8 then
      match s with
      | h :: l :: s => do
        let v ← unescapeByte mode h l
        let s ← unescape mode s
        some (v :: s)
      | _ => none
    else if b = '+'.toUInt8 ∧ mode = .queryComponent then (unescape mode s).map (' '.toUInt8 :: ·)
    else if (mode = .host ∨ mode = .zone) ∧ b < 0x80 ∧ shouldEscapeHost b = true then none
    else (unescape mode s).map (b :: ·)

/-! ## Authorities -/

/-- `strings.LastIndex` of one byte: what is before it and what is behind it. -/
def cutLast (sep : UInt8) (s : GoString) : Option (GoString × GoString) :=
  (GoString.cut sep s.reverse).map fun p => (p.2.reverse, p.1.reverse)

/-- `strings.Index`: what is before `sep`, and the rest with `sep` at its start. -/
def breakAt (sep : GoString) : GoString → Option (GoString × GoString)
  | [] => none
  | b :: s =>
    if (GoString.cutPrefix (b :: s) sep).isSome then some ([], b :: s)
    else (breakAt sep s).map fun p => (b :: p.1, p.2)

/-- `validOptionalPort`. -/
def validOptionalPort : GoString → Bool
  | [] => true
  | b :: s => b = ':'.toUInt8 && s.all isDigit

/-- `parseHost`. -/
def parseHost (host : GoString) : Option GoString :=
  if host.head? = some '['.toUInt8 then
    match cutLast ']'.toUInt8 host with
    | none => none
    | some (address, port) =>
      if validOptionalPort port then
        match breakAt "%25" address with
        | none => unescape .host host
        | some (address, zone) => do
          let address ← unescape .host address
          let zone ← unescape .zone zone
          let port ← unescape .host (']'.toUInt8 :: port)
          some (address ++ zone ++ port)
      else none
  else
    match breakAt ":" host with
    | some (_, port) => if validOptionalPort port then unescape .host host else none
    | none => unescape .host host

/-- `validUserinfo`. -/
def validUserinfo (s : GoString) : Bool :=
  s.all fun b => isLetter b || isDigit b || ("-._:~!$&'()*+,;=%@" : GoString).contains b

/-- `parseAuthority`: the host of a well formed authority. -/
def parseAuthority (authority : GoString) : Option GoString :=
  match cutLast '@'.toUInt8 authority with
  | none => parseHost authority
  | some (userinfo, host) => do
    let host ← parseHost host
    if validUserinfo userinfo then
      let (username, password) := (GoString.cut ':'.toUInt8 userinfo).getD (userinfo, [])
      let _ ← unescape .userPassword username
      let _ ← unescape .userPassword password
      some host
    else none

/-! ## Parsing -/

/-- `stringContainsCTLByte` of one byte. -/
def IsControl (b : UInt8) : Prop := b < ' '.toUInt8 ∨ b = 0x7F

instance (b : UInt8) : Decidable (IsControl b) := inferInstanceAs (Decidable (_ ∨ _))

/-- `getScheme`: the scheme, or the empty one, and what follows it. -/
def getScheme (raw : GoString) : Option (GoString × GoString) :=
  let schemeByte := fun b => isLetter b || isDigit b || ("+-." : GoString).contains b
  match raw.takeWhile schemeByte, raw.dropWhile schemeByte with
  | scheme, b :: rest =>
    if b ≠ ':'.toUInt8 then some ([], raw)
    else
      match scheme with
      | [] => none
      | c :: scheme => some (if isLetter c then (c :: scheme, rest) else ([], raw))
  | _, [] => some ([], raw)

/-- `parse` behind the scheme and in front of the query. -/
def parseRest (scheme rest rawQuery : GoString) : Option URL :=
  if rest.head? ≠ some '/'.toUInt8 ∧ scheme ≠ [] then some { scheme, rawQuery }
  else if rest.head? ≠ some '/'.toUInt8 ∧ ':'.toUInt8 ∈ rest.takeWhile (· ≠ '/'.toUInt8) then none
  else if (scheme ≠ [] ∨ rest.cutPrefix "///" = none) ∧ (rest.cutPrefix "//").isSome then do
    let host ← parseAuthority ((rest.drop 2).takeWhile (· ≠ '/'.toUInt8))
    let path ← unescape .path ((rest.drop 2).dropWhile (· ≠ '/'.toUInt8))
    some { scheme, host, path, rawQuery }
  else (unescape .path rest).map fun path => { scheme, path, rawQuery }

/-- `parse` with `viaRequest` false. A `?` at the end that is the only one sets `ForceQuery`; the
parts are those of an empty query. -/
def parseNoFragment (raw : GoString) : Option URL :=
  if ∃ b ∈ raw, IsControl b then none
  else if raw = "*" then some { path := "*" }
  else do
    let (scheme, rest) ← getScheme raw
    let (rest, rawQuery) := (GoString.cut '?'.toUInt8 rest).getD (rest, [])
    parseRest (GoString.asciiLower scheme) rest rawQuery

/-- `url.Parse`. -/
def parse (raw : GoString) : Option URL :=
  match GoString.cut '#'.toUInt8 raw with
  | none => parseNoFragment raw
  | some (raw, fragment) => do
    let u ← parseNoFragment raw
    let _ ← unescape .fragment fragment
    some u

/-! ## Queries -/

/-- `url.ParseQuery`, its error dropped: what cannot be read is skipped. -/
def parseQuery (query : GoString) : List (GoString × GoString) :=
  (GoString.split '&'.toUInt8 query).filterMap fun pair =>
    if pair = [] ∨ ';'.toUInt8 ∈ pair then none
    else
      let (key, value) := (GoString.cut '='.toUInt8 pair).getD (pair, [])
      match unescape .queryComponent key, unescape .queryComponent value with
      | some key, some value => some (key, value)
      | _, _ => none

/-- `Values.Get`. -/
def get (values : List (GoString × GoString)) (key : GoString) : GoString :=
  ((values.find? fun p => p.1 = key).map Prod.snd).getD []

/-! ## Escapes -/

/-- Nothing is unescaped where there is no escape. -/
theorem unescape_path_of_notMem {s : GoString} (h : '%'.toUInt8 ∉ s) : unescape .path s = some s := by
  induction s with
  | nil => rfl
  | cons b s ih =>
    rw [List.mem_cons, not_or] at h
    have hb : b ≠ '%'.toUInt8 := Ne.symm h.1
    rw [unescape.eq_def]
    simp only [if_neg hb, reduceCtorEq, and_false, or_self, false_and, if_false, ih h.2]
    rfl

/-- Unescaping makes a string shorter where there is something to unescape. -/
theorem length_of_unescape {mode : Encoding} : ∀ {s t : GoString}, unescape mode s = some t →
    t.length ≤ s.length ∧ ('%'.toUInt8 ∈ s → t.length < s.length)
  | [], t, h => by
    obtain rfl := Option.some.inj h
    simp
  | b :: s, t, h => by
    rw [unescape.eq_def] at h
    simp only at h
    split_ifs at h with hb hplus
    · rcases s with _ | ⟨x, _ | ⟨y, s⟩⟩
      · cases h
      · cases h
      · simp only [Option.bind_eq_bind, Option.bind_eq_some_iff, Option.some.injEq] at h
        obtain ⟨v, -, t', hrest, rfl⟩ := h
        have ih := (length_of_unescape hrest).1
        simp only [List.length_cons]
        omega
    all_goals
      obtain ⟨t', hrest, rfl⟩ := Option.map_eq_some_iff.mp h
      obtain ⟨hle, hlt⟩ := length_of_unescape hrest
      simp only [List.length_cons, List.mem_cons]
      refine ⟨by omega, fun hmem => ?_⟩
      have := hlt (hmem.resolve_left fun heq => hb heq.symm)
      omega

/-! ## References that start with one slash -/

theorem parseRest_of_slash {rest : GoString} (hhead : rest.head? = some '/'.toUInt8)
    (hdouble : ¬ ("//" : GoString) <+: rest) (rawQuery : GoString) :
    parseRest [] rest rawQuery = (unescape .path rest).map fun path => { path, rawQuery } := by
  have hauthority : GoString.cutPrefix rest "//" = none := by
    refine Option.eq_none_iff_forall_ne_some.mpr fun r hr => hdouble ?_
    rw [GoString.cutPrefix_eq_some_iff.mp hr]
    exact List.prefix_append _ r
  have hslash : ¬ rest.head? ≠ some '/'.toUInt8 := not_not.mpr hhead
  unfold parseRest
  rw [if_neg fun h => hslash h.1, if_neg fun h => hslash h.1, if_neg]
  rw [hauthority]
  exact fun h => Bool.false_ne_true h.2

/-- The path and the query of such a reference are what is before the `?` and behind it. -/
theorem parseNoFragment_of_slash {s : GoString} (hhead : s.head? = some '/'.toUInt8)
    (hdouble : ¬ ("//" : GoString) <+: s) :
    parseNoFragment s =
      if ∃ b ∈ s, IsControl b then none
      else (unescape .path (before '?'.toUInt8 s)).map fun path =>
        { path, rawQuery := ((GoString.cut '?'.toUInt8 s).getD (s, [])).2 } := by
  have hstar : s ≠ ("*" : GoString) := fun heq => by
    rw [heq] at hhead
    exact absurd hhead (by decide)
  have hscheme : getScheme s = some ([], s) := by
    obtain ⟨t, rfl⟩ := List.head?_eq_some_iff.mp hhead
    rfl
  have hrest : (before '?'.toUInt8 s).head? = some '/'.toUInt8 := by
    obtain ⟨t, rfl⟩ := List.head?_eq_some_iff.mp hhead
    rfl
  have hdouble' : ¬ ("//" : GoString) <+: before '?'.toUInt8 s :=
    fun h => hdouble (h.trans (List.takeWhile_prefix _))
  have hpath := GoString.cut_getD_fst '?'.toUInt8 s []
  unfold parseNoFragment
  split_ifs
  · rfl
  rcases hcut : (GoString.cut '?'.toUInt8 s).getD (s, []) with ⟨path, query⟩
  rw [hcut] at hpath
  simp only at hpath
  subst hpath
  simp only [hscheme, hcut, Option.bind_eq_bind, Option.bind_some]
  exact parseRest_of_slash hrest hdouble' query

/-- A fragment is cut off first. -/
theorem parseNoFragment_of_parse {s : GoString} {v : URL} (h : parse s = some v) :
    parseNoFragment (before '#'.toUInt8 s) = some v := by
  rw [← GoString.cut_getD_fst '#'.toUInt8 s []]
  unfold parse at h
  rcases hcut : GoString.cut '#'.toUInt8 s with _ | ⟨x, f⟩
  · rw [hcut] at h
    exact h
  · simp only [hcut, Option.bind_eq_bind, Option.bind_eq_some_iff, Option.some.injEq] at h
    obtain ⟨u, hu, _, -, rfl⟩ := h
    exact hu

theorem parse_of_notMem {s : GoString} (h : '#'.toUInt8 ∉ s) : parse s = parseNoFragment s := by
  rw [parse, GoString.cut_eq_none h]

/-! ## Queries of references -/

theorem rawQuery_of_parseRest {scheme rest rawQuery : GoString} {u : URL}
    (h : parseRest scheme rest rawQuery = some u) : u.rawQuery = rawQuery := by
  unfold parseRest at h
  split_ifs at h
  · obtain rfl := Option.some.inj h
    rfl
  · simp only [Option.bind_eq_bind, Option.bind_eq_some_iff, Option.some.injEq] at h
    obtain ⟨_, -, _, -, rfl⟩ := h
    rfl
  · obtain ⟨_, -, rfl⟩ := Option.map_eq_some_iff.mp h
    rfl

theorem suffix_of_getScheme {raw scheme rest : GoString} (h : getScheme raw = some (scheme, rest)) :
    rest <:+ raw := by
  have hdrop := List.dropWhile_suffix
    (fun b => isLetter b || isDigit b || ("+-." : GoString).contains b) (l := raw)
  unfold getScheme at h
  simp only at h
  split at h
  · rename_i b rest' heq
    rw [heq] at hdrop
    split_ifs at h
    · rw [Option.some.injEq, Prod.mk.injEq] at h
      exact h.2 ▸ List.suffix_rfl
    · split at h
      · cases h
      · rw [Option.some.injEq] at h
        split_ifs at h <;> rw [Prod.mk.injEq] at h
        · exact h.2 ▸ (List.suffix_cons b rest').trans hdrop
        · exact h.2 ▸ List.suffix_rfl
  · rw [Option.some.injEq, Prod.mk.injEq] at h
    exact h.2 ▸ List.suffix_rfl

/-- The query is taken over as it is written. -/
theorem mem_of_parseNoFragment {raw : GoString} {u : URL} (h : parseNoFragment raw = some u) :
    (∀ b ∈ raw, ¬ IsControl b) ∧ ∀ b ∈ u.rawQuery, b ∈ raw := by
  unfold parseNoFragment at h
  split_ifs at h with hcontrol hstar
  · obtain rfl := Option.some.inj h
    exact ⟨fun b hb hc => hcontrol ⟨b, hb, hc⟩, fun b hb => absurd hb List.not_mem_nil⟩
  refine ⟨fun b hb hc => hcontrol ⟨b, hb, hc⟩, fun b hb => ?_⟩
  simp only [Option.bind_eq_bind, Option.bind_eq_some_iff] at h
  obtain ⟨⟨scheme, rest⟩, hscheme, hrest⟩ := h
  have hsuffix := suffix_of_getScheme hscheme
  rw [rawQuery_of_parseRest hrest] at hb
  rcases hcut : GoString.cut '?'.toUInt8 rest with _ | ⟨path, query⟩
  · rw [hcut] at hb
    exact absurd hb List.not_mem_nil
  · rw [hcut] at hb
    refine hsuffix.subset ?_
    rw [GoString.eq_of_cut hcut]
    exact List.mem_append_right _ (List.mem_cons_of_mem _ hb)

/-- A query has neither a fragment nor a control byte in it. -/
theorem rawQuery_of_parse {raw : GoString} {u : URL} (h : parse raw = some u) :
    '#'.toUInt8 ∉ u.rawQuery ∧ ∀ b ∈ u.rawQuery, ¬ IsControl b := by
  obtain ⟨hcontrol, hmem⟩ := mem_of_parseNoFragment (parseNoFragment_of_parse h)
  exact ⟨fun hn => GoString.notMem_before _ raw (hmem _ hn), fun b hb => hcontrol b (hmem b hb)⟩

end Url
