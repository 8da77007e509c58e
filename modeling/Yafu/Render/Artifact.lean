import Yafu.Lib.Clock
import Yafu.Lib.FileSystem
import Yafu.Lib.PathElements
import Yafu.Lib.Url

/-!
# Fetching and extracting artifacts

Reference: `internal/render/artifact.go`.

`FetchAndExtract` over a tree of directories: what it answers, the tree it leaves, and the calls of
package `os` it has made. The archive comes as `gzip` and `tar` decode it, entry by entry; every call
that can fail may fail, at any entry.
-/

namespace Yafu.Render.Artifact

open FileSystem

/-- `MaxArtifactSize`. -/
def maxArtifactSize : ℕ := 20 * 1024 * 1024

/-- `MaxFileSize`. -/
def maxFileSize : ℕ := 8 * 1024 * 1024

/-- `ArtifactRef`. -/
structure ArtifactRef where
  url : GoString
  digest : GoString := []

/-- What a reader gives, and its error behind that if it is not `io.EOF`. -/
structure Reader where
  data : GoString
  err : Option GoString := none

/-- All that an `io.LimitReader` gives. -/
def Reader.readLimited (r : Reader) (n : ℕ) : GoString × Option GoString :=
  (r.data.take n, if r.data.length < n then r.err else none)

structure Response where
  statusCode : ℕ
  body : Reader

/-- A header of the archive with the content of its entry. -/
structure Header where
  name : GoString
  typeflag : UInt8
  content : Reader := { data := [] }

def typeReg : UInt8 := '0'.toUInt8

def typeLink : UInt8 := '1'.toUInt8

def typeSymlink : UInt8 := '2'.toUInt8

def typeDir : UInt8 := '5'.toUInt8

/-- The entries that `tar.Reader.Next` returns, and its error behind them if it is not `io.EOF`. -/
structure Archive where
  entries : List Header
  err : Option GoString := none

/-- What `os.MkdirTemp` returns: a name at which there is nothing, in a directory. -/
structure TempDir (t : FileTree GoString) where
  dir : GoString
  name : GoString
  parent : List GoString
  key_eq : Path.key dir = name :: parent
  isDir : t.node parent = some .dir
  isNew : t.node (name :: parent) = none

/-- The file system with the directory. -/
def TempDir.tree {t : FileTree GoString} (tmp : TempDir t) : FileTree GoString :=
  t.put tmp.name tmp.parent .dir tmp.isDir (by rw [tmp.isNew]; exact nofun)

/-- What `FetchAndExtract` meets: the server, the hash and the decoders, the errors of the calls of
`os` by the number of the entry, and the texts of errors. A failing write has written `n` bytes, and
a failing `os.RemoveAll` keeps some of the tree. -/
structure Host where
  newRequest : GoString → Option GoString
  get : GoString → Except GoString Response
  sum256 : GoString → GoString
  newReader : GoString → Except GoString Archive
  mkdirTemp : (t : FileTree GoString) → Except GoString (TempDir t)
  mkdirFault : ℕ → List GoString → Option GoString
  openFault : ℕ → Option GoString
  writeFault : ℕ → Option (ℕ × GoString)
  closeFault : ℕ → Option GoString
  removeFault : Option ((List GoString → Bool) × GoString)
  quote : GoString → GoString
  urlError : GoString → GoString
  pathError : PathError GoString GoString → GoString

/-- A call of package `os`. -/
inductive Call
  | mkdirTemp
  | mkdirAll (path : GoString)
  | openFile (path : GoString)
  | write (path : GoString)
  | close (path : GoString)
  | removeAll (path : GoString)
deriving DecidableEq, Repr

/-- The file system, and the calls made. -/
structure Disk where
  tree : FileTree GoString
  calls : List Call := []

variable (h : Host) (i : ℕ)

def Disk.mkdirAll (d : Disk) (path : GoString) : Disk × Option GoString :=
  let (tree, err) := d.tree.mkdirAll (h.mkdirFault i) (Path.key path)
  (⟨tree, d.calls ++ [.mkdirAll path]⟩, err.map h.pathError)

def Disk.openFile (d : Disk) (path : GoString) : Disk × Option GoString :=
  let (tree, err) := d.tree.openFile (h.openFault i) (Path.key path)
  (⟨tree, d.calls ++ [.openFile path]⟩, err.map h.pathError)

def Disk.removeAll (d : Disk) (path : GoString) : Disk × Option GoString :=
  let (tree, err) := d.tree.removeAll h.removeFault (Path.key path)
  (⟨tree, d.calls ++ [.removeAll path]⟩, err.map h.pathError)

/-- What `io.Copy` writes of what a reader gives, and its error. -/
def copyBytes (data : GoString) (readErr : Option GoString) : GoString × Option GoString :=
  match h.writeFault i with
  | some (n, err) => if n < data.length then (data.take n, some err) else (data, readErr)
  | none => (data, readErr)

/-- `io.Copy` to a file, and `Close`: the number of bytes copied, and the two errors. -/
def Disk.copyClose (d : Disk) (path : GoString) (r : Reader) (limit : ℕ) :
    Disk × ℕ × Option GoString × Option GoString :=
  let (data, readErr) := r.readLimited limit
  let (written, err) := copyBytes h i data readErr
  (⟨d.tree.write (Path.key path) written, d.calls ++ [.write path, .close path]⟩, written.length, err,
    h.closeFault i)

/-! ## The archive -/

/-- Where an entry goes. -/
def destination (dir name : GoString) : GoString := Path.joinClean dir (Path.clean name)

/-- The content of a file that is open. -/
def fillFile (d : Disk) (hdr : Header) (dst : GoString) : Disk × Option GoString :=
  -- one byte beyond the cap shows that the content goes on
  match d.copyClose h i dst hdr.content (maxFileSize + 1) with
  | (d, _, some err, _) => (d, some (("write " : GoString) ++ dst ++ (": " : GoString) ++ err))
  | (d, _, none, some err) => (d, some (("close " : GoString) ++ dst ++ (": " : GoString) ++ err))
  | (d, n, none, none) =>
    if maxFileSize < n then
      (d, some (("tar entry " : GoString) ++ h.quote hdr.name ++ (" exceeds " : GoString) ++
        Clock.decimal maxFileSize ++ (" byte file cap" : GoString)))
    else (d, none)

/-- A regular file. -/
def extractFile (d : Disk) (hdr : Header) (dst : GoString) : Disk × Option GoString :=
  match d.mkdirAll h i (Path.dir dst) with
  | (d, some err) => (d, some (("mkdir parent of " : GoString) ++ dst ++ (": " : GoString) ++ err))
  | (d, none) =>
    match d.openFile h i dst with
    | (d, some err) => (d, some (("open " : GoString) ++ dst ++ (": " : GoString) ++ err))
    | (d, none) => fillFile h i d hdr dst

/-- One round of the loop of `extractTarGz`. -/
def extractEntry (dir : GoString) (d : Disk) (hdr : Header) : Disk × Option GoString :=
  if hdr.name.head? = some Path.slash then
    (d, some (("tar entry " : GoString) ++ h.quote hdr.name ++ (" is absolute" : GoString)))
  else if Path.clean hdr.name = ".." ∨ ("../" : GoString) <+: Path.clean hdr.name then
    (d, some (("tar entry " : GoString) ++ h.quote hdr.name ++ (" escapes root" : GoString)))
  -- `filepath.Rel` fails for no path that `filepath.Join` puts under `dir`
  else if (".." : GoString) <+: Path.rel dir (destination dir hdr.name) then
    (d, some (("tar entry " : GoString) ++ h.quote hdr.name ++
      (" escapes root after join" : GoString)))
  else if hdr.typeflag = typeDir then
    match d.mkdirAll h i (destination dir hdr.name) with
    | (d, some err) =>
      (d, some (("mkdir " : GoString) ++ destination dir hdr.name ++ (": " : GoString) ++ err))
    | (d, none) => (d, none)
  else if hdr.typeflag = typeReg then extractFile h i d hdr (destination dir hdr.name)
  else if hdr.typeflag = typeSymlink ∨ hdr.typeflag = typeLink then (d, none)
  else (d, none)

/-- The loop of `extractTarGz`. -/
def extractEntries (dir : GoString) : ℕ → Disk → List Header → Disk × Option GoString
  | _, d, [] => (d, none)
  | i, d, hdr :: rest =>
    match extractEntry h i dir d hdr with
    | (d, some err) => (d, some err)
    | (d, none) => extractEntries dir (i + 1) d rest

/-- `extractTarGz`. -/
def extractTarGz (d : Disk) (blob dir : GoString) : Disk × Option GoString :=
  match h.newReader blob with
  | .error err => (d, some (("gzip reader: " : GoString) ++ err))
  | .ok archive =>
    match extractEntries h dir 0 d archive.entries with
    | (d, some err) => (d, some err)
    | (d, none) => (d, archive.err.map fun err => ("read tar entry: " : GoString) ++ err)

/-! ## The artifact -/

/-- `hex.EncodeToString`. -/
def encodeToString (b : GoString) : GoString :=
  b.flatMap fun c => [GoString.hexDigit (c.toNat / 16), GoString.hexDigit (c.toNat % 16)]

/-- `strings.EqualFold` of a text in hexadecimal with another one: no rune beyond ASCII folds to a
digit. -/
def equalFold (s t : GoString) : Bool := GoString.asciiLower s = GoString.asciiLower t

/-- `verifyDigest`. -/
def verifyDigest (blob digest : GoString) : Option GoString :=
  let want := (digest.cutPrefix "sha256:").getD digest
  let got := encodeToString (h.sum256 blob)
  if equalFold got want then none
  else some (("artifact digest mismatch (want " : GoString) ++ want ++ (", got " : GoString) ++ got ++
    (")" : GoString))

/-- The body of the response, within the cap. -/
def readBody (body : Reader) : Except GoString GoString :=
  match body.readLimited (maxArtifactSize + 1) with
  | (_, some err) => .error (("read artifact body: " : GoString) ++ err)
  | (blob, none) =>
    if maxArtifactSize < blob.length then
      .error (("artifact exceeds " : GoString) ++ Clock.decimal maxArtifactSize ++
        (" byte cap" : GoString))
    else .ok blob

/-- The body with the digest that the reference gives, if it gives one. -/
def checkDigest (ref : ArtifactRef) (blob : GoString) : Except GoString GoString :=
  if ref.digest ≠ [] then
    match verifyDigest h blob ref.digest with
    | some err => .error err
    | none => .ok blob
  else .ok blob

/-- `FetchAndExtract` up to the temporary directory. -/
def fetch (ref : ArtifactRef) : Except GoString GoString :=
  if ref.url = [] then .error "artifact URL is empty"
  else
    match Url.parse ref.url with
    | none => .error (("parse artifact URL: " : GoString) ++ h.urlError ref.url)
    | some parsed =>
      if parsed.scheme ≠ "http" ∧ parsed.scheme ≠ "https" then
        .error (("unsupported scheme " : GoString) ++ h.quote parsed.scheme ++
          (" (want http/https)" : GoString))
      else
        match h.newRequest ref.url, h.get ref.url with
        | some err, _ => .error (("build request: " : GoString) ++ err)
        | none, .error err => .error (("fetch artifact: " : GoString) ++ err)
        | none, .ok resp =>
          if resp.statusCode ≠ 200 then
            .error (("artifact fetch returned " : GoString) ++ Clock.decimal resp.statusCode)
          else
            match readBody resp.body with
            | .error err => .error err
            | .ok blob => checkDigest h ref blob

/-- `FetchAndExtract`; the `cleanup` that it returns with a directory is `os.RemoveAll` of that. -/
def fetchAndExtract (ref : ArtifactRef) (d : Disk) : Disk × Except GoString GoString :=
  match fetch h ref with
  | .error err => (d, .error err)
  | .ok blob =>
    match h.mkdirTemp d.tree with
    | .error err => (⟨d.tree, d.calls ++ [.mkdirTemp]⟩, .error (("mkdir temp: " : GoString) ++ err))
    | .ok tmp =>
      match extractTarGz h ⟨tmp.tree, d.calls ++ [.mkdirTemp]⟩ blob tmp.dir with
      -- the error of `cleanup` is dropped
      | (d, some err) => ((d.removeAll h tmp.dir).1, .error (("extract artifact: " : GoString) ++ err))
      | (d, none) => (d, .ok tmp.dir)

/-! ## What the directory holds -/

/-- The header is one of a regular file at the path. -/
def Header.IsFileAt (dir : GoString) (p : List GoString) (hdr : Header) : Prop :=
  hdr.typeflag = typeReg ∧ Path.key (destination dir hdr.name) = p

instance (dir : GoString) (p : List GoString) (hdr : Header) : Decidable (hdr.IsFileAt dir p) :=
  inferInstanceAs (Decidable (_ ∧ _))

/-- The content of the last entry of a regular file at the path. -/
def lastContent (dir : GoString) (entries : List Header) (p : List GoString) : Option GoString :=
  ((entries.filter fun hdr => hdr.IsFileAt dir p).getLast?).map fun hdr => hdr.content.data

/-- Nothing outside the directory has changed. -/
def Outside (t : FileTree GoString) (dir : GoString) (t' : FileTree GoString) : Prop :=
  ∀ p, ¬ Path.key dir <:+ p → t'.node p = t.node p

/-- The entries are extracted to the directory: nothing outside it has changed, all in it is a
directory or a regular file, and the files are those of the entries, each with the content of the
last one and within the cap. -/
structure Holds (t : FileTree GoString) (dir : GoString) (entries : List Header) (t' : FileTree GoString) :
    Prop where
  outside : Outside t dir t'
  isDir : t'.node (Path.key dir) = some .dir
  plain : ∀ p, Path.key dir <:+ p → t'.node p ≠ some .other
  file_iff : ∀ p content, Path.key dir <:+ p →
    (t'.node p = some (.file content) ↔ lastContent dir entries p = some content)
  small : ∀ p content, Path.key dir <:+ p → t'.node p = some (.file content) →
    content.length ≤ maxFileSize

variable {h : Host} {i : ℕ} {t t₁ t₂ : FileTree GoString} {dir dst path : GoString} {done : List Header}
  {hdr : Header} {d d' : Disk} {err : Option GoString} {p : List GoString}

theorem lastContent_concat_of_isFileAt (hfile : hdr.IsFileAt dir p) :
    lastContent dir (done ++ [hdr]) p = some hdr.content.data := by
  rw [lastContent, List.filter_append, List.filter_singleton, decide_eq_true hfile]
  simp

theorem lastContent_concat_of_not (hfile : ¬ hdr.IsFileAt dir p) :
    lastContent dir (done ++ [hdr]) p = lastContent dir done p := by
  rw [lastContent, List.filter_append, List.filter_singleton, decide_eq_false hfile]
  simp [lastContent]

/-- An entry that is no regular file changes nothing in this. -/
theorem Holds.concat (hh : Holds t dir done t₁) (hdr : Header) (htype : hdr.typeflag ≠ typeReg) :
    Holds t dir (done ++ [hdr]) t₁ := by
  refine { hh with file_iff := fun p content hp => ?_ }
  rw [lastContent_concat_of_not fun hfile => htype hfile.1]
  exact hh.file_iff p content hp

theorem Holds.grown (hh : Holds t dir done t₁) (hg : t₁.Grown t₂ p)
    (hp : Path.key dir <:+ p ∨ p <:+ Path.key dir) : Holds t dir done t₂ where
  outside q hq := (hg.outside hh.isDir hp hq).trans (hh.outside q hq)
  isDir := hg.dir hh.isDir
  plain q hq := (hg.node_iff (n := .other) nofun).not.mpr (hh.plain q hq)
  file_iff q content hq := (hg.node_iff (n := .file content) nofun).trans (hh.file_iff q content hq)
  small q content hq hfile :=
    hh.small q content hq ((hg.node_iff (n := .file content) nofun).mp hfile)

/-- A file that is written in the directory, with all of the entry's content. -/
theorem Holds.file (hh : Holds t dir done t₁) (hp : Path.key dir <:+ p) (hdir : t₁.node p ≠ some .dir)
    (hfile : hdr.IsFileAt dir p) (hsize : hdr.content.data.length ≤ maxFileSize)
    (hnew : t₂.node p = some (.file hdr.content.data)) (hold : ∀ q, q ≠ p → t₂.node q = t₁.node q) :
    Holds t dir (done ++ [hdr]) t₂ where
  outside q hq := (hold q fun heq => hq (heq ▸ hp)).trans (hh.outside q hq)
  isDir := (hold _ fun heq => hdir (heq ▸ hh.isDir)).trans hh.isDir
  plain q hq := by
    by_cases hqp : q = p
    · rw [hqp, hnew]
      exact nofun
    · rw [hold q hqp]
      exact hh.plain q hq
  file_iff q content hq := by
    by_cases hqp : q = p
    · rw [hqp, hnew, lastContent_concat_of_isFileAt hfile, Option.some.injEq, Option.some.injEq,
        Node.file.injEq]
    · rw [hold q hqp, lastContent_concat_of_not fun hf => hqp (hf.2.symm.trans hfile.2)]
      exact hh.file_iff q content hq
  small q content hq hc := by
    by_cases hqp : q = p
    · rw [hqp, hnew, Option.some.injEq, Node.file.injEq] at hc
      exact hc ▸ hsize
    · rw [hold q hqp] at hc
      exact hh.small q content hq hc

/-! ## The loop -/

/-- What stops with an error has left alone what is outside. -/
theorem Outside.stopped {P : Prop} {d₁ : Disk} {e : GoString} (hout : Outside t dir d₁.tree)
    (hx : (d₁, some e) = (d', err)) : Outside t dir d'.tree ∧ (err = none → P) := by
  obtain ⟨rfl, rfl⟩ := Prod.mk.inj hx
  exact ⟨hout, nofun⟩

theorem Holds.passed {d₁ : Disk} (hh : Holds t dir done d₁.tree)
    (hx : (d₁, (none : Option GoString)) = (d', err)) :
    Outside t dir d'.tree ∧ (err = none → Holds t dir done d'.tree) := by
  obtain ⟨rfl, rfl⟩ := Prod.mk.inj hx
  exact ⟨hh.outside, fun _ => hh⟩

theorem copyBytes_of_none {data : GoString} {readErr : Option GoString}
    (hnone : (copyBytes h i data readErr).2 = none) : (copyBytes h i data readErr).1 = data := by
  unfold copyBytes at hnone ⊢
  split at hnone
  · split_ifs at hnone ⊢
    rfl
  · rfl

/-- What `io.Copy` has written of a content: without an error and below the limit, all of it. -/
theorem copyClose_spec {r : Reader} {limit n : ℕ} {closeErr : Option GoString}
    (hc : d.copyClose h i path r limit = (d', n, err, closeErr)) :
    ∃ written, d'.tree = d.tree.write (Path.key path) written ∧
      (err = none → n < limit → written = r.data ∧ r.data.length = n) := by
  simp only [Disk.copyClose, Reader.readLimited, Prod.mk.injEq] at hc
  obtain ⟨rfl, rfl, rfl, -⟩ := hc
  refine ⟨_, rfl, fun hnone hlt => ?_⟩
  rw [copyBytes_of_none hnone] at hlt ⊢
  have htake : r.data.take limit = r.data := by
    rw [List.length_take] at hlt
    exact List.take_of_length_le (by omega)
  rw [htake]
  exact ⟨rfl, rfl⟩

theorem mkdirAll_spec (hx : d.mkdirAll h i path = (d', err)) :
    d.tree.Grown d'.tree (Path.key path) := by
  simp only [Disk.mkdirAll, Prod.mk.injEq] at hx
  obtain ⟨rfl, -⟩ := hx
  exact (FileTree.mkdirAll_spec rfl).1

theorem openFile_spec (hx : d.openFile h i path = (d', err)) :
    (d'.tree = d.tree ∧ err.isSome) ∨
      (d.tree.node (Path.key path) ≠ some .dir ∧
        d'.tree.node (Path.key path) = some (.file []) ∧
        ∀ q, q ≠ Path.key path → d'.tree.node q = d.tree.node q) := by
  rcases hopen : d.tree.openFile (h.openFault i) (Path.key path) with ⟨tree, fault⟩
  rw [Disk.openFile, hopen] at hx
  obtain ⟨rfl, rfl⟩ := Prod.mk.inj hx
  rcases FileTree.openFile_spec hopen with ⟨heq, herr⟩ | ⟨-, hdir, -, hself, hold⟩
  · exact .inl ⟨heq, by rw [Option.isSome_map, herr]⟩
  · exact .inr ⟨hdir, hself, hold⟩

/-- An empty file is filled, without an error with all of the entry's content. -/
theorem fillFile_spec (hempty : d.tree.node (Path.key dst) = some (.file []))
    (hx : fillFile h i d hdr dst = (d', err)) :
    (∃ written, d'.tree.node (Path.key dst) = some (.file written) ∧
      (err = none → written = hdr.content.data ∧ hdr.content.data.length ≤ maxFileSize)) ∧
      ∀ q, q ≠ Path.key dst → d'.tree.node q = d.tree.node q := by
  rcases hcopy : d.copyClose h i dst hdr.content (maxFileSize + 1) with ⟨d₁, n, err₁, err₂⟩
  obtain ⟨written, htree, hall⟩ := copyClose_spec hcopy
  rw [fillFile, hcopy] at hx
  have hend : d'.tree = d₁.tree ∧ (err = none → err₁ = none ∧ n ≤ maxFileSize) := by
    cases err₁ with
    | some err₁ =>
      obtain ⟨rfl, rfl⟩ := Prod.mk.inj hx
      exact ⟨rfl, nofun⟩
    | none =>
      cases err₂ with
      | some err₂ =>
        obtain ⟨rfl, rfl⟩ := Prod.mk.inj hx
        exact ⟨rfl, nofun⟩
      | none =>
        simp only at hx
        split_ifs at hx with hn
        · obtain ⟨rfl, rfl⟩ := Prod.mk.inj hx
          exact ⟨rfl, nofun⟩
        · obtain ⟨rfl, rfl⟩ := Prod.mk.inj hx
          exact ⟨rfl, fun _ => ⟨rfl, Nat.le_of_not_lt hn⟩⟩
  rw [hend.1, htree]
  refine ⟨⟨written, ?_, fun hnone => ?_⟩, fun q hq => FileTree.write_of_ne hq written⟩
  · rw [FileTree.write_self hempty, List.nil_append]
  · obtain ⟨hcopied, hn⟩ := hend.2 hnone
    obtain ⟨hwritten, hlen⟩ := hall hcopied (by omega)
    exact ⟨hwritten, by omega⟩

theorem extractFile_spec (hh : Holds t dir done d.tree)
    (hparent : Path.key (Path.dir dst) = (Path.key dst).tail)
    (hunder : Path.key dir <:+ Path.key dst) (hfile : hdr.IsFileAt dir (Path.key dst))
    (hx : extractFile h i d hdr dst = (d', err)) :
    Outside t dir d'.tree ∧ (err = none → Holds t dir (done ++ [hdr]) d'.tree) := by
  have hway : Path.key dir <:+ (Path.key dst).tail ∨ (Path.key dst).tail <:+ Path.key dir :=
    List.suffix_or_suffix_of_suffix hunder (List.tail_suffix _)
  have hin : ∀ {q}, ¬ Path.key dir <:+ q → q ≠ Path.key dst := fun hq heq => hq (heq ▸ hunder)
  unfold extractFile at hx
  split at hx
  · next d₁ err₁ hmk =>
    have hgrown := hparent ▸ mkdirAll_spec hmk
    exact (hh.grown hgrown hway).outside.stopped hx
  · next d₁ hmk =>
    have hgrown := hparent ▸ mkdirAll_spec hmk
    have hh₁ : Holds t dir done d₁.tree := hh.grown hgrown hway
    split at hx
    · next d₂ err₂ hopen =>
      obtain ⟨rfl, rfl⟩ := Prod.mk.inj hx
      refine ⟨fun q hq => ?_, nofun⟩
      rcases openFile_spec hopen with ⟨htree, -⟩ | ⟨-, -, hold⟩
      · rw [htree, hh₁.outside q hq]
      · rw [hold q (hin hq), hh₁.outside q hq]
    · next d₂ hopen =>
      rcases openFile_spec hopen with ⟨-, hsome⟩ | ⟨hdir, hempty, hold⟩
      · cases hsome
      obtain ⟨⟨written, hself, hall⟩, hold'⟩ := fillFile_spec hempty hx
      have hkeep : ∀ q, q ≠ Path.key dst → d'.tree.node q = d₁.tree.node q :=
        fun q hq => (hold' q hq).trans (hold q hq)
      refine ⟨fun q hq => (hkeep q (hin hq)).trans (hh₁.outside q hq), fun hnone => ?_⟩
      obtain ⟨rfl, hsize⟩ := hall hnone
      exact hh₁.file hunder hdir hfile hsize hself hkeep

/-! ### Entries -/

/-- A name that passes the checks goes to the directory or below it. -/
theorem suffix_destination {name : GoString} (hdir : dir ≠ [])
    (hroot : name.head? ≠ some Path.slash)
    (hup : ¬ (Path.clean name = ".." ∨ ("../" : GoString) <+: Path.clean name)) :
    Path.key dir <:+ Path.key (destination dir name) := by
  rw [not_or] at hup
  rw [destination, Path.key_joinClean hdir (Path.dots_notMem_key hroot hup.1 hup.2)]
  exact List.suffix_append _ _

theorem key_dir_destination (hdir : dir ≠ []) (name : GoString) :
    Path.key (Path.dir (destination dir name)) = (Path.key (destination dir name)).tail := by
  rw [destination, Path.joinClean, if_pos hdir, Path.key_dir, Path.key_clean]

theorem extractEntry_spec (hdir : dir ≠ []) (hh : Holds t dir done d.tree)
    (hx : extractEntry h i dir d hdr = (d', err)) :
    Outside t dir d'.tree ∧ (err = none → Holds t dir (done ++ [hdr]) d'.tree) := by
  rw [extractEntry] at hx
  split_ifs at hx with hroot hup hrel htype htype' hlink
  · exact hh.outside.stopped hx
  · exact hh.outside.stopped hx
  · exact hh.outside.stopped hx
  · have hunder := suffix_destination hdir hroot hup
    have hreg : hdr.typeflag ≠ typeReg := by
      rw [htype]
      decide
    rcases hmk : d.mkdirAll h i (destination dir hdr.name) with ⟨d₁, err₁⟩
    have hh₁ : Holds t dir done d₁.tree := hh.grown (mkdirAll_spec hmk) (.inl hunder)
    rw [hmk] at hx
    cases err₁ with
    | some err₁ =>
      exact hh₁.outside.stopped hx
    | none =>
      exact (hh₁.concat hdr hreg).passed hx
  · exact extractFile_spec hh (key_dir_destination hdir hdr.name)
      (suffix_destination hdir hroot hup) ⟨htype', rfl⟩ hx
  · exact (hh.concat hdr htype').passed hx
  · exact (hh.concat hdr htype').passed hx

theorem extractEntries_spec (hdir : dir ≠ []) : ∀ {entries done : List Header} {i : ℕ} {d : Disk},
    Holds t dir done d.tree → extractEntries h dir i d entries = (d', err) →
    Outside t dir d'.tree ∧ (err = none → Holds t dir (done ++ entries) d'.tree)
  | [], done, i, d, hh, hx => by
    obtain ⟨rfl, rfl⟩ := Prod.mk.inj hx
    rw [List.append_nil]
    exact ⟨hh.outside, fun _ => hh⟩
  | hdr :: rest, done, i, d, hh, hx => by
    rw [extractEntries] at hx
    rcases hentry : extractEntry h i dir d hdr with ⟨d₁, err₁⟩
    obtain ⟨hout, hholds⟩ := extractEntry_spec hdir hh hentry
    rw [hentry] at hx
    cases err₁ with
    | some err₁ =>
      exact hout.stopped hx
    | none =>
      have ih := extractEntries_spec hdir (hholds rfl) hx
      rwa [List.append_assoc, List.singleton_append] at ih

theorem extractTarGz_spec {blob : GoString} (hdir : dir ≠ []) (hh : Holds t dir [] d.tree)
    (hx : extractTarGz h d blob dir = (d', err)) :
    Outside t dir d'.tree ∧ (err = none → ∃ archive, h.newReader blob = .ok archive ∧
      archive.err = none ∧ Holds t dir archive.entries d'.tree) := by
  rw [extractTarGz] at hx
  rcases hreader : h.newReader blob with err₁ | archive
  · rw [hreader] at hx
    exact hh.outside.stopped hx
  · rcases hentries : extractEntries h dir 0 d archive.entries with ⟨d₁, err₁⟩
    obtain ⟨hout, hholds⟩ := extractEntries_spec hdir hh hentries
    simp only [hreader, hentries] at hx
    cases err₁ with
    | some err₁ =>
      exact hout.stopped hx
    | none =>
      obtain ⟨rfl, rfl⟩ := Prod.mk.inj hx
      exact ⟨hout, fun hnone => ⟨archive, rfl, Option.map_eq_none_iff.mp hnone, hholds rfl⟩⟩

/-! ## The whole call -/

/-- The body is within the cap, and has the digest of the reference if that has one. -/
structure Accepts (h : Host) (ref : ArtifactRef) (blob : GoString) : Prop where
  size : blob.length ≤ maxArtifactSize
  digest : ref.digest ≠ [] →
    GoString.asciiLower (encodeToString (h.sum256 blob)) =
      GoString.asciiLower ((ref.digest.cutPrefix "sha256:").getD ref.digest)

theorem readBody_spec {body : Reader} {blob : GoString} (hx : readBody body = .ok blob) :
    blob = body.data ∧ blob.length ≤ maxArtifactSize := by
  simp only [readBody, Reader.readLimited] at hx
  split at hx
  · cases hx
  · next hread =>
    obtain ⟨rfl, -⟩ := Prod.mk.inj hread
    split_ifs at hx with hsize
    obtain rfl := Except.ok.inj hx
    rw [List.length_take] at hsize
    have htake : body.data.take (maxArtifactSize + 1) = body.data :=
      List.take_of_length_le (by omega)
    rw [htake]
    exact ⟨rfl, by omega⟩

theorem checkDigest_spec {ref : ArtifactRef} {read blob : GoString}
    (hx : checkDigest h ref read = .ok blob) : blob = read ∧ (ref.digest ≠ [] →
      GoString.asciiLower (encodeToString (h.sum256 read)) =
        GoString.asciiLower ((ref.digest.cutPrefix "sha256:").getD ref.digest)) := by
  rw [checkDigest] at hx
  split_ifs at hx with hdigest
  · simp only [verifyDigest] at hx
    split_ifs at hx with hfold
    obtain rfl := Except.ok.inj hx
    exact ⟨rfl, fun _ => of_decide_eq_true hfold⟩
  · obtain rfl := Except.ok.inj hx
    exact ⟨rfl, fun h => absurd h hdigest⟩

theorem fetch_spec {ref : ArtifactRef} {blob : GoString} (hx : fetch h ref = .ok blob) :
    ∃ resp, h.get ref.url = .ok resp ∧ blob = resp.body.data ∧ Accepts h ref blob := by
  unfold fetch at hx
  split_ifs at hx with hurl
  split at hx
  · cases hx
  split_ifs at hx with hscheme
  split at hx
  · cases hx
  · cases hx
  next resp _ hget =>
  split_ifs at hx with hstatus
  split at hx
  · cases hx
  next read hread =>
  obtain ⟨rfl, hsize⟩ := readBody_spec hread
  obtain ⟨rfl, hdigest⟩ := checkDigest_spec hx
  exact ⟨resp, hget, rfl, hsize, hdigest⟩

/-- What a call of `FetchAndExtract` does on a file system `t`. -/
structure Outcome (h : Host) (ref : ArtifactRef) (t : FileTree GoString) (d : Disk)
    (res : Except GoString GoString) : Prop where
  /-- No call of `os` is made unless the body is accepted. -/
  guarded : d.calls ≠ [] → ∃ resp, h.get ref.url = .ok resp ∧ Accepts h ref resp.body.data
  ok : ∀ dir, res = .ok dir → ∃ resp archive, h.get ref.url = .ok resp ∧
    h.newReader resp.body.data = .ok archive ∧ Holds t dir archive.entries d.tree
  error : ∀ err, res = .error err → d.tree = t ∨
    ∃ tmp, h.mkdirTemp t = .ok tmp ∧ h.removeFault.isSome ∧ Outside t tmp.dir d.tree

theorem TempDir.dir_ne_nil (tmp : TempDir t) : tmp.dir ≠ [] := by
  intro hnil
  have hkey := tmp.key_eq
  rw [hnil] at hkey
  cases hkey

/-- There is nothing at the name of a new temporary directory, nor below it. -/
theorem TempDir.node_eq_none (tmp : TempDir t) (hp : Path.key tmp.dir <:+ p) : t.node p = none := by
  rw [tmp.key_eq] at hp
  by_cases heq : tmp.name :: tmp.parent = p
  · rw [← heq, tmp.isNew]
  · exact FileTree.node_eq_none (by rw [tmp.isNew]; exact nofun) hp heq

/-- The temporary directory before the extraction. -/
theorem TempDir.holds (tmp : TempDir t) : Holds t tmp.dir [] tmp.tree := by
  have hself : tmp.tree.node (Path.key tmp.dir) = some .dir := by
    rw [tmp.key_eq, TempDir.tree, FileTree.put_self]
  have hold : ∀ p, p ≠ Path.key tmp.dir → tmp.tree.node p = t.node p := by
    intro p hp
    rw [tmp.key_eq] at hp
    exact FileTree.put_of_ne _ _ _ _ hp
  have hbelow : ∀ p n, Path.key tmp.dir <:+ p → n ≠ .dir → tmp.tree.node p ≠ some n := by
    intro p n hp hn
    by_cases heq : p = Path.key tmp.dir
    · rw [heq, hself]
      exact fun h => hn (Option.some.inj h).symm
    · rw [hold p heq, tmp.node_eq_none hp]
      exact nofun
  exact {
    outside := fun p hp => hold p fun heq => hp (heq ▸ List.suffix_rfl)
    isDir := hself
    plain := fun p hp => hbelow p .other hp nofun
    file_iff := fun p content hp => iff_of_false (hbelow p (.file content) hp nofun) nofun
    small := fun p content hp hfile => absurd hfile (hbelow p (.file content) hp nofun) }

/-- What a removal leaves of a temporary directory. -/
theorem removeAll_spec (tmp : TempDir t) (hout : Outside t tmp.dir d.tree) :
    (d.removeAll h tmp.dir).1.tree = t ∨
      (h.removeFault.isSome ∧ Outside t tmp.dir (d.removeAll h tmp.dir).1.tree) := by
  have hbase : Path.key tmp.dir ≠ [] := by
    rw [tmp.key_eq]
    exact List.cons_ne_nil _ _
  have houtside : Outside t tmp.dir (d.removeAll h tmp.dir).1.tree := fun p hp =>
    (FileTree.removeAll_of_not_suffix h.removeFault hp).trans (hout p hp)
  cases hfault : h.removeFault with
  | some fault => exact .inr ⟨rfl, houtside⟩
  | none =>
    left
    refine FileTree.ext (funext fun p => ?_)
    by_cases hp : Path.key tmp.dir <:+ p
    · rw [Disk.removeAll, hfault, tmp.node_eq_none hp]
      exact FileTree.removeAll_of_suffix hbase hp
    · exact houtside p hp

/-- The body is accepted before any call of `os`; on success the directory holds the entries; on an
error the file system is as before, unless `os.RemoveAll` fails, and even then outside the temporary
directory. -/
theorem fetchAndExtract_outcome (h : Host) (ref : ArtifactRef) (t : FileTree GoString) :
    Outcome h ref t (fetchAndExtract h ref { tree := t }).1 (fetchAndExtract h ref { tree := t }).2 := by
  rcases hx : fetchAndExtract h ref { tree := t } with ⟨d, res⟩
  rw [fetchAndExtract] at hx
  cases hfetch : fetch h ref with
  | error err =>
    rw [hfetch] at hx
    obtain ⟨rfl, rfl⟩ := Prod.mk.inj hx
    exact ⟨fun h => absurd rfl h, nofun, fun _ _ => .inl rfl⟩
  | ok blob =>
    obtain ⟨resp, hget, rfl, haccepts⟩ := fetch_spec hfetch
    have hguarded : d.calls ≠ [] → ∃ resp, h.get ref.url = .ok resp ∧ Accepts h ref resp.body.data :=
      fun _ => ⟨resp, hget, haccepts⟩
    cases htemp : h.mkdirTemp t with
    | error err =>
      simp only [hfetch, htemp] at hx
      obtain ⟨rfl, rfl⟩ := Prod.mk.inj hx
      exact ⟨hguarded, nofun, fun _ _ => .inl rfl⟩
    | ok tmp =>
      simp only [hfetch, htemp] at hx
      split at hx
      · next d₁ err hextract =>
        obtain ⟨hout, -⟩ := extractTarGz_spec tmp.dir_ne_nil tmp.holds hextract
        obtain ⟨rfl, rfl⟩ := Prod.mk.inj hx
        refine ⟨hguarded, nofun, fun _ _ => (removeAll_spec tmp hout).imp_right fun hleft =>
          ⟨tmp, htemp, hleft⟩⟩
      · next d₁ hextract =>
        obtain ⟨-, hall⟩ := extractTarGz_spec tmp.dir_ne_nil tmp.holds hextract
        obtain ⟨archive, hreader, -, hholds⟩ := hall rfl
        obtain ⟨rfl, rfl⟩ := Prod.mk.inj hx
        refine ⟨hguarded, fun dir hok => ?_, nofun⟩
        obtain rfl := Except.ok.inj hok
        exact ⟨resp, archive, hget, hreader, hholds⟩

/-! ### A removal that fails -/

/-- A root with `/tmp`. -/
def tmpTree : FileTree GoString :=
  FileTree.init.put ("tmp" : GoString) [] .dir rfl nofun

/-- The path of the directory that `stuckHost` makes. -/
def stuckPath : List GoString := [("yafu-render-1" : GoString), ("tmp" : GoString)]

/-- A host that serves no archive and removes nothing. -/
def stuckHost : Host where
  newRequest _ := none
  get _ := .ok { statusCode := 200, body := { data := "text" } }
  sum256 _ := []
  newReader _ := .error "gzip: invalid header"
  mkdirTemp t :=
    if h : t.node [("tmp" : GoString)] = some .dir ∧ t.node stuckPath = none then
      .ok ⟨"/tmp/yafu-render-1", "yafu-render-1", [("tmp" : GoString)], by decide +kernel, h.1, h.2⟩
    else .error "no such file or directory"
  mkdirFault _ _ := none
  openFault _ := none
  writeFault _ := none
  closeFault _ := none
  removeFault := some (fun _ => true, "device or resource busy")
  quote s := s
  urlError s := s
  pathError _ := "device or resource busy"

/-- The extraction fails, and the directory that was made for it stays. -/
theorem directory_remains :
    ∃ d err, fetchAndExtract stuckHost { url := "http://source/a.tar.gz" } { tree := tmpTree } =
      (d, .error err) ∧ d.tree.node stuckPath = some .dir ∧ tmpTree.node stuckPath = none := by
  refine ⟨_, _, rfl, ?_, ?_⟩
  · decide +kernel
  · decide +kernel

/-- Two entries for one file: it holds the content of the second. -/
example :
    let entries : List Header := [⟨"a/b.yaml", typeReg, { data := "x" }⟩,
      ⟨"./a//b.yaml", typeReg, { data := "y" }⟩]
    let host : Host := { stuckHost with newReader := fun _ => .ok { entries } }
    (fetchAndExtract host { url := "http://source/a.tar.gz" } { tree := tmpTree }).1.tree.node
      (("b.yaml" : GoString) :: ("a" : GoString) :: stuckPath) = some (.file ("y" : GoString)) := by
  decide +kernel

end Yafu.Render.Artifact
