import RunmanAgent.Data.FileTree
import RunmanAgent.Runtime.Image

/-!
# Downloads of images (`sync_into` and `fetch_entry` of `src/runtime/image.rs`)

A sync goes through the entries of the manifest. The serial of an entry, with the characters
that a directory name must not have replaced, is the name of a directory beside the link
`current`; what has a `meta.json` under that name counts as downloaded. Every turn meets the
directories as the turn before left them, and any of its operations may fail. A turn that fails
after it has begun to unpack leaves its tree in the staging directory of the sync, where it
stands in the way of the next entry of the same image.

`own_directories_iff` says when each serial of a manifest has a directory to itself, and its turn
makes its own content current (`OwnDirectories`).
-/

namespace RunmanAgent

structure ManifestEntry where
  id : String
  name : String
  serial : String
  stopSignal : String
  arch : String
  file : String
  sha256 : String
  size : Nat
  deriving DecidableEq

structure Manifest where
  images : List ManifestEntry
  deriving DecidableEq

/-- The characters that stay in the name of a directory. -/
def kept (c : Char) : Bool := c.isAlphanum || c == '.' || c == '_' || c == '-'

/-- Serial as a directory name: overlayfs option syntax reserves ':' and ','. -/
def dirName (serial : String) : String :=
  String.ofList (serial.toList.map fun c => if kept c then c else '_')

namespace ImageSync

open FileTree

/-- `<data>/images/`; of the files only `meta.json` has a content, if it parses. -/
abbrev Files := FileTree.Tree (Option Image)

/-- What the steps of a turn meet: whether the look for `meta.json`, the download with its checks
and the making of directories in the staging directory, the unpacking there, the making of the
image's directory, the rename and the link succeed. -/
structure Io where
  stat : Bool := true
  fetched : Bool := true
  unpacked : Bool := true
  made : Bool := true
  renamed : Bool := true
  linked : Bool := true

def accepted (arch : String) (e : ManifestEntry) : Bool :=
  e.arch == arch && validId e.id && "rootfs-".toList.isPrefixOf e.file.toList &&
    !e.file.toList.contains '/'

/-- The path as it is handed to the kernel, from the directory of the images. -/
def serialDir (e : ManifestEntry) : List String := [e.id, dirName e.serial]

/-- `Path::components`. -/
def components (p : List String) : List String := p.filter fun c => c ≠ "" ∧ c ≠ "."

/-- `Path::parent`. -/
def parent (p : List String) : List String := (components p).dropLast

def metaOf (e : ManifestEntry) : Image where
  id := e.id
  name := e.name
  serial := e.serial
  stopSignal := e.stopSignal

/-- The unpacked tree. -/
def tree (e : ManifestEntry) : List (List String × Node (Option Image)) :=
  [([], .dir), (["rootfs"], .dir), (["meta.json"], .file (some (metaOf e)))]

/-- The directories that a sync works in. -/
structure Dirs where
  images : Files
  /-- The images for which the staging directory has a `tree-<id>/rootfs`. -/
  staged : List String := []

def fetchEntry (io : Io) (e : ManifestEntry) (d : Dirs) : Dirs × Bool :=
  -- `create_dir` fails where a turn before has left its tree
  if !io.fetched || d.staged.contains e.id then (d, false)
  else
    let staged := e.id :: d.staged
    if !io.unpacked || !io.made then (⟨d.images, staged⟩, false)
    else
      match mkdir d.images (parent (serialDir e)) with
      | none => (⟨d.images, staged⟩, false)
      | some t =>
        match if io.renamed then moveDir t (tree e) (serialDir e) else none with
        | none => (⟨t, staged⟩, false)
        | some t => (⟨t, d.staged⟩, true)

/-- `link.with_extension(format!("tmp-{}", process::id()))`, for the link `current`. -/
def tmpName (pid : Nat) : String := "current.tmp-" ++ toString pid

def replaceSymlink (pid : Nat) (io : Io) (target id : String) (t : Files) : Files × Bool :=
  if io.linked then replaceLink t [id, tmpName pid] [id, "current"] target
  else (removeFile t [id, tmpName pid], false)

def linkEntry (pid : Nat) (io : Io) (e : ManifestEntry) (d : Dirs) : Dirs × Bool :=
  let r := replaceSymlink pid io (dirName e.serial) e.id d.images
  (⟨r.1, d.staged⟩, r.2)

/-- The turn of an accepted entry; the answer is whether the sync goes on. -/
def syncEntry (pid : Nat) (io : Io) (e : ManifestEntry) (d : Dirs) : Dirs × Bool :=
  if io.stat && pathExists d.images (serialDir e ++ ["meta.json"]) then linkEntry pid io e d
  else
    match fetchEntry io e d with
    | (d, false) => (d, true)
    | (d, true) => linkEntry pid io e d

/-- The loop of `sync_into`; `io` is what the turns meet, in order. -/
def syncInto (pid : Nat) (arch : String) :
    (io : Nat → Io) → List ManifestEntry → Dirs → Dirs × Bool
  | _, [], d => (d, true)
  | io, e :: rest, d =>
    if accepted arch e then
      match syncEntry pid (io 0) e d with
      | (d, false) => (d, false)
      | (d, true) => syncInto pid arch (fun n => io (n + 1)) rest d
    else syncInto pid arch (fun n => io (n + 1)) rest d

/-- The image that new instances get. -/
def current (t : Files) (id : String) : Option Image :=
  (read t [id, "current", "meta.json"]).join

/-- A directory of the image has the serial. -/
def Holds (t : Files) (id serial : String) : Prop :=
  ∃ n img, t.lookup [id, n, "meta.json"] = some (.file (some img)) ∧ img.serial = serial

/-! ## The property -/

structure OwnDirectories (pid : Nat) (arch : String) (m : Manifest) (t : Files) : Prop where
  apart : ∀ e ∈ m.images, ∀ e' ∈ m.images, accepted arch e → accepted arch e' → e.id = e'.id →
    e.serial ≠ e'.serial → components (serialDir e) ≠ components (serialDir e')
  inside : ∀ e ∈ m.images, accepted arch e →
    ∃ name, components (serialDir e) = [e.id, name] ∧ name ≠ ".." ∧ name ≠ "current"
  /-- A turn in which nothing fails, after any turns before it none of which has left a tree of
  the image in the staging directory. -/
  content : ∀ before e after, m.images = before ++ e :: after → accepted arch e →
    ∀ io d, syncInto pid arch io before ⟨t, []⟩ = (d, true) → e.id ∉ d.staged →
      ∃ d', syncEntry pid {} e d = (d', true) ∧
        ∃ img, current d'.images e.id = some img ∧ img.serial = e.serial ∧
          (¬ Holds d.images e.id e.serial → img = metaOf e)

/-- A character whose replacement is an underscore. -/
def Lost (c : Char) : Prop := c = '_' ∨ kept c = false

/-- Two names that differ only in characters that are lost. -/
def Alike (a b : String) : Prop :=
  List.Forall₂ (fun c d => c = d ∨ Lost c ∧ Lost d) a.toList b.toList

structure ToldApart (pid : Nat) (arch : String) (m : Manifest) (t : Files) : Prop where
  named : ∀ e ∈ m.images, accepted arch e →
    e.serial ∉ dots ∧ e.serial ≠ "current" ∧ e.serial ≠ tmpName pid
  apart : ∀ e ∈ m.images, ∀ e' ∈ m.images, accepted arch e → accepted arch e' → e.id = e'.id →
    e.serial ≠ e'.serial → ¬ Alike e.serial e'.serial
  /-- No directory takes the name of the temporary link, and what could be taken for the
  entry's directory is an empty directory or has the entry's serial. -/
  free : ∀ e ∈ m.images, accepted arch e → t.lookup [e.id, tmpName pid] ≠ some .dir ∧
    ∀ n node, Alike n e.serial → t.lookup [e.id, n] = some node →
      node = .dir ∧ isEmptyDir t [e.id, n] ∨
        ∃ img, t.lookup [e.id, n, "meta.json"] = some (.file (some img)) ∧ img.serial = e.serial

/-- What the agent puts where: serial directories under the names of their serials, and links
beside them. -/
def Shape : List String → Node (Option Image) → Prop
  | [id], node => validId id → node = .dir
  | [id, n], node => validId id → dirName n = n ∧
      (node = .dir ∧ n ≠ "current" ∨ ∃ target, node = .link [target] ∧ target ∉ dots)
  | [id, n, "meta.json"], node => validId id →
      ∃ c, node = .file c ∧ ∀ img ∈ c, dirName img.serial = n
  | _, _ => True

structure Laid (t : Files) : Prop where
  closed : Closed t
  shape : All Shape t

/-! ## Names -/

theorem validId_not_dots {id : String} (h : validId id = true) : id ∉ dots := by
  intro hmem
  simp only [dots, List.mem_cons, List.not_mem_nil, or_false] at hmem
  rcases hmem with rfl | rfl | rfl <;> exact absurd h (by decide)

def replaced (c : Char) : Char := if kept c then c else '_'

theorem lost_iff {c : Char} : Lost c ↔ replaced c = '_' := by
  cases hc : kept c <;> simp [Lost, replaced, hc]

theorem replaced_of_not_lost {c : Char} (h : ¬ Lost c) : replaced c = c := by
  rw [Lost, not_or, Bool.not_eq_false] at h
  exact if_pos h.2

theorem replaced_eq_iff (c d : Char) : replaced c = replaced d ↔ c = d ∨ Lost c ∧ Lost d := by
  constructor
  · intro h
    by_cases hc : Lost c
    · exact .inr ⟨hc, lost_iff.mpr (h.symm.trans (lost_iff.mp hc))⟩
    · have hd : ¬ Lost d := fun hd => hc (lost_iff.mpr (h.trans (lost_iff.mp hd)))
      rw [replaced_of_not_lost hc, replaced_of_not_lost hd] at h
      exact .inl h
  · rintro (rfl | ⟨hc, hd⟩)
    · rfl
    · rw [lost_iff.mp hc, lost_iff.mp hd]

theorem toList_dirName (a : String) : (dirName a).toList = a.toList.map replaced := by
  rw [dirName, String.toList_ofList]
  rfl

variable {a : String}

theorem dirName_eq_iff_alike {b : String} : dirName a = dirName b ↔ Alike a b := by
  rw [← String.toList_inj, toList_dirName, toList_dirName, ← List.forall₂_eq_eq_eq,
    List.forall₂_map_left_iff, List.forall₂_map_right_iff, Alike]
  simp only [replaced_eq_iff]

theorem dirName_of_kept (h : ∀ c ∈ a.toList, kept c = true) : dirName a = a := by
  rw [← String.toList_inj, toList_dirName]
  exact (List.map_congr_left fun c hc => if_pos (h c hc)).trans (List.map_id _)

theorem dirName_dirName (a : String) : dirName (dirName a) = dirName a := by
  apply dirName_of_kept
  intro c hc
  rw [toList_dirName] at hc
  obtain ⟨d, -, rfl⟩ := List.mem_map.mp hc
  rw [replaced]
  split
  · assumption
  · decide

/-- `dir_name` keeps the characters of the text and puts none of them in another's place. -/
def untouched (x : String) : Bool := x.toList.all fun c => kept c && c != '_'

theorem untouched_iff {x : String} :
    untouched x = true ↔ ∀ c ∈ x.toList, kept c = true ∧ c ≠ '_' := by
  simp [untouched]

theorem dirName_eq_iff {x : String} (hx : untouched x = true) : dirName a = x ↔ a = x := by
  rw [untouched_iff] at hx
  constructor
  · intro h
    have hsame : dirName a = a := by
      apply dirName_of_kept
      intro c hc
      have hmem : replaced c ∈ x.toList := by
        rw [← h, toList_dirName]
        exact List.mem_map_of_mem hc
      by_contra hkept
      exact (hx _ hmem).2 (if_neg hkept)
    rw [← hsame, h]
  · rintro rfl
    exact dirName_of_kept fun c hc => (hx c hc).1

theorem tmpName_kept (pid : Nat) : untouched (tmpName pid) = true := by
  have hdigit : ∀ n < 128, (Char.ofNat n).isDigit = true →
      kept (Char.ofNat n) = true ∧ Char.ofNat n ≠ '_' := by decide
  have hhead : untouched "current.tmp-" = true := by decide
  refine untouched_iff.mpr fun c hc => ?_
  rw [tmpName, String.toList_append] at hc
  rcases List.mem_append.mp hc with hc | hc
  · exact untouched_iff.mp hhead c hc
  · rw [Nat.toString_eq_repr, Nat.repr_eq_ofList_toDigits, String.toList_ofList] at hc
    have hd := Nat.isDigit_of_mem_toDigits (by omega) (by omega) hc
    have hlt : c.toNat < 128 := by
      simp only [Char.isDigit, Bool.and_eq_true, decide_eq_true_eq] at hd
      have hle : c.toNat ≤ 57 := UInt32.le_iff_toNat_le.mp hd.2
      omega
    rw [← Char.ofNat_toNat c] at hd ⊢
    exact hdigit _ hlt hd

theorem tmpName_notMem (pid : Nat) : tmpName pid ∉ "current" :: dots := by
  intro h
  have hlen : ∀ s ∈ "current" :: dots, s.toList.length ≤ 7 := by decide
  have hle := hlen _ h
  rw [tmpName, String.toList_append, List.length_append] at hle
  have : "current.tmp-".toList.length = 12 := by decide
  omega

theorem tmpName_ne_current (pid : Nat) : tmpName pid ≠ "current" :=
  List.ne_of_not_mem_cons (tmpName_notMem pid)

theorem tmpName_not_dots (pid : Nat) : tmpName pid ∉ dots :=
  List.not_mem_of_not_mem_cons (tmpName_notMem pid)

theorem current_not_dots : "current" ∉ dots := by decide

theorem metaJson_not_dots : "meta.json" ∉ dots := by decide

/-- The name of a serial directory that is not read as anything else. -/
structure Plain (pid : Nat) (n : String) : Prop where
  not_dots : n ∉ dots
  ne_current : n ≠ "current"
  ne_tmp : n ≠ tmpName pid

theorem plain_dirName {pid : Nat} :
    Plain pid (dirName a) ↔ a ∉ dots ∧ a ≠ "current" ∧ a ≠ tmpName pid := by
  have hdots : dirName a ∈ dots ↔ a ∈ dots := by
    simp only [dots, List.mem_cons, List.not_mem_nil, or_false]
    rw [dirName_eq_iff (x := "") (by decide), dirName_eq_iff (x := ".") (by decide),
      dirName_eq_iff (x := "..") (by decide)]
  rw [← hdots, ne_eq, ne_eq, ← dirName_eq_iff (x := "current") (by decide),
    ← dirName_eq_iff (tmpName_kept pid)]
  exact ⟨fun h => ⟨h.1, h.2, h.3⟩, fun h => ⟨h.1, h.2.1, h.2.2⟩⟩

theorem components_serialDir {e : ManifestEntry} {name : String} (hid : validId e.id = true) :
    components (serialDir e) = [e.id, name] ∧ name ≠ ".." ↔
      dirName e.serial = name ∧ name ∉ dots := by
  have hdots := validId_not_dots hid
  simp only [dots, List.mem_cons, List.not_mem_nil, or_false, not_or] at hdots ⊢
  by_cases hn : dirName e.serial ≠ "" ∧ dirName e.serial ≠ "."
  · have hself : components (serialDir e) = [e.id, dirName e.serial] := by
      simp [components, serialDir, hdots, hn]
    rw [hself]
    constructor
    · rintro ⟨heq, hup⟩
      cases heq
      exact ⟨rfl, hn.1, hn.2, hup⟩
    · rintro ⟨rfl, -, -, hup⟩
      exact ⟨rfl, hup⟩
  · have hself : components (serialDir e) = [e.id] := by
      rw [not_and_or, not_not, not_not] at hn
      rcases hn with hn | hn <;> simp [components, serialDir, hdots, hn]
    rw [hself]
    constructor
    · rintro ⟨heq, -⟩
      cases heq
    · rintro ⟨rfl, hne, hdot, -⟩
      exact absurd ⟨hne, hdot⟩ hn

/-! ## The layout -/

section Layout

variable {pid : Nat} {t : Files} {id n : String} {e : ManifestEntry}

variable {k q : List String}

theorem Laid.insert (h : Laid t) {c : String} {node : Node (Option Image)}
    (hk : k ≠ [] → t.lookup k = some .dir) (hnode : t.lookup (k ++ [c]) = some .dir → node = .dir)
    (hshape : Shape (k ++ [c]) node) : Laid (t.insert (k ++ [c]) node) :=
  ⟨h.closed.insert hk hnode, h.shape.insert hshape⟩

theorem Laid.image (h : Laid t) (hid : validId id = true) :
    t.lookup [id] = none ∨ t.lookup [id] = some .dir := by
  cases hlookup : t.lookup [id] with
  | none => exact .inl rfl
  | some node =>
    cases h.shape _ _ hlookup hid
    exact .inr rfl

theorem Laid.current_ne_dir (h : Laid t) (hid : validId id = true) :
    t.lookup [id, "current"] ≠ some .dir := by
  intro hdir
  obtain ⟨-, ⟨-, hne⟩ | ⟨target, heq, -⟩⟩ := h.shape _ _ hdir hid
  · exact hne rfl
  · cases heq

theorem Laid.above (h : Laid t) {c : String} {node : Node (Option Image)} (hk : k ≠ [])
    (hlookup : t.lookup (k ++ [c]) = some node) : t.lookup k = some .dir :=
  h.closed k c hk (by rw [hlookup]; exact Option.some_ne_none _)

/-- The directory of the image is there. -/
def made (t : Files) (id : String) : Files :=
  if t.lookup [id] = none then t.insert [id] .dir else t

theorem lookup_made_self (h : Laid t) (hid : validId id = true) :
    (made t id).lookup [id] = some .dir := by
  rw [made]
  split
  · exact AList.lookup_insert t
  · exact (h.image hid).resolve_left ‹_›

theorem lookup_made (hk : k ≠ [id]) : (made t id).lookup k = t.lookup k := by
  rw [made]
  split
  · exact AList.lookup_insert_ne hk
  · rfl

theorem Laid.made (h : Laid t) : Laid (made t id) := by
  rw [ImageSync.made]
  split
  · exact h.insert (k := []) (fun hne => absurd rfl hne) (fun _ => rfl) fun _ => rfl
  · exact h

/-- The link is replaced. -/
def linked (pid : Nat) (id n : String) (t : Files) : Files :=
  (t.erase [id, tmpName pid]).insert [id, "current"] (.link [n])

theorem lookup_linked (htmp : k ≠ [id, tmpName pid]) (hc : k ≠ [id, "current"]) :
    (linked pid id n t).lookup k = t.lookup k := by
  rw [linked, AList.lookup_insert_ne hc, AList.lookup_erase_ne htmp]

theorem lookup_linked_tmp : (linked pid id n t).lookup [id, tmpName pid] = none := by
  rw [linked, AList.lookup_insert_ne (by simpa using tmpName_ne_current pid), AList.lookup_erase]

theorem Laid.linked (h : Laid t) (hid : validId id = true) (hdir : t.lookup [id] = some .dir)
    (htmp : t.lookup [id, tmpName pid] ≠ some .dir) (hn : n ∉ dots) :
    Laid (linked pid id n t) := by
  have herased : Laid (t.erase [id, tmpName pid]) := ⟨h.closed.erase htmp, h.shape.erase⟩
  refine herased.insert (k := [id]) (fun _ => ?_) (fun hc => ?_)
    fun _ => ⟨by decide, .inr ⟨n, rfl, hn⟩⟩
  · rw [AList.lookup_erase_ne (by simp), hdir]
  · exact absurd hc (herased.current_ne_dir hid)

/-- The tree of the entry is renamed to its directory. -/
def placed (e : ManifestEntry) (t : Files) : Files := place t (serialDir e) (tree e)

theorem placed_eq : placed e t = ((t.insert (serialDir e) .dir).insert
    (serialDir e ++ ["rootfs"]) .dir).insert (serialDir e ++ ["meta.json"])
      (.file (some (metaOf e))) := rfl

theorem lookup_placed (h : ¬ serialDir e <+: k) : (placed e t).lookup k = t.lookup k := by
  have hne : ∀ l, k ≠ serialDir e ++ l := fun l heq => h (heq ▸ List.prefix_append _ _)
  rw [placed_eq, AList.lookup_insert_ne (hne _), AList.lookup_insert_ne (hne _),
    AList.lookup_insert_ne (by simpa using hne [])]

theorem lookup_placed_meta :
    (placed e t).lookup (serialDir e ++ ["meta.json"]) = some (.file (some (metaOf e))) :=
  AList.lookup_insert _

theorem lookup_placed_top : (placed e t).lookup [id] = t.lookup [id] :=
  lookup_placed fun hp => by simpa [serialDir] using hp.length_le

theorem prefix_pair : serialDir e <+: [id, n] ↔ id = e.id ∧ n = dirName e.serial := by
  simp [serialDir, List.cons_prefix_cons, eq_comm]

theorem Laid.placed (h : Laid t) (hid : validId e.id = true) (hdir : t.lookup [e.id] = some .dir)
    (hc : dirName e.serial ≠ "current") : Laid (placed e t) := by
  have hserial : Laid (t.insert (serialDir e) .dir) :=
    h.insert (k := [e.id]) (fun _ => hdir) (fun _ => rfl)
      fun _ => ⟨dirName_dirName _, .inl ⟨rfl, hc⟩⟩
  have hrootfs : Laid ((t.insert (serialDir e) .dir).insert (serialDir e ++ ["rootfs"]) .dir) := by
    refine hserial.insert (fun _ => AList.lookup_insert _) (fun _ => rfl) ?_
    simp [Shape, serialDir]
  refine hrootfs.insert (fun _ => ?_) (fun hmeta => ?_) fun _ => ⟨_, rfl, fun img himg => ?_⟩
  · rw [AList.lookup_insert_ne (by simp), AList.lookup_insert]
  · obtain ⟨c, heq, -⟩ := hrootfs.shape [e.id, dirName e.serial, "meta.json"] _ hmeta hid
    cases heq
  · cases himg
    rfl

/-! ## Resolved paths -/

theorem walk_metaJson {follow : List String → List String → Option (List String)} (h : Laid t)
    (hid : validId id = true) (hn : n ∉ dots)
    (hfollow : ∀ target, target ∉ dots → follow [id] [target, "meta.json"] = some q →
      ∃ n', q = [id, n', "meta.json"] ∧ ∃ c, t.lookup q = some (.file c))
    (hwalk : walk t follow [id] [n, "meta.json"] = some q) :
    ∃ n', q = [id, n', "meta.json"] ∧ ∃ c, t.lookup q = some (.file c) := by
  cases hnode : t.lookup [id, n] with
  | none =>
    rw [walk_none hn hnode] at hwalk
    cases hwalk
  | some node =>
    obtain ⟨-, ⟨rfl, -⟩ | ⟨target, rfl, htarget⟩⟩ := h.shape _ _ hnode hid
    · rw [walk_dir hn hnode] at hwalk
      cases hmeta : t.lookup [id, n, "meta.json"] with
      | none =>
        rw [walk_none metaJson_not_dots hmeta] at hwalk
        cases hwalk
      | some node =>
        obtain ⟨c, rfl, -⟩ := h.shape _ _ hmeta hid
        rw [walk_file metaJson_not_dots hmeta] at hwalk
        cases hwalk
        exact ⟨n, rfl, c, hmeta⟩
    · rw [walk_link hn hnode] at hwalk
      exact hfollow target htarget hwalk

/-- The links of an image lead to its own serial directories. -/
theorem resolve_metaJson (h : Laid t) (hid : validId id = true) {links : Nat} (hn : n ∉ dots)
    (hpath : resolve t links [id] [n, "meta.json"] = some q) :
    ∃ n', q = [id, n', "meta.json"] ∧ ∃ c, t.lookup q = some (.file c) := by
  induction links generalizing n with
  | zero => exact walk_metaJson h hid hn (fun _ _ hnone => by cases hnone) hpath
  | succ links ih => exact walk_metaJson h hid hn (fun _ htarget => ih htarget) hpath

theorem Laid.image_of_path (h : Laid t) (hid : validId id = true) {p : List String}
    (hpath : canonicalize t (id :: p) = some q) : t.lookup [id] = some .dir := by
  rcases h.image hid with hnone | hdir
  · rw [canonicalize, resolve, walk_none (validId_not_dots hid) hnone] at hpath
    cases hpath
  · exact hdir

theorem Laid.current_eq_some (h : Laid t) {img : Image} (hid : validId id = true)
    (hcurrent : current t id = some img) : t.lookup [id, dirName img.serial] = some .dir ∧
      t.lookup [id, dirName img.serial, "meta.json"] = some (.file (some img)) := by
  have hread : FileTree.read t [id, "current", "meta.json"] = some (some img) :=
    Option.join_eq_some_iff.mp hcurrent
  obtain ⟨q, hpath, hfile⟩ := Option.bind_eq_some_iff.mp hread
  have hdir := h.image_of_path hid hpath
  have hinside : resolve t 40 [id] ["current", "meta.json"] = some q := by
    rwa [canonicalize, resolve, walk_dir (validId_not_dots hid) hdir] at hpath
  obtain ⟨n, rfl, c, hc⟩ := resolve_metaJson h hid current_not_dots hinside
  simp only [hc, Option.some.injEq] at hfile
  subst hfile
  obtain ⟨c, heq, hname⟩ := h.shape _ _ hc hid
  cases heq
  rw [hname img rfl]
  exact ⟨h.above (k := [id, n]) (by simp) hc, hc⟩

end Layout

/-! ## What a turn does -/

section Turn

variable {pid : Nat} {t : Files} {id n : String}
  (h : Laid t) (hid : validId id = true) (hdir : t.lookup [id] = some .dir)

include hid hdir

theorem current_of_link {img : Image} (hlink : t.lookup [id, "current"] = some (.link [n]))
    (hn : n ∉ dots) (hserial : t.lookup [id, n] = some .dir)
    (hmeta : t.lookup [id, n, "meta.json"] = some (.file (some img))) :
    current t id = some img := by
  have hpath : canonicalize t [id, "current", "meta.json"] = some [id, n, "meta.json"] := by
    rw [canonicalize, resolve, walk_dir (validId_not_dots hid) hdir,
      walk_link current_not_dots hlink]
    show resolve t 39 [id] [n, "meta.json"] = _
    rw [resolve, walk_dir hn hserial, walk_file metaJson_not_dots hmeta]
    rfl
  rw [current, FileTree.read, hpath]
  simp [hmeta]

include h

theorem replaceSymlink_eq_iff {io : Io} {t' : Files} (hn : n ∉ dots) :
    replaceSymlink pid io n id t = (t', true) ↔
      io.linked ∧ t.lookup [id, tmpName pid] ≠ some .dir ∧ t' = linked pid id n t := by
  have hids := validId_not_dots hid
  have hdest := destination_sub hids (tmpName_not_dots pid) hdir
  have hne : n ≠ "" := fun heq => hn (heq ▸ (.head _))
  rw [replaceSymlink]
  cases io.linked with
  | false => simp
  | true =>
    rw [if_pos rfl, replaceLink]
    by_cases htmp : t.lookup [id, tmpName pid] = some .dir
    · have hremove : removeFile t [id, tmpName pid] = t := by
        rw [removeFile, hdest]
        simp only [htmp]
      simp [hremove, hdest, destination_sub hids current_not_dots hdir, htmp]
    · have hremove : removeFile t [id, tmpName pid] = t.erase [id, tmpName pid] := by
        rw [removeFile, hdest]
        dsimp only
        split
        · exact absurd ‹_› htmp
        · rfl
      have hdir' : (t.erase [id, tmpName pid]).lookup [id] = some .dir := by
        rw [AList.lookup_erase_ne (by simp), hdir]
      have hcurrent : (t.erase [id, tmpName pid]).lookup [id, "current"] ≠ some .dir := by
        rw [AList.lookup_erase_ne (by simpa using (tmpName_ne_current pid).symm)]
        exact h.current_ne_dir hid
      simp only [hremove, destination_sub hids (tmpName_not_dots pid) hdir',
        destination_sub hids current_not_dots hdir', AList.lookup_erase, hne, Option.isSome_none,
        Bool.false_eq_true, or_self, if_false, htmp, not_false_eq_true, true_and, ne_eq]
      simp [linked, eq_comm]

end Turn

section Turns

variable {pid : Nat} {t : Files} {e : ManifestEntry}

/-- A rename to the path succeeds. -/
def Vacant (t : Files) (q : List String) : Prop :=
  t.lookup q = none ∨ t.lookup q = some .dir ∧ isEmptyDir t q

variable {t' : Files}

theorem Vacant.congr {q : List String} (h : Vacant t q)
    (hsame : ∀ k, q <+: k → t'.lookup k = t.lookup k) : Vacant t' q := by
  have hself := hsame q List.prefix_rfl
  rcases h with hnone | ⟨hdir, hempty⟩
  · exact .inl (hself.trans hnone)
  · refine .inr ⟨hself.trans hdir, isEmptyDir_iff.mpr fun k hk hne => ?_⟩
    rw [hsame k hk]
    exact isEmptyDir_iff.mp hempty k hk hne

theorem lookup_made_below {id : String} {k : List String} (hk : serialDir e <+: k) :
    (made t id).lookup k = t.lookup k := by
  apply lookup_made
  rintro rfl
  simpa [serialDir] using hk.length_le

theorem mkdir_image (h : Laid t) {id : String} (hid : validId id = true) :
    mkdir t [id] = some (made t id) := by
  have hdots := validId_not_dots hid
  rcases h.image hid with hnone | hdir
  · have hmissing : isDir t [id] = false := by
      rw [isDir, canonicalize, resolve, walk_none hdots hnone]
    rw [mkdir, hmissing, destination_top hdots, made, if_pos hnone]
    simp [hnone]
  · rw [mkdir, if_pos (isDir_of_lookup hdots hdir).2, made, if_neg (by rw [hdir]; simp)]

theorem parent_serialDir (hid : validId e.id = true) (hn : dirName e.serial ∉ dots) :
    parent (serialDir e) = [e.id] := by
  rw [parent, ((components_serialDir hid).mpr ⟨rfl, hn⟩).1]
  rfl

/-- The directory of the entry can be made, or has its serial. -/
def Settled (t : Files) (e : ManifestEntry) : Prop :=
  Vacant t (serialDir e) ∨
    ∃ img, t.lookup (serialDir e ++ ["meta.json"]) = some (.file (some img)) ∧ img.serial = e.serial

theorem Settled.congr (h : Settled t e)
    (hsame : ∀ k, serialDir e <+: k → t'.lookup k = t.lookup k) :
    Settled t' e := by
  rcases h with hvacant | ⟨img, hmeta, hserial⟩
  · exact .inl (hvacant.congr hsame)
  · exact .inr ⟨img, (hsame _ (List.prefix_append _ _)).trans hmeta, hserial⟩

variable (h : Laid t) (hid : validId e.id = true) (hn : dirName e.serial ∉ dots)

include h hid hn

theorem moveDir_eq_some_iff :
    moveDir (made t e.id) (tree e) (serialDir e) = some t' ↔
      Vacant t (serialDir e) ∧ t' = placed e (made t e.id) := by
  have hvacant : Vacant t (serialDir e) ↔ Vacant (made t e.id) (serialDir e) :=
    ⟨fun hv => hv.congr fun _ => lookup_made_below,
      fun hv => hv.congr fun _ hk => (lookup_made_below hk).symm⟩
  rw [hvacant, serialDir, moveDir,
    destination_sub (validId_not_dots hid) hn (lookup_made_self h hid), Vacant]
  dsimp only
  rcases hnode : (made t e.id).lookup [e.id, dirName e.serial] with _ | _ | _ | _
  · rw [Option.some_inj]
    exact ⟨fun heq => ⟨.inl rfl, heq.symm⟩, fun ⟨_, heq⟩ => heq.symm⟩
  · rw [Option.ite_none_right_eq_some, Option.some_inj]
    exact ⟨fun ⟨hempty, heq⟩ => ⟨.inr ⟨rfl, hempty⟩, heq.symm⟩,
      fun ⟨hv, heq⟩ => ⟨(hv.resolve_left (by simp)).2, heq.symm⟩⟩
  · simp
  · simp

theorem fetchEntry_eq_iff {io : Io} {staged : List String} {d : Dirs} :
    fetchEntry io e ⟨t, staged⟩ = (d, true) ↔
      (io.fetched ∧ io.unpacked ∧ io.made ∧ io.renamed) ∧ e.id ∉ staged ∧
        Vacant t (serialDir e) ∧ d = ⟨placed e (made t e.id), staged⟩ := by
  rw [fetchEntry, parent_serialDir hid hn, mkdir_image h hid]
  by_cases hstaged : e.id ∈ staged
  · simp [hstaged]
  · cases io.fetched <;> cases io.unpacked <;> cases io.made <;> cases io.renamed <;>
      simp [hstaged]
    cases hmove : moveDir (made t e.id) (tree e) (serialDir e) with
    | none =>
      simp only [Prod.mk.injEq, Bool.false_eq_true, and_false, false_iff, not_and]
      intro hvacant
      cases hmove.symm.trans ((moveDir_eq_some_iff h hid hn).mpr ⟨hvacant, rfl⟩)
    | some t' =>
      obtain ⟨hvacant, rfl⟩ := (moveDir_eq_some_iff h hid hn).mp hmove
      simp [hvacant, eq_comm]

theorem fetchEntry_false {io : Io} {staged : List String} {d : Dirs}
    (heq : fetchEntry io e ⟨t, staged⟩ = (d, false)) : d.images = t ∨ d.images = made t e.id := by
  rw [fetchEntry, parent_serialDir hid hn, mkdir_image h hid] at heq
  split at heq
  · cases heq
    exact .inl rfl
  · dsimp only at heq
    split at heq
    · cases heq
      exact .inl rfl
    · split at heq <;> cases heq
      exact .inr rfl

end Turns

section Entry

variable {pid : Nat} {t : Files} {e : ManifestEntry} {staged : List String}
  (h : Laid t) (hid : validId e.id = true) (hn : dirName e.serial ∉ dots)

include hid hn

theorem canonicalize_meta (hdir : t.lookup [e.id] = some .dir)
    (hserial : t.lookup (serialDir e) = some .dir) :
    canonicalize t (serialDir e ++ ["meta.json"]) =
      walk t (resolve t 39) (serialDir e) ["meta.json"] := by
  show resolve t 40 [] [e.id, dirName e.serial, "meta.json"] = _
  rw [resolve, walk_dir (validId_not_dots hid) hdir, walk_dir hn hserial]
  rfl

include h

theorem pathExists_of_meta {c : Option Image}
    (hmeta : t.lookup (serialDir e ++ ["meta.json"]) = some (.file c)) :
    t.lookup [e.id] = some .dir ∧ t.lookup (serialDir e) = some .dir ∧
      pathExists t (serialDir e ++ ["meta.json"]) = true := by
  have hserial := h.above (k := serialDir e) (by simp [serialDir]) hmeta
  have hdir := h.above (k := [e.id]) (by simp) hserial
  refine ⟨hdir, hserial, ?_⟩
  rw [pathExists, canonicalize_meta hid hn hdir hserial, walk_file metaJson_not_dots hmeta]
  rfl

theorem pathExists_of_vacant (hvacant : Vacant t (serialDir e)) :
    pathExists t (serialDir e ++ ["meta.json"]) = false := by
  have hdots := validId_not_dots hid
  have hpath : pathExists t (serialDir e ++ ["meta.json"]) =
    (resolve t 40 [] [e.id, dirName e.serial, "meta.json"]).isSome := rfl
  rcases h.image hid with hnone | hdir
  · rw [hpath, resolve, walk_none hdots hnone]
    rfl
  · rcases hvacant with hnone | ⟨hserial, hempty⟩
    · rw [hpath, resolve, walk_dir hdots hdir, walk_none hn hnone]
      rfl
    · have hmeta := isEmptyDir_iff.mp hempty _ (List.prefix_append _ ["meta.json"]) (by simp)
      rw [pathExists, canonicalize_meta hid hn hdir hserial, walk_none metaJson_not_dots hmeta]
      rfl

/-- A link is replaced in `s`, which is `t` or has the content of the entry besides. -/
def Relinked (pid : Nat) (e : ManifestEntry) (t : Files) (d : Dirs) : Prop :=
  ∃ s, (s = t ∨ Vacant t (serialDir e) ∧ s = placed e (made t e.id)) ∧
    s.lookup [e.id, tmpName pid] ≠ some .dir ∧ d.images = linked pid e.id (dirName e.serial) s

variable (hc : dirName e.serial ≠ "current")

include hc

theorem syncEntry_cases {io : Io} {d : Dirs} (heq : syncEntry pid io e ⟨t, staged⟩ = (d, true)) :
    Laid d.images ∧ (((d.images = t ∨ d.images = made t e.id) ∧
        (io.stat && pathExists t (serialDir e ++ ["meta.json"])) = false) ∨
      Relinked pid e t d) := by
  have hlink : ∀ {s : Files}, Laid s → s.lookup [e.id] = some .dir →
      (s = t ∨ Vacant t (serialDir e) ∧ s = placed e (made t e.id)) →
      linkEntry pid io e ⟨s, staged⟩ = (d, true) → Laid d.images ∧ Relinked pid e t d := by
    intro s hs hdir hfrom heq
    obtain ⟨hd, hok⟩ := Prod.mk.inj heq
    obtain ⟨-, htmp, hlinked⟩ := (replaceSymlink_eq_iff hs hid hdir hn).mp (Prod.ext rfl hok)
    have himages : d.images = linked pid e.id (dirName e.serial) s :=
      (congrArg Dirs.images hd).symm.trans hlinked
    exact ⟨himages ▸ hs.linked hid hdir htmp hn, s, hfrom, htmp, himages⟩
  rw [syncEntry] at heq
  split at heq
  · rename_i hexists
    obtain ⟨q, hpath⟩ := Option.isSome_iff_exists.mp (Bool.and_eq_true_iff.mp hexists).2
    obtain ⟨hlaid, hlinked⟩ := hlink h (h.image_of_path hid hpath) (.inl rfl) heq
    exact ⟨hlaid, .inr hlinked⟩
  · rename_i hmissing
    have hdir := lookup_made_self h hid
    split at heq
    · rename_i hfetch
      cases heq
      have hd := fetchEntry_false h hid hn hfetch
      refine ⟨?_, .inl ⟨hd, Bool.eq_false_iff.mpr hmissing⟩⟩
      rcases hd with hd | hd
      · exact hd ▸ h
      · exact hd ▸ h.made
    · rename_i hfetch
      obtain ⟨-, -, hvacant, rfl⟩ := (fetchEntry_eq_iff h hid hn).mp hfetch
      obtain ⟨hlaid, hlinked⟩ := hlink (h.made.placed hid hdir hc) (lookup_placed_top.trans hdir)
        (.inr ⟨hvacant, rfl⟩) heq
      exact ⟨hlaid, .inr hlinked⟩

theorem settled_of_current {d : Dirs} {img : Image}
    (heq : syncEntry pid {} e ⟨t, staged⟩ = (d, true))
    (hcurrent : current d.images e.id = some img) (hserial : img.serial = e.serial) :
    dirName e.serial ≠ tmpName pid ∧ t.lookup [e.id, tmpName pid] ≠ some .dir ∧ Settled t e := by
  obtain ⟨hlaid, hcases⟩ := syncEntry_cases h hid hn hc heq
  obtain ⟨hdir, hmeta⟩ := hlaid.current_eq_some hid hcurrent
  rw [hserial] at hdir hmeta
  rcases hcases with ⟨hd, hmissing⟩ | ⟨s, hs, htmp, hd⟩
  · -- the content was there before, so it was found
    have hmeta' : t.lookup (serialDir e ++ ["meta.json"]) = some (.file (some img)) := by
      rcases hd with hd | hd
      · exact hd ▸ hmeta
      · rwa [hd, lookup_made (by simp)] at hmeta
    rw [(pathExists_of_meta h hid hn hmeta').2.2] at hmissing
    cases hmissing
  · rw [hd] at hdir hmeta
    have hne : dirName e.serial ≠ tmpName pid := by
      intro heq
      rw [heq, lookup_linked_tmp] at hdir
      cases hdir
    rcases hs with rfl | ⟨hvacant, rfl⟩
    · rw [lookup_linked (by simp) (by simp)] at hmeta
      exact ⟨hne, htmp, .inr ⟨img, hmeta, hserial⟩⟩
    · refine ⟨hne, ?_, .inl hvacant⟩
      rwa [lookup_placed fun hp => hne (prefix_pair.mp hp).2.symm, lookup_made (by simp)] at htmp

theorem syncEntry_of_settled (hstaged : e.id ∉ staged) (hnt : dirName e.serial ≠ tmpName pid)
    (htmp : t.lookup [e.id, tmpName pid] ≠ some .dir) (hsettled : Settled t e) :
    ∃ d, syncEntry pid {} e ⟨t, staged⟩ = (d, true) ∧
      ∃ img, current d.images e.id = some img ∧ img.serial = e.serial ∧
        (¬ Holds t e.id e.serial → img = metaOf e) := by
  -- the link is replaced in `s`, which has the content
  have hlink : ∀ {s : Files} {img : Image}, Laid s → s.lookup [e.id, tmpName pid] ≠ some .dir →
      s.lookup (serialDir e ++ ["meta.json"]) = some (.file (some img)) →
      ∃ d, linkEntry pid {} e ⟨s, staged⟩ = (d, true) ∧ current d.images e.id = some img := by
    intro s img hs htmp hmeta
    obtain ⟨hdir, hserial, -⟩ := pathExists_of_meta hs hid hn hmeta
    have hreplace : replaceSymlink pid {} (dirName e.serial) e.id s = _ :=
      (replaceSymlink_eq_iff hs hid hdir hn).mpr ⟨rfl, htmp, rfl⟩
    refine ⟨_, by rw [linkEntry, hreplace], ?_⟩
    refine current_of_link hid ?_ (AList.lookup_insert _) hn ?_ ?_
    · rw [lookup_linked (by simp) (by simp), hdir]
    · rwa [lookup_linked (by simpa using hnt) (by simpa using hc)]
    · rwa [lookup_linked (by simp) (by simp)]
  rcases hsettled with hvacant | ⟨img, hmeta, hserial⟩
  · have hdir := lookup_made_self h hid
    have htmp' : (placed e (made t e.id)).lookup [e.id, tmpName pid] ≠ some .dir := by
      rwa [lookup_placed fun hp => hnt (prefix_pair.mp hp).2.symm, lookup_made (by simp)]
    obtain ⟨d, heq, hcurrent⟩ := hlink (h.made.placed hid hdir hc) htmp' lookup_placed_meta
    refine ⟨d, ?_, metaOf e, hcurrent, rfl, fun _ => rfl⟩
    rw [syncEntry, pathExists_of_vacant h hid hn hvacant, Bool.and_false,
      if_neg Bool.false_ne_true,
      (fetchEntry_eq_iff h hid hn).mpr ⟨⟨rfl, rfl, rfl, rfl⟩, hstaged, hvacant, rfl⟩]
    exact heq
  · obtain ⟨d, heq, hcurrent⟩ := hlink h htmp hmeta
    refine ⟨d, ?_, img, hcurrent, hserial,
      fun hnot => absurd ⟨dirName e.serial, img, hmeta, hserial⟩ hnot⟩
    rwa [syncEntry, (pathExists_of_meta h hid hn hmeta).2.2, Bool.and_self, if_pos rfl]

end Entry

/-! ## All turns -/

section Sync

variable {pid : Nat} {arch : String} {m : Manifest} {t : Files} {e : ManifestEntry}

theorem validId_of_accepted (h : accepted arch e = true) : validId e.id = true := by
  simp only [accepted, Bool.and_eq_true] at h
  exact h.1.1.2

/-- The state in which every entry of the manifest can have its turn. -/
structure Ready (pid : Nat) (arch : String) (m : Manifest) (t : Files) : Prop where
  laid : Laid t
  entry : ∀ e ∈ m.images, accepted arch e → t.lookup [e.id, tmpName pid] ≠ some .dir ∧ Settled t e

theorem ToldApart.plain (h : ToldApart pid arch m t) (he : e ∈ m.images)
    (ha : accepted arch e = true) : Plain pid (dirName e.serial) :=
  plain_dirName.mpr (h.named e he ha)

theorem ToldApart.components (h : ToldApart pid arch m t) (he : e ∈ m.images)
    (ha : accepted arch e = true) :
    components (serialDir e) = [e.id, dirName e.serial] ∧ dirName e.serial ≠ ".." :=
  (components_serialDir (validId_of_accepted ha)).mpr ⟨rfl, (h.plain he ha).not_dots⟩

theorem ToldApart.ready (h : ToldApart pid arch m t) (hlaid : Laid t) : Ready pid arch m t where
  laid := hlaid
  entry e he ha := by
    obtain ⟨htmp, hfree⟩ := h.free e he ha
    refine ⟨htmp, ?_⟩
    cases hserial : t.lookup (serialDir e) with
    | none => exact .inl (.inl hserial)
    | some node =>
      have halike := dirName_eq_iff_alike.mp (dirName_dirName e.serial)
      rcases hfree (dirName e.serial) node halike hserial with ⟨rfl, hempty⟩ | hmeta
      · exact .inl (.inr ⟨hserial, hempty⟩)
      · exact .inr hmeta

/-- In the agent's layout, only the entry's own directory could be taken for it. -/
theorem Ready.free (h : Ready pid arch m t) (he : e ∈ m.images) (ha : accepted arch e = true) :
    t.lookup [e.id, tmpName pid] ≠ some .dir ∧
      ∀ n node, Alike n e.serial → t.lookup [e.id, n] = some node →
        node = .dir ∧ isEmptyDir t [e.id, n] ∨
          ∃ img, t.lookup [e.id, n, "meta.json"] = some (.file (some img)) ∧
            img.serial = e.serial := by
  obtain ⟨htmp, hsettled⟩ := h.entry e he ha
  refine ⟨htmp, fun n node halike hnode => ?_⟩
  have hn : n = dirName e.serial := by
    rw [← dirName_eq_iff_alike.mpr halike]
    exact (h.laid.shape _ _ hnode (validId_of_accepted ha)).1.symm
  subst hn
  rcases hsettled with (hnone | ⟨hdir, hempty⟩) | hmeta
  · rw [serialDir, hnode] at hnone
    cases hnone
  · rw [serialDir, hnode] at hdir
    cases hdir
    exact .inl ⟨rfl, hempty⟩
  · exact .inr hmeta

theorem Ready.step {t₀ : Files} {d d' : Dirs} (hready : Ready pid arch m d.images)
    (h : ToldApart pid arch m t₀) (he : e ∈ m.images) (ha : accepted arch e = true) {io : Io}
    (heq : syncEntry pid io e d = (d', true)) : Ready pid arch m d'.images := by
  obtain ⟨t, staged⟩ := d
  obtain ⟨hn, hc, hnt⟩ := h.plain he ha
  obtain ⟨hlaid, hcases⟩ := syncEntry_cases hready.laid (validId_of_accepted ha) hn hc heq
  refine ⟨hlaid, fun e' he' ha' => ?_⟩
  obtain ⟨htmp, hsettled⟩ := hready.entry e' he' ha'
  obtain ⟨-, hc', hnt'⟩ := h.plain he' ha'
  have hmade : (made t e.id).lookup [e'.id, tmpName pid] ≠ some .dir ∧
      Settled (made t e.id) e' :=
    ⟨by rwa [lookup_made (by simp)], hsettled.congr fun _ => lookup_made_below⟩
  have hplaced : (placed e (made t e.id)).lookup [e'.id, tmpName pid] ≠ some .dir ∧
      Settled (placed e (made t e.id)) e' := by
    refine ⟨by rwa [lookup_placed fun hp => hnt (prefix_pair.mp hp).2.symm,
      lookup_made (by simp)], ?_⟩
    by_cases hsame : serialDir e' = serialDir e
    · obtain ⟨hids, hnames⟩ : e'.id = e.id ∧ dirName e'.serial = dirName e.serial := by
        simpa [serialDir] using hsame
      have hserial : e'.serial = e.serial := by
        by_contra hne
        exact h.apart e' he' e he ha' ha hids hne (dirName_eq_iff_alike.mp hnames)
      exact .inr ⟨metaOf e, hsame ▸ lookup_placed_meta, hserial.symm⟩
    · refine hmade.2.congr fun k hk => lookup_placed fun hk' => hsame ?_
      exact (List.prefix_of_prefix_length_le hk hk' le_rfl).eq_of_length rfl
  rcases hcases with ⟨hd | hd, -⟩ | ⟨s, hs, -, hd⟩ <;> rw [hd]
  · exact ⟨htmp, hsettled⟩
  · exact hmade
  · obtain ⟨hstmp, hsettled'⟩ : s.lookup [e'.id, tmpName pid] ≠ some .dir ∧ Settled s e' := by
      rcases hs with rfl | ⟨-, rfl⟩
      · exact ⟨htmp, hsettled⟩
      · exact hplaced
    constructor
    · by_cases hids : e'.id = e.id
      · rw [hids, lookup_linked_tmp]
        exact (Option.some_ne_none _).symm
      · rwa [lookup_linked (by simp [hids]) (by simp [hids])]
    · refine hsettled'.congr fun k hk => lookup_linked ?_ ?_
      · rintro rfl
        exact hnt' (prefix_pair.mp hk).2.symm
      · rintro rfl
        exact hc' (prefix_pair.mp hk).2.symm

theorem Ready.syncInto {t₀ : Files} {d d' : Dirs} (h : ToldApart pid arch m t₀)
    {es : List ManifestEntry} (hes : es ⊆ m.images) {io : Nat → Io}
    (hready : Ready pid arch m d.images) (heq : syncInto pid arch io es d = (d', true)) :
    Ready pid arch m d'.images := by
  induction es generalizing io d with
  | nil =>
    cases heq
    exact hready
  | cons e es ih =>
    have hrest : es ⊆ m.images := fun x hx => hes (.tail _ hx)
    rw [ImageSync.syncInto] at heq
    split at heq
    · rename_i ha
      cases hturn : syncEntry pid (io 0) e d with
      | mk d₁ ok =>
        rw [hturn] at heq
        cases ok with
        | false => cases heq
        | true => exact ih hrest (hready.step h (hes (.head _)) ha hturn) heq
    · exact ih hrest hready heq

theorem syncInto_skip (pid : Nat) (arch : String) (es : List ManifestEntry) (d : Dirs) :
    syncInto pid arch (fun _ => { stat := false, fetched := false }) es d = (d, true) := by
  induction es with
  | nil => rfl
  | cons e es ih =>
    rw [syncInto]
    split <;> exact ih

theorem OwnDirectories.turn (h : OwnDirectories pid arch m t) (hlaid : Laid t)
    (he : e ∈ m.images) (ha : accepted arch e = true) : Plain pid (dirName e.serial) ∧
      t.lookup [e.id, tmpName pid] ≠ some .dir ∧ Settled t e := by
  have hid := validId_of_accepted ha
  obtain ⟨name, hcomponents, hup, hc⟩ := h.inside e he ha
  obtain ⟨rfl, hn⟩ := (components_serialDir hid).mp ⟨hcomponents, hup⟩
  obtain ⟨before, after, hsplit⟩ := List.append_of_mem he
  obtain ⟨d, heq, img, hcurrent, hserial, -⟩ :=
    h.content before e after hsplit ha _ _ (syncInto_skip pid arch before _) List.not_mem_nil
  obtain ⟨hnt, htmp, hsettled⟩ := settled_of_current hlaid hid hn hc heq hcurrent hserial
  exact ⟨⟨hn, hc, hnt⟩, htmp, hsettled⟩

/-- In the agent's layout, the serials of a manifest have directories to themselves exactly if
they are told apart by the characters that are kept, and nothing stands in their way. -/
theorem own_directories_iff (pid : Nat) (arch : String) (m : Manifest) (t : Files)
    (hlaid : Laid t) : OwnDirectories pid arch m t ↔ ToldApart pid arch m t := by
  constructor
  · intro h
    have hready : Ready pid arch m t := ⟨hlaid, fun e he ha => (h.turn hlaid he ha).2⟩
    refine ⟨fun e he ha => plain_dirName.mp (h.turn hlaid he ha).1,
      fun e he e' he' ha ha' hids hne halike => ?_, fun e he ha => hready.free he ha⟩
    apply h.apart e he e' he' ha ha' hids hne
    rw [serialDir, serialDir, hids, dirName_eq_iff_alike.mpr halike]
  · intro h
    refine ⟨fun e he e' he' ha ha' hids hne hsame => ?_, fun e he ha => ?_,
      fun before e after hsplit ha io d heq hstaged => ?_⟩
    · rw [(h.components he ha).1, (h.components he' ha').1] at hsame
      have hnames : dirName e.serial = dirName e'.serial := by simpa [hids] using hsame
      exact h.apart e he e' he' ha ha' hids hne (dirName_eq_iff_alike.mp hnames)
    · obtain ⟨hcomponents, hup⟩ := h.components he ha
      exact ⟨_, hcomponents, hup, (h.plain he ha).ne_current⟩
    · have he : e ∈ m.images := hsplit ▸ List.mem_append_right _ (.head _)
      have hbefore : before ⊆ m.images := fun x hx => hsplit ▸ List.mem_append_left _ hx
      obtain ⟨hn, hc, hnt⟩ := h.plain he ha
      have hready := Ready.syncInto h hbefore (d := ⟨t, []⟩) (h.ready hlaid) heq
      obtain ⟨htmp, hsettled⟩ := hready.entry e he ha
      exact syncEntry_of_settled hready.laid (validId_of_accepted ha) hn hc hstaged hnt htmp
        hsettled

end Sync

def debianEntry (serial : String) : ManifestEntry where
  id := "debian"
  name := "Debian"
  serial := serial
  stopSignal := "SIGTERM"
  arch := "amd64"
  file := "rootfs-debian-amd64.tar.zst"
  sha256 := ""
  size := 0

theorem laid_empty : Laid (∅ : Files) :=
  ⟨fun _ _ _ h => absurd rfl h, nofun⟩

def dated : Manifest := ⟨[debianEntry "20261012_05:24", debianEntry "20261019_05:24"]⟩

theorem toldApart_dated : ToldApart 1 "amd64" dated ∅ where
  named e he _ := by
    simp only [dated, List.mem_cons, List.not_mem_nil, or_false] at he
    rcases he with rfl | rfl <;> decide
  apart e he e' he' _ _ _ hne halike := by
    have hnames := dirName_eq_iff_alike.mpr halike
    simp only [dated, List.mem_cons, List.not_mem_nil, or_false] at he he'
    rcases he with rfl | rfl <;> rcases he' with rfl | rfl <;>
      first | exact hne rfl | exact absurd hnames (by decide)
  free _ _ _ := ⟨nofun, nofun⟩

/-- The directories after a sync of the first of the two. -/
def synced : Files :=
  (syncInto 1 "amd64" (fun _ => {}) [debianEntry "20261012_05:24"] ⟨∅, []⟩).1.images

/-- The second serial has its own directory beside the first, which is on disk and current. -/
theorem own_directories_iff_dated :
    (current synced "debian").map (·.serial) = some "20261012_05:24" ∧
      OwnDirectories 1 "amd64" dated synced := by
  have hturn : (syncInto 1 "amd64" (fun _ => {}) [debianEntry "20261012_05:24"] ⟨∅, []⟩).2 =
      true := by decide +kernel
  have hready : Ready 1 "amd64" dated synced :=
    Ready.syncInto toldApart_dated (by simp [dated]) (d := ⟨∅, []⟩)
      (toldApart_dated.ready laid_empty) (Prod.ext rfl hturn)
  exact ⟨by decide +kernel, (own_directories_iff 1 "amd64" dated synced hready.laid).mpr
    { toldApart_dated with free := fun _ he ha => hready.free he ha }⟩

/-- Two serials, one directory: the second is not downloaded, and the content of the first is
current in its place. -/
theorem second_serial_lost :
    Laid (∅ : Files) ∧ (∀ e ∈ [debianEntry "1:0", debianEntry "1,0"], accepted "amd64" e) ∧
      ¬ OwnDirectories 1 "amd64" ⟨[debianEntry "1:0", debianEntry "1,0"]⟩ ∅ ∧
      (current (syncInto 1 "amd64" (fun _ => {}) [debianEntry "1:0", debianEntry "1,0"]
        ⟨∅, []⟩).1.images "debian").map (·.serial) = some "1:0" := by
  refine ⟨laid_empty, by decide, fun h => ?_, by decide +kernel⟩
  exact h.apart (debianEntry "1:0") (by decide) (debianEntry "1,0") (by decide) (by decide)
    (by decide) rfl (by decide) (by decide)

end ImageSync

end RunmanAgent
