import Mathlib

/-!
# File trees

Directories, files and symbolic links below one directory, by their paths, with the
resolution of paths as a kernel does it: empty components and `.` stay, `..` goes up, links
are followed from the directory that holds them, and only so often.

* `canonicalize`, `pathExists`, `read`: a path is resolved, its last component included.
* `moveDir`: `rename` of a directory from elsewhere; it replaces only an empty directory.
* `replaceLink`: a link is made under a temporary name and renamed over the old one.
-/

namespace RunmanAgent.FileTree

inductive Node (α : Type) where
  | dir
  | file (content : α)
  | link (target : List String)
  deriving DecidableEq

/-- The nodes below one directory, which itself has the empty path. -/
abbrev Tree (α : Type) := AList fun _ : List String => Node α

variable {α : Type}

/-- The components that do not name an entry of a directory. -/
def dots : List String := ["", ".", ".."]

/-! ## Paths -/

/-- The way from `here`; `follow` goes on from a link. -/
def walk (t : Tree α) (follow : List String → List String → Option (List String)) :
    List String → List String → Option (List String)
  | here, [] => some here
  | here, c :: rest =>
    if c = "" ∨ c = "." then walk t follow here rest
    else if c = ".." then walk t follow here.dropLast rest
    else
      match t.lookup (here ++ [c]) with
      | some .dir => walk t follow (here ++ [c]) rest
      | some (.file _) => if rest = [] then some (here ++ [c]) else none
      | some (.link target) => follow here (target ++ rest)
      | none => none

/-- The way with at most `n` links. -/
def resolve (t : Tree α) : Nat → List String → List String → Option (List String)
  | 0 => walk t fun _ _ => none
  | n + 1 => walk t (resolve t n)

/-- Linux gives up at the forty-first link. -/
def canonicalize (t : Tree α) (p : List String) : Option (List String) := resolve t 40 [] p

def pathExists (t : Tree α) (p : List String) : Bool := (canonicalize t p).isSome

def read (t : Tree α) (p : List String) : Option α :=
  (canonicalize t p).bind fun q =>
    match t.lookup q with
    | some (.file content) => some content
    | _ => none

def isDir (t : Tree α) (p : List String) : Bool :=
  match canonicalize t p with
  | some [] => true
  | some q =>
    match t.lookup q with
    | some .dir => true
    | _ => false
  | none => false

/-- Where an entry of the last name of `p` is made or replaced: the directory is resolved, the
name is not. A slash at the end is dropped. -/
def destination (t : Tree α) (p : List String) : Option (List String) :=
  match p.reverse.dropWhile (· = "") with
  | [] => none
  | name :: up =>
    if name = "." ∨ name = ".." then none
    else if isDir t up.reverse then (canonicalize t up.reverse).map (· ++ [name])
    else none

/-! ## Changes -/

def isEmptyDir (t : Tree α) (q : List String) : Bool :=
  t.keys.all fun k => !(q.isPrefixOf k) || k == q

/-- `create_dir` that accepts a directory which is there. -/
def mkdir (t : Tree α) (p : List String) : Option (Tree α) :=
  if isDir t p then some t
  else
    match destination t p with
    | some q => if (t.lookup q).isNone then some (t.insert q .dir) else none
    | none => none

/-- The nodes of `content`, by their paths from `q`. -/
def place (t : Tree α) (q : List String) (content : List (List String × Node α)) : Tree α :=
  content.foldl (fun t e => t.insert (q ++ e.1) e.2) t

/-- `rename` of a directory with the given content. -/
def moveDir (t : Tree α) (content : List (List String × Node α)) (p : List String) :
    Option (Tree α) :=
  match destination t p with
  | none => none
  | some q =>
    match t.lookup q with
    | none => some (place t q content)
    | some .dir => if isEmptyDir t q then some (place t q content) else none
    | some _ => none

/-- `remove_file`, with its error ignored. -/
def removeFile (t : Tree α) (p : List String) : Tree α :=
  match destination t p with
  | none => t
  | some q =>
    match t.lookup q with
    | some .dir => t
    | _ => t.erase q

/-- A link to `target` is made at `tmp` and renamed to `link`; the answer is whether both
succeeded. -/
def replaceLink (t : Tree α) (tmp link : List String) (target : String) : Tree α × Bool :=
  let t := removeFile t tmp
  match destination t tmp, destination t link with
  | some q, some l =>
    if target = "" ∨ (t.lookup q).isSome then (t, false)
    else
      match t.lookup l with
      | some .dir => (t.insert q (.link [target]), false)
      | _ => (t.insert l (.link [target]), true)
  | _, _ => (t, false)

/-! ## Walking -/

section Walk

variable {t : Tree α} {follow : List String → List String → Option (List String)}
  {here rest : List String} {c : String} (hc : c ∉ dots)

include hc

theorem walk_name : walk t follow here (c :: rest) =
    match t.lookup (here ++ [c]) with
    | some .dir => walk t follow (here ++ [c]) rest
    | some (.file _) => if rest = [] then some (here ++ [c]) else none
    | some (.link target) => follow here (target ++ rest)
    | none => none := by
  simp only [dots, List.mem_cons, List.not_mem_nil, or_false, not_or] at hc
  rw [walk, if_neg (not_or.mpr ⟨hc.1, hc.2.1⟩), if_neg hc.2.2]

theorem walk_dir (h : t.lookup (here ++ [c]) = some .dir) :
    walk t follow here (c :: rest) = walk t follow (here ++ [c]) rest := by
  rw [walk_name hc, h]

theorem walk_none (h : t.lookup (here ++ [c]) = none) :
    walk t follow here (c :: rest) = none := by
  rw [walk_name hc, h]

theorem walk_link {target : List String} (h : t.lookup (here ++ [c]) = some (.link target)) :
    walk t follow here (c :: rest) = follow here (target ++ rest) := by
  rw [walk_name hc, h]

theorem walk_file {content : α} (h : t.lookup (here ++ [c]) = some (.file content)) :
    walk t follow here [c] = some (here ++ [c]) := by
  rw [walk_name hc, h]
  rfl

end Walk

section Top

variable {t : Tree α} {a b : String}

theorem isDir_of_lookup (ha : a ∉ dots) (h : t.lookup [a] = some .dir) :
    canonicalize t [a] = some [a] ∧ isDir t [a] = true := by
  have hwalk : canonicalize t [a] = some [a] := by
    rw [canonicalize, resolve, walk_dir ha h]
    rfl
  refine ⟨hwalk, ?_⟩
  rw [isDir, hwalk]
  simp only [h]

theorem destination_top (ha : a ∉ dots) : destination t [a] = some [a] := by
  simp only [dots, List.mem_cons, List.not_mem_nil, or_false, not_or] at ha
  have hstrip : [a].reverse.dropWhile (· = "") = [a] := by simp [ha.1]
  rw [destination, hstrip]
  dsimp only
  rw [if_neg (not_or.mpr ha.2)]
  rfl

theorem destination_sub (ha : a ∉ dots) (hb : b ∉ dots) (h : t.lookup [a] = some .dir) :
    destination t [a, b] = some [a, b] := by
  obtain ⟨hcanonical, hdir⟩ := isDir_of_lookup ha h
  simp only [dots, List.mem_cons, List.not_mem_nil, or_false, not_or] at hb
  have hstrip : [a, b].reverse.dropWhile (· = "") = [b, a] := by simp [hb.1]
  rw [destination, hstrip]
  dsimp only
  rw [if_neg (not_or.mpr hb.2), List.reverse_singleton, if_pos hdir, hcanonical]
  rfl

end Top

/-! ## Changed trees -/

section Changed

variable {t : Tree α} {k : List String} {c : String} {node : Node α}

theorem isEmptyDir_iff :
    isEmptyDir t k = true ↔ ∀ q, k <+: q → q ≠ k → t.lookup q = none := by
  rw [isEmptyDir, List.all_eq_true]
  refine forall_congr' fun q => ?_
  rw [Bool.or_eq_true, Bool.not_eq_true', beq_iff_eq, AList.lookup_eq_none,
    ← Bool.not_eq_true, List.isPrefixOf_iff_prefix]
  tauto

/-- What has a path has directories above it. -/
def Closed (t : Tree α) : Prop :=
  ∀ k c, k ≠ [] → t.lookup (k ++ [c]) ≠ none → t.lookup k = some .dir

theorem Closed.insert (h : Closed t) (hk : k ≠ [] → t.lookup k = some .dir)
    (hnode : t.lookup (k ++ [c]) = some .dir → node = .dir) :
    Closed (t.insert (k ++ [c]) node) := by
  intro q d hq hlookup
  have hold : t.lookup q = some .dir := by
    by_cases hqk : q ++ [d] = k ++ [c]
    · obtain ⟨rfl, -⟩ := List.append_inj' hqk rfl
      exact hk hq
    · rw [AList.lookup_insert_ne hqk] at hlookup
      exact h q d hq hlookup
  by_cases hself : q = k ++ [c]
  · subst hself
    rw [AList.lookup_insert, hnode hold]
  · rw [AList.lookup_insert_ne hself, hold]

theorem Closed.erase (h : Closed t) (hk : t.lookup k ≠ some .dir) : Closed (t.erase k) := by
  intro q d hq hlookup
  have hne : q ++ [d] ≠ k := by
    rintro rfl
    exact hlookup (AList.lookup_erase _ _)
  rw [AList.lookup_erase_ne hne] at hlookup
  have hold := h q d hq hlookup
  have hqk : q ≠ k := by
    rintro rfl
    exact hk hold
  rw [AList.lookup_erase_ne hqk, hold]

/-- Every node fits its path. -/
def All (P : List String → Node α → Prop) (t : Tree α) : Prop :=
  ∀ k node, t.lookup k = some node → P k node

theorem All.insert {P : List String → Node α → Prop} (h : All P t) (hk : P k node) :
    All P (t.insert k node) := by
  intro q node' hlookup
  by_cases hq : q = k
  · subst hq
    rw [AList.lookup_insert] at hlookup
    cases hlookup
    exact hk
  · rw [AList.lookup_insert_ne hq] at hlookup
    exact h q node' hlookup

theorem All.erase {P : List String → Node α → Prop} (h : All P t) : All P (t.erase k) := by
  intro q node' hlookup
  by_cases hq : q = k
  · rw [hq, AList.lookup_erase] at hlookup
    cases hlookup
  · rw [AList.lookup_erase_ne hq] at hlookup
    exact h q node' hlookup

end Changed

end RunmanAgent.FileTree
