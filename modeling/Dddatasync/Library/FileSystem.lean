import Dddatasync.Library.AssocMap
import Dddatasync.Library.OsString

/-!
A tree of regular files and directories with Unix path resolution, generic in what a
file holds.

* `FileSystem C`: a finite map from absolute paths to nodes; symbolic links and special
  files are not part of the tree.
* `walk`, `resolve`: from a path to the place it denotes, with `.`, `..`, doubled and
  trailing slashes and absolute paths; `resolve_plain` for a single ordinary name.
* `metadata`, `pathExists`, `isFile`, `readDir`, `write`, `copy`, `removeFile`,
  `rename`, `createDirAll`, `removeDirAll`: the calls programs make, with their errors.
* `entry`, `children`: a directory seen from inside, with `mem_children`, and one
  lemma for each call saying what it does at a resolved path.
-/

namespace Fs

/-- What a path stands for: a regular file with its content, or a directory. -/
inductive Node (C : Type*) where
  | file (content : C)
  | dir
  deriving DecidableEq

/-- An absolute path without `.`, `..` or empty components. -/
abbrev AbsPath := List OsString

/-- A file system: the nodes at the absolute paths in use. -/
abbrev FileSystem (C : Type*) := AssocMap AbsPath (Node C)

/-- A path as a program writes it: `text`, read relative to the directory `base` unless
it is absolute. -/
structure PathBuf where
  base : AbsPath
  text : OsString
  deriving DecidableEq

/-- Why a call on the file system fails. -/
inductive IoError where
  | notFound
  | notADirectory
  | isADirectory
  | alreadyExists
  | invalidInput
  | resourceBusy
  | filesystemLoop
  | other
  deriving DecidableEq, Repr

/-- Contents with a length in bytes. -/
class HasLen (C : Type*) where
  len : C → ℕ

instance : HasLen (List UInt8) := ⟨List.length⟩

variable {C : Type*}

/-! ### Paths -/

/-- The byte `/`. -/
def slash : UInt8 := 47

/-- The component `.`. -/
def dot : OsString := [46]

/-- The component `..`. -/
def dotdot : OsString := [46, 46]

/-- The node at an absolute path; `/` itself is always a directory. -/
def node (fs : FileSystem C) (p : AbsPath) : Option (Node C) :=
  if p = [] then some .dir else fs.lookup p

/-- Follow components from the directory `cur`.  Every component but the last has to be a
directory, and so has the last if a slash follows it; the last need not exist. -/
def walk (fs : FileSystem C) : AbsPath → List OsString → Except IoError AbsPath
  | cur, [] => .ok cur
  | cur, c :: rest =>
      if c = [] ∨ c = dot then walk fs cur rest
      else if c = dotdot then walk fs cur.dropLast rest
      else
        match node fs (cur ++ [c]) with
        | some .dir => walk fs (cur ++ [c]) rest
        | none => if rest = [] then .ok (cur ++ [c]) else .error .notFound
        | some (.file _) => if rest = [] then .ok (cur ++ [c]) else .error .notADirectory

/-- The place a path denotes.  A zero byte is refused before anything is looked up. -/
def resolve (fs : FileSystem C) (p : PathBuf) : Except IoError AbsPath :=
  if 0 ∈ p.text then .error .invalidInput
  else walk fs (if p.text.head? = some slash then [] else p.base) (p.text.splitOn slash)

/-- `Path::file_name`: the last component, if it is an ordinary name. -/
def fileName (p : PathBuf) : Option OsString :=
  match ((p.text.splitOn slash).filter fun c => c ≠ [] ∧ c ≠ dot).getLast? with
  | none => none
  | some c => if c = dotdot then none else some c

/-- An ordinary name: one component that is neither empty nor `.` nor `..`. -/
structure Plain (n : OsString) : Prop where
  ne_nil : n ≠ []
  ne_dot : n ≠ dot
  ne_dotdot : n ≠ dotdot
  no_slash : slash ∉ n
  no_nul : (0 : UInt8) ∉ n

lemma plain_iff {n : OsString} :
    Plain n ↔ n ≠ [] ∧ n ≠ dot ∧ n ≠ dotdot ∧ slash ∉ n ∧ (0 : UInt8) ∉ n :=
  ⟨fun h => ⟨h.1, h.2, h.3, h.4, h.5⟩, fun ⟨h1, h2, h3, h4, h5⟩ => ⟨h1, h2, h3, h4, h5⟩⟩

instance (n : OsString) : Decidable (Plain n) := decidable_of_iff _ plain_iff.symm

/-! ### Calls -/

/-- `fs::metadata`: the node a path denotes. -/
def metadata (fs : FileSystem C) (p : PathBuf) : Except IoError (Node C) :=
  match resolve fs p with
  | .error e => .error e
  | .ok q =>
      match node fs q with
      | none => .error .notFound
      | some x => .ok x

/-- `Path::exists`. -/
def pathExists (fs : FileSystem C) (p : PathBuf) : Bool := (metadata fs p).isOk

/-- `Path::is_file`. -/
def isFile (fs : FileSystem C) (p : PathBuf) : Bool :=
  match metadata fs p with
  | .ok (.file _) => true
  | _ => false

/-- The name of `p` inside the directory `d`, if `d` is its parent. -/
def childOf (d p : AbsPath) : Option OsString :=
  if p.dropLast = d then p.getLast? else none

/-- The entries of a directory, in the order the listing gives them. -/
def children (fs : FileSystem C) (d : AbsPath) : List (OsString × Node C) :=
  AssocMap.collect (fun p x => (childOf d p).map fun n => (n, x)) fs

/-- `fs::read_dir`. -/
def readDir (fs : FileSystem C) (p : PathBuf) : Except IoError (List (OsString × Node C)) :=
  match metadata fs p, resolve fs p with
  | .error e, _ => .error e
  | _, .error e => .error e
  | .ok (.file _), _ => .error .notADirectory
  | .ok .dir, .ok q => .ok (children fs q)

/-- `fs::write`: create or truncate a file and fill it. -/
def write (fs : FileSystem C) (p : PathBuf) (c : C) : Except IoError (FileSystem C) :=
  match resolve fs p with
  | .error e => .error e
  | .ok q =>
      match node fs q with
      | some .dir => .error .isADirectory
      | _ => .ok (fs.insert q (.file c))

/-- `fs::copy`: read the source, then write the target. -/
def copy (fs : FileSystem C) (p p' : PathBuf) : Except IoError (FileSystem C) :=
  match metadata fs p with
  | .error e => .error e
  | .ok .dir => .error .invalidInput
  | .ok (.file c) => write fs p' c

/-- `fs::remove_file`. -/
def removeFile (fs : FileSystem C) (p : PathBuf) : Except IoError (FileSystem C) :=
  match resolve fs p with
  | .error e => .error e
  | .ok q =>
      match node fs q with
      | none => .error .notFound
      | some .dir => .error .isADirectory
      | some (.file _) => .ok (fs.erase q)

/-- Why a file cannot be renamed onto the directory that `text` denotes: by its name it is
taken, with a slash behind the name (or as the empty text) the source would have to be a
directory, and `.`, `..` and `/` cannot be renamed onto at all. -/
def ontoDirectory (text : OsString) : IoError :=
  match ((text.splitOn slash).filter fun c => c ≠ []).getLast? with
  | none => if text = [] then .notADirectory else .resourceBusy
  | some c =>
      if c = dot ∨ c = dotdot then .resourceBusy
      else if text.getLast? = some slash then .notADirectory
      else .isADirectory

/-- `fs::rename` of a regular file: the target is replaced unless it is a directory. -/
def rename (fs : FileSystem C) (p p' : PathBuf) : Except IoError (FileSystem C) :=
  match resolve fs p, resolve fs p' with
  | .error e, _ => .error e
  | _, .error e => .error e
  | .ok q, .ok q' =>
      match node fs q, node fs q' with
      | none, _ => .error .notFound
      | some .dir, _ => .error .isADirectory
      | some (.file _), some .dir => .error (ontoDirectory p'.text)
      | some (.file c), _ => .ok ((fs.erase q).insert q' (.file c))

/-- `fs::create_dir_all` for a path whose parent exists. -/
def createDirAll (fs : FileSystem C) (p : PathBuf) : Except IoError (FileSystem C) :=
  match resolve fs p with
  | .error e => .error e
  | .ok q =>
      match node fs q with
      | none => .ok (fs.insert q .dir)
      | some .dir => .ok fs
      | some (.file _) => .error .alreadyExists

/-- `fs::remove_dir_all`: the directory and everything below it. -/
def removeDirAll (fs : FileSystem C) (p : PathBuf) : Except IoError (FileSystem C) :=
  match resolve fs p with
  | .error e => .error e
  | .ok q =>
      match node fs q with
      | none => .error .notFound
      | some (.file _) => .error .notADirectory
      | some .dir => .ok (AssocMap.filterMap (fun p x => if q <+: p then none else some x) fs)

/-! ### A directory from inside -/

/-- The entry `n` of the directory `d`. -/
def entry (fs : FileSystem C) (d : AbsPath) (n : OsString) : Option (Node C) :=
  fs.lookup (d ++ [n])

@[simp]
lemma node_snoc (fs : FileSystem C) (d : AbsPath) (n : OsString) :
    node fs (d ++ [n]) = entry fs d n := by
  rw [node, if_neg (by simp), entry]

lemma childOf_eq_some {d p : AbsPath} {n : OsString} :
    childOf d p = some n ↔ p = d ++ [n] := by
  rw [childOf]
  constructor
  · intro h
    split_ifs at h with hd
    rw [← hd]
    exact (List.dropLast_append_getLast? n h).symm
  · rintro rfl
    simp

lemma mem_children {fs : FileSystem C} {d : AbsPath} {n : OsString} {x : Node C} :
    (n, x) ∈ children fs d ↔ entry fs d n = some x := by
  rw [children, AssocMap.mem_collect, entry]
  constructor
  · rintro ⟨p, y, hl, hf⟩
    obtain ⟨m, hm, heq⟩ := Option.map_eq_some_iff.mp hf
    obtain ⟨rfl, rfl⟩ := Prod.mk.inj heq
    rwa [← childOf_eq_some.mp hm]
  · intro h
    exact ⟨d ++ [n], x, h, by rw [childOf_eq_some.mpr rfl]; rfl⟩

@[simp]
lemma entry_insert_self (fs : FileSystem C) (d : AbsPath) (n : OsString) (x : Node C) :
    entry (fs.insert (d ++ [n]) x) d n = some x := AList.lookup_insert fs

lemma entry_insert_of_ne (fs : FileSystem C) {d q : AbsPath} {n : OsString} (x : Node C)
    (h : d ++ [n] ≠ q) : entry (fs.insert q x) d n = entry fs d n :=
  AList.lookup_insert_ne h

@[simp]
lemma entry_erase_self (fs : FileSystem C) (d : AbsPath) (n : OsString) :
    entry (fs.erase (d ++ [n])) d n = none := AList.lookup_erase _ fs

lemma entry_erase_of_ne (fs : FileSystem C) {d q : AbsPath} {n : OsString}
    (h : d ++ [n] ≠ q) : entry (fs.erase q) d n = entry fs d n :=
  AList.lookup_erase_ne h

lemma node_insert_of_ne (fs : FileSystem C) {p q : AbsPath} (x : Node C) (h : p ≠ q) :
    node (fs.insert q x) p = node fs p := by
  rw [node, node, AList.lookup_insert_ne h]

lemma node_erase_of_ne (fs : FileSystem C) {p q : AbsPath} (h : p ≠ q) :
    node (fs.erase q) p = node fs p := by
  rw [node, node, AList.lookup_erase_ne h]

/-! ### Ordinary names -/

lemma splitOn_plain {n : OsString} (h : Plain n) : n.splitOn slash = [n] := by
  rw [List.splitOn_eq_splitOnP]
  refine List.splitOnP_eq_singleton fun x hx => ?_
  rw [beq_eq_false_iff_ne]
  rintro rfl
  exact h.no_slash hx

/-- A single ordinary name denotes the entry of that name, whatever the tree. -/
lemma resolve_plain (fs : FileSystem C) (d : AbsPath) {n : OsString} (h : Plain n) :
    resolve fs ⟨d, n⟩ = .ok (d ++ [n]) := by
  have hhead : n.head? ≠ some slash := fun hh => h.no_slash (List.mem_of_mem_head? hh)
  rw [resolve, if_neg h.no_nul, if_neg hhead, splitOn_plain h, walk,
    if_neg (not_or.mpr ⟨h.ne_nil, h.ne_dot⟩), if_neg h.ne_dotdot]
  cases node fs (d ++ [n]) with
  | none => rfl
  | some x => cases x <;> rfl

lemma fileName_plain (d : AbsPath) {n : OsString} (h : Plain n) :
    fileName ⟨d, n⟩ = some n := by
  simp [fileName, splitOn_plain h, h.ne_nil, h.ne_dot, h.ne_dotdot]

/-- `metadata` of an ordinary name is the entry. -/
lemma metadata_plain {fs : FileSystem C} {d : AbsPath} {n : OsString} (h : Plain n)
    {x : Node C} (hx : entry fs d n = some x) : metadata fs ⟨d, n⟩ = .ok x := by
  simp only [metadata, resolve_plain fs d h, node_snoc, hx]

lemma pathExists_plain {fs : FileSystem C} {d : AbsPath} {n : OsString} (h : Plain n) :
    pathExists fs ⟨d, n⟩ = (entry fs d n).isSome := by
  simp only [pathExists, metadata, resolve_plain fs d h, node_snoc]
  cases entry fs d n <;> rfl

/-- The empty path denotes the directory it is read in. -/
@[simp]
lemma resolve_nil (fs : FileSystem C) (d : AbsPath) : resolve fs ⟨d, []⟩ = .ok d := rfl

/-- The pieces of a split consist of elements of the list that are no separators. -/
lemma mem_of_mem_splitOnP {α : Type*} {p : α → Bool} :
    ∀ {xs l : List α}, l ∈ xs.splitOnP p → ∀ x ∈ l, x ∈ xs ∧ p x = false
  | [], l, hl, x, hx => by
      rw [List.splitOnP_nil, List.mem_singleton] at hl
      rw [hl] at hx
      exact absurd hx (by simp)
  | y :: xs, l, hl, x, hx => by
      have hcons : ∀ {l : List α}, l ∈ xs.splitOnP p → ∀ x ∈ l, x ∈ y :: xs ∧ p x = false :=
        fun hl x hx => ⟨List.mem_cons_of_mem y (mem_of_mem_splitOnP hl x hx).1,
          (mem_of_mem_splitOnP hl x hx).2⟩
      rw [List.splitOnP_cons_eq_if_modifyHead] at hl
      split_ifs at hl with hy
      · rcases List.mem_cons.mp hl with rfl | hl
        · exact absurd hx (by simp)
        · exact hcons hl x hx
      · cases hs : xs.splitOnP p with
        | nil => exact absurd hs (List.splitOnP_ne_nil p xs)
        | cons m ms =>
            rw [hs, List.modifyHead_cons] at hl
            rw [hs] at hcons
            rcases List.mem_cons.mp hl with rfl | hl
            · rcases List.mem_cons.mp hx with rfl | hx
              · exact ⟨List.mem_cons_self, by simpa using hy⟩
              · exact hcons List.mem_cons_self x hx
            · exact hcons (List.mem_cons_of_mem m hl) x hx

/-- The file name of a path without zero bytes is an ordinary name. -/
lemma plain_of_fileName {p : PathBuf} {n : OsString} (h : fileName p = some n)
    (h0 : (0 : UInt8) ∉ p.text) : Plain n := by
  rw [fileName] at h
  cases hl : ((p.text.splitOn slash).filter fun c => c ≠ [] ∧ c ≠ dot).getLast? with
  | none => rw [hl] at h; exact absurd h (by simp)
  | some c =>
      rw [hl] at h
      simp only at h
      split_ifs at h with hdd
      obtain rfl := Option.some.inj h
      obtain ⟨hmem, hc⟩ := List.mem_filter.mp (List.mem_of_getLast? hl)
      rw [decide_eq_true_iff] at hc
      rw [List.splitOn_eq_splitOnP] at hmem
      refine ⟨hc.1, hc.2, hdd, fun hs => ?_, fun hz => h0 (mem_of_mem_splitOnP hmem 0 hz).1⟩
      simpa using (mem_of_mem_splitOnP hmem slash hs).2

end Fs
