import Dddatasync.Library.FileSystem

/-!
A tree with every kind of entry: regular files, directories, symbolic links, and special files
(pipes, sockets, devices).

* `Inode`, `LinkTree`: the entries; `ofTree`: a tree of files and directories as such a tree.
* `walk`, `resolve`: from a path to the place it denotes, through at most `maxLinks` links, the
  last component followed or not.
* `stat`, `pathExists`, `readDir`, `unlink`: the calls; `unlink_eq_ok`: what a removal takes.
* `resolve_ofTree`, `pathExists_ofTree`, `unlink_ofTree`: without links and special files these
  are the calls on a tree of files and directories.
-/

namespace LinkFs

open Fs

/-- An entry of a tree. -/
inductive Inode (C : Type*) where
  | file (content : C)
  | dir
  | link (target : OsString)
  | special
  deriving DecidableEq

/-- A tree: the entries at the absolute paths in use. -/
abbrev LinkTree (C : Type*) := AssocMap AbsPath (Inode C)

variable {C : Type*}

/-- The number of links one path may lead through. -/
def maxLinks : ℕ := 40

/-- A regular file or a directory as an entry. -/
def ofNode : Node C → Inode C
  | .file c => .file c
  | .dir => .dir

/-- A tree without links and special files. -/
def ofTree (fs : FileSystem C) : LinkTree C := AssocMap.filterMap (fun _ x => some (ofNode x)) fs

/-- The entry at an absolute path; `/` itself is always a directory. -/
def inode (t : LinkTree C) (p : AbsPath) : Option (Inode C) :=
  if p = [] then some .dir else t.lookup p

/-- The entry `n` of the directory `d`. -/
def entry (t : LinkTree C) (d : AbsPath) (n : OsString) : Option (Inode C) := t.lookup (d ++ [n])

/-! ### Paths -/

/-- Follow components from the directory `cur`; `jump` goes on behind a link.  Where the last
component is not followed, a link there is the place, unless a slash follows it. -/
def walkFrom (t : LinkTree C) (follow : Bool)
    (jump : AbsPath → List OsString → Except IoError AbsPath) :
    AbsPath → List OsString → Except IoError AbsPath
  | cur, [] => .ok cur
  | cur, c :: rest =>
      if c = [] ∨ c = dot then walkFrom t follow jump cur rest
      else if c = dotdot then walkFrom t follow jump cur.dropLast rest
      else
        match inode t (cur ++ [c]) with
        | some .dir => walkFrom t follow jump (cur ++ [c]) rest
        | none => if rest = [] then .ok (cur ++ [c]) else .error .notFound
        | some (.link target) =>
            if follow = false ∧ ∀ r ∈ rest, r = [] then
              if rest = [] then .ok (cur ++ [c]) else .error .notADirectory
            else
              jump (if target.head? = some slash then [] else cur)
                (target.splitOn slash ++ rest)
        | some _ => if rest = [] then .ok (cur ++ [c]) else .error .notADirectory

/-- Follow components through at most so many links. -/
def walk (t : LinkTree C) (follow : Bool) : ℕ → AbsPath → List OsString → Except IoError AbsPath
  | 0 => walkFrom t follow fun _ _ => .error .filesystemLoop
  | links + 1 => walkFrom t follow (walk t follow links)

/-- The place a path denotes.  A zero byte is refused before anything is looked up. -/
def resolve (t : LinkTree C) (follow : Bool) (p : PathBuf) : Except IoError AbsPath :=
  if 0 ∈ p.text then .error .invalidInput
  else walk t follow maxLinks (if p.text.head? = some slash then [] else p.base)
    (p.text.splitOn slash)

/-! ### Calls -/

/-- `fs::metadata`: the entry a path leads to. -/
def stat (t : LinkTree C) (p : PathBuf) : Except IoError (Inode C) :=
  match resolve t true p with
  | .error e => .error e
  | .ok q =>
      match inode t q with
      | none => .error .notFound
      | some x => .ok x

/-- `Path::exists`: a link without a target does not exist. -/
def pathExists (t : LinkTree C) (p : PathBuf) : Bool := (stat t p).isOk

/-- The entries of a directory, each as `DirEntry::metadata` gives it: links are not
followed. -/
def children (t : LinkTree C) (d : AbsPath) : List (OsString × Inode C) :=
  AssocMap.collect (fun p x => (childOf d p).map fun n => (n, x)) t

/-- `fs::read_dir`. -/
def readDir (t : LinkTree C) (p : PathBuf) : Except IoError (List (OsString × Inode C)) :=
  match resolve t true p with
  | .error e => .error e
  | .ok q =>
      match inode t q with
      | none => .error .notFound
      | some .dir => .ok (children t q)
      | some _ => .error .notADirectory

/-- `fs::remove_file`: whatever is no directory goes, a link and not what it leads to. -/
def unlink (t : LinkTree C) (p : PathBuf) : Except IoError (LinkTree C) :=
  match resolve t false p with
  | .error e => .error e
  | .ok q =>
      match inode t q with
      | none => .error .notFound
      | some .dir => .error .isADirectory
      | some _ => .ok (t.erase q)

/-- What a removal takes: an entry that is no directory, at the place of the path with its
last component not followed. -/
structure Unlinks (t : LinkTree C) (p : PathBuf) (q : AbsPath) (x : Inode C) : Prop where
  resolved : resolve t false p = .ok q
  taken : inode t q = some x
  ne_dir : x ≠ .dir

/-! ### A directory from inside -/

@[simp]
lemma inode_snoc (t : LinkTree C) (d : AbsPath) (n : OsString) :
    inode t (d ++ [n]) = entry t d n := by
  rw [inode, if_neg (by simp), entry]

lemma mem_children {t : LinkTree C} {d : AbsPath} {n : OsString} {x : Inode C} :
    (n, x) ∈ children t d ↔ entry t d n = some x := by
  rw [children, AssocMap.mem_collect, entry]
  constructor
  · rintro ⟨p, y, hl, hf⟩
    obtain ⟨m, hm, heq⟩ := Option.map_eq_some_iff.mp hf
    obtain ⟨rfl, rfl⟩ := Prod.mk.inj heq
    rwa [← childOf_eq_some.mp hm]
  · intro h
    exact ⟨d ++ [n], x, h, by rw [childOf_eq_some.mpr rfl]; rfl⟩

lemma readDir_root {t : LinkTree C} {d : AbsPath} (h : inode t d = some .dir) :
    readDir t ⟨d, []⟩ = .ok (children t d) := by
  have hres : resolve t true ⟨d, []⟩ = .ok d := rfl
  simp only [readDir, hres, h]

/-- An ordinary name denotes the entry of that name, if this is no link. -/
lemma resolve_plain (t : LinkTree C) (follow : Bool) (d : AbsPath) {n : OsString}
    (h : Plain n) (hlink : ∀ target, entry t d n = some (.link target) → follow = false) :
    resolve t follow ⟨d, n⟩ = .ok (d ++ [n]) := by
  have hhead : n.head? ≠ some slash := fun hh => h.no_slash (List.mem_of_mem_head? hh)
  rw [resolve, if_neg h.no_nul, if_neg hhead, splitOn_plain h, maxLinks, walk, walkFrom,
    if_neg (not_or.mpr ⟨h.ne_nil, h.ne_dot⟩), if_neg h.ne_dotdot, inode_snoc]
  cases hx : entry t d n with
  | none => rfl
  | some x =>
      cases x with
      | link target => simp [hlink target hx]
      | _ => rfl

lemma unlink_eq_ok {t t' : LinkTree C} {p : PathBuf} :
    unlink t p = .ok t' ↔ ∃ q x, Unlinks t p q x ∧ t' = t.erase q := by
  constructor
  · intro h
    rw [unlink] at h
    split at h
    · cases h
    · rename_i q hres
      split at h
      · cases h
      · cases h
      · rename_i x hne hx
        exact ⟨q, x, ⟨hres, hx, hne⟩, (Except.ok.inj h).symm⟩
  · rintro ⟨q, x, ⟨hres, hx, hne⟩, rfl⟩
    simp only [unlink, hres, hx]

/-! ### Trees without links -/

@[simp]
lemma lookup_ofTree (fs : FileSystem C) (p : AbsPath) :
    (ofTree fs).lookup p = (fs.lookup p).map ofNode := by
  rw [ofTree, AssocMap.lookup_filterMap]
  cases fs.lookup p <;> rfl

@[simp]
lemma inode_ofTree (fs : FileSystem C) (p : AbsPath) :
    inode (ofTree fs) p = (node fs p).map ofNode := by
  rw [inode, node, lookup_ofTree]
  split_ifs <;> rfl

lemma children_ofTree (fs : FileSystem C) (d : AbsPath) :
    children (ofTree fs) d = (Fs.children fs d).map fun e => (e.1, ofNode e.2) := by
  simp only [children, Fs.children, AssocMap.collect, ofTree, AssocMap.filterMap,
    List.filterMap_filterMap, List.map_filterMap]
  congr 1
  funext e
  simp only [Option.map_some, Option.bind_some]
  cases childOf d e.1 <;> rfl

private lemma walkFrom_ofTree (fs : FileSystem C) (follow : Bool)
    (jump : AbsPath → List OsString → Except IoError AbsPath) (cur : AbsPath)
    (cs : List OsString) : walkFrom (ofTree fs) follow jump cur cs = Fs.walk fs cur cs := by
  induction cs generalizing cur with
  | nil => rfl
  | cons c rest ih =>
      rw [walkFrom, Fs.walk, ih, ih, ih, inode_ofTree]
      cases node fs (cur ++ [c]) with
      | none => rfl
      | some x => cases x <;> rfl

/-- Without links a walk is the walk through the tree, whatever it does with the last
component. -/
lemma resolve_ofTree (fs : FileSystem C) (follow : Bool) (p : PathBuf) :
    resolve (ofTree fs) follow p = Fs.resolve fs p := by
  rw [resolve, Fs.resolve, maxLinks, walk, walkFrom_ofTree]

lemma pathExists_ofTree (fs : FileSystem C) (p : PathBuf) :
    pathExists (ofTree fs) p = Fs.pathExists fs p := by
  simp only [pathExists, stat, Fs.pathExists, metadata, resolve_ofTree]
  cases Fs.resolve fs p with
  | error e => rfl
  | ok q =>
      simp only [inode_ofTree]
      cases node fs q <;> rfl

/-- Without links `unlink` fails as `removeFile` does, and takes away what it takes. -/
lemma unlink_ofTree (fs : FileSystem C) (p : PathBuf) :
    (∃ e, unlink (ofTree fs) p = .error e ∧ removeFile fs p = .error e)
      ∨ ∃ q, unlink (ofTree fs) p = .ok ((ofTree fs).erase q)
        ∧ removeFile fs p = .ok (fs.erase q) := by
  simp only [unlink, removeFile, resolve_ofTree]
  cases Fs.resolve fs p with
  | error e => exact .inl ⟨e, rfl, rfl⟩
  | ok q =>
      simp only [inode_ofTree]
      cases node fs q with
      | none => exact .inl ⟨.notFound, rfl, rfl⟩
      | some x =>
          cases x with
          | dir => exact .inl ⟨.isADirectory, rfl, rfl⟩
          | file c => exact .inr ⟨q, rfl, rfl⟩

lemma lookup_erase_ofTree (fs : FileSystem C) (q p : AbsPath) :
    ((ofTree fs).erase q).lookup p = ((fs.erase q).lookup p).map ofNode := by
  by_cases h : p = q
  · rw [h, AList.lookup_erase, AList.lookup_erase]
    rfl
  · rw [AList.lookup_erase_ne h, AList.lookup_erase_ne h, lookup_ofTree]

end LinkFs
