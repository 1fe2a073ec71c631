import Dddatasync.TempNames

/-!
The store: `src/store.rs`.

* `maxFiles`, `maxFileBytes`: the limits; `files`, `canAdd`: the listing and the limit
  checks that read it.
* `add`, built from `copyToTmp` (before the lock) and `commit` (everything under it);
  `remove`, `tempFiles`, `cleanTempFiles`.
* `Faults`: the calls of one operation that fail for reasons outside the tree.
* `files_eq`: in a store whose root is a directory the listing is `visibleFiles`, with
  `mem_visibleFiles` and the counting rules `fileCount_insert_new`,
  `fileCount_insert_listed`, `fileCount_erase_listed`.
-/

namespace Dddatasync

open Fs OsString

variable {C : Type*} [HasLen C]

/-! ### The listing and the limits -/

/-- `MAX_FILES`. -/
def maxFiles : ℕ := 3

/-- `MAX_FILE_BYTES`, 100 MiB. -/
def maxFileBytes : ℕ := 104857600

/-- A listed file. -/
structure FileEntry where
  name : String
  size : ℕ
  deriving DecidableEq, Repr

/-- Why an operation of the store is refused. -/
inductive StoreError where
  | io (e : IoError)
  | noFileName
  | tooLarge (size limit : ℕ)
  | full (count limit : ℕ)
  | alreadyExists (name : OsString)
  | notInStore (name : String)
  deriving DecidableEq, Repr

/-- The text of an error; `dbg` prints a name the way `{:?}` does. -/
def StoreError.message (dbg : OsString → String) (ioText : IoError → String) :
    StoreError → String
  | .io e => ioText e
  | .noFileName => "source path has no file name"
  | .tooLarge size limit =>
      s!"file is {size} bytes, which exceeds the {limit} byte per-file limit"
  | .full count limit => s!"store already contains {count} files (limit is {limit})"
  | .alreadyExists name => s!"file {dbg name} already exists in the store"
  | .notInStore name => s!"file {dbg (ofStr name)} not found in store"

/-- The calls of one operation that fail although the tree would let them succeed: a full
disk, a permission, a device error.  A failing copy leaves nothing or a partial file. -/
structure Faults (C : Type*) where
  stat : Bool := false
  copy : Option (Option C) := none
  readDir : Bool := false
  discard : Bool := false
  rename : Bool := false
  removeFile : String → Bool := fun _ => false

/-- `name.starts_with('.')`. -/
def startsWithDot (name : String) : Bool := decide (name.toList.head? = some '.')

/-- What the loop of `files` makes of one directory entry. -/
def fileEntry (n : OsString) (x : Node C) : Option FileEntry :=
  -- dot-prefixed files: temp files, identity, lock
  if startsWithDot (toStringLossy n) then none
  else
    match x with
    | .file c => some ⟨toStringLossy n, HasLen.len c⟩
    | .dir => none

/-- `DddSync::files`. -/
def files (root : AbsPath) (io : Faults C) (fs : FileSystem C) :
    Except IoError (List FileEntry) :=
  if io.readDir then .error .other
  else
    match readDir fs ⟨root, []⟩ with
    | .error e => .error e
    | .ok es => .ok (es.filterMap fun e => fileEntry e.1 e.2)

/-- `DddSync::can_add_locked`. -/
def canAddLocked (root : AbsPath) (io : Faults C) (fs : FileSystem C) (size : ℕ) :
    Except StoreError Unit :=
  if size > maxFileBytes then .error (.tooLarge size maxFileBytes)
  else
    match files root io fs with
    | .error e => .error (.io e)
    | .ok l =>
        if l.length ≥ maxFiles then .error (.full l.length maxFiles) else .ok ()

/-- `DddSync::can_add`: the same check, under the lock for its whole duration. -/
def canAdd (root : AbsPath) (io : Faults C) (fs : FileSystem C) (size : ℕ) :
    Except StoreError Unit :=
  canAddLocked root io fs size

/-! ### Adding -/

/-- `meta.len()`; for a directory the copy fails before the length matters. -/
def nodeLen : Node C → ℕ
  | .file c => HasLen.len c
  | .dir => 0

/-- Copying the source to the temp file, outside the lock. -/
def copyToTmp (root : AbsPath) (src : PathBuf) (tmp : OsString) (io : Faults C)
    (fs : FileSystem C) : Except IoError Unit × FileSystem C :=
  match io.copy with
  | some rest =>
      -- the copy stops: what was written so far stays behind
      match rest with
      | none => (.error .other, fs)
      | some c =>
          match write fs ⟨root, tmp⟩ c with
          | .error e => (.error e, fs)
          | .ok fs' => (.error .other, fs')
  | none =>
      match copy fs src ⟨root, tmp⟩ with
      | .error e => (.error e, fs)
      | .ok fs' => (.ok (), fs')

/-- `let _ = fs::remove_file(&tmp)`: an error is ignored. -/
def discardTmp (root : AbsPath) (tmp : OsString) (io : Faults C) (fs : FileSystem C) :
    FileSystem C :=
  if io.discard then fs
  else
    match removeFile fs ⟨root, tmp⟩ with
    | .error _ => fs
    | .ok fs' => fs'

/-- The part of `add` under the lock: limit checks, existence check, rename. -/
def commit (root : AbsPath) (size : ℕ) (name tmp : OsString) (io : Faults C)
    (fs : FileSystem C) : Except StoreError Unit × FileSystem C :=
  match canAddLocked root io fs size with
  | .error e => (.error e, discardTmp root tmp io fs)
  | .ok () =>
      if pathExists fs ⟨root, name⟩ then
        (.error (.alreadyExists name), discardTmp root tmp io fs)
      else if io.rename then (.error (.io .other), fs)
      else
        match rename fs ⟨root, tmp⟩ ⟨root, name⟩ with
        | .error e => (.error (.io e), fs)
        | .ok fs' => (.ok (), fs')

/-- `DddSync::add`. -/
def add (root : AbsPath) (src : PathBuf) (stamp : Stamp) (io : Faults C)
    (fs : FileSystem C) : Except StoreError Unit × FileSystem C :=
  if io.stat then (.error (.io .other), fs)
  else
    match metadata fs src with
    | .error e => (.error (.io e), fs)
    | .ok stat =>
        match fileName src with
        | none => (.error .noFileName, fs)
        | some name =>
            match copyToTmp root src (tmpName stamp) io fs with
            | (.error e, fs') => (.error (.io e), fs')
            | (.ok (), fs') => commit root (nodeLen stat) name (tmpName stamp) io fs'

/-! ### Removing and cleaning up -/

/-- `DddSync::remove`. -/
def remove (root : AbsPath) (name : String) (io : Faults C) (fs : FileSystem C) :
    Except StoreError Unit × FileSystem C :=
  if pathExists fs ⟨root, ofStr name⟩ then
    if io.removeFile name then (.error (.io .other), fs)
    else
      match removeFile fs ⟨root, ofStr name⟩ with
      | .error e => (.error (.io e), fs)
      | .ok fs' => (.ok (), fs')
  else (.error (.notInStore name), fs)

/-- `name.starts_with(".tmp-")`. -/
def startsWithTmp (name : String) : Bool := ".tmp-".toList.isPrefixOf name.toList

/-- `DddSync::temp_files`: names as the lossy conversion gives them. -/
def tempFiles (root : AbsPath) (io : Faults C) (fs : FileSystem C) :
    Except IoError (List String) :=
  if io.readDir then .error .other
  else
    match readDir fs ⟨root, []⟩ with
    | .error e => .error e
    | .ok es => .ok ((es.map fun e => toStringLossy e.1).filter startsWithTmp)

/-- The loop of `clean_temp_files`: it stops at the first file it cannot remove. -/
def removeTemps (root : AbsPath) (io : Faults C) :
    List String → FileSystem C → Except IoError Unit × FileSystem C
  | [], fs => (.ok (), fs)
  | name :: names, fs =>
      if io.removeFile name then (.error .other, fs)
      else
        match removeFile fs ⟨root, ofStr name⟩ with
        | .error e => (.error e, fs)
        | .ok fs' => removeTemps root io names fs'

/-- `DddSync::clean_temp_files`: how many files were removed. -/
def cleanTempFiles (root : AbsPath) (io : Faults C) (fs : FileSystem C) :
    Except IoError ℕ × FileSystem C :=
  match tempFiles root io fs with
  | .error e => (.error e, fs)
  | .ok temps =>
      match removeTemps root io temps fs with
      | (.error e, fs') => (.error e, fs')
      | (.ok (), fs') => (.ok temps.length, fs')

/-! ### The listing -/

/-- The names the listing does not skip: those not starting with `.`. -/
def Visible (n : OsString) : Prop := n.head? ≠ some 46

instance (n : OsString) : Decidable (Visible n) := inferInstanceAs (Decidable (_ ≠ _))

lemma startsWithDot_toStringLossy {n : OsString} :
    startsWithDot (toStringLossy n) = true ↔ ¬ Visible n := by
  rw [startsWithDot, decide_eq_true_iff, head?_toStringLossy (by decide) (by decide), Visible,
    not_not]
  rfl

lemma visible_ofStr {s : String} : Visible (ofStr s) ↔ startsWithDot s = false := by
  rw [← Bool.not_eq_true, ← toStringLossy_ofStr s, startsWithDot_toStringLossy,
    toStringLossy_ofStr, not_not]

lemma fileEntry_file (n : OsString) (c : C) :
    fileEntry n (.file c)
      = if Visible n then some ⟨toStringLossy n, HasLen.len c⟩ else none := by
  rw [fileEntry]
  by_cases h : Visible n
  · rw [if_neg (by rw [startsWithDot_toStringLossy]; exact not_not.mpr h), if_pos h]
  · rw [if_pos (startsWithDot_toStringLossy.mpr h), if_neg h]

@[simp]
lemma fileEntry_dir (n : OsString) : fileEntry n (.dir : Node C) = none := by
  rw [fileEntry]
  split <;> rfl

/-- What `files` returns when the root is a directory that can be read. -/
def visibleFiles (root : AbsPath) (fs : FileSystem C) : List FileEntry :=
  (children fs root).filterMap fun e => fileEntry e.1 e.2

/-- The count `can_add_locked` compares with `MAX_FILES`. -/
def fileCount (root : AbsPath) (fs : FileSystem C) : ℕ := (visibleFiles root fs).length

omit [HasLen C] in
lemma readDir_root {root : AbsPath} {fs : FileSystem C} (h : node fs root = some .dir) :
    readDir fs ⟨root, []⟩ = .ok (children fs root) := by
  simp [readDir, metadata, h]

/-- With a readable root the listing is exactly the visible regular files. -/
lemma files_eq {root : AbsPath} {io : Faults C} {fs : FileSystem C}
    (h : node fs root = some .dir) (hio : io.readDir = false) :
    files root io fs = .ok (visibleFiles root fs) := by
  rw [files, hio, readDir_root h]
  rfl

/-- The listing succeeds only when the root is a directory. -/
lemma eq_visibleFiles_of_files {root : AbsPath} {io : Faults C} {fs : FileSystem C}
    {l : List FileEntry} (h : files root io fs = .ok l) :
    node fs root = some .dir ∧ l = visibleFiles root fs := by
  rw [files, readDir, metadata, resolve_nil] at h
  cases hio : io.readDir with
  | true => simp [hio] at h
  | false =>
      cases hn : node fs root with
      | none => simp [hio, hn] at h
      | some x =>
          cases x with
          | file c => simp [hio, hn] at h
          | dir =>
              simp only [hio, hn, Bool.false_eq_true, if_false, Except.ok.injEq] at h
              exact ⟨rfl, h.symm⟩

lemma mem_visibleFiles {root : AbsPath} {fs : FileSystem C} {e : FileEntry} :
    e ∈ visibleFiles root fs ↔ ∃ n c, entry fs root n = some (.file c) ∧ Visible n
      ∧ e = ⟨toStringLossy n, HasLen.len c⟩ := by
  rw [visibleFiles, List.mem_filterMap]
  constructor
  · rintro ⟨⟨n, x⟩, hmem, hf⟩
    rw [mem_children] at hmem
    cases x with
    | dir => simp at hf
    | file c =>
        rw [fileEntry_file] at hf
        split_ifs at hf with hv
        exact ⟨n, c, hmem, hv, (Option.some.inj hf).symm⟩
  · rintro ⟨n, c, hent, hv, rfl⟩
    exact ⟨(n, .file c), mem_children.mpr hent, by rw [fileEntry_file, if_pos hv]⟩

/-- The selection the count makes on the whole tree. -/
lemma visibleFiles_eq_collect (root : AbsPath) (fs : FileSystem C) :
    visibleFiles root fs
      = AssocMap.collect (fun p x => (childOf root p).bind fun n => fileEntry n x) fs := by
  rw [visibleFiles, children, AssocMap.collect, AssocMap.collect, List.filterMap_filterMap]
  congr 1
  funext e
  cases childOf root e.1 <;> rfl

/-- Whether the listing has an entry for the name `n`. -/
def Listed (root : AbsPath) (fs : FileSystem C) (n : OsString) : Prop :=
  Visible n ∧ ∃ c, entry fs root n = some (.file c)

private lemma picked_child {root : AbsPath} {fs : FileSystem C} {n : OsString} :
    AssocMap.picked (fun p x => (childOf root p).bind fun n => fileEntry n x) fs (root ++ [n])
      = (((entry fs root n).bind (fileEntry n)).isSome).toNat := by
  rw [AssocMap.picked, entry]
  have hc : childOf root (root ++ [n]) = some n := childOf_eq_some.mpr rfl
  simp [hc]

/-- Trees with the same visible entries in the root have the same listing up to order. -/
lemma visibleFiles_perm {root : AbsPath} {fs fs' : FileSystem C}
    (h : ∀ n, Visible n → entry fs' root n = entry fs root n) :
    (visibleFiles root fs').Perm (visibleFiles root fs) := by
  rw [visibleFiles_eq_collect, visibleFiles_eq_collect]
  refine AssocMap.collect_perm _ fun p => ?_
  cases hc : childOf root p with
  | none => simp
  | some n =>
      obtain rfl := childOf_eq_some.mp hc
      by_cases hv : Visible n
      · have := h n hv
        rw [entry, entry] at this
        rw [this]
      · have hskip : ∀ x : Node C, fileEntry n x = none := by
          intro x
          cases x with
          | dir => simp
          | file c => rw [fileEntry_file, if_neg hv]
        simp [hskip]

lemma fileCount_congr {root : AbsPath} {fs fs' : FileSystem C}
    (h : ∀ n, Visible n → entry fs' root n = entry fs root n) :
    fileCount root fs' = fileCount root fs :=
  (visibleFiles_perm h).length_eq

/-- A new visible file adds one to the count. -/
lemma fileCount_insert_new {root : AbsPath} {fs : FileSystem C} {n : OsString} (c : C)
    (hv : Visible n) (hnew : ¬ Listed root fs n) :
    fileCount root (fs.insert (root ++ [n]) (.file c)) = fileCount root fs + 1 := by
  have h := AssocMap.length_collect_insert
    (fun p x => (childOf root p).bind fun n => fileEntry n x) fs (root ++ [n]) (.file c)
  have hc : childOf root (root ++ [n]) = some n := childOf_eq_some.mpr rfl
  have hnone : (entry fs root n).bind (fileEntry n) = none := by
    cases he : entry fs root n with
    | none => rfl
    | some x =>
        cases x with
        | dir => simp
        | file c' => exact absurd ⟨hv, c', he⟩ hnew
  rw [picked_child, hnone, hc] at h
  simpa [fileCount, visibleFiles_eq_collect, fileEntry_file, hv] using h

/-- Replacing a listed file leaves the count as it is. -/
lemma fileCount_insert_listed {root : AbsPath} {fs : FileSystem C} {n : OsString} (c : C)
    (hl : Listed root fs n) :
    fileCount root (fs.insert (root ++ [n]) (.file c)) = fileCount root fs := by
  have h := AssocMap.length_collect_insert
    (fun p x => (childOf root p).bind fun n => fileEntry n x) fs (root ++ [n]) (.file c)
  have hc : childOf root (root ++ [n]) = some n := childOf_eq_some.mpr rfl
  obtain ⟨hv, c', he⟩ := hl
  rw [picked_child, he, hc] at h
  simpa [fileCount, visibleFiles_eq_collect, fileEntry_file, hv] using h

/-- Taking a listed file out takes one off the count. -/
lemma fileCount_erase_listed {root : AbsPath} {fs : FileSystem C} {n : OsString}
    (hl : Listed root fs n) :
    fileCount root fs = fileCount root (fs.erase (root ++ [n])) + 1 := by
  have h := AssocMap.length_collect_erase
    (fun p x => (childOf root p).bind fun n => fileEntry n x) fs (root ++ [n])
  obtain ⟨hv, c', he⟩ := hl
  rw [picked_child, he] at h
  simpa [fileCount, visibleFiles_eq_collect, fileEntry_file, hv] using h

/-- There are at most as many visible files as names in a list that has them all. -/
lemma fileCount_le_of_cover {root : AbsPath} {fs : FileSystem C} {names : List OsString}
    (h : ∀ n, Listed root fs n → n ∈ names) : fileCount root fs ≤ names.length := by
  induction names generalizing fs with
  | nil =>
      refine Nat.le_zero.mpr (List.length_eq_zero_iff.mpr (List.eq_nil_iff_forall_not_mem.mpr ?_))
      intro e he
      obtain ⟨n, c, hc, hv, -⟩ := mem_visibleFiles.mp he
      exact List.not_mem_nil (h n ⟨hv, c, hc⟩)
  | cons m names ih =>
      by_cases hm : Listed root fs m
      · rw [fileCount_erase_listed hm, List.length_cons]
        refine Nat.succ_le_succ (ih fun n hn => ?_)
        obtain ⟨hv, c, hc⟩ := hn
        have hne : n ≠ m := by
          rintro rfl
          rw [entry_erase_self] at hc
          cases hc
        rw [entry_erase_of_ne fs (by simpa using hne)] at hc
        exact (List.mem_cons.mp (h n ⟨hv, c, hc⟩)).resolve_left hne
      · refine (ih fun n hn => ?_).trans (Nat.le_succ _)
        refine (List.mem_cons.mp (h n hn)).resolve_left ?_
        rintro rfl
        exact hm hn

/-! ### The limit check -/

/-- The check lets through exactly the sizes and counts below the limits. -/
lemma canAddLocked_eq_ok_iff {root : AbsPath} {fs : FileSystem C} (io : Faults C) (size : ℕ)
    (h : node fs root = some .dir) (hio : io.readDir = false) :
    canAddLocked root io fs size = .ok ()
      ↔ size ≤ maxFileBytes ∧ fileCount root fs < maxFiles := by
  rw [canAddLocked, files_eq h hio, fileCount]
  by_cases hs : size > maxFileBytes
  · simp only [if_pos hs, reduceCtorEq, false_iff]
    omega
  · by_cases hc : (visibleFiles root fs).length ≥ maxFiles
    · simp only [if_neg hs, if_pos hc, reduceCtorEq, false_iff]
      omega
    · simp only [if_neg hs, if_neg hc, true_iff]
      omega

/-! ### A full store -/

/-- A store with the three files `a`, `b` and `c`. -/
def threeFiles : FileSystem (List UInt8) :=
  (((AList.insert [ofStr "store"] .dir ∅).insert [ofStr "store", ofStr "a"] (.file [1])).insert
    [ofStr "store", ofStr "b"] (.file [2])).insert [ofStr "store", ofStr "c"] (.file [3])

end Dddatasync
