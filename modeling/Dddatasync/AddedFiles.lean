import Dddatasync.Library.Runs
import Dddatasync.StoreOps

/-!
What happens to a file that was added to a store: every operation of `DddSync` in turn.

* `StoreOp`, `StoreOp.apply`: the operations; `RootOk`: what every directory satisfies.
* `cleanTempFiles_sameVisible`: the cleanup touches nothing that can be seen.
* `Kept`: the entry has the content, is listed with its length and counted.
* `StoreOp.Removes`: a successful removal under the name itself; `StoreOp.RemovesAlias`:
  a removal whose argument is another string for the same place.
* `added_kept_iff`: from an `add` to the next removal under its name a file is kept exactly
  when its name has no leading dot and no removal goes by an alias.
-/

namespace Dddatasync

open Fs OsString Runs

variable {C : Type*} [HasLen C]

/-- One operation of `DddSync`. -/
inductive StoreOp (C : Type*) where
  | add (src : PathBuf) (stamp : Stamp) (io : Faults C)
  | remove (name : String) (io : Faults C)
  | canAdd (size : ℕ) (io : Faults C)
  | files (io : Faults C)
  | tempFiles (io : Faults C)
  | cleanTempFiles (io : Faults C)

/-- What the operation makes of the tree; the listings and the limit check only read. -/
def StoreOp.apply (root : AbsPath) (fs : FileSystem C) : StoreOp C → FileSystem C
  | .add src stamp io => (Dddatasync.add root src stamp io fs).2
  | .remove name io => (Dddatasync.remove root name io fs).2
  | .canAdd _ _ => fs
  | .files _ => fs
  | .tempFiles _ => fs
  | .cleanTempFiles io => (Dddatasync.cleanTempFiles root io fs).2

/-- The root is a directory, and its entries have no slash in their names. -/
structure RootOk (root : AbsPath) (fs : FileSystem C) : Prop where
  dir : node fs root = some .dir
  names : ∀ e ∈ children fs root, slash ∉ e.1

/-- The entry `name` of the store is a file with content `c`, which `files` lists with its
length and the limit check counts. -/
structure Kept (root : AbsPath) (name : String) (c : C) (fs : FileSystem C) : Prop where
  content : entry fs root (ofStr name) = some (.file c)
  listed : ∀ io : Faults C, io.readDir = false →
    ∃ l, files root io fs = .ok l ∧ ⟨name, HasLen.len c⟩ ∈ l
  counted : fileCount root fs = fileCount root (fs.erase (root ++ [ofStr name])) + 1

/-- A `remove` of `name` that succeeds. -/
def StoreOp.Removes (root : AbsPath) (name : String) (fs : FileSystem C) : StoreOp C → Prop
  | .remove name' io => name' = name ∧ (Dddatasync.remove root name io fs).1 = .ok ()
  | _ => False

/-- A `remove` of another string that denotes the entry `name`, which the system lets
through. -/
def StoreOp.RemovesAlias (root : AbsPath) (name : String) (fs : FileSystem C) :
    StoreOp C → Prop
  | .remove name' io => name' ≠ name
      ∧ resolve fs ⟨root, ofStr name'⟩ = .ok (root ++ [ofStr name]) ∧ io.removeFile name' = false
  | _ => False

variable {root : AbsPath} {fs fs' : FileSystem C}

/-! ### The root -/

omit [HasLen C] in
lemma rootOk_of_entry (h : RootOk root fs) (hroot : node fs' root = node fs root)
    (hentry : ∀ m x, entry fs' root m = some x → slash ∉ m ∨ entry fs root m = some x) :
    RootOk root fs' where
  dir := hroot.trans h.dir
  names := fun e he => by
    obtain ⟨m, x⟩ := e
    exact (hentry m x (mem_children.mp he)).elim id fun hm => h.names (m, x) (mem_children.mpr hm)

omit [HasLen C] in
lemma RootOk.insert (h : RootOk root fs) {n : OsString} (hn : slash ∉ n) (x : Node C) :
    RootOk root (fs.insert (root ++ [n]) x) := by
  have hsame := sameExcept_insert root n x fs
  refine rootOk_of_entry h hsame.root_eq fun m y hm => ?_
  by_cases hmn : m = n
  · exact .inl (hmn ▸ hn)
  · exact .inr (by rw [← hsame.entry_eq m hmn, hm])

omit [HasLen C] in
/-- Removing a file leaves the root as it should be. -/
lemma RootOk.erase (h : RootOk root fs) {q : AbsPath} (hq : q ≠ root) :
    RootOk root (fs.erase q) := by
  refine rootOk_of_entry h (node_erase_of_ne fs (Ne.symm hq)) fun m x hm => .inr ?_
  by_cases hmq : root ++ [m] = q
  · rw [← hmq, entry_erase_self] at hm
    cases hm
  · rwa [entry_erase_of_ne fs hmq] at hm

/-! ### The cleanup -/

omit [HasLen C] in
/-- Every name that `temp_files` returns begins with `.tmp-` and is a single component. -/
lemma mem_tempFiles (hok : RootOk root fs) {io : Faults C} {temps : List String}
    (h : tempFiles root io fs = .ok temps) {name : String} (hname : name ∈ temps) :
    startsWithTmp name ∧ slash ∉ ofStr name := by
  rw [tempFiles] at h
  split_ifs at h
  rw [readDir_root hok.dir] at h
  obtain rfl := Except.ok.inj h
  obtain ⟨hmem, htmp⟩ := List.mem_filter.mp hname
  obtain ⟨e, he, rfl⟩ := List.mem_map.mp hmem
  refine ⟨htmp, fun hslash => hok.names e he ?_⟩
  have hchar : '/' ∈ (toStringLossy e.1).toList :=
    (mem_ofStr_iff (a := '/') (by decide) _).mp hslash
  exact mem_toStringLossy (a := '/') (by decide) (by decide) hchar

lemma not_visible_of_startsWithTmp {name : String} (h : startsWithTmp name) :
    ¬ Visible (ofStr name) := by
  rw [visible_ofStr, Bool.not_eq_false, startsWithDot, decide_eq_true_iff]
  obtain ⟨rest, hrest⟩ := List.isPrefixOf_iff_prefix.mp h
  rw [← hrest]
  rfl

lemma length_of_startsWithTmp {name : String} (h : startsWithTmp name) :
    5 ≤ (ofStr name).length := by
  obtain ⟨rest, hrest⟩ := List.isPrefixOf_iff_prefix.mp h
  have hbytes : ofStr name = ofStr ".tmp-" ++ rest.flatMap String.utf8EncodeChar := by
    rw [ofStr, ← hrest, List.flatMap_append, ofStr]
  rw [hbytes, List.length_append]
  exact Nat.le_add_right 5 _

omit [HasLen C] in
/-- Removing a temp file cannot be seen. -/
lemma removeFile_temp (hok : RootOk root fs) {name : String} (htmp : startsWithTmp name)
    (hslash : slash ∉ ofStr name) (h : Fs.removeFile fs ⟨root, ofStr name⟩ = .ok fs') :
    SameVisible root fs fs' ∧ RootOk root fs' := by
  have hlen := length_of_startsWithTmp htmp
  by_cases hnul : (0 : UInt8) ∈ ofStr name
  · rw [Fs.removeFile, resolve, if_pos hnul] at h
    cases h
  · have hplain : Plain (ofStr name) := by
      refine ⟨?_, ?_, ?_, hslash, hnul⟩ <;> intro heq <;> rw [heq] at hlen
      · exact absurd hlen (by decide)
      · exact absurd hlen (by decide)
      · exact absurd hlen (by decide)
    rw [Fs.removeFile, resolve_plain fs root hplain] at h
    simp only [node_snoc] at h
    split at h
    · cases h
    · cases h
    · obtain rfl := Except.ok.inj h
      exact ⟨sameVisible_erase (not_visible_of_startsWithTmp htmp), hok.erase (by simp)⟩

omit [HasLen C] in
lemma removeTemps_sameVisible {io : Faults C} {temps : List String} (hok : RootOk root fs)
    (htemps : ∀ name ∈ temps, startsWithTmp name ∧ slash ∉ ofStr name) :
    SameVisible root fs (removeTemps root io temps fs).2
      ∧ RootOk root (removeTemps root io temps fs).2 := by
  induction temps generalizing fs with
  | nil => exact ⟨.refl fs, hok⟩
  | cons name temps ih =>
      rw [List.forall_mem_cons] at htemps
      rw [removeTemps]
      split
      · exact ⟨.refl fs, hok⟩
      · split
        · exact ⟨.refl fs, hok⟩
        · rename_i fs' hrm
          obtain ⟨hsame, hok'⟩ := removeFile_temp hok htemps.1.1 htemps.1.2 hrm
          obtain ⟨hrest, hok''⟩ := ih hok' htemps.2
          exact ⟨hsame.trans hrest, hok''⟩

omit [HasLen C] in
/-- **The cleanup touches nothing visible.** -/
theorem cleanTempFiles_sameVisible (hok : RootOk root fs) (io : Faults C) :
    SameVisible root fs (cleanTempFiles root io fs).2
      ∧ RootOk root (cleanTempFiles root io fs).2 := by
  rw [cleanTempFiles]
  cases htemps : tempFiles root io fs with
  | error e => exact ⟨.refl fs, hok⟩
  | ok temps =>
      have h : SameVisible root fs (removeTemps root io temps fs).2
          ∧ RootOk root (removeTemps root io temps fs).2 :=
        removeTemps_sameVisible hok fun name hname => mem_tempFiles hok htemps hname
      rcases hrun : removeTemps root io temps fs with ⟨r, fs'⟩
      rw [hrun] at h
      cases r with
      | error e => simpa only [hrun] using h
      | ok u => simpa only [hrun] using h

/-! ### One operation -/

/-- What it takes for a file to be kept: the entry is there, and it is visible. -/
lemma kept_iff (hok : RootOk root fs) {name : String} {c : C} :
    Kept root name c fs ↔ Visible (ofStr name) ∧ entry fs root (ofStr name) = some (.file c) := by
  constructor
  · intro h
    obtain ⟨l, hl, hmem⟩ := h.listed {} rfl
    obtain ⟨-, rfl⟩ := eq_visibleFiles_of_files hl
    obtain ⟨n, c', -, hv, heq⟩ := mem_visibleFiles.mp hmem
    have hname : name = toStringLossy n := congrArg FileEntry.name heq
    refine ⟨?_, h.content⟩
    rw [visible_ofStr, ← Bool.not_eq_true, hname, startsWithDot_toStringLossy, not_not]
    exact hv
  · rintro ⟨hv, hent⟩
    refine ⟨hent, fun io hio => ⟨_, files_eq hok.dir hio, ?_⟩, fileCount_erase_listed ⟨hv, c, hent⟩⟩
    exact mem_visibleFiles.mpr ⟨_, c, hent, hv, by rw [toStringLossy_ofStr]⟩

lemma add_rootOk (hok : RootOk root fs) {src : PathBuf} {stamp : Stamp} {io : Faults C} :
    RootOk root (add root src stamp io fs).2 := by
  have htmp := (plain_tmpName stamp).no_slash
  rcases hrun : add root src stamp io fs with ⟨r, fs'⟩
  cases r with
  | ok u =>
      obtain ⟨n, c, hadd⟩ := added_of_add hrun
      show RootOk root fs'
      rw [hadd.eq]
      exact ((hok.insert htmp _).erase (by simp)).insert hadd.plain.no_slash _
  | error e =>
      show RootOk root fs'
      obtain rfl | ⟨c, rfl | rfl⟩ := add_error hrun
      · exact hok
      · exact hok.insert htmp _
      · exact (hok.insert htmp _).erase (by simp)

/-- `add` leaves every file that is there as it is. -/
lemma add_entry {n : OsString} (hv : Visible n) {c : C} (hn : entry fs root n = some (.file c))
    {src : PathBuf} {stamp : Stamp} {io : Faults C} :
    entry (add root src stamp io fs).2 root n = some (.file c) := by
  rcases hrun : add root src stamp io fs with ⟨r, fs'⟩
  cases r with
  | ok u =>
      obtain ⟨m, d, hadd⟩ := added_of_add hrun
      have hne : n ≠ m := by
        rintro rfl
        rw [hadd.free] at hn
        cases hn
      exact (hadd.placed.entry_ne n hv hne).trans hn
  | error e => exact ((add_error_sameVisible hrun).entry_eq n hv).trans hn

omit [HasLen C] in
/-- A `remove` of a file that is there succeeds unless the system refuses. -/
lemma remove_ok {q : AbsPath} {name : String} {c : C} {io : Faults C}
    (hq : resolve fs ⟨root, ofStr name⟩ = .ok q) (hc : node fs q = some (.file c))
    (hio : io.removeFile name = false) : remove root name io fs = (.ok (), fs.erase q) := by
  simp [remove, pathExists, metadata, Fs.removeFile, hq, hc, hio, Except.isOk, Except.toBool]

omit [HasLen C] in
lemma removeFile_of_remove {name : String} {io : Faults C}
    (h : remove root name io fs = (.ok (), fs')) : io.removeFile name = false := by
  rw [remove] at h
  split at h
  · split at h
    · exact absurd (Prod.mk.inj h).1 (by simp)
    · rename_i hio
      simpa using hio
  · exact absurd (Prod.mk.inj h).1 (by simp)

/-- An operation leaves the root as it should be. -/
lemma apply_rootOk (hok : RootOk root fs) (op : StoreOp C) : RootOk root (op.apply root fs) := by
  cases op with
  | add src stamp io => exact add_rootOk hok
  | remove name io =>
      rcases hrun : Dddatasync.remove root name io fs with ⟨r, fs'⟩
      show RootOk root (Dddatasync.remove root name io fs).2
      rw [hrun]
      obtain ⟨-, q, c, -, hc, rfl⟩ | ⟨-, rfl⟩ := remove_cases hrun
      · refine hok.erase ?_
        rintro rfl
        rw [hok.dir] at hc
        cases hc
      · exact hok
  | canAdd size io => exact hok
  | files io => exact hok
  | tempFiles io => exact hok
  | cleanTempFiles io => exact (cleanTempFiles_sameVisible hok io).2

omit [HasLen C] in
/-- A `remove` under another string keeps the file exactly when the string is no alias. -/
lemma remove_entry_iff {name name' : String} {c : C}
    (hent : entry fs root (ofStr name) = some (.file c)) {io : Faults C}
    (hno : ¬ (StoreOp.remove name' io).Removes root name fs) :
    entry (remove root name' io fs).2 root (ofStr name) = some (.file c)
      ↔ ¬ (StoreOp.remove name' io).RemovesAlias root name fs := by
  rcases hrun : remove root name' io fs with ⟨r, fs'⟩
  obtain ⟨rfl, q, d, hq, hd, rfl⟩ | ⟨⟨e, rfl⟩, rfl⟩ := remove_cases hrun
  · have hne : name' ≠ name := by
      rintro rfl
      exact hno ⟨rfl, by rw [hrun]⟩
    by_cases hroot : q = root ++ [ofStr name]
    · have hgone : entry (fs.erase q) root (ofStr name) ≠ some (.file c) := by
        rw [hroot, entry_erase_self]
        simp
      refine ⟨fun h => absurd h hgone, fun h => absurd ?_ h⟩
      exact ⟨hne, hroot ▸ hq, removeFile_of_remove hrun⟩
    · refine ⟨fun _ halias => hroot ?_, fun _ => ?_⟩
      · have hq' := halias.2.1
        rw [hq] at hq'
        exact Except.ok.inj hq'
      · show entry (fs.erase q) root (ofStr name) = some (.file c)
        rw [entry_erase_of_ne fs (Ne.symm hroot), hent]
  · refine ⟨fun _ halias => ?_, fun _ => hent⟩
    have hok := remove_ok halias.2.1 (by rw [node_snoc, hent]) halias.2.2
    rw [hrun] at hok
    exact absurd (Prod.mk.inj hok).1 (by simp)

/-- **One operation** that is no removal under the name keeps a visible file exactly when it
is no removal by an alias. -/
theorem apply_kept_iff (hok : RootOk root fs) {name : String} {c : C} {op : StoreOp C}
    (hno : ¬ op.Removes root name fs) (h : Kept root name c fs) :
    Kept root name c (op.apply root fs) ↔ ¬ op.RemovesAlias root name fs := by
  obtain ⟨hv, hent⟩ := (kept_iff hok).mp h
  rw [kept_iff (apply_rootOk hok op), and_iff_right hv]
  have hsame : ∀ {fs' : FileSystem C}, entry fs' root (ofStr name) = some (.file c) →
      (entry fs' root (ofStr name) = some (.file c) ↔ ¬ False) := fun h =>
    ⟨fun _ => not_false, fun _ => h⟩
  cases op with
  | add src stamp io => exact hsame (add_entry hv hent)
  | remove name' io => exact remove_entry_iff hent hno
  | canAdd size io => exact hsame hent
  | files io => exact hsame hent
  | tempFiles io => exact hsame hent
  | cleanTempFiles io =>
      exact hsame (((cleanTempFiles_sameVisible hok io).1.entry_eq _ hv).trans hent)

/-! ### Runs -/

/-- **An added file.**  From an `add` that succeeds, and as long as no removal under its
name does, the file is kept through every run of operations exactly when its name does not
begin with a dot and no `remove` of the run denotes it by another string. -/
theorem added_kept_iff (src : PathBuf) (stamp : Stamp) (io : Faults C) {name : String} {c : C}
    (hok : RootOk root fs) (hname : fileName src = some (ofStr name))
    (hsrc : metadata fs src = .ok (.file c)) (hadd : add root src stamp io fs = (.ok (), fs'))
    {ops : List (StoreOp C)}
    (hno : Along (StoreOp.apply root) (fun fs op => ¬ op.Removes root name fs) fs' ops) :
    Throughout (StoreOp.apply root) (Kept root name c) fs' ops
      ↔ Visible (ofStr name)
        ∧ Along (StoreOp.apply root) (fun fs op => ¬ op.RemovesAlias root name fs) fs' ops := by
  have hok' : RootOk root fs' := by
    have hroot : RootOk root (add root src stamp io fs).2 := add_rootOk hok
    rwa [hadd] at hroot
  have hent : entry fs' root (ofStr name) = some (.file c) := by
    obtain ⟨n, d, h⟩ := added_of_add hadd
    obtain rfl : ofStr name = n := Option.some.inj (hname.symm.trans h.fileName)
    obtain rfl : c = d := by simpa using hsrc.symm.trans h.source
    exact h.placed.entry_self
  have hrun := fun h0 : Kept root name c fs' =>
    throughout_iff_along (J := RootOk root) (fun fs op _ hok => apply_rootOk hok op)
      (fun fs op hno hok h => apply_kept_iff hok hno h) hno hok' h0
  constructor
  · intro h
    have h0 : Kept root name c fs' := h [] List.nil_prefix
    exact ⟨((kept_iff hok').mp h0).1, (hrun h0).mp h⟩
  · rintro ⟨hv, h⟩
    exact (hrun ((kept_iff hok').mpr ⟨hv, hent⟩)).mpr h

/-- An empty store, and two files to add. -/
def twoSources : FileSystem (List UInt8) :=
  ((AList.insert [ofStr "store"] .dir ∅).insert [ofStr ".tmp-x"] (.file [7])).insert
    [ofStr "a"] (.file [8])

lemma rootOk_twoSources : RootOk [ofStr "store"] twoSources := ⟨by rfl, by decide⟩

/-- `add` takes a file whose name begins with `.tmp-`, the listing leaves it out, and the
cleanup deletes it. -/
theorem tmp_file_cleaned :
    (add [ofStr "store"] ⟨[], ofStr ".tmp-x"⟩ ⟨1, 1⟩ {} twoSources).1 = .ok ()
      ∧ entry (add [ofStr "store"] ⟨[], ofStr ".tmp-x"⟩ ⟨1, 1⟩ {} twoSources).2 [ofStr "store"]
          (ofStr ".tmp-x") = some (.file [7])
      ∧ entry ((StoreOp.cleanTempFiles {}).apply [ofStr "store"]
          (add [ofStr "store"] ⟨[], ofStr ".tmp-x"⟩ ⟨1, 1⟩ {} twoSources).2) [ofStr "store"]
          (ofStr ".tmp-x") = none
      ∧ ¬ Throughout (StoreOp.apply [ofStr "store"]) (Kept [ofStr "store"] ".tmp-x" [7])
          (add [ofStr "store"] ⟨[], ofStr ".tmp-x"⟩ ⟨1, 1⟩ {} twoSources).2
          [.cleanTempFiles {}] := by
  have hgone : entry ((StoreOp.cleanTempFiles {}).apply [ofStr "store"]
      (add [ofStr "store"] ⟨[], ofStr ".tmp-x"⟩ ⟨1, 1⟩ {} twoSources).2) [ofStr "store"]
      (ofStr ".tmp-x") = none := by decide
  refine ⟨by decide, by decide, hgone, fun h => ?_⟩
  have hkept := (h [.cleanTempFiles {}] List.prefix_rfl).content
  rw [List.foldl_cons, List.foldl_nil, hgone] at hkept
  cases hkept

theorem plain_file_kept :
    Throughout (StoreOp.apply [ofStr "store"]) (Kept [ofStr "store"] "a" [8])
        (add [ofStr "store"] ⟨[], ofStr "a"⟩ ⟨1, 1⟩ {} twoSources).2
        [.cleanTempFiles {}, .remove "b" {}]
      ↔ Visible (ofStr "a")
        ∧ Along (StoreOp.apply [ofStr "store"])
          (fun fs op => ¬ op.RemovesAlias [ofStr "store"] "a" fs)
          (add [ofStr "store"] ⟨[], ofStr "a"⟩ ⟨1, 1⟩ {} twoSources).2
          [.cleanTempFiles {}, .remove "b" {}] :=
  added_kept_iff ⟨[], ofStr "a"⟩ ⟨1, 1⟩ {} rootOk_twoSources (by rfl) (by rfl) (by rfl)
    (along_of_forall fun op hop fs => by
      simp only [List.mem_cons, List.not_mem_nil, or_false] at hop
      rcases hop with rfl | rfl <;> simp [StoreOp.Removes])

end Dddatasync
