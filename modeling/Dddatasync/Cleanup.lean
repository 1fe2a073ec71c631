import Dddatasync.AddedFiles

/-!
What the cleanup of a store finds and what it leaves: `open`, `temp_files` and
`clean_temp_files` of `src/store.rs` on any directory.

* `TmpLike`: what `temp_files` looks for; `Temporary`: the names under which `add`, `push` and
  `pull` put something of their own into the store.
* `cleanTempFiles_ok`: a cleanup that succeeds takes away what `temp_files` finds and nothing
  else; `exists_cleanTempFiles`: it can succeed if all of this can be removed.
* `Recovers`: what is left behind is found and cleaned up; `recovers_iff`: when that is so.
-/

namespace Dddatasync

open Fs OsString

variable {C : Type*}

/-! ### Statements -/

/-- The key pair of the device. -/
def identityName : OsString := ofStr ".identity"

/-- The session of the device. -/
def tokenName : OsString := ofStr ".token"

/-- What `temp_files` looks for. -/
def TmpLike (n : OsString) : Prop := startsWithTmp (toStringLossy n) = true

instance (n : OsString) : Decidable (TmpLike n) := inferInstanceAs (Decidable (_ = _))

/-- A name that `add`, `push` or `pull` makes up for something of its own. -/
def Temporary (n : OsString) : Prop :=
  ∃ t, n = tmpName t ∨ n = sendName t ∨ n = recvName t ∨ n = exportName t

/-- `DddSync::open` on the directory under the home directory: how many stale files it warns
about, if any. -/
def openStore (root : AbsPath) (io : Faults C) (fs : FileSystem C) :
    Except IoError (Option ℕ) :=
  match createDirAll fs ⟨root, []⟩ with
  | .error e => .error e
  | .ok fs' =>
      match tempFiles root io fs' with
      | .error e => .error e
      | .ok stale => .ok (if stale = [] then none else some stale.length)

/-- The root is a directory, and its entries have ordinary names. -/
structure StoreDir (root : AbsPath) (fs : FileSystem C) : Prop where
  dir : node fs root = some .dir
  plain : ∀ n x, entry fs root n = some x → Plain n

/-- What `temp_files` finds can be removed under the name it gives: the name is UTF-8, and
the entry is a file. -/
def Removable (root : AbsPath) (fs : FileSystem C) : Prop :=
  ∀ n x, entry fs root n = some x → TmpLike n → (∃ s, n = ofStr s) ∧ ∃ c, x = .file c

/-- What an operation that was cut short in the directory `fs₀` has left in `fs` is found and
cleaned up: `temp_files` reports every temporary entry, `open` warns, and a cleanup that
succeeds leaves none of them, but only the visible files, and `.identity` and `.token` as they
were before. -/
structure Recovers (root : AbsPath) (fs₀ fs : FileSystem C) : Prop where
  reported : ∀ io temps, tempFiles root io fs = .ok temps →
    ∀ n x, entry fs root n = some x → Temporary n → toStringLossy n ∈ temps
  warned : ∀ io warning, openStore root io fs = .ok warning →
    ∀ n x, entry fs root n = some x → Temporary n → warning.isSome
  cleaned : ∀ io count fs', cleanTempFiles root io fs = (.ok count, fs') →
    ∀ n x, entry fs' root n = some x → ¬ Temporary n ∧ entry fs root n = some x
      ∧ (Visible n ∨ (n = identityName ∨ n = tokenName) ∧ entry fs₀ root n = some x)

variable {root : AbsPath} {fs₀ fs fs' : FileSystem C} {io : Faults C} {n : OsString} {x : Node C}

/-! ### What is found -/

lemma StoreDir.rootOk (h : StoreDir root fs) : RootOk root fs :=
  ⟨h.dir, fun e he => (h.plain e.1 e.2 (mem_children.mp he)).no_slash⟩

lemma tmpLike_ofStr {s : String} : TmpLike (ofStr s) ↔ startsWithTmp s = true := by
  rw [TmpLike, toStringLossy_ofStr]

lemma tmpLike_tmpName (t : Stamp) : TmpLike (tmpName t) := by
  rw [tmpName, tmpLike_ofStr, startsWithTmp, String.toList_append]
  exact List.isPrefixOf_iff_prefix.mpr (List.prefix_append _ _)

lemma tempFiles_eq (h : StoreDir root fs) {temps : List String}
    (htemps : tempFiles root io fs = .ok temps) :
    temps = ((children fs root).filter fun e => startsWithTmp (toStringLossy e.1)).map
      fun e => toStringLossy e.1 := by
  rw [tempFiles] at htemps
  split_ifs at htemps
  rw [readDir_root h.dir] at htemps
  rw [← Except.ok.inj htemps, List.filter_map]
  rfl

/-- The names `temp_files` returns are those of the entries it looks for. -/
lemma mem_tempFiles_iff (h : StoreDir root fs) {temps : List String}
    (htemps : tempFiles root io fs = .ok temps) {name : String} :
    name ∈ temps ↔ ∃ n x, entry fs root n = some x ∧ TmpLike n ∧ toStringLossy n = name := by
  rw [tempFiles_eq h htemps, List.mem_map]
  constructor
  · rintro ⟨⟨n, x⟩, hmem, rfl⟩
    obtain ⟨hchild, htmp⟩ := List.mem_filter.mp hmem
    exact ⟨n, x, mem_children.mp hchild, htmp, rfl⟩
  · rintro ⟨n, x, hx, htmp, rfl⟩
    exact ⟨(n, x), List.mem_filter.mpr ⟨mem_children.mpr hx, htmp⟩, rfl⟩

lemma exists_tempFiles (h : StoreDir root fs) : ∃ temps, tempFiles root {} fs = .ok temps := by
  rw [tempFiles, readDir_root h.dir]
  exact ⟨_, rfl⟩

/-- `open` warns exactly if `temp_files` finds something. -/
lemma openStore_eq (h : StoreDir root fs) : openStore root io fs
    = (tempFiles root io fs).map fun stale => if stale = [] then none else some stale.length := by
  have hdir : createDirAll fs ⟨root, []⟩ = .ok fs := by
    simp only [createDirAll, resolve_nil, h.dir]
  simp only [openStore, hdir]
  cases tempFiles root io fs <;> rfl

/-! ### What is removed -/

/-- The entries of a directory have different names. -/
lemma nodup_children (fs : FileSystem C) (d : AbsPath) :
    ((children fs d).map Prod.fst).Nodup := by
  refine AssocMap.nodup_map_collect fun p x e p' x' e' he he' heq => ?_
  obtain ⟨n, hn, rfl⟩ := Option.map_eq_some_iff.mp he
  obtain ⟨n', hn', rfl⟩ := Option.map_eq_some_iff.mp he'
  rw [childOf_eq_some.mp hn, childOf_eq_some.mp hn', show n = n' from heq]

/-- The names a list of temp files may have. -/
lemma plain_of_startsWithTmp {name : String} (htmp : startsWithTmp name = true)
    (hslash : slash ∉ ofStr name) (hnul : (0 : UInt8) ∉ ofStr name) : Plain (ofStr name) := by
  have hlen := length_of_startsWithTmp htmp
  refine ⟨?_, ?_, ?_, hslash, hnul⟩
  · intro heq
    rw [heq, List.length_nil] at hlen
    omega
  · intro heq
    rw [heq, dot, List.length_singleton] at hlen
    omega
  · intro heq
    rw [heq, dotdot, List.length_cons, List.length_singleton] at hlen
    omega

/-- What the removal of a temp file does, if it succeeds. -/
lemma removeFile_ok {name : String} (htmp : startsWithTmp name = true)
    (hslash : slash ∉ ofStr name) (h : Fs.removeFile fs ⟨root, ofStr name⟩ = .ok fs') :
    (∃ c, entry fs root (ofStr name) = some (.file c))
      ∧ fs' = fs.erase (root ++ [ofStr name]) := by
  by_cases hnul : (0 : UInt8) ∈ ofStr name
  · rw [Fs.removeFile, resolve, if_pos hnul] at h
    cases h
  · rw [Fs.removeFile, resolve_plain fs root (plain_of_startsWithTmp htmp hslash hnul)] at h
    simp only [node_snoc] at h
    split at h
    · cases h
    · cases h
    · rename_i c hc
      exact ⟨⟨c, hc⟩, (Except.ok.inj h).symm⟩

/-- The loop of the cleanup, if it gets to its end: all its names are different, each was that
of a file, and these files are gone. -/
lemma removeTemps_ok {temps : List String}
    (htemps : ∀ name ∈ temps, startsWithTmp name = true ∧ slash ∉ ofStr name)
    (h : removeTemps root io temps fs = (.ok (), fs')) : temps.Nodup
      ∧ (∀ name ∈ temps, ∃ c, entry fs root (ofStr name) = some (.file c))
      ∧ ∀ n, entry fs' root n = if n ∈ temps.map ofStr then none else entry fs root n := by
  induction temps generalizing fs with
  | nil =>
      obtain rfl := (Prod.mk.inj h).2
      exact ⟨List.nodup_nil, by simp, fun n => by simp⟩
  | cons name temps ih =>
      rw [List.forall_mem_cons] at htemps
      rw [removeTemps] at h
      split at h
      · cases (Prod.mk.inj h).1
      · split at h
        · cases (Prod.mk.inj h).1
        · rename_i fs₁ hrm
          obtain ⟨hfile, rfl⟩ := removeFile_ok htemps.1.1 htemps.1.2 hrm
          obtain ⟨hnodup, hfiles, hentry⟩ := ih htemps.2 h
          have hother : ∀ {m}, m ≠ ofStr name →
              entry (fs.erase (root ++ [ofStr name])) root m = entry fs root m :=
            fun hm => entry_erase_of_ne fs (by simpa using hm)
          have hfresh : name ∉ temps := by
            intro hmem
            obtain ⟨c, hc⟩ := hfiles name hmem
            rw [entry_erase_self] at hc
            cases hc
          refine ⟨List.nodup_cons.mpr ⟨hfresh, hnodup⟩, ?_, fun n => ?_⟩
          · rw [List.forall_mem_cons]
            refine ⟨hfile, fun m hm => ?_⟩
            obtain ⟨c, hc⟩ := hfiles m hm
            rw [hother fun heq => hfresh (ofStr_injective heq ▸ hm)] at hc
            exact ⟨c, hc⟩
          · rw [hentry, List.map_cons]
            by_cases hn : n = ofStr name
            · subst hn
              rw [entry_erase_self, if_pos List.mem_cons_self, ite_self]
            · rw [hother hn]
              simp only [List.mem_cons, hn, false_or]

/-- The loop gets to its end if all its names are different and each is that of a file. -/
lemma removeTemps_succeeds {temps : List String} (hnodup : temps.Nodup)
    (hfiles : ∀ name ∈ temps, Plain (ofStr name)
      ∧ ∃ c, entry fs root (ofStr name) = some (.file c)) :
    ∃ fs', removeTemps root {} temps fs = (.ok (), fs') := by
  induction temps generalizing fs with
  | nil => exact ⟨fs, rfl⟩
  | cons name temps ih =>
      rw [List.nodup_cons] at hnodup
      rw [List.forall_mem_cons] at hfiles
      obtain ⟨hplain, c, hc⟩ := hfiles.1
      have hrm : Fs.removeFile fs ⟨root, ofStr name⟩ = .ok (fs.erase (root ++ [ofStr name])) := by
        simp only [Fs.removeFile, resolve_plain fs root hplain, node_snoc, hc]
      rw [removeTemps, hrm]
      refine ih hnodup.2 fun m hm => ⟨(hfiles.2 m hm).1, ?_⟩
      rw [entry_erase_of_ne fs]
      · exact (hfiles.2 m hm).2
      · intro heq
        rw [List.append_cancel_left_eq, List.cons.injEq] at heq
        exact hnodup.1 (ofStr_injective heq.1 ▸ hm)

/-- **A cleanup that succeeds** takes away what `temp_files` finds, and nothing else. -/
theorem cleanTempFiles_ok (h : StoreDir root fs) {count : ℕ}
    (hclean : cleanTempFiles root io fs = (.ok count, fs')) : Removable root fs
      ∧ ∀ n, entry fs' root n = if TmpLike n then none else entry fs root n := by
  rw [cleanTempFiles] at hclean
  cases htemps : tempFiles root io fs with
  | error e => simp [htemps] at hclean
  | ok temps =>
      rcases hrun : removeTemps root io temps fs with ⟨r, fs₁⟩
      cases r with
      | error e => simp [htemps, hrun] at hclean
      | ok u =>
          simp only [htemps, hrun, Prod.mk.injEq] at hclean
          obtain ⟨-, rfl⟩ := hclean
          obtain ⟨hnodup, hfiles, hentry⟩ :=
            removeTemps_ok (fun name hname => mem_tempFiles h.rootOk htemps hname) hrun
          -- two entries with one lossy name would have been reported twice
          have hname : ∀ n x, entry fs root n = some x → TmpLike n →
              n = ofStr (toStringLossy n) ∧ ∃ c, x = .file c := by
            intro n x hx htmp
            obtain ⟨c, hc⟩ := hfiles _ ((mem_tempFiles_iff h htemps).mpr ⟨n, x, hx, htmp, rfl⟩)
            rw [tempFiles_eq h htemps] at hnodup
            have heq : ((n, x) : OsString × Node C) = (ofStr (toStringLossy n), .file c) := by
              refine List.inj_on_of_nodup_map hnodup ?_ ?_ ?_
              · exact List.mem_filter.mpr ⟨mem_children.mpr hx, htmp⟩
              · refine List.mem_filter.mpr ⟨mem_children.mpr hc, ?_⟩
                rw [toStringLossy_ofStr]
                exact htmp
              · rw [toStringLossy_ofStr]
            exact ⟨congrArg Prod.fst heq, c, congrArg Prod.snd heq⟩
          refine ⟨fun n x hx htmp => ⟨⟨_, (hname n x hx htmp).1⟩, (hname n x hx htmp).2⟩, ?_⟩
          intro n
          rw [hentry]
          by_cases htmp : TmpLike n
          · rw [if_pos htmp]
            cases hx : entry fs root n with
            | none => exact ite_self none
            | some x =>
                refine if_pos (List.mem_map.mpr ⟨toStringLossy n, ?_, (hname n x hx htmp).1.symm⟩)
                exact (mem_tempFiles_iff h htemps).mpr ⟨n, x, hx, htmp, rfl⟩
          · rw [if_neg htmp, if_neg]
            intro hmem
            obtain ⟨name, hname, rfl⟩ := List.mem_map.mp hmem
            exact htmp (tmpLike_ofStr.mpr (mem_tempFiles h.rootOk htemps hname).1)

/-- A cleanup succeeds if what it finds can be removed and the system lets it. -/
theorem exists_cleanTempFiles (h : StoreDir root fs) (hrem : Removable root fs) :
    ∃ count fs', cleanTempFiles root {} fs = (.ok count, fs') := by
  obtain ⟨temps, htemps⟩ := exists_tempFiles h
  have hname : ∀ n x, entry fs root n = some x → TmpLike n → ofStr (toStringLossy n) = n := by
    intro n x hx htmp
    obtain ⟨⟨s, rfl⟩, -⟩ := hrem n x hx htmp
    rw [toStringLossy_ofStr]
  have hnodup : temps.Nodup := by
    rw [tempFiles_eq h htemps]
    refine List.Nodup.map_on ?_ ((nodup_children fs root).of_map.filter _)
    rintro ⟨n, x⟩ he ⟨n', x'⟩ he' heq
    obtain ⟨hx, htmp⟩ := List.mem_filter.mp he
    obtain ⟨hx', htmp'⟩ := List.mem_filter.mp he'
    rw [mem_children] at hx hx'
    have hnn : n = n' := by
      rw [← hname n x hx htmp, ← hname n' x' hx' htmp']
      exact congrArg ofStr heq
    subst hnn
    rw [Option.some.inj (hx.symm.trans hx')]
  have hfiles : ∀ name ∈ temps, Plain (ofStr name)
      ∧ ∃ c, entry fs root (ofStr name) = some (.file c) := by
    intro name hmem
    obtain ⟨n, x, hx, htmp, rfl⟩ := (mem_tempFiles_iff h htemps).mp hmem
    obtain ⟨-, c, rfl⟩ := hrem n x hx htmp
    rw [hname n _ hx htmp]
    exact ⟨h.plain n _ hx, c, hx⟩
  obtain ⟨fs', hrun⟩ := removeTemps_succeeds hnodup hfiles
  exact ⟨temps.length, fs', by simp only [cleanTempFiles, htemps, hrun]⟩

/-! ### Recovery -/

/-- **Recovery**, read off the directory: a temporary entry has a name that `temp_files` looks
for, and, if what it finds can be removed, what it does not find is visible, or `.identity` or
`.token` as before. -/
theorem recovers_iff (h : StoreDir root fs) : Recovers root fs₀ fs
    ↔ (∀ n x, entry fs root n = some x → Temporary n → TmpLike n)
      ∧ (Removable root fs → ∀ n x, entry fs root n = some x → ¬ TmpLike n →
        Visible n ∨ (n = identityName ∨ n = tokenName) ∧ entry fs₀ root n = some x) := by
  constructor
  · intro hrec
    refine ⟨fun n x hx htemp => ?_, fun hrem n x hx htmp => ?_⟩
    · obtain ⟨temps, htemps⟩ := exists_tempFiles h
      obtain ⟨m, -, -, hm, heq⟩ :=
        (mem_tempFiles_iff h htemps).mp (hrec.reported {} temps htemps n x hx htemp)
      rwa [TmpLike, ← heq]
    · obtain ⟨count, fs', hclean⟩ := exists_cleanTempFiles h hrem
      obtain ⟨-, hentry⟩ := cleanTempFiles_ok h hclean
      exact (hrec.cleaned {} count fs' hclean n x (by rw [hentry, if_neg htmp, hx])).2.2
  · rintro ⟨htemp, hrest⟩
    have hreported : ∀ io temps, tempFiles root io fs = .ok temps →
        ∀ n x, entry fs root n = some x → Temporary n → toStringLossy n ∈ temps :=
      fun io temps htemps n x hx hn =>
        (mem_tempFiles_iff h htemps).mpr ⟨n, x, hx, htemp n x hx hn, rfl⟩
    refine ⟨hreported, fun io warning hopen n x hx hn => ?_, fun io count fs' hclean n x hx => ?_⟩
    · rw [openStore_eq h] at hopen
      cases htemps : tempFiles root io fs with
      | error e =>
          rw [htemps] at hopen
          cases hopen
      | ok temps =>
          have hne : temps ≠ [] := List.ne_nil_of_mem (hreported io temps htemps n x hx hn)
          rw [htemps, Except.map, if_neg hne] at hopen
          rw [← Except.ok.inj hopen]
          rfl
    · obtain ⟨hrem, hentry⟩ := cleanTempFiles_ok h hclean
      rw [hentry] at hx
      split_ifs at hx with htmp
      exact ⟨fun hn => htmp (htemp n x hx hn), hx, hrest hrem n x hx htmp⟩

end Dddatasync
