import Dddatasync.Library.TreeChanges
import Dddatasync.StoreOps

/-!
What an `add` that fails leaves in the store.

* `copyLeft`: what the copy puts under the temp name; `Withdraws`: the failures after which
  `add` takes it away again.
* `copyToTmp_entry`, `commit_entry`: the entry of the temp name after the two parts of `add`.
* `failed_add_restores_iff`: the exact failures after which the store is as it was.
-/

namespace Dddatasync

open Fs OsString

variable {C : Type*} [HasLen C]

/-! ### Conditions -/

/-- `add` fails before it copies: `stat` fails, or the path has no file name. -/
def StopsBeforeCopy (src : PathBuf) (io : Faults C) (fs : FileSystem C) : Prop :=
  io.stat = true ∨ (∃ e, metadata fs src = .error e) ∨ fileName src = none

/-- What the copy puts under the temp name, all of it or a part. -/
def copyLeft (root : AbsPath) (src : PathBuf) (tmp : OsString) (io : Faults C)
    (fs : FileSystem C) : Option C :=
  match entry fs root tmp with
  | some .dir => none
  | _ =>
      match io.copy with
      | some part => part
      | none =>
          match metadata fs src with
          | .ok (.file c) => some c
          | _ => none

/-- `add` takes its copy away: the copy is complete, the limits or the name are in the way, and
the removal succeeds. -/
def Withdraws (root : AbsPath) (src : PathBuf) (tmp : OsString) (io : Faults C)
    (fs : FileSystem C) (c : C) : Prop :=
  io.copy = none ∧ io.discard = false
    ∧ ((∃ e, canAddLocked root io fs (HasLen.len c) = .error e)
      ∨ ∃ n, fileName src = some n ∧ (n = tmp ∨ (entry fs root n).isSome))

/-! ### The limit check on trees that look the same -/

variable {root : AbsPath} {src : PathBuf} {tmp name : OsString} {io : Faults C}
  {fs fs' : FileSystem C} {c : C} {size : ℕ}

/-- The limit check only looks at the visible files. -/
lemma canAddLocked_congr (h : SameVisible root fs fs') :
    canAddLocked root io fs' size = canAddLocked root io fs size := by
  have hlen : (visibleFiles root fs').length = (visibleFiles root fs).length :=
    fileCount_congr h.entry_eq
  rw [canAddLocked, canAddLocked]
  split_ifs
  · rfl
  · rw [files, files]
    split_ifs
    · rfl
    · simp only [readDir, metadata, resolve_nil, h.root_eq]
      cases node fs root with
      | none => rfl
      | some x =>
          cases x with
          | file d => rfl
          | dir =>
              simp only
              rw [visibleFiles, visibleFiles] at hlen
              rw [hlen]

/-! ### The two parts of `add` -/

omit [HasLen C] in
/-- The tree after the copy, whether it succeeds or not. -/
lemma copyToTmp_snd (htmp : Plain tmp) : (copyToTmp root src tmp io fs).2
    = match copyLeft root src tmp io fs with
      | none => fs
      | some c => fs.insert (root ++ [tmp]) (.file c) := by
  rw [copyToTmp, copyLeft]
  cases hcopy : io.copy with
  | some part =>
      cases part with
      | none => cases entry fs root tmp with
        | none => rfl
        | some x => cases x <;> rfl
      | some c =>
          simp only [write_plain fs root _ htmp]
          cases entry fs root tmp with
          | none => rfl
          | some x => cases x <;> rfl
  | none =>
      simp only [copy]
      cases metadata fs src with
      | error e => cases entry fs root tmp with
        | none => rfl
        | some x => cases x <;> rfl
      | ok y =>
          cases y with
          | dir => cases entry fs root tmp with
            | none => rfl
            | some x => cases x <;> rfl
          | file c =>
              simp only [write_plain fs root _ htmp]
              cases entry fs root tmp with
              | none => rfl
              | some x => cases x <;> rfl

omit [HasLen C] in
/-- A copy that fails although no call fails has put nothing there. -/
lemma copyLeft_of_error {e : IoError} (htmp : Plain tmp) (hcopy : io.copy = none)
    (h : (copyToTmp root src tmp io fs).1 = .error e) : copyLeft root src tmp io fs = none := by
  rw [copyToTmp, hcopy] at h
  rw [copyLeft, hcopy]
  simp only [copy, write, resolve_plain fs root htmp, node_snoc] at h
  cases hentry : entry fs root tmp with
  | none =>
      simp only [hentry] at h ⊢
      cases hmeta : metadata fs src with
      | error e => rfl
      | ok y =>
          cases y with
          | dir => rfl
          | file c => simp [hmeta] at h
  | some x =>
      cases x with
      | dir => rfl
      | file d =>
          simp only [hentry] at h ⊢
          cases hmeta : metadata fs src with
          | error e => rfl
          | ok y =>
              cases y with
              | dir => rfl
              | file c => simp [hmeta] at h

omit [HasLen C] in
/-- A copy that succeeds has put the source there. -/
lemma copyLeft_of_ok (htmp : Plain tmp) (h : copyToTmp root src tmp io fs = (.ok (), fs')) :
    io.copy = none ∧ ∃ c, metadata fs src = .ok (.file c)
      ∧ copyLeft root src tmp io fs = some c := by
  have hcopy : io.copy = none := by
    cases hio : io.copy with
    | none => rfl
    | some part =>
        rw [copyToTmp, hio] at h
        cases part with
        | none => cases h
        | some c =>
            simp only at h
            split at h <;> cases h
  obtain ⟨c, hmeta, -⟩ := copyToTmp_ok htmp h
  refine ⟨hcopy, c, hmeta, ?_⟩
  rw [copyToTmp, hcopy] at h
  rw [copyLeft, hcopy]
  simp only [copy, hmeta, write, resolve_plain fs root htmp, node_snoc] at h ⊢
  cases hentry : entry fs root tmp with
  | none => rfl
  | some x =>
      cases x with
      | file d => rfl
      | dir =>
          rw [hentry] at h
          cases h

/-- A commit that fails takes the temp file away when the limits or the name are in the way and
the removal succeeds, and leaves it there otherwise. -/
lemma commit_error_snd {e : StoreError} (htmp : Plain tmp) (hname : Plain name)
    (hc : entry fs root tmp = some (.file c))
    (h : commit root size name tmp io fs = (.error e, fs')) :
    ((io.discard = false ∧ ((∃ e, canAddLocked root io fs size = .error e)
        ∨ (entry fs root name).isSome)) ∧ fs' = fs.erase (root ++ [tmp]))
      ∨ (¬ (io.discard = false ∧ ((∃ e, canAddLocked root io fs size = .error e)
        ∨ (entry fs root name).isSome)) ∧ fs' = fs) := by
  have hdiscard : discardTmp root tmp io fs
      = if io.discard then fs else fs.erase (root ++ [tmp]) := by
    simp only [discardTmp, removeFile, resolve_plain fs root htmp, node_snoc, hc]
  have hwithdrawn : ((∃ e, canAddLocked root io fs size = .error e)
        ∨ (entry fs root name).isSome) → fs' = discardTmp root tmp io fs →
      ((io.discard = false ∧ ((∃ e, canAddLocked root io fs size = .error e)
          ∨ (entry fs root name).isSome)) ∧ fs' = fs.erase (root ++ [tmp]))
        ∨ (¬ (io.discard = false ∧ ((∃ e, canAddLocked root io fs size = .error e)
          ∨ (entry fs root name).isSome)) ∧ fs' = fs) := by
    rintro hgate rfl
    rw [hdiscard]
    cases hd : io.discard with
    | true => exact .inr ⟨fun h => by simp at h, rfl⟩
    | false => exact .inl ⟨⟨rfl, hgate⟩, rfl⟩
  rw [commit, pathExists_plain hname] at h
  split at h
  · rename_i e' hgate
    exact hwithdrawn (.inl ⟨e', hgate⟩) (Prod.mk.inj h).2.symm
  · rename_i hgate
    split_ifs at h with hexists hfault
    · exact hwithdrawn (.inr hexists) (Prod.mk.inj h).2.symm
    · refine .inr ⟨?_, (Prod.mk.inj h).2.symm⟩
      rintro ⟨-, ⟨e', he'⟩ | hsome⟩
      · rw [hgate] at he'
        cases he'
      · exact hexists hsome
    · refine .inr ⟨?_, ?_⟩
      · rintro ⟨-, ⟨e', he'⟩ | hsome⟩
        · rw [hgate] at he'
          cases he'
        · exact hexists hsome
      · split at h
        · exact (Prod.mk.inj h).2.symm
        · exact absurd (Prod.mk.inj h).1 (by simp)

/-! ### A failed `add` -/

/-- **What a failed `add` leaves**: nothing when it stops before the copy; else what the copy put
under the temp name, unless it is taken away again. -/
lemma add_error_cases {stamp : Stamp} {e : StoreError}
    (h : add root src stamp io fs = (.error e, fs')) :
    (StopsBeforeCopy src io fs ∧ fs' = fs)
      ∨ ¬ StopsBeforeCopy src io fs ∧ ((copyLeft root src (tmpName stamp) io fs = none ∧ fs' = fs)
        ∨ ∃ c, copyLeft root src (tmpName stamp) io fs = some c
          ∧ ((Withdraws root src (tmpName stamp) io fs c
              ∧ fs' = (fs.insert (root ++ [tmpName stamp]) (.file c)).erase
                (root ++ [tmpName stamp]))
            ∨ (¬ Withdraws root src (tmpName stamp) io fs c
              ∧ fs' = fs.insert (root ++ [tmpName stamp]) (.file c)))) := by
  have htmp := plain_tmpName stamp
  rw [add] at h
  by_cases hstat : io.stat = true
  · rw [if_pos hstat] at h
    exact .inl ⟨.inl hstat, (Prod.mk.inj h).2.symm⟩
  rw [if_neg hstat] at h
  cases hmeta : metadata fs src with
  | error e' =>
      rw [hmeta] at h
      exact .inl ⟨.inr (.inl ⟨e', hmeta⟩), (Prod.mk.inj h).2.symm⟩
  | ok stat =>
      simp only [hmeta] at h
      cases hname : fileName src with
      | none =>
          rw [hname] at h
          exact .inl ⟨.inr (.inr hname), (Prod.mk.inj h).2.symm⟩
      | some name =>
          simp only [hname] at h
          have hgoes : ¬ StopsBeforeCopy src io fs := by
            rintro (h | ⟨e', h⟩ | h)
            · exact hstat h
            · rw [hmeta] at h
              cases h
            · rw [hname] at h
              cases h
          refine .inr ⟨hgoes, ?_⟩
          rcases hrun : copyToTmp root src (tmpName stamp) io fs with ⟨r, fs₁⟩
          have hsnd : fs₁ = match copyLeft root src (tmpName stamp) io fs with
              | none => fs
              | some c => fs.insert (root ++ [tmpName stamp]) (.file c) := by
            rw [← copyToTmp_snd htmp, hrun]
          rw [hrun] at h
          cases r with
          | error e' =>
              obtain rfl := (Prod.mk.inj h).2
              cases hleft : copyLeft root src (tmpName stamp) io fs with
              | none =>
                  rw [hleft] at hsnd
                  exact .inl ⟨rfl, hsnd⟩
              | some c =>
                  rw [hleft] at hsnd
                  refine .inr ⟨c, rfl, .inr ⟨?_, hsnd⟩⟩
                  rintro ⟨hcopy, -⟩
                  have hnone : copyLeft root src (tmpName stamp) io fs = none :=
                    copyLeft_of_error htmp hcopy (congrArg Prod.fst hrun)
                  rw [hleft] at hnone
                  cases hnone
          | ok u =>
              obtain ⟨hcopy, c, hfile, hleft⟩ := copyLeft_of_ok htmp hrun
              rw [hleft] at hsnd
              subst hsnd
              obtain rfl : stat = .file c := Except.ok.inj (hmeta.symm.trans hfile)
              have hplain : Plain name := plain_of_fileName hname (nul_notMem_of_metadata hfile)
              have hexists :
                  (entry (fs.insert (root ++ [tmpName stamp]) (.file c)) root name).isSome
                    ↔ name = tmpName stamp ∨ (entry fs root name).isSome := by
                by_cases heq : name = tmpName stamp
                · simp [heq]
                · rw [entry_insert_of_ne _ _ (by simpa using heq)]
                  simp [heq]
              have hgate : canAddLocked root io (fs.insert (root ++ [tmpName stamp]) (.file c))
                  (HasLen.len c) = canAddLocked root io fs (HasLen.len c) :=
                canAddLocked_congr
                  ((sameExcept_insert root (tmpName stamp) (.file c) fs).sameVisible
                    (not_visible_tmpName stamp))
              have hcond : Withdraws root src (tmpName stamp) io fs c ↔ (io.discard = false
                  ∧ ((∃ e, canAddLocked root io (fs.insert (root ++ [tmpName stamp]) (.file c))
                      (HasLen.len c) = .error e)
                    ∨ (entry (fs.insert (root ++ [tmpName stamp]) (.file c)) root
                      name).isSome)) := by
                rw [hgate, hexists, Withdraws, hname]
                simp [hcopy]
              refine .inr ⟨c, hleft, ?_⟩
              rw [hcond]
              exact commit_error_snd htmp hplain (entry_insert_self _ _ _ _) h

/-- **A failed `add`** leaves the store as it was exactly when it stops before the copy, or what
its copy puts under the temp name makes no difference: it is taken away and nothing was there,
or it stays and was there already. -/
theorem failed_add_restores_iff {stamp : Stamp} {e : StoreError}
    (h : add root src stamp io fs = (.error e, fs')) :
    SameBelow root fs fs' ↔ StopsBeforeCopy src io fs
      ∨ ∀ c, copyLeft root src (tmpName stamp) io fs = some c →
        (Withdraws root src (tmpName stamp) io fs c ∧ entry fs root (tmpName stamp) = none)
          ∨ (¬ Withdraws root src (tmpName stamp) io fs c
            ∧ entry fs root (tmpName stamp) = some (.file c)) := by
  rcases add_error_cases h with ⟨hstops, rfl⟩ | ⟨hgoes, ⟨hleft, rfl⟩ | ⟨c, hleft, hcase⟩⟩
  · exact iff_of_true (.refl root _) (.inl hstops)
  · refine iff_of_true (.refl root _) (.inr fun c hc => ?_)
    rw [hleft] at hc
    cases hc
  · rw [or_iff_right hgoes, hleft]
    simp only [Option.some.injEq, forall_eq']
    rcases hcase with ⟨hwithdraws, rfl⟩ | ⟨hkeeps, rfl⟩
    · have hchanges := (changes_insert fs (root ++ [tmpName stamp]) (.file c)).trans
        (changes_erase (fs.insert (root ++ [tmpName stamp]) (.file c)) (root ++ [tmpName stamp]))
      rw [sameBelow_iff hchanges, entry_erase_self]
      simp [hwithdraws, eq_comm]
    · rw [sameBelow_iff (changes_insert fs (root ++ [tmpName stamp]) (.file c)), entry_insert_self]
      simp [hkeeps, eq_comm]

/-- An empty store next to a file of two bytes. -/
def twoBytes : FileSystem (List UInt8) :=
  (AList.insert [ofStr "store"] .dir ∅).insert [ofStr "a"] (.file [1, 2])

/-- The disk is full after the first byte. -/
def fullDisk : Faults (List UInt8) := { copy := some (some [1]) }

theorem failed_add_restores_iff_full_disk :
    SameBelow [ofStr "store"] twoBytes
        (add [ofStr "store"] ⟨[], ofStr "a"⟩ ⟨1, 1⟩ fullDisk twoBytes).2 ↔
      StopsBeforeCopy ⟨[], ofStr "a"⟩ fullDisk twoBytes
        ∨ ∀ c,
          copyLeft [ofStr "store"] ⟨[], ofStr "a"⟩ (tmpName ⟨1, 1⟩) fullDisk twoBytes = some c →
          (Withdraws [ofStr "store"] ⟨[], ofStr "a"⟩ (tmpName ⟨1, 1⟩) fullDisk twoBytes c
              ∧ entry twoBytes [ofStr "store"] (tmpName ⟨1, 1⟩) = none)
            ∨ (¬ Withdraws [ofStr "store"] ⟨[], ofStr "a"⟩ (tmpName ⟨1, 1⟩) fullDisk twoBytes c
              ∧ entry twoBytes [ofStr "store"] (tmpName ⟨1, 1⟩) = some (.file c)) :=
  failed_add_restores_iff (e := .io .other) (Prod.ext (by decide) rfl)

/-- **A copy that stops** leaves what it has written in the store. -/
theorem partial_copy_stays :
    (add [ofStr "store"] ⟨[], ofStr "a"⟩ ⟨1, 1⟩ fullDisk twoBytes).1 = .error (.io .other)
      ∧ entry twoBytes [ofStr "store"] (tmpName ⟨1, 1⟩) = none
      ∧ entry (add [ofStr "store"] ⟨[], ofStr "a"⟩ ⟨1, 1⟩ fullDisk twoBytes).2 [ofStr "store"]
        (tmpName ⟨1, 1⟩) = some (.file [1]) := by
  decide

end Dddatasync
