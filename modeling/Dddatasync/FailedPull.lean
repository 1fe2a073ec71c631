import Dddatasync.Library.TreeChanges
import Dddatasync.Sync

/-!
What a `pull` that fails leaves in the store when its guard has done its work.

* `RefusedEarly`: it fails before it has a directory; `exportLeft`: what the export puts
  under its temporary name.
* `exportAndRename_error`, `lookup_dropGuard`: the tree after the export, and after the guard.
* `failed_pull_restores_iff`: the exact failures after which the store is as it was.
-/

namespace Dddatasync

open Fs OsString

variable {C NodeId Sock Relay Hash : Type*}

/-! ### Conditions -/

/-- `pull` fails before it has made its directory. -/
def RefusedEarly (k : Codec NodeId Sock Relay Hash) (root : AbsPath) (hash fileName : String)
    (io : Pulling C) (fs : FileSystem C) : Prop :=
  safeName fileName = false ∨ k.parseHash hash = none ∨ io.createDir = true
    ∨ ∃ d, entry fs root (recvName io.recv) = some (.file d)

/-- What the export puts under its temporary name, all of it or a part. -/
def exportLeft (root : AbsPath) (io : Pulling C) (fs : FileSystem C) : Option C :=
  match entry fs root (exportName io.exportStamp) with
  | some .dir => none
  | _ =>
      match io.transfer with
      | .failed _ => none
      | .emptyCollection => none
      | .exportFailed _ left => left
      | .exported c => some c

/-- Nothing lies under the name of its directory. -/
def RecvFree (root : AbsPath) (io : Pulling C) (fs : FileSystem C) : Prop :=
  ∀ q, root ++ [recvName io.recv] <+: q → fs.lookup q = none

variable {k : Codec NodeId Sock Relay Hash} {root : AbsPath} {hash fileName : String}
  {io : Pulling C} {fs fs' : FileSystem C} {e : PullError}

/-! ### The export and the guard -/

/-- A failed export leaves what it has written. -/
lemma exportAndRename_error (h : exportAndRename root fileName io fs = (.error e, fs')) :
    fs' = match exportLeft root io fs with
      | none => fs
      | some c => fs.insert (root ++ [exportName io.exportStamp]) (.file c) := by
  have hplain := plain_exportName io.exportStamp
  rw [exportLeft]
  rw [exportAndRename] at h
  cases htransfer : io.transfer with
  | failed e =>
      rw [htransfer] at h
      obtain rfl := (Prod.mk.inj h).2
      cases entry fs root (exportName io.exportStamp) with
      | none => rfl
      | some x => cases x <;> rfl
  | emptyCollection =>
      rw [htransfer] at h
      obtain rfl := (Prod.mk.inj h).2
      cases entry fs root (exportName io.exportStamp) with
      | none => rfl
      | some x => cases x <;> rfl
  | exportFailed e left =>
      rw [htransfer] at h
      cases left with
      | none =>
          obtain rfl := (Prod.mk.inj h).2
          cases entry fs root (exportName io.exportStamp) with
          | none => rfl
          | some x => cases x <;> rfl
      | some c =>
          have hwrite := write_plain fs root c hplain
          simp only at h
          cases hentry : entry fs root (exportName io.exportStamp) with
          | none =>
              rw [hentry] at hwrite
              rw [hwrite] at h
              exact (Prod.mk.inj h).2.symm
          | some x =>
              rw [hentry] at hwrite
              cases x <;> rw [hwrite] at h <;> exact (Prod.mk.inj h).2.symm
  | exported c =>
      rw [htransfer] at h
      have hwrite := write_plain fs root c hplain
      simp only at h
      cases hentry : entry fs root (exportName io.exportStamp) with
      | none =>
          rw [hentry] at hwrite
          simp only [hwrite] at h
          split_ifs at h
          · exact (Prod.mk.inj h).2.symm
          · split at h
            · exact (Prod.mk.inj h).2.symm
            · cases h
      | some x =>
          rw [hentry] at hwrite
          cases x with
          | dir =>
              rw [hwrite] at h
              exact (Prod.mk.inj h).2.symm
          | file d =>
              simp only [hwrite] at h
              split_ifs at h
              · exact (Prod.mk.inj h).2.symm
              · split at h
                · exact (Prod.mk.inj h).2.symm
                · cases h

/-- The guard takes away its directory and all below. -/
lemma lookup_dropGuard (hcleanup : io.cleanup = false)
    (hdir : entry fs root (recvName io.recv) = some .dir) (q : AbsPath) :
    (dropGuard root io fs).lookup q
      = if root ++ [recvName io.recv] <+: q then none else fs.lookup q := by
  rw [dropGuard, hcleanup]
  simp only [removeDirAll, resolve_plain fs root (plain_recvName io.recv), node_snoc, hdir]
  rw [if_neg Bool.false_ne_true, AssocMap.lookup_filterMap]
  split_ifs
  · cases fs.lookup q <;> rfl
  · cases fs.lookup q <;> rfl

/-- The blob store stays below its directory. -/
lemma fillBlobs_changes (dir : AbsPath) (blobs : List (OsString × C)) (fs : FileSystem C) :
    Changes (fun q => dir <+: q ∧ q ≠ dir) fs (fillBlobs dir blobs fs) := by
  induction blobs generalizing fs with
  | nil => exact .refl _ fs
  | cons b bs ih =>
      refine ((changes_insert fs (dir ++ [b.1]) (.file b.2)).mono ?_).trans (ih _)
      rintro q rfl
      exact ⟨List.prefix_append dir _, by simp⟩

lemma not_recv_prefix_export (root : AbsPath) (r x : Stamp) :
    ¬ root ++ [recvName r] <+: root ++ [exportName x] := by
  intro hpre
  have heq := hpre.eq_of_length (by simp)
  rw [List.append_cancel_left_eq, List.cons.injEq] at heq
  exact exportName_ne_recvName _ _ heq.1.symm

/-- The tree when the export has failed and the guard is through. -/
lemma lookup_of_error {fs₁ : FileSystem C} (hcleanup : io.cleanup = false)
    (hdir : createDirAll fs ⟨root, recvName io.recv⟩ = .ok fs₁)
    (h : ((exportAndRename root fileName io
          (fillBlobs (root ++ [recvName io.recv]) io.blobs fs₁)).1,
        dropGuard root io (exportAndRename root fileName io
          (fillBlobs (root ++ [recvName io.recv]) io.blobs fs₁)).2) = (.error e, fs'))
    (q : AbsPath) : fs'.lookup q
      = if root ++ [recvName io.recv] <+: q then none
        else if q = root ++ [exportName io.exportStamp] then
          match exportLeft root io fs with
          | none => fs.lookup q
          | some c => some (.file c)
        else fs.lookup q := by
  have hexport := not_recv_prefix_export root io.recv io.exportStamp
  -- the tree before the export differs from the first one below the directory only
  have hbefore : Changes (root ++ [recvName io.recv] <+: ·) fs
      (fillBlobs (root ++ [recvName io.recv]) io.blobs fs₁) := by
    refine ((createDirAll_changes (plain_recvName io.recv) hdir).mono ?_).trans
      ((fillBlobs_changes _ io.blobs fs₁).mono fun q hq => hq.1)
    rintro q rfl
    exact List.prefix_rfl
  have hentry : entry (fillBlobs (root ++ [recvName io.recv]) io.blobs fs₁) root
      (recvName io.recv) = some .dir := by
    have hkeep := (fillBlobs_changes (root ++ [recvName io.recv]) io.blobs fs₁).lookup_eq
      fun hq => hq.2 rfl
    rw [entry, hkeep]
    simp only [createDirAll, resolve_plain fs root (plain_recvName io.recv)] at hdir
    split at hdir
    · cases hdir
      exact AList.lookup_insert fs
    · rename_i hnode
      cases hdir
      rwa [node_snoc] at hnode
    · cases hdir
  generalize fillBlobs (root ++ [recvName io.recv]) io.blobs fs₁ = fs₂ at h hbefore hentry
  rcases hrun : exportAndRename root fileName io fs₂ with ⟨r, fs₃⟩
  rw [hrun] at h
  obtain ⟨rfl, rfl⟩ := Prod.mk.inj h
  have hleft : exportLeft root io fs₂ = exportLeft root io fs := by
    rw [exportLeft, exportLeft, entry, entry, hbefore.lookup_eq hexport]
  have hfs₃ := exportAndRename_error hrun
  rw [hleft] at hfs₃
  have hdir₃ : entry fs₃ root (recvName io.recv) = some .dir := by
    rw [hfs₃]
    cases exportLeft root io fs with
    | none => exact hentry
    | some c =>
        rw [entry_insert_of_ne]
        · exact hentry
        · simpa using (exportName_ne_recvName io.exportStamp io.recv).symm
  rw [lookup_dropGuard hcleanup hdir₃]
  by_cases hq : root ++ [recvName io.recv] <+: q
  · rw [if_pos hq, if_pos hq]
  rw [if_neg hq, if_neg hq, hfs₃]
  by_cases hqe : q = root ++ [exportName io.exportStamp]
  · rw [if_pos hqe]
    cases exportLeft root io fs with
    | none => exact hbefore.lookup_eq hq
    | some c =>
        rw [hqe]
        exact AList.lookup_insert _
  · rw [if_neg hqe]
    cases exportLeft root io fs with
    | none => exact hbefore.lookup_eq hq
    | some c => exact (AList.lookup_insert_ne hqe).trans (hbefore.lookup_eq hq)

/-! ### A failed `pull` -/

/-- **What a failed `pull` leaves** when its guard is through: nothing if it is refused early;
else its directory is gone, and what the export has written is there. -/
lemma pull_error_cases (hcleanup : io.cleanup = false)
    (h : pull k root hash fileName io fs = (.error e, fs')) :
    (RefusedEarly k root hash fileName io fs ∧ fs' = fs)
      ∨ ¬ RefusedEarly k root hash fileName io fs ∧ ∀ q, fs'.lookup q
        = if root ++ [recvName io.recv] <+: q then none
          else if q = root ++ [exportName io.exportStamp] then
            match exportLeft root io fs with
            | none => fs.lookup q
            | some c => some (.file c)
          else fs.lookup q := by
  rw [pull] at h
  by_cases hsafe : safeName fileName = true
  swap
  · rw [if_neg hsafe] at h
    exact .inl ⟨.inl (Bool.not_eq_true _ ▸ hsafe), (Prod.mk.inj h).2.symm⟩
  rw [if_pos hsafe] at h
  cases hhash : k.parseHash hash with
  | none =>
      rw [hhash] at h
      exact .inl ⟨.inr (.inl hhash), (Prod.mk.inj h).2.symm⟩
  | some x =>
      simp only [hhash] at h
      by_cases hfault : io.createDir = true
      · rw [if_pos hfault] at h
        exact .inl ⟨.inr (.inr (.inl hfault)), (Prod.mk.inj h).2.symm⟩
      rw [if_neg hfault] at h
      obtain ⟨⟨d, hd⟩, hdir⟩ | ⟨hd, fs₁, hdir, -⟩ :=
        createDirAll_cases root fs (plain_recvName io.recv)
      · rw [hdir] at h
        exact .inl ⟨.inr (.inr (.inr ⟨d, hd⟩)), (Prod.mk.inj h).2.symm⟩
      · simp only [hdir] at h
        refine .inr ⟨?_, ?_⟩
        · rintro (h | h | h | ⟨d, h⟩)
          · rw [hsafe] at h
            cases h
          · rw [hhash] at h
            cases h
          · exact hfault h
          · exact hd d h
        · exact lookup_of_error hcleanup hdir h

/-- **A failed `pull`** whose guard is through leaves the store as it was exactly when it is
refused before it has a directory, or the name of its directory was free and its export has
written nothing that was not there before. -/
theorem failed_pull_restores_iff (hcleanup : io.cleanup = false)
    (h : pull k root hash fileName io fs = (.error e, fs')) :
    SameBelow root fs fs' ↔ RefusedEarly k root hash fileName io fs
      ∨ RecvFree root io fs ∧ ∀ c, exportLeft root io fs = some c →
          entry fs root (exportName io.exportStamp) = some (.file c) := by
  rcases pull_error_cases hcleanup h with ⟨hrefused, rfl⟩ | ⟨hgoes, hlookup⟩
  · exact iff_of_true (.refl root _) (.inl hrefused)
  rw [or_iff_right hgoes]
  have hexport := not_recv_prefix_export root io.recv io.exportStamp
  constructor
  · intro hsame
    refine ⟨fun q hq => ?_, fun c hc => ?_⟩
    · rw [← hsame q ((List.prefix_append root _).trans hq), hlookup, if_pos hq]
    · have hnow := hlookup (root ++ [exportName io.exportStamp])
      rw [if_neg hexport, if_pos rfl, hc] at hnow
      rw [entry, ← hsame _ (List.prefix_append root _), hnow]
  · rintro ⟨hfree, hthere⟩ q -
    rw [hlookup]
    split_ifs with hrecv hq
    · rw [hfree q hrecv]
    · cases hleft : exportLeft root io fs with
      | none => rfl
      | some c =>
          rw [hq]
          exact (hthere c hleft).symm
    · rfl

/-- A store without files. -/
def bareStore : FileSystem (List UInt8) := AList.insert [ofStr "store"] .dir ∅

/-- A download that goes through. -/
def goesThrough : Pulling (List UInt8) where
  recv := ⟨1, 1⟩
  exportStamp := ⟨1, 2⟩
  transfer := .exported [7]

theorem failed_pull_restores_iff_no_name :
    SameBelow [ofStr "store"] bareStore
        (pull textCodec [ofStr "store"] zeroHash "" goesThrough bareStore).2 ↔
      RefusedEarly textCodec [ofStr "store"] zeroHash "" goesThrough bareStore
        ∨ RecvFree [ofStr "store"] goesThrough bareStore
          ∧ ∀ c, exportLeft [ofStr "store"] goesThrough bareStore = some c →
            entry bareStore [ofStr "store"] (exportName ⟨1, 2⟩) = some (.file c) :=
  failed_pull_restores_iff (e := .rename .notADirectory) rfl (Prod.ext (by decide) rfl)

/-- **An offer without a name** passes the check, is downloaded and exported, and cannot be
renamed: the exported file stays. -/
theorem nameless_offer_leaves_export :
    (pull textCodec [ofStr "store"] zeroHash "" goesThrough bareStore).1
        = .error (.rename .notADirectory)
      ∧ entry bareStore [ofStr "store"] (exportName ⟨1, 2⟩) = none
      ∧ entry (pull textCodec [ofStr "store"] zeroHash "" goesThrough bareStore).2 [ofStr "store"]
        (exportName ⟨1, 2⟩) = some (.file [7]) := by
  decide

end Dddatasync
