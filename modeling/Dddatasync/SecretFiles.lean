import Dddatasync.Auth
import Dddatasync.Library.FileSystem
import Dddatasync.Library.Runs

/-!
How the secrets of a device get to the disk: `save_identity` of `src/auth.rs` and `save_token`
of `src/main.rs`, one system call after the other.

* `Saving`: the two writers, with their names, contents and secrets; `saveStep`: one call, a
  failing one included.
* `Private`: every file that contains a secret has mode 0600; `Covered`: what the temp file is
  created with, or was there before.
* `secrets_private_iff`: exactly when no step of a writer exposes its secret.
-/

namespace Dddatasync

open Fs OsString Runs

/-! ### The writers -/

/-- `UserIdentity::login` with the key it has derived, and `save_token`. -/
inductive Saving where
  | login (identity : UserIdentity)
  | token (text : String)

namespace Saving

/-- The file. -/
def name : Saving → OsString
  | login _ => ofStr ".identity"
  | token _ => ofStr ".token"

/-- `path.with_extension("tmp")`: a name with a dot only in front is all stem. -/
def tmp : Saving → OsString
  | login _ => ofStr ".identity.tmp"
  | token _ => ofStr ".token.tmp"

/-- What is written. -/
def contents : Saving → OsString
  | login identity => ofStr (identityContents identity)
  | token text => ofStr text

/-- What nobody else may read: the digits of the key, or the token. -/
def secret : Saving → OsString
  | login identity => ofStr (hexEncode identity.nodeKey.bytes)
  | token text => ofStr text

/-- `login` writes nothing where it finds an identity. -/
def Writes (root : AbsPath) (fs : FileSystem IdentityFile) : Saving → Prop
  | w@(login _) => pathExists fs ⟨root, w.name⟩ = false
  | token _ => True

end Saving

/-- `0o666 & !umask`: the mode of a new file. -/
def createMode (umask : ℕ) : ℕ := 0o666 - (0o666 &&& umask)

/-- Opening a file to write it from the start: a new one gets its mode from the umask, one that
is there keeps its own, which has to let its owner write. -/
def openTruncate (umask : ℕ) (fs : FileSystem IdentityFile) (p : PathBuf) :
    Except IoError (FileSystem IdentityFile) :=
  match resolve fs p with
  | .error e => .error e
  | .ok q =>
      match node fs q with
      | some .dir => .error .isADirectory
      | some (.file f) =>
          if f.mode.testBit 7 then .ok (fs.insert q (.file ⟨f.mode, []⟩)) else .error .other
      | none => .ok (fs.insert q (.file ⟨createMode umask, []⟩))

/-- A change of the file `n`. -/
def updateFile (root : AbsPath) (n : OsString) (change : IdentityFile → IdentityFile)
    (fs : FileSystem IdentityFile) : FileSystem IdentityFile :=
  match entry fs root n with
  | some (.file f) => fs.insert (root ++ [n]) (.file (change f))
  | _ => fs

/-- Where a writer stands; `written` bytes are in the temp file. -/
inductive SavePc where
  | start
  | create
  | writing (written : ℕ)
  | chmod
  | rename
  | done
  | failed
  deriving DecidableEq

/-- What happens next: the next call succeeds, or some more bytes are written, up to the first
`n`, or a call fails. -/
inductive SaveMove where
  | go
  | wrote (n : ℕ)
  | fail

/-- One step of a writer. -/
def saveStep (umask : ℕ) (root : AbsPath) (w : Saving) :
    SavePc × FileSystem IdentityFile → SaveMove → Option (SavePc × FileSystem IdentityFile)
  | (.start, fs), .go =>
      match w with
      | .login _ => some (if pathExists fs ⟨root, w.name⟩ then .done else .create, fs)
      | .token _ => some (.create, fs)
  | (.create, fs), .go =>
      match openTruncate umask fs ⟨root, w.tmp⟩ with
      | .error _ => some (.failed, fs)
      | .ok fs' => some (.writing 0, fs')
  | (.writing written, fs), .wrote n =>
      if written < n ∧ n ≤ w.contents.length then
        some (.writing n,
          updateFile root w.tmp (fun f => { f with contents := w.contents.take n }) fs)
      else none
  | (.writing written, fs), .go =>
      if written = w.contents.length then some (.chmod, fs) else none
  | (.chmod, fs), .go =>
      some (.rename, updateFile root w.tmp (fun f => { f with mode := 0o600 }) fs)
  | (.rename, fs), .go =>
      match Fs.rename fs ⟨root, w.tmp⟩ ⟨root, w.name⟩ with
      | .error _ => some (.failed, fs)
      | .ok fs' => some (.done, fs')
  | (.done, _), _ | (.failed, _), _ => none
  | (_, fs), .fail => some (.failed, fs)
  | _, _ => none

/-! ### Statements -/

/-- Every file of the directory that contains one of the secrets is for its owner only. -/
def Private (root : AbsPath) (secrets : List OsString) (fs : FileSystem IdentityFile) : Prop :=
  ∀ n f, entry fs root n = some (.file f) → (∃ s ∈ secrets, s <:+: f.contents) →
    f.mode % 0o1000 = 0o600

/-- What keeps a temp file closed: the umask, or the mode of the file that lies there. -/
def Covered (umask : ℕ) (root : AbsPath) (w : Saving) (fs : FileSystem IdentityFile) : Prop :=
  match entry fs root w.tmp with
  | none => umask &&& 0o666 = 0o066
  | some .dir => True
  | some (.file f) => f.mode.testBit 7 = true → f.mode % 0o1000 = 0o600

variable {umask : ℕ} {root : AbsPath} {w : Saving} {fs₀ fs : FileSystem IdentityFile}
  {secrets : List OsString}

/-! ### The temp file -/

lemma plain_tmp (w : Saving) : Plain w.tmp := by
  cases w with
  | login _ => exact (by decide : Plain (ofStr ".identity.tmp"))
  | token _ => exact (by decide : Plain (ofStr ".token.tmp"))

lemma plain_name (w : Saving) : Plain w.name := by
  cases w with
  | login _ => exact (by decide : Plain (ofStr ".identity"))
  | token _ => exact (by decide : Plain (ofStr ".token"))

lemma secret_infix_contents (w : Saving) : w.secret <:+: w.contents := by
  cases w with
  | login identity =>
      rw [Saving.secret, Saving.contents, identityContents, ofStr_append, ofStr_append,
        ofStr_append]
      exact ⟨_, _, rfl⟩
  | token text => exact List.infix_rfl

lemma createMode_eq_iff : createMode umask % 0o1000 = 0o600 ↔ umask &&& 0o666 = 0o066 := by
  have hle : 0o666 &&& umask ≤ 0o666 := Nat.and_le_left
  rw [createMode, Nat.and_comm umask]
  omega

/-- The mode the temp file has once it is open. -/
def Opens (umask : ℕ) (root : AbsPath) (w : Saving) (fs : FileSystem IdentityFile) (mode : ℕ) :
    Prop :=
  match entry fs root w.tmp with
  | none => mode = createMode umask
  | some .dir => False
  | some (.file f) => f.mode.testBit 7 = true ∧ mode = f.mode

lemma openTruncate_ok {fs' : FileSystem IdentityFile} :
    openTruncate umask fs ⟨root, w.tmp⟩ = .ok fs' ↔
      ∃ mode, Opens umask root w fs mode ∧
        fs' = fs.insert (root ++ [w.tmp]) (.file ⟨mode, []⟩) := by
  simp only [openTruncate, resolve_plain fs root (plain_tmp w), node_snoc, Opens]
  cases hent : entry fs root w.tmp with
  | none => simp [eq_comm]
  | some x =>
      cases x with
      | dir => simp
      | file f =>
          by_cases hbit : f.mode.testBit 7 = true
          · simp [hbit, eq_comm]
          · simp [hbit]

/-- The temp file is closed to others when it is open for writing, however it came to be. -/
lemma covered_iff : Covered umask root w fs ↔
    ∀ mode, Opens umask root w fs mode → mode % 0o1000 = 0o600 := by
  rw [Covered]
  simp only [Opens]
  cases entry fs root w.tmp with
  | none => simp [createMode_eq_iff]
  | some x => cases x <;> simp

/-! ### The stages of a writer -/

/-- The directory with a temp file. -/
def withTmp (root : AbsPath) (w : Saving) (fs : FileSystem IdentityFile) (f : IdentityFile) :
    FileSystem IdentityFile :=
  fs.insert (root ++ [w.tmp]) (.file f)

/-- The directory with the finished file in place. -/
def withFile (root : AbsPath) (w : Saving) (fs : FileSystem IdentityFile) :
    FileSystem IdentityFile :=
  ((withTmp root w fs ⟨0o600, w.contents⟩).erase (root ++ [w.tmp])).insert (root ++ [w.name])
    (.file ⟨0o600, w.contents⟩)

/-- What a temp file can be: opened with its mode and filled up to some byte, or finished. -/
def Filled (umask : ℕ) (root : AbsPath) (w : Saving) (fs : FileSystem IdentityFile)
    (f : IdentityFile) : Prop :=
  ∃ mode, Opens umask root w fs mode ∧
    (f = ⟨0o600, w.contents⟩ ∨ ∃ k, f = ⟨mode, w.contents.take k⟩)

/-- What a writer has made of the directory `fs₀`. -/
def SaveStage (umask : ℕ) (root : AbsPath) (w : Saving) (fs₀ : FileSystem IdentityFile) :
    SavePc → FileSystem IdentityFile → Prop
  | .start, fs => fs = fs₀
  | .create, fs => w.Writes root fs₀ ∧ fs = fs₀
  | .writing k, fs =>
      w.Writes root fs₀ ∧
        ∃ mode, Opens umask root w fs₀ mode ∧ fs = withTmp root w fs₀ ⟨mode, w.contents.take k⟩
  | .chmod, fs =>
      w.Writes root fs₀ ∧
        ∃ mode, Opens umask root w fs₀ mode ∧ fs = withTmp root w fs₀ ⟨mode, w.contents⟩
  | .rename, fs =>
      w.Writes root fs₀ ∧ Filled umask root w fs₀ ⟨0o600, w.contents⟩ ∧
        fs = withTmp root w fs₀ ⟨0o600, w.contents⟩
  | .done, fs =>
      (¬ w.Writes root fs₀ ∧ fs = fs₀) ∨ (w.Writes root fs₀ ∧ fs = withFile root w fs₀)
  | .failed, fs =>
      fs = fs₀ ∨
        (w.Writes root fs₀ ∧ ∃ f, Filled umask root w fs₀ f ∧ fs = withTmp root w fs₀ f)

@[simp]
lemma entry_withTmp (f : IdentityFile) :
    entry (withTmp root w fs₀ f) root w.tmp = some (.file f) := entry_insert_self _ _ _ _

@[simp]
lemma updateFile_withTmp (f : IdentityFile) (change : IdentityFile → IdentityFile) :
    updateFile root w.tmp change (withTmp root w fs₀ f) = withTmp root w fs₀ (change f) := by
  simp only [updateFile, entry_withTmp]
  exact AList.insert_insert _

lemma rename_withTmp :
    Fs.rename (withTmp root w fs₀ ⟨0o600, w.contents⟩) ⟨root, w.tmp⟩ ⟨root, w.name⟩ =
      .ok (withFile root w fs₀) ∨
    Fs.rename (withTmp root w fs₀ ⟨0o600, w.contents⟩) ⟨root, w.tmp⟩ ⟨root, w.name⟩ =
      .error (ontoDirectory w.name) := by
  simp only [Fs.rename, resolve_plain _ root (plain_tmp w), resolve_plain _ root (plain_name w),
    node_snoc, entry_withTmp]
  cases entry (withTmp root w fs₀ ⟨0o600, w.contents⟩) root w.name with
  | none => exact .inl rfl
  | some x =>
      cases x with
      | dir => exact .inr rfl
      | file f => exact .inl rfl

/-- A call that fails leaves the directory as the stage before it. -/
lemma SaveStage.fail {pc : SavePc} (h : SaveStage umask root w fs₀ pc fs) (hpc : pc ≠ .done) :
    SaveStage umask root w fs₀ .failed fs := by
  cases pc with
  | start => exact .inl h
  | create => exact .inl h.2
  | writing k =>
      obtain ⟨hw, mode, hopen, rfl⟩ := h
      exact .inr ⟨hw, _, ⟨mode, hopen, .inr ⟨k, rfl⟩⟩, rfl⟩
  | chmod =>
      obtain ⟨hw, mode, hopen, rfl⟩ := h
      exact .inr ⟨hw, _, ⟨mode, hopen, .inr ⟨_, by rw [List.take_length]⟩⟩, rfl⟩
  | rename => exact .inr ⟨h.1, _, h.2⟩
  | done => exact absurd rfl hpc
  | failed => exact h

/-- More bytes of the temp file. -/
lemma SaveStage.wrote {pc : SavePc} {s' : SavePc × FileSystem IdentityFile} {n : ℕ}
    (h : SaveStage umask root w fs₀ pc fs)
    (hs : saveStep umask root w (pc, fs) (.wrote n) = some s') :
    SaveStage umask root w fs₀ s'.1 s'.2 := by
  cases pc with
  | writing k =>
      obtain ⟨hw, mode, hopen, rfl⟩ := h
      rw [saveStep] at hs
      split_ifs at hs
      rw [← Option.some.inj hs, updateFile_withTmp]
      exact ⟨hw, mode, hopen, rfl⟩
  | start | create | chmod | rename | done | failed => simp [saveStep] at hs

/-- The next call, which can fail by itself where it opens the temp file or renames it. -/
lemma SaveStage.go {pc : SavePc} {s' : SavePc × FileSystem IdentityFile}
    (h : SaveStage umask root w fs₀ pc fs)
    (hs : saveStep umask root w (pc, fs) .go = some s') :
    SaveStage umask root w fs₀ s'.1 s'.2 := by
  cases pc with
  | start =>
      obtain rfl : fs = fs₀ := h
      cases w with
      | token text =>
          rw [← Option.some.inj hs]
          exact ⟨trivial, rfl⟩
      | login identity =>
          rw [← Option.some.inj hs]
          cases hex : pathExists fs ⟨root, (Saving.login identity).name⟩ with
          | true => exact .inl ⟨by simp [Saving.Writes, hex], rfl⟩
          | false => exact ⟨hex, rfl⟩
  | create =>
      obtain ⟨hw, rfl⟩ := h
      rw [saveStep] at hs
      cases hopen : openTruncate umask fs ⟨root, w.tmp⟩ with
      | error e =>
          rw [hopen] at hs
          rw [← Option.some.inj hs]
          exact .inl rfl
      | ok fs' =>
          rw [hopen] at hs
          rw [← Option.some.inj hs]
          obtain ⟨mode, hmode, hfs'⟩ := openTruncate_ok.mp hopen
          exact ⟨hw, mode, hmode, hfs'⟩
  | writing k =>
      obtain ⟨hw, mode, hopen, rfl⟩ := h
      rw [saveStep] at hs
      split_ifs at hs with hk
      rw [← Option.some.inj hs, hk, List.take_length]
      exact ⟨hw, mode, hopen, rfl⟩
  | chmod =>
      obtain ⟨hw, mode, hopen, rfl⟩ := h
      rw [← Option.some.inj hs, updateFile_withTmp]
      exact ⟨hw, ⟨mode, hopen, .inl rfl⟩, rfl⟩
  | rename =>
      obtain ⟨hw, hfill, rfl⟩ := h
      rw [saveStep] at hs
      rcases rename_withTmp with hr | hr
      · rw [hr] at hs
        rw [← Option.some.inj hs]
        exact .inr ⟨hw, rfl⟩
      · rw [hr] at hs
        rw [← Option.some.inj hs]
        exact .inr ⟨hw, _, hfill, rfl⟩
  | done | failed => simp [saveStep] at hs

/-- One step leads from stage to stage. -/
lemma stage_step {s s' : SavePc × FileSystem IdentityFile} {m : SaveMove}
    (h : SaveStage umask root w fs₀ s.1 s.2) (hs : saveStep umask root w s m = some s') :
    SaveStage umask root w fs₀ s'.1 s'.2 := by
  obtain ⟨pc, fs⟩ := s
  cases m with
  | go => exact h.go hs
  | wrote n => exact h.wrote hs
  | fail =>
      have hs' : s' = (.failed, fs) ∧ pc ≠ .done := by
        cases pc <;> simp_all [saveStep]
      rw [hs'.1]
      exact h.fail hs'.2

/-- **The stages.**  Every directory a writer can leave behind, whether it finishes, fails or is
stopped. -/
theorem stage_of_reachable {s : SavePc × FileSystem IdentityFile}
    (h : Reachable (saveStep umask root w) (.start, fs₀) s) :
    SaveStage umask root w fs₀ s.1 s.2 := by
  refine h.invariant (I := fun s => SaveStage umask root w fs₀ s.1 s.2) ?_ fun _ _ _ => stage_step
  exact (rfl : fs₀ = fs₀)

/-- A login that wrote its identity leaves the file of `saveIdentity`. -/
theorem finished_identity {identity : UserIdentity}
    (h : Reachable (saveStep umask root (.login identity)) (.start, fs₀) (.done, fs))
    (hw : (Saving.login identity).Writes root fs₀) :
    entry fs root (ofStr ".identity") = some (.file (saveIdentity identity)) := by
  rcases stage_of_reachable h with ⟨hnot, _⟩ | ⟨_, hfs⟩
  · exact absurd hw hnot
  · simp only at hfs
    rw [hfs]
    exact entry_insert_self _ _ _ _

/-! ### Who can read the secrets -/

lemma private_withTmp {f : IdentityFile} (h : Private root secrets fs)
    (hf : f.mode % 0o1000 = 0o600) : Private root secrets (withTmp root w fs f) := by
  intro n g hg hs
  by_cases hn : n = w.tmp
  · rw [hn, entry_withTmp] at hg
    obtain rfl : f = g := by simpa using hg
    exact hf
  · rw [withTmp, entry_insert_of_ne _ _ (by simpa using hn)] at hg
    exact h n g hg hs

lemma private_withFile (h : Private root secrets fs) :
    Private root secrets (withFile root w fs) := by
  intro n g hg hs
  by_cases hn : n = w.name
  · rw [hn, withFile, entry_insert_self] at hg
    obtain rfl : (⟨0o600, w.contents⟩ : IdentityFile) = g := by simpa using hg
    rfl
  · rw [withFile, entry_insert_of_ne _ _ (by simpa using hn)] at hg
    by_cases htmp : n = w.tmp
    · rw [htmp, entry_erase_self] at hg
      exact absurd hg (by simp)
    · rw [entry_erase_of_ne _ (by simpa using htmp)] at hg
      exact private_withTmp (f := ⟨0o600, w.contents⟩) h rfl n g hg hs

/-- Where the temp file is covered, no stage exposes anything. -/
lemma private_of_stage {pc : SavePc} (h₀ : Private root secrets fs₀)
    (hcov : w.Writes root fs₀ → Covered umask root w fs₀)
    (h : SaveStage umask root w fs₀ pc fs) : Private root secrets fs := by
  have hmode : ∀ {f}, w.Writes root fs₀ → Filled umask root w fs₀ f →
      f.mode % 0o1000 = 0o600 := by
    rintro f hw ⟨mode, hopen, rfl | ⟨k, rfl⟩⟩
    · rfl
    · exact covered_iff.mp (hcov hw) mode hopen
  cases pc with
  | start => exact h ▸ h₀
  | create => exact h.2 ▸ h₀
  | writing k =>
      obtain ⟨hw, mode, hopen, rfl⟩ := h
      exact private_withTmp h₀ (hmode hw ⟨mode, hopen, .inr ⟨k, rfl⟩⟩)
  | chmod =>
      obtain ⟨hw, mode, hopen, rfl⟩ := h
      exact private_withTmp h₀ (hmode hw ⟨mode, hopen, .inr ⟨_, by rw [List.take_length]⟩⟩)
  | rename =>
      obtain ⟨_, _, rfl⟩ := h
      exact private_withTmp h₀ rfl
  | done =>
      rcases h with ⟨_, rfl⟩ | ⟨_, rfl⟩
      · exact h₀
      · exact private_withFile h₀
  | failed =>
      rcases h with rfl | ⟨hw, f, hfill, rfl⟩
      · exact h₀
      · exact private_withTmp h₀ (hmode hw hfill)

/-- The temp file is written in full before its mode is set. -/
lemma reachable_written {mode : ℕ} (hw : w.Writes root fs₀)
    (hopen : Opens umask root w fs₀ mode) :
    Reachable (saveStep umask root w) (.start, fs₀)
      (.writing w.contents.length, withTmp root w fs₀ ⟨mode, w.contents⟩) := by
  have hstart : saveStep umask root w (.start, fs₀) .go = some (.create, fs₀) := by
    cases w with
    | token text => rfl
    | login identity =>
        have hne : pathExists fs₀ ⟨root, (Saving.login identity).name⟩ = false := hw
        simp [saveStep, hne]
  have hcreate : saveStep umask root w (.create, fs₀) .go =
      some (.writing 0, withTmp root w fs₀ ⟨mode, []⟩) := by
    simp only [saveStep, openTruncate_ok.mpr ⟨mode, hopen, rfl⟩, withTmp]
  have hopened := (Reachable.init.step hstart).step hcreate
  by_cases hlen : w.contents = []
  · rwa [hlen]
  · refine hopened.step (a := .wrote w.contents.length) ?_
    have hpos : 0 < w.contents.length := List.length_pos_iff.mpr hlen
    simp [saveStep, hpos]

/-- The file is exposed in between unless it was opened with the right mode. -/
lemma mode_of_private {mode : ℕ} (hw : w.Writes root fs₀) (hopen : Opens umask root w fs₀ mode)
    (hs : w.secret ∈ secrets)
    (h : ∀ s, Reachable (saveStep umask root w) (.start, fs₀) s → Private root secrets s.2) :
    mode % 0o1000 = 0o600 :=
  h _ (reachable_written hw hopen) w.tmp ⟨mode, w.contents⟩ (entry_withTmp _)
    ⟨w.secret, hs, secret_infix_contents w⟩

/-- **The secrets.**  Through all steps of a writer, and wherever it is stopped, no file that
contains a secret is open to others, exactly when none was before and the temp file, if one is
written, is covered. -/
theorem secrets_private_iff (umask : ℕ) (root : AbsPath) (w : Saving) (others : List OsString)
    (fs₀ : FileSystem IdentityFile) :
    (∀ s, Reachable (saveStep umask root w) (.start, fs₀) s →
        Private root (w.secret :: others) s.2) ↔
      Private root (w.secret :: others) fs₀ ∧
        (w.Writes root fs₀ → Covered umask root w fs₀) := by
  constructor
  · intro h
    exact ⟨h _ .init, fun hw => covered_iff.mpr fun mode hopen =>
      mode_of_private hw hopen List.mem_cons_self h⟩
  · rintro ⟨h₀, hcov⟩ s hs
    exact private_of_stage h₀ hcov (stage_of_reachable hs)

lemma mode_of_private_empty (hs : w.secret ∈ secrets)
    (h : ∀ s, Reachable (saveStep umask root w) (.start, ∅) s → Private root secrets s.2) :
    createMode umask % 0o1000 = 0o600 := by
  have hw : w.Writes root ∅ := by
    cases w with
    | login identity =>
        have hnone : entry (∅ : FileSystem IdentityFile) root (Saving.login identity).name = none :=
          AList.lookup_empty _
        simp only [Saving.Writes, pathExists_plain (plain_name _), hnone, Option.isSome_none]
    | token text => trivial
  have hopen : Opens umask root w ∅ (createMode umask) := by
    have hnone : entry (∅ : FileSystem IdentityFile) root w.tmp = none := AList.lookup_empty _
    simp only [Opens, hnone]
  exact mode_of_private hw hopen hs h

/-- Under the usual umask, in an empty directory, both writers expose their secret: the temp
file is readable by all until its mode is set. -/
theorem secrets_exposed :
    (¬ ∀ s,
        Reachable (saveStep 0o022 [] (.login ⟨"alice", ⟨List.replicate 32 1, rfl⟩⟩)) (.start, ∅) s →
          Private [] [ofStr (hexEncode (List.replicate 32 1))] s.2) ∧
      ¬ ∀ s, Reachable (saveStep 0o022 [] (.token "0123abcd")) (.start, ∅) s →
        Private [] [ofStr "0123abcd"] s.2 := by
  constructor
  · intro h
    exact absurd (mode_of_private_empty List.mem_cons_self h) (by decide)
  · intro h
    exact absurd (mode_of_private_empty List.mem_cons_self h) (by decide)

end Dddatasync
