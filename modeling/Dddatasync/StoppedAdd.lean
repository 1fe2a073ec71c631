import Dddatasync.VisibleFiles

/-!
What an `add` of `src/store.rs` has changed in its store at every point of the call.

* `addAlone`: the steps of an `add` that has the mutex to itself.
* `addStep_tree`: a step writes the temp file, takes it away, renames it, or leaves the tree.
* `AddLeft`, `add_left`: what is different from before: the temp file, which takes no
  directory's place, and the file to add.
-/

namespace Dddatasync

open Fs OsString Runs

variable {C : Type*} [HasLen C]

/-- One step of an `add` that has the mutex to itself. -/
def addAlone (root : AbsPath) (src : PathBuf) (stamp : Stamp) (fs : FileSystem C) :
    AddPc C → AddMove C → Option (AddPc C × FileSystem C)
  | .call (.lock size target), .go => some (.call (.check size target), fs)
  | .call (.unlock r), .go => some (.call (.done r), fs)
  | pc, move => addStep root src stamp fs pc move

variable {root : AbsPath} {fs₀ fs fs' : FileSystem C} {src : PathBuf} {stamp : Stamp}
  {n : OsString} {pc pc' : AddPc C} {move : AddMove C}

/-! ### One step -/

/-- A step of an `add` on its own is a step of an `add`. -/
lemma addAlone_stepped (h : addAlone root src stamp fs pc move = some (pc', fs')) :
    AddStepped root src stamp fs fs' pc pc' := by
  rw [addAlone.eq_def] at h
  split at h
  · cases h
    exact .passed _ _ (fun n hn => hn) (by simp) rfl
  · cases h
    exact .passed _ _ (fun n hn => hn) (by simp) rfl
  · exact addStep_stepped h

omit [HasLen C] in
/-- The removal of the temp file leaves a directory in its place alone. -/
lemma discardTmp_file : discardTmp root (tmpName stamp) {} fs = fs
    ∨ (∃ c, entry fs root (tmpName stamp) = some (.file c))
      ∧ discardTmp root (tmpName stamp) {} fs = fs.erase (root ++ [tmpName stamp]) := by
  have hres := resolve_plain fs root (plain_tmpName stamp)
  cases hx : entry fs root (tmpName stamp) with
  | none =>
      exact .inl (by simp [discardTmp, Fs.removeFile, hres, hx])
  | some x =>
      cases x with
      | dir => exact .inl (by simp [discardTmp, Fs.removeFile, hres, hx])
      | file c => exact .inr ⟨⟨c, rfl⟩, by simp [discardTmp, Fs.removeFile, hres, hx]⟩

lemma advance_tree (pc : Pc) (hcopy : ∀ size name, pc ≠ .copy size name) :
    (advance root fs (.add src stamp) pc).fs = fs
      ∨ (∃ c, write fs ⟨root, tmpName stamp⟩ c = .ok (advance root fs (.add src stamp) pc).fs)
      ∨ (advance root fs (.add src stamp) pc).fs = discardTmp root (tmpName stamp) {} fs
      ∨ ∃ n, (.call pc : AddPc C) = .call (.rename n)
        ∧ Fs.rename fs ⟨root, tmpName stamp⟩ ⟨root, n⟩
          = .ok (advance root fs (.add src stamp) pc).fs := by
  cases pc with
  | start =>
      refine .inl ?_
      rw [advance_start]
      split
      · rfl
      · split <;> rfl
  | copy size name => exact absurd rfl (hcopy size name)
  | count target pending found =>
      cases pending with
      | nil => exact .inl rfl
      | cons n pending => exact .inl rfl
  | «exists» name =>
      refine .inl ?_
      rw [advance_exists]
      split_ifs <;> rfl
  | rename name =>
      rw [advance_rename, renameTmp]
      split
      · exact .inl rfl
      · rename_i fs₁ hr
        exact .inr (.inr (.inr ⟨name, rfl, hr⟩))
  | discard e =>
      refine .inr (.inr (.inl ?_))
      rw [advance_discard]
  | check size target =>
      refine .inl ?_
      rw [advance_check]
  | lock | removeFile | unlock | done => exact .inl rfl

omit [HasLen C] in
/-- The copy leaves the tree or writes the temp file. -/
lemma addWrite_tree {c : C} {next : AddPc C} (h : addWrite root stamp c next fs = (pc', fs')) :
    fs' = fs ∨ ∃ c, write fs ⟨root, tmpName stamp⟩ c = .ok fs' := by
  rw [addWrite] at h
  cases hok : write fs ⟨root, tmpName stamp⟩ c with
  | error e =>
      rw [hok] at h
      exact .inl (Prod.mk.inj h).2.symm
  | ok fs₁ =>
      rw [hok] at h
      exact .inr ⟨c, by rw [hok, (Prod.mk.inj h).2]⟩

/-- What a step of an `add` makes of the tree: nothing, or it writes the temp file, takes it
away or renames it. -/
lemma addStep_tree (h : addStep root src stamp fs pc move = some (pc', fs')) :
    fs' = fs ∨ (∃ c, write fs ⟨root, tmpName stamp⟩ c = .ok fs')
      ∨ fs' = discardTmp root (tmpName stamp) {} fs
      ∨ ∃ n, pc = .call (.rename n)
        ∧ Fs.rename fs ⟨root, tmpName stamp⟩ ⟨root, n⟩ = .ok fs' := by
  cases addStep_moved h with
  | wrote size name c part pc' result => exact (addWrite_tree result).imp_right .inl
  | copied size name c pc' result => exact (addWrite_tree result).imp_right .inl
  | cut size name c e fs_eq => exact .inl fs_eq
  | opened size name fs_eq => exact .inl fs_eq
  | failed pc pc' e fault fs_eq => exact .inl fs_eq
  | called pc hcopy fs_eq =>
      subst fs_eq
      exact advance_tree pc hcopy

/-! ### What is left -/

omit [HasLen C] in
/-- What an `add` has changed in its store: its temp file, which takes no directory's place,
and the file it wants to add. -/
structure AddLeft (root : AbsPath) (src : PathBuf) (stamp : Stamp) (fs₀ fs : FileSystem C) :
    Prop where
  root_eq : node fs root = node fs₀ root
  other : ∀ n, n ≠ tmpName stamp → entry fs root n = entry fs₀ root n
    ∨ fileName src = some n ∧ Plain n ∧ ∃ c, entry fs root n = some (.file c)
  tmp : entry fs root (tmpName stamp) = entry fs₀ root (tmpName stamp)
    ∨ entry fs₀ root (tmpName stamp) ≠ some .dir ∧ entry fs root (tmpName stamp) ≠ some .dir

omit [HasLen C] in
/-- A change of the temp file. -/
lemma AddLeft.step (h : AddLeft root src stamp fs₀ fs)
    (hsame : SameExcept root (tmpName stamp) fs fs')
    (hfile : entry fs root (tmpName stamp) ≠ some .dir)
    (hfile' : entry fs' root (tmpName stamp) ≠ some .dir) :
    AddLeft root src stamp fs₀ fs' where
  root_eq := hsame.root_eq.trans h.root_eq
  other := fun n hn => by
    rw [hsame.entry_eq n hn]
    exact h.other n hn
  tmp := .inr ⟨h.tmp.elim (fun heq => heq ▸ hfile) And.left, hfile'⟩

omit [HasLen C] in
/-- The rename of the temp file. -/
lemma AddLeft.rename (h : AddLeft root src stamp fs₀ fs) (hname : fileName src = some n)
    (hn : Plain n) (hr : Fs.rename fs ⟨root, tmpName stamp⟩ ⟨root, n⟩ = .ok fs') :
    AddLeft root src stamp fs₀ fs' := by
  obtain ⟨c, hc, rfl⟩ := rename_plain (plain_tmpName stamp) hn hr
  have hself := entry_insert_self (fs.erase (root ++ [tmpName stamp])) root n (.file c)
  have hne : ∀ {m}, m ≠ n → entry ((fs.erase (root ++ [tmpName stamp])).insert (root ++ [n])
      (.file c)) root m = entry (fs.erase (root ++ [tmpName stamp])) root m :=
    fun hm => entry_insert_of_ne _ _ (by simpa using hm)
  refine ⟨?_, fun m hm => ?_, .inr ⟨?_, ?_⟩⟩
  · rw [node_insert_of_ne _ _ (root_ne_child root n), node_erase_of_ne _ (root_ne_child root _),
      h.root_eq]
  · by_cases hmn : m = n
    · subst hmn
      exact .inr ⟨hname, hn, c, hself⟩
    · rw [hne hmn, entry_erase_of_ne fs (by simpa using hm)]
      exact h.other m hm
  · rcases h.tmp with heq | ⟨h₀, -⟩
    · rw [← heq, hc]
      simp
    · exact h₀
  · by_cases hmn : tmpName stamp = n
    · have hfile : entry ((fs.erase (root ++ [tmpName stamp])).insert (root ++ [n]) (.file c)) root
          (tmpName stamp) = some (.file c) := by rw [← hself, hmn]
      rw [hfile]
      simp
    · rw [hne hmn, entry_erase_self]
      simp

/-- **A step of an `add`** on its own. -/
lemma addLeft_step (hok : AddOk root src stamp (fun _ _ => True) fs pc)
    (h : AddLeft root src stamp fs₀ fs)
    (hstep : addAlone root src stamp fs pc move = some (pc', fs')) :
    AddLeft root src stamp fs₀ fs' := by
  rw [addAlone.eq_def] at hstep
  split at hstep
  · cases hstep
    exact h
  · cases hstep
    exact h
  · rcases addStep_tree hstep with heq | ⟨c, hw⟩ | heq | ⟨n, hpc, hr⟩
    · rw [heq]
      exact h
    · obtain ⟨-, he⟩ | ⟨hfile, fs₁, hw₁, hsame, hc⟩ := write_cases root fs c (plain_tmpName stamp)
      · rw [hw] at he
        cases he
      · rw [hw] at hw₁
        cases hw₁
        exact h.step hsame hfile (by rw [hc]; simp)
    · have hfile : discardTmp root (tmpName stamp) {} fs = fs
          ∨ (∃ c, entry fs root (tmpName stamp) = some (.file c))
            ∧ discardTmp root (tmpName stamp) {} fs = fs.erase (root ++ [tmpName stamp]) :=
        discardTmp_file
      rw [heq]
      obtain hsame | ⟨⟨c, hc⟩, herase⟩ := hfile
      · rw [hsame]
        exact h
      · rw [herase]
        have hgone := entry_erase_self fs root (tmpName stamp)
        exact h.step (sameExcept_erase root _ fs) (by rw [hc]; simp) (by rw [hgone]; simp)
    · obtain ⟨hname, hplain, -⟩ := hok.copied _ n hpc rfl
      exact h.rename hname hplain hr

/-- **An `add`** changes its temp file and the file it wants to add. -/
theorem add_left {moves : List (AddMove C)}
    (hrun : exec (fun s move => addAlone root src stamp s.2 s.1 move) (.call .start, fs₀) moves
      = some (pc, fs)) : AddLeft root src stamp fs₀ fs := by
  have hinv : ∀ s,
      exec (fun s move => addAlone root src stamp s.2 s.1 move) (.call .start, fs₀) moves = some s →
      AddOk root src stamp (fun _ _ => True) s.2 s.1 ∧ AddLeft root src stamp fs₀ s.2 := by
    intro s hs
    refine exec_invariant (I := fun s =>
      AddOk root src stamp (fun _ _ => True) s.2 s.1 ∧ AddLeft root src stamp fs₀ s.2) ?_ ?_ hs
    · rintro ⟨pc, fs⟩ move ⟨pc', fs'⟩ - ⟨hok, hleft⟩ hstep
      refine ⟨?_, addLeft_step hok hleft hstep⟩
      exact (addOk_stepped String (addAlone_stepped hstep) (fun _ _ _ _ _ => trivial) hok).1
    · exact ⟨addOk_idle rfl (by simp), rfl, fun n _ => .inl rfl, .inl rfl⟩
  exact (hinv (pc, fs) hrun).2

end Dddatasync
