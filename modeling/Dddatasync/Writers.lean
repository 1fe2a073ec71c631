import Dddatasync.PullSteps
import Dddatasync.StoreThreads

/-!
Everything that puts files into one store directory, at once and with crashes: `add` of
`src/store.rs` and `pull` of `src/sync.rs`.

* `Writer`: an `add` or a `pull`; `AddPc`, `AddMove`, `addStep`: an `add` whose copy is done
  in parts and whose calls on the tree may fail.
* `Writing`: the writers, the processes they run in and the directory; `Writers`,
  `Writing.step`: one move of one writer, or the end of one process.  The adds of a process
  share a mutex; what a crash leaves stays in the tree.
* `addStep_moved`: the branch of `addStep` that a step is.
* `addStep_stepped`: every step of an `add` leaves all names but its own alone, or it is the
  rename.
* `rename_plain`: a rename between ordinary names.
-/

namespace Dddatasync

open Fs OsString Runs

variable {ι P C NodeId Sock Relay Hash : Type*}

/-! ### One `add` -/

/-- Something that puts a file into the store. -/
inductive Writer where
  | add (src : PathBuf) (stamp : Stamp)
  | pull (p : PullCall)
  deriving DecidableEq

/-- The temp name under which a writer puts its file together. -/
def Writer.staged : Writer → OsString
  | .add _ stamp => tmpName stamp
  | .pull p => exportName p.exportStamp

@[simp]
lemma staged_pull (p : PullCall) : (Writer.pull p).staged = exportName p.exportStamp := rfl

/-- Where an `add` stands: before or after its copy, or in it with the source open. -/
inductive AddPc (C : Type*) where
  | call (pc : Pc)
  | copying (size : ℕ) (name : OsString) (content : C)
  deriving DecidableEq

/-- What an `add` does next: it goes on, its copy writes a part, or its next call on the
tree fails. -/
inductive AddMove (C : Type*) where
  | go
  | chunk (part : C)
  | fault (e : IoError)

/-- Where a failing call on the tree leads. -/
def addFault : Pc → IoError → Option Pc
  | .start, e | .copy _ _, e => some (.done (.error (.io e)))
  | .check size target, e => if size > maxFileBytes then none else some (refuse target (.io e))
  | .count target _ _, e => some (refuse target (.io e))
  -- `exists` has no errors
  | .exists name, _ => some (.rename name)
  | .rename _, e => some (.unlock (.error (.io e)))
  | .discard e, _ => some (.unlock (.error e))
  | _, _ => none

/-- `fs::copy` opens its source. -/
def addOpen (src : PathBuf) (size : ℕ) (name : OsString) (fs : FileSystem C) : AddPc C :=
  match metadata fs src with
  | .error e => .call (.done (.error (.io e)))
  | .ok .dir => .call (.done (.error (.io .invalidInput)))
  | .ok (.file c) => .copying size name c

/-- `fs::copy` writes to the temp file. -/
def addWrite (root : AbsPath) (stamp : Stamp) (content : C) (pc : AddPc C) (fs : FileSystem C) :
    AddPc C × FileSystem C :=
  match write fs ⟨root, tmpName stamp⟩ content with
  | .error e => (.call (.done (.error (.io e))), fs)
  | .ok fs' => (pc, fs')

variable [HasLen C]

/-- One step of an `add` that leaves the mutex alone. -/
def addStep (root : AbsPath) (src : PathBuf) (stamp : Stamp) (fs : FileSystem C) :
    AddPc C → AddMove C → Option (AddPc C × FileSystem C)
  | .copying size name c, .chunk part =>
      some (addWrite root stamp part (.copying size name c) fs)
  | .copying size name c, .go =>
      some (addWrite root stamp c (.call (.lock size (some name))) fs)
  | .copying _ _ _, .fault e => some (.call (.done (.error (.io e))), fs)
  | .call (.copy size name), .go => some (addOpen src size name fs, fs)
  | .call pc, .go =>
      let o := advance root fs (.add src stamp) pc
      some (.call o.pc, o.fs)
  | .call pc, .fault e => (addFault pc e).map fun pc' => (.call pc', fs)
  | .call _, .chunk _ => none

/-! ### All writers -/

/-- Any number of writers on one store directory, each in some process. -/
structure Writing (ι P C NodeId Sock Relay Hash : Type*) where
  codec : Codec NodeId Sock Relay Hash
  blobs : Blobs C Hash
  root : AbsPath
  process : ι → P
  writers : ι → Writer

/-- Where a writer stands; `killed` if its process ended before it did. -/
inductive Stage (C Hash : Type*) where
  | add (pc : AddPc C)
  | pull (pc : PullPc C Hash)
  | killed
  deriving DecidableEq

/-- The tree, the mutex of each process, and where each writer stands. -/
structure Writers (ι P C Hash : Type*) where
  fs : FileSystem C
  mutex : P → Option ι
  stages : ι → Stage C Hash

/-- A move of an `add` or of a `pull`, or a process ends. -/
inductive WriterAct (ι P C Hash : Type*) where
  | add (i : ι) (move : AddMove C)
  | pull (i : ι) (move : PullMove C Hash)
  | crash (q : P)

/-- A writer that has not been called yet. -/
def Writer.fresh : Writer → Stage C Hash
  | .add _ _ => .add (.call .start)
  | .pull _ => .pull .start

/-- A writer whose process ends is over, one that comes later is not. -/
def Stage.crash : Stage C Hash → Stage C Hash
  | .add (.call .start) => .add (.call .start)
  | .pull .start => .pull .start
  | _ => .killed

variable [DecidableEq ι] [DecidableEq P] [DecidableEq Hash]

namespace Writing

variable (w : Writing ι P C NodeId Sock Relay Hash)

/-- Nobody has begun. -/
def init (fs : FileSystem C) : Writers ι P C Hash :=
  ⟨fs, fun _ => none, fun i => (w.writers i).fresh⟩

/-- A move of the `add` of writer `i`. -/
def stepAdd (s : Writers ι P C Hash) (i : ι) (src : PathBuf) (stamp : Stamp) :
    AddPc C → AddMove C → Option (Writers ι P C Hash)
  | .call (.lock size target), .go =>
      if s.mutex (w.process i) = none then
        some { s with
          mutex := Function.update s.mutex (w.process i) (some i)
          stages := Function.update s.stages i (.add (.call (.check size target))) }
      else none
  | .call (.unlock r), .go =>
      some { s with
        mutex := Function.update s.mutex (w.process i) none
        stages := Function.update s.stages i (.add (.call (.done r))) }
  | pc, move =>
      (addStep w.root src stamp s.fs pc move).map fun o =>
        { s with fs := o.2, stages := Function.update s.stages i (.add o.1) }

/-- One step. -/
def step (s : Writers ι P C Hash) : WriterAct ι P C Hash → Option (Writers ι P C Hash)
  | .add i move =>
      match w.writers i, s.stages i with
      | .add src stamp, .add pc => w.stepAdd s i src stamp pc move
      | _, _ => none
  | .pull i move =>
      match w.writers i, s.stages i with
      | .pull p, .pull pc =>
          (pullStep w.codec w.blobs w.root p s.fs pc move).map fun o =>
            { s with fs := o.2, stages := Function.update s.stages i (.pull o.1) }
      | _, _ => none
  | .crash q =>
      some { s with
        mutex := Function.update s.mutex q none
        stages := fun i => if w.process i = q then (s.stages i).crash else s.stages i }

end Writing

/-! ### What a step of an `add` does -/

omit [HasLen C] in
/-- A rename between ordinary names moves the file. -/
lemma rename_plain {root : AbsPath} {fs fs' : FileSystem C} {m n : OsString} (hm : Plain m)
    (hn : Plain n) (h : Fs.rename fs ⟨root, m⟩ ⟨root, n⟩ = .ok fs') :
    ∃ c, entry fs root m = some (.file c)
      ∧ fs' = (fs.erase (root ++ [m])).insert (root ++ [n]) (.file c) := by
  simp only [Fs.rename, resolve_plain fs root hm, resolve_plain fs root hn, node_snoc] at h
  cases hc : entry fs root m with
  | none => simp [hc] at h
  | some x =>
      cases x with
      | dir => simp [hc] at h
      | file c =>
          refine ⟨c, rfl, ?_⟩
          cases hd : entry fs root n with
          | none =>
              simp only [hc, hd] at h
              exact (Except.ok.inj h).symm
          | some y =>
              cases y with
              | dir => simp [hc, hd] at h
              | file d =>
                  simp only [hc, hd] at h
                  exact (Except.ok.inj h).symm

/-- The name an `add` that has made its copy wants to have it under. -/
def Pc.aim : Pc → Option OsString
  | .lock _ target | .check _ target | .count target _ _ => target
  | .exists name | .rename name => some name
  | _ => none

/-- What a step of an `add` is: it stats its source, opens it, writes a part of it or all of
it, goes on without a change of the tree, renames its temp file, or takes it away. -/
inductive AddStepped (root : AbsPath) (src : PathBuf) (stamp : Stamp) (fs fs' : FileSystem C) :
    AddPc C → AddPc C → Prop
  | looked (size : ℕ) (name : OsString) (named : fileName src = some name) (fs_eq : fs' = fs) :
      AddStepped root src stamp fs fs' (.call .start) (.call (.copy size name))
  | opened (size : ℕ) (name : OsString) (c : C) (source : metadata fs src = .ok (.file c))
      (fs_eq : fs' = fs) :
      AddStepped root src stamp fs fs' (.call (.copy size name)) (.copying size name c)
  | written (size : ℕ) (name : OsString) (c : C) (same : SameExcept root (tmpName stamp) fs fs') :
      AddStepped root src stamp fs fs' (.copying size name c) (.copying size name c)
  | copied (size : ℕ) (name : OsString) (c : C) (same : SameExcept root (tmpName stamp) fs fs')
      (content : entry fs' root (tmpName stamp) = some (.file c)) :
      AddStepped root src stamp fs fs' (.copying size name c) (.call (.lock size (some name)))
  | passed (pc pc' : Pc) (aims : ∀ n, pc'.aim = some n → pc.aim = some n)
      (later : ∀ size name, pc' ≠ .copy size name) (fs_eq : fs' = fs) :
      AddStepped root src stamp fs fs' (.call pc) (.call pc')
  | renamed (name : OsString) (r : Except StoreError Unit)
      (moved : Fs.rename fs ⟨root, tmpName stamp⟩ ⟨root, name⟩ = .ok fs') :
      AddStepped root src stamp fs fs' (.call (.rename name)) (.call (.unlock r))
  | dropped (pc : AddPc C) (r : Except StoreError Unit) (pc' : Pc)
      (ended : pc' = .unlock r ∨ pc' = .done r) (same : SameExcept root (tmpName stamp) fs fs') :
      AddStepped root src stamp fs fs' pc (.call pc')

variable {root : AbsPath} {src : PathBuf} {stamp : Stamp} {fs fs' : FileSystem C}
  {pc pc' : AddPc C} {move : AddMove C}

omit [HasLen C] in
lemma addWrite_stepped {c : C} {next : AddPc C} (h : addWrite root stamp c next fs = (pc', fs')) :
    (SameExcept root (tmpName stamp) fs fs' ∧ ∃ r, pc' = .call (.done r))
      ∨ pc' = next ∧ SameExcept root (tmpName stamp) fs fs'
        ∧ entry fs' root (tmpName stamp) = some (.file c) := by
  rw [addWrite] at h
  obtain ⟨-, hw⟩ | ⟨-, fs₁, hw, hsame, hc⟩ := write_cases root fs c (plain_tmpName stamp)
  · rw [hw] at h
    obtain ⟨rfl, rfl⟩ := Prod.mk.inj h
    exact .inl ⟨.refl _ fs, _, rfl⟩
  · rw [hw] at h
    obtain ⟨rfl, rfl⟩ := Prod.mk.inj h
    exact .inr ⟨rfl, hsame, hc⟩

omit [HasLen C] in
lemma addOpen_stepped {size : ℕ} {name : OsString}
    (h : addOpen src size name fs = pc') :
    AddStepped root src stamp fs fs (.call (.copy size name)) pc' := by
  subst h
  rw [addOpen]
  split
  · exact .dropped _ _ _ (.inr rfl) (.refl _ fs)
  · exact .dropped _ _ _ (.inr rfl) (.refl _ fs)
  · rename_i c hc
    exact .opened size name c hc rfl

lemma aim_refuse {target : Option OsString} {e : StoreError} : (refuse target e).aim = none := by
  cases target <;> rfl

lemma aim_approve {target : Option OsString} : (approve target).aim = target := by
  cases target <;> rfl

lemma refuse_ne_copy {target : Option OsString} {e : StoreError} {size : ℕ} {name : OsString} :
    refuse target e ≠ .copy size name := by
  cases target <;> simp [refuse]

lemma approve_ne_copy {target : Option OsString} {size : ℕ} {name : OsString} :
    approve target ≠ .copy size name := by
  cases target <;> simp [approve]

omit [HasLen C] in
/-- Stopping short of the rename is a step that aims at nothing any more. -/
lemma stepped_refuse (pc : Pc) (target : Option OsString) (e : StoreError) :
    AddStepped root src stamp fs fs (.call pc) (.call (refuse target e)) :=
  .passed pc _ (fun n hn => by simp [aim_refuse] at hn) (fun _ _ => refuse_ne_copy) rfl

omit [HasLen C] in
/-- The limit check keeps the name it is for. -/
lemma stepped_check {size : ℕ} {target : Option OsString} :
    AddStepped root src stamp fs fs (.call (.check size target))
      (.call (beginCheck root size target fs)) := by
  rw [beginCheck]
  split_ifs
  · exact stepped_refuse _ _ _
  · cases readDir fs ⟨root, []⟩ with
    | error e => exact stepped_refuse _ _ _
    | ok es => exact .passed _ _ (fun n hn => hn) (by simp) rfl

lemma stepped_count {target : Option OsString} {pending : List OsString} {found : List FileEntry} :
    AddStepped root src stamp fs (advance root fs (.add src stamp) (.count target pending found)).fs
      (.call (.count target pending found))
      (.call (advance root fs (.add src stamp) (.count target pending found)).pc) := by
  cases pending with
  | nil =>
      rw [advance_count_nil, endCheck]
      split_ifs
      · exact stepped_refuse _ _ _
      · exact .passed _ _ (fun n hn => by rwa [aim_approve] at hn) (fun _ _ => approve_ne_copy) rfl
  | cons n pending =>
      rw [advance_count_cons, countEntry]
      split_ifs
      · exact .passed _ _ (fun n hn => hn) (by simp) rfl
      · cases entry fs root n with
        | none => exact stepped_refuse _ _ _
        | some x => exact .passed _ _ (fun n hn => hn) (by simp) rfl

omit [HasLen C] in
lemma stepped_rename {name : OsString} :
    AddStepped root src stamp fs (renameTmp root name (tmpName stamp) fs).fs
      (.call (.rename name)) (.call (renameTmp root name (tmpName stamp) fs).pc) := by
  rw [renameTmp]
  cases hr : Fs.rename fs ⟨root, tmpName stamp⟩ ⟨root, name⟩ with
  | error e => exact .dropped _ _ _ (.inl rfl) (.refl _ fs)
  | ok fs₁ => exact .renamed name _ hr

/-- A step of an `add` by its function. -/
lemma advance_stepped (pc : Pc) (hcopy : ∀ size name, pc ≠ .copy size name) :
    AddStepped root src stamp fs (advance root fs (.add src stamp) pc).fs (.call pc)
      (.call (advance root fs (.add src stamp) pc).pc) := by
  cases pc with
  | start =>
      rw [advance_start]
      cases metadata fs src with
      | error e => exact .dropped _ _ _ (.inr rfl) (.refl _ fs)
      | ok stat =>
          cases hname : fileName src with
          | none => exact .dropped _ _ _ (.inr rfl) (.refl _ fs)
          | some name => exact .looked _ name hname rfl
  | copy size name => exact absurd rfl (hcopy size name)
  | check size target =>
      rw [advance_check]
      exact stepped_check
  | count target pending found => exact stepped_count
  | «exists» name =>
      rw [advance_exists]
      by_cases hex : pathExists fs ⟨root, name⟩ = true
      · rw [if_pos hex]
        exact .passed _ _ (fun n hn => by cases hn) (by simp) rfl
      · rw [if_neg hex]
        exact .passed _ _ (fun n hn => hn) (by simp) rfl
  | rename name =>
      rw [advance_rename]
      exact stepped_rename
  | discard e =>
      rw [advance_discard]
      refine .dropped _ _ _ (.inl rfl) ?_
      have hcases : discardTmp root (tmpName stamp) {} fs = fs
          ∨ discardTmp root (tmpName stamp) {} fs = fs.erase (root ++ [tmpName stamp]) :=
        discardTmp_cases (plain_tmpName stamp)
      obtain h | h := hcases
      · rw [h]
        exact .refl _ fs
      · rw [h]
        exact sameExcept_erase root _ fs
  | lock size target => exact .passed _ _ (fun n hn => hn) (by simp [advance]) rfl
  | removeFile => exact .passed _ _ (fun n hn => hn) (by simp [advance]) rfl
  | unlock r => exact .passed _ _ (fun n hn => hn) (by simp [advance]) rfl
  | done r => exact .passed _ _ (fun n hn => hn) (by simp [advance]) rfl

omit [HasLen C] in
lemma addFault_stepped {pc pc' : Pc} {e : IoError} (h : addFault pc e = some pc') :
    AddStepped root src stamp fs fs (.call pc) (.call pc') := by
  cases pc with
  | start | copy =>
      cases h
      exact .dropped _ _ _ (.inr rfl) (.refl _ fs)
  | check size target =>
      rw [addFault] at h
      split_ifs at h
      cases h
      exact stepped_refuse _ _ _
  | count target pending found =>
      cases h
      exact stepped_refuse _ _ _
  | «exists» name =>
      cases h
      exact .passed _ _ (fun n hn => hn) (by simp) rfl
  | rename | discard =>
      cases h
      exact .dropped _ _ _ (.inl rfl) (.refl _ fs)
  | lock | removeFile | unlock | done => simp [addFault] at h

/-- Which branch of `addStep` a step is. -/
inductive AddMoved (root : AbsPath) (src : PathBuf) (stamp : Stamp) (fs fs' : FileSystem C) :
    AddPc C → AddMove C → AddPc C → Prop
  | wrote (size : ℕ) (name : OsString) (c part : C) (pc' : AddPc C)
      (result : addWrite root stamp part (.copying size name c) fs = (pc', fs')) :
      AddMoved root src stamp fs fs' (.copying size name c) (.chunk part) pc'
  | copied (size : ℕ) (name : OsString) (c : C) (pc' : AddPc C)
      (result : addWrite root stamp c (.call (.lock size (some name))) fs = (pc', fs')) :
      AddMoved root src stamp fs fs' (.copying size name c) .go pc'
  | cut (size : ℕ) (name : OsString) (c : C) (e : IoError) (fs_eq : fs' = fs) :
      AddMoved root src stamp fs fs' (.copying size name c) (.fault e)
        (.call (.done (.error (.io e))))
  | opened (size : ℕ) (name : OsString) (fs_eq : fs' = fs) :
      AddMoved root src stamp fs fs' (.call (.copy size name)) .go (addOpen src size name fs)
  | called (pc : Pc) (hcopy : ∀ size name, pc ≠ .copy size name)
      (fs_eq : fs' = (advance root fs (.add src stamp) pc).fs) :
      AddMoved root src stamp fs fs' (.call pc) .go
        (.call (advance root fs (.add src stamp) pc).pc)
  | failed (pc pc' : Pc) (e : IoError) (fault : addFault pc e = some pc') (fs_eq : fs' = fs) :
      AddMoved root src stamp fs fs' (.call pc) (.fault e) (.call pc')

/-- **Every step of an `add` is one of these.** -/
lemma addStep_moved (h : addStep root src stamp fs pc move = some (pc', fs')) :
    AddMoved root src stamp fs fs' pc move pc' := by
  cases pc with
  | copying size name c =>
      cases move with
      | go => exact .copied size name c pc' (Option.some.inj h)
      | chunk part => exact .wrote size name c part pc' (Option.some.inj h)
      | fault e =>
          obtain ⟨rfl, rfl⟩ := Prod.mk.inj (Option.some.inj h)
          exact .cut size name c e rfl
  | call pc =>
      cases move with
      | chunk part => cases pc <;> simp [addStep] at h
      | fault e =>
          have hfault : (addFault pc e).map (fun pc' => ((.call pc' : AddPc C), fs))
              = some (pc', fs') := by
            cases pc <;> exact h
          obtain ⟨q, hq, heq⟩ := Option.map_eq_some_iff.mp hfault
          obtain ⟨rfl, rfl⟩ := Prod.mk.inj heq
          exact .failed pc q e hq rfl
      | go =>
          by_cases hcopy : ∃ size name, pc = .copy size name
          · obtain ⟨size, name, rfl⟩ := hcopy
            obtain ⟨rfl, rfl⟩ := Prod.mk.inj (Option.some.inj h)
            exact .opened size name rfl
          · have hgo : some ((.call (advance root fs (.add src stamp) pc).pc : AddPc C),
                (advance root fs (.add src stamp) pc).fs) = some (pc', fs') := by
              cases pc with
              | copy size name => exact absurd ⟨size, name, rfl⟩ hcopy
              | _ => exact h
            obtain ⟨rfl, rfl⟩ := Prod.mk.inj (Option.some.inj hgo)
            exact .called pc (fun size name heq => hcopy ⟨size, name, heq⟩) rfl

/-- **What a step of an `add` is.** -/
lemma addStep_stepped (h : addStep root src stamp fs pc move = some (pc', fs')) :
    AddStepped root src stamp fs fs' pc pc' := by
  cases addStep_moved h with
  | wrote size name c part pc' result =>
      obtain ⟨hsame, r, rfl⟩ | ⟨rfl, hsame, -⟩ := addWrite_stepped result
      · exact .dropped _ r _ (.inr rfl) hsame
      · exact .written size name c hsame
  | copied size name c pc' result =>
      obtain ⟨hsame, r, rfl⟩ | ⟨rfl, hsame, hc⟩ := addWrite_stepped result
      · exact .dropped _ r _ (.inr rfl) hsame
      · exact .copied size name c hsame hc
  | cut size name c e fs_eq =>
      subst fs_eq
      exact .dropped _ _ _ (.inr rfl) (.refl _ _)
  | opened size name fs_eq =>
      subst fs_eq
      exact addOpen_stepped rfl
  | called pc hcopy fs_eq =>
      subst fs_eq
      exact advance_stepped pc hcopy
  | failed pc pc' e fault fs_eq =>
      subst fs_eq
      exact addFault_stepped fault

end Dddatasync
