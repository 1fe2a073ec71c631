import Dddatasync.Library.LastWrite
import Dddatasync.StoreOps

/-!
Calls of one `DddSync` from several threads: `src/store.rs` step by step.

* `Call`: an `add`, a `can_add` or a `remove`; `Pc`: where a call stands.  A step is one call
  on the file system: `add` stats, copies, takes the mutex, reads the directory and then
  each of its entries, looks for the target, renames or discards; `remove` takes no mutex.
* `advance`: the steps that leave the mutex alone; `Threads`, `step`: any number of calls
  and the mutex.  A blocked or finished call that is scheduled does nothing.
* `solo_run`: a call that is scheduled alone does what its function does.
* `Advanced`, `advance_spec`: what a step of a call does to the store and to its own state.
-/

namespace Dddatasync

open Fs OsString

/-! ### The calls and their steps -/

/-- A call on the store. -/
inductive Call where
  | add (src : PathBuf) (stamp : Stamp)
  | canAdd (size : ℕ)
  | remove (name : String)
  deriving DecidableEq

/-- What a call does next.  `target` is the name an `add` wants, `none` for `can_add`. -/
inductive Pc where
  | start
  | copy (size : ℕ) (name : OsString)
  | lock (size : ℕ) (target : Option OsString)
  | check (size : ℕ) (target : Option OsString)
  | count (target : Option OsString) (pending : List OsString) (found : List FileEntry)
  | exists (name : OsString)
  | rename (name : OsString)
  | discard (e : StoreError)
  | removeFile
  | unlock (r : Except StoreError Unit)
  | done (r : Except StoreError Unit)
  deriving DecidableEq

/-- The call holds the mutex. -/
def Pc.Holding : Pc → Prop
  | .check _ _ | .count _ _ _ | .exists _ | .rename _ | .discard _ | .unlock _ => True
  | _ => False

variable {C : Type*} [HasLen C]

/-- Where a call goes and what it leaves; `changes` is for the history only. -/
structure Next (C : Type*) where
  pc : Pc
  fs : FileSystem C
  changes : List (Change OsString C) := []

/-- The limit check fails: `add` discards its temp file first. -/
def refuse : Option OsString → StoreError → Pc
  | some _, e => .discard e
  | none, e => .unlock (.error e)

/-- The limit check passes. -/
def approve : Option OsString → Pc
  | some name => .exists name
  | none => .unlock (.ok ())

/-- One entry of the loop in `files`. -/
def countEntry (root : AbsPath) (target : Option OsString) (n : OsString)
    (pending : List OsString) (found : List FileEntry) (fs : FileSystem C) : Pc :=
  if startsWithDot (toStringLossy n) then .count target pending found
  else
    match entry fs root n with
    | none => refuse target (.io .notFound)
    | some x => .count target pending (found ++ (fileEntry n x).toList)

/-- The limit check up to the loop over the entries. -/
def beginCheck (root : AbsPath) (size : ℕ) (target : Option OsString) (fs : FileSystem C) : Pc :=
  if size > maxFileBytes then refuse target (.tooLarge size maxFileBytes)
  else
    match readDir fs ⟨root, []⟩ with
    | .error e => refuse target (.io e)
    | .ok es => .count target (es.map Prod.fst) []

/-- The limit check after the loop. -/
def endCheck (target : Option OsString) (found : List FileEntry) : Pc :=
  if found.length ≥ maxFiles then refuse target (.full found.length maxFiles)
  else approve target

/-- The rename of `add`. -/
def renameTmp (root : AbsPath) (name tmp : OsString) (fs : FileSystem C) : Next C :=
  match Fs.rename fs ⟨root, tmp⟩ ⟨root, name⟩ with
  | .error e => { pc := .unlock (.error (.io e)), fs := fs }
  | .ok fs' =>
      { pc := .unlock (.ok ()), fs := fs'
        changes := match entry fs' root name with
          | some (.file c) => [.put name c]
          | _ => [] }

/-- One step of a call that leaves the mutex alone. -/
def advance (root : AbsPath) (fs : FileSystem C) : Call → Pc → Next C
  | .add src _, .start =>
      match metadata fs src with
      | .error e => { pc := .done (.error (.io e)), fs := fs }
      | .ok stat =>
          match fileName src with
          | none => { pc := .done (.error .noFileName), fs := fs }
          | some name => { pc := .copy (nodeLen stat) name, fs := fs }
  | .add src stamp, .copy size name =>
      match copyToTmp root src (tmpName stamp) {} fs with
      | (.error e, fs') => { pc := .done (.error (.io e)), fs := fs' }
      | (.ok (), fs') => { pc := .lock size (some name), fs := fs' }
  | .canAdd size, .start => { pc := .lock size none, fs := fs }
  | .remove name, .start =>
      if pathExists fs ⟨root, ofStr name⟩ then { pc := .removeFile, fs := fs }
      else { pc := .done (.error (.notInStore name)), fs := fs }
  | .remove name, .removeFile =>
      match Fs.removeFile fs ⟨root, ofStr name⟩ with
      | .error e => { pc := .done (.error (.io e)), fs := fs }
      | .ok fs' => { pc := .done (.ok ()), fs := fs', changes := [.del (ofStr name)] }
  | _, .check size target => { pc := beginCheck root size target fs, fs := fs }
  | _, .count target (n :: pending) found =>
      { pc := countEntry root target n pending found fs, fs := fs }
  | _, .count target [] found => { pc := endCheck target found, fs := fs }
  | _, .exists name =>
      if pathExists fs ⟨root, name⟩ then { pc := .discard (.alreadyExists name), fs := fs }
      else { pc := .rename name, fs := fs }
  | .add _ stamp, .rename name => renameTmp root name (tmpName stamp) fs
  | .add _ stamp, .discard e =>
      { pc := .unlock (.error e), fs := discardTmp root (tmpName stamp) {} fs }
  | _, pc => { pc := pc, fs := fs }

section Moves

variable (root : AbsPath) (fs : FileSystem C) (call : Call) (src : PathBuf) (stamp : Stamp)
  (name : OsString)

/-! What a call does where it stands, one lemma for each place. -/

lemma advance_start : advance root fs (.add src stamp) .start =
    match metadata fs src with
    | .error e => { pc := .done (.error (.io e)), fs := fs }
    | .ok stat =>
        match fileName src with
        | none => { pc := .done (.error .noFileName), fs := fs }
        | some name => { pc := .copy (nodeLen stat) name, fs := fs } := rfl

lemma advance_copy (size : ℕ) : advance root fs (.add src stamp) (.copy size name) =
    match copyToTmp root src (tmpName stamp) {} fs with
    | (.error e, fs') => { pc := .done (.error (.io e)), fs := fs' }
    | (.ok (), fs') => { pc := .lock size (some name), fs := fs' } := rfl

lemma advance_canAdd (size : ℕ) :
    advance root fs (.canAdd size) .start = { pc := .lock size none, fs := fs } := rfl

lemma advance_remove (name : String) : advance root fs (.remove name) .start =
    if pathExists fs ⟨root, ofStr name⟩ then { pc := .removeFile, fs := fs }
    else { pc := .done (.error (.notInStore name)), fs := fs } := rfl

lemma advance_removeFile (name : String) : advance root fs (.remove name) .removeFile =
    match Fs.removeFile fs ⟨root, ofStr name⟩ with
    | .error e => { pc := .done (.error (.io e)), fs := fs }
    | .ok fs' => { pc := .done (.ok ()), fs := fs', changes := [.del (ofStr name)] } := rfl

lemma advance_check (size : ℕ) (target : Option OsString) :
    advance root fs call (.check size target)
      = { pc := beginCheck root size target fs, fs := fs } := by
  cases call <;> rfl

lemma advance_count_cons (target : Option OsString) (pending : List OsString)
    (found : List FileEntry) : advance root fs call (.count target (name :: pending) found) =
      { pc := countEntry root target name pending found fs, fs := fs } := by
  cases call <;> rfl

lemma advance_count_nil (target : Option OsString) (found : List FileEntry) :
    advance root fs call (.count target [] found) = { pc := endCheck target found, fs := fs } := by
  cases call <;> rfl

lemma advance_exists : advance root fs call (.exists name) =
    if pathExists fs ⟨root, name⟩ then { pc := .discard (.alreadyExists name), fs := fs }
    else { pc := .rename name, fs := fs } := by
  cases call <;> rfl

lemma advance_rename : advance root fs (.add src stamp) (.rename name) =
    renameTmp root name (tmpName stamp) fs := rfl

lemma advance_discard (e : StoreError) : advance root fs (.add src stamp) (.discard e) =
    { pc := .unlock (.error e), fs := discardTmp root (tmpName stamp) {} fs } := rfl

end Moves

/-- Any number of calls on one store: the tree, who holds the mutex, where each call
stands, and the history of the changes. -/
structure Threads (ι C : Type*) where
  fs : FileSystem C
  mutex : Option ι
  pcs : ι → Pc
  log : List (ι × Change OsString C)

variable {ι : Type*} [DecidableEq ι]

/-- Call `i` is scheduled. -/
def step (root : AbsPath) (calls : ι → Call) (s : Threads ι C) (i : ι) : Threads ι C :=
  match s.pcs i with
  | .lock size target =>
      if s.mutex = none then
        { s with mutex := some i, pcs := Function.update s.pcs i (.check size target) }
      else s
  | .unlock r => { s with mutex := none, pcs := Function.update s.pcs i (.done r) }
  | pc =>
      let o := advance root s.fs (calls i) pc
      { s with
        fs := o.fs
        pcs := Function.update s.pcs i o.pc
        log := s.log ++ o.changes.map fun change => (i, change) }

/-- Nobody has begun. -/
def begin (fs : FileSystem C) : Threads ι C := ⟨fs, none, fun _ => .start, []⟩

/-! ### A call on its own -/

section Solo

variable {root : AbsPath} {calls : ι → Call} {i : ι} {s : Threads ι C} {pc : Pc}
  {fs : FileSystem C} {mutex : Option ι}

/-- What a call returns and leaves when nobody interferes. -/
def Call.run (root : AbsPath) (fs : FileSystem C) :
    Call → Except StoreError Unit × FileSystem C
  | .add src stamp => Dddatasync.add root src stamp {} fs
  | .canAdd size => (Dddatasync.canAdd root {} fs size, fs)
  | .remove name => Dddatasync.remove root name {} fs

/-- Scheduling call `i` alone leads from `s` to a state where it stands at `pc` in the tree
`fs`, with the mutex as given. -/
def Reaches (root : AbsPath) (calls : ι → Call) (i : ι) (s : Threads ι C) (pc : Pc)
    (fs : FileSystem C) (mutex : Option ι) : Prop :=
  ∃ k, ((step root calls · i)^[k] s).pcs i = pc ∧ ((step root calls · i)^[k] s).fs = fs
    ∧ ((step root calls · i)^[k] s).mutex = mutex

lemma Reaches.step {pc' : Pc} {fs' : FileSystem C} {mutex' : Option ι}
    (h : Reaches root calls i s pc fs mutex)
    (hs : ∀ t : Threads ι C, t.pcs i = pc → t.fs = fs → t.mutex = mutex →
      (Dddatasync.step root calls t i).pcs i = pc' ∧ (Dddatasync.step root calls t i).fs = fs'
        ∧ (Dddatasync.step root calls t i).mutex = mutex') :
    Reaches root calls i s pc' fs' mutex' := by
  obtain ⟨k, hpc, hfs, hm⟩ := h
  refine ⟨k + 1, ?_⟩
  rw [Function.iterate_succ_apply']
  exact hs _ hpc hfs hm

/-- A step that leaves the mutex alone. -/
lemma Reaches.advance (h : Reaches root calls i s pc fs mutex)
    (hlock : ∀ size target, pc ≠ .lock size target) (hunlock : ∀ r, pc ≠ .unlock r) :
    Reaches root calls i s (advance root fs (calls i) pc).pc
      (Dddatasync.advance root fs (calls i) pc).fs mutex := by
  refine h.step fun t hpc hfs hm => ?_
  subst hpc hfs hm
  rw [Dddatasync.step]
  split
  · rename_i size target hpc
    exact absurd hpc (hlock size target)
  · rename_i r hpc
    exact absurd hpc (hunlock r)
  · exact ⟨Function.update_self i _ t.pcs, rfl, rfl⟩

lemma Reaches.lock {size : ℕ} {target : Option OsString}
    (h : Reaches root calls i s (.lock size target) fs none) :
    Reaches root calls i s (.check size target) fs (some i) := by
  refine h.step fun t hpc hfs hm => ?_
  simp only [Dddatasync.step, hpc, hm, if_true]
  exact ⟨Function.update_self i _ t.pcs, hfs, trivial⟩

lemma Reaches.unlock {r : Except StoreError Unit}
    (h : Reaches root calls i s (.unlock r) fs mutex) :
    Reaches root calls i s (.done r) fs none := by
  refine h.step fun t hpc hfs hm => ?_
  simp only [Dddatasync.step, hpc]
  exact ⟨Function.update_self i _ t.pcs, hfs, trivial⟩

/-- The loop over the entries, while nothing changes. -/
lemma Reaches.listed {target : Option OsString} {found : List FileEntry}
    {es : List (OsString × Node C)} (hes : ∀ e ∈ es, entry fs root e.1 = some e.2)
    (h : Reaches root calls i s (.count target (es.map Prod.fst) found) fs mutex) :
    Reaches root calls i s
      (.count target [] (found ++ es.filterMap fun e => fileEntry e.1 e.2)) fs mutex := by
  induction es generalizing found with
  | nil => simpa using h
  | cons e es ih =>
      rw [List.forall_mem_cons] at hes
      have hstep : ∀ call, Dddatasync.advance root fs call
          (.count target (e.1 :: es.map Prod.fst) found)
          = { pc := .count target (es.map Prod.fst) (found ++ (fileEntry e.1 e.2).toList)
              fs := fs } := by
        intro call
        have hentry : countEntry root target e.1 (es.map Prod.fst) found fs
            = .count target (es.map Prod.fst) (found ++ (fileEntry e.1 e.2).toList) := by
          rw [countEntry, hes.1]
          by_cases hdot : startsWithDot (toStringLossy e.1)
          · simp [hdot, fileEntry]
          · simp [hdot]
        rw [advance_count_cons, hentry]
      have hnext := h.advance (by simp) (by simp)
      rw [List.map_cons, hstep] at hnext
      have hlast := ih hes.2 hnext
      rw [List.append_assoc] at hlast
      rw [List.filterMap_cons]
      cases hf : fileEntry e.1 e.2 with
      | none => simpa [hf] using hlast
      | some x => simpa [hf] using hlast

/-- The limit check, while nothing changes. -/
lemma Reaches.checked {size : ℕ} {target : Option OsString}
    (h : Reaches root calls i s (.check size target) fs mutex) :
    Reaches root calls i s
      (match canAddLocked root {} fs size with
        | .error e => refuse target e
        | .ok () => approve target) fs mutex := by
  have h1 := h.advance (by simp) (by simp)
  rw [advance_check] at h1
  rw [canAddLocked]
  rw [beginCheck] at h1
  by_cases hsize : size > maxFileBytes
  · rw [if_pos hsize] at h1 ⊢
    exact h1
  · rw [if_neg hsize] at h1 ⊢
    rw [files, if_neg (by simp)]
    cases hdir : readDir fs ⟨root, []⟩ with
    | error e =>
        rw [hdir] at h1
        exact h1
    | ok es =>
        rw [hdir] at h1
        have hes : ∀ e ∈ es, entry fs root e.1 = some e.2 := by
          intro e he
          have hfiles : files root {} fs = .ok (es.filterMap fun e => fileEntry e.1 e.2) := by
            simp [files, hdir]
          rw [readDir_root (eq_visibleFiles_of_files hfiles).1] at hdir
          obtain rfl := Except.ok.inj hdir
          exact mem_children.mp he
        have h2 := (h1.listed hes).advance (by simp) (by simp)
        rw [advance_count_nil, List.nil_append, endCheck] at h2
        by_cases hfull : (es.filterMap fun e => fileEntry e.1 e.2).length ≥ maxFiles
        · rw [if_pos hfull] at h2
          simpa only [if_pos hfull] using h2
        · rw [if_neg hfull] at h2
          simpa only [if_neg hfull] using h2

lemma Reaches.discarded {src : PathBuf} {stamp : Stamp} {e : StoreError}
    (hcall : calls i = .add src stamp) (h : Reaches root calls i s (.discard e) fs mutex) :
    Reaches root calls i s (.done (.error e)) (discardTmp root (tmpName stamp) {} fs) none := by
  have h1 := h.advance (by simp) (by simp)
  simp only [hcall, advance_discard] at h1
  exact h1.unlock

/-- The part of `add` under the mutex. -/
lemma Reaches.committed {src : PathBuf} {stamp : Stamp} {size : ℕ} {n : OsString}
    (hcall : calls i = .add src stamp)
    (h : Reaches root calls i s (.check size (some n)) fs mutex) :
    Reaches root calls i s (.done (commit root size n (tmpName stamp) {} fs).1)
      (commit root size n (tmpName stamp) {} fs).2 none := by
  have hcheck := h.checked
  cases hc : canAddLocked root {} fs size with
  | error e =>
      rw [hc] at hcheck
      simp only [commit, hc]
      exact hcheck.discarded hcall
  | ok u =>
      rw [hc] at hcheck
      have hexists := hcheck.advance (by simp [approve]) (by simp [approve])
      simp only [approve, advance_exists] at hexists
      by_cases hex : pathExists fs ⟨root, n⟩
      · simp only [if_pos hex] at hexists
        simp only [commit, hc, if_pos hex]
        exact hexists.discarded hcall
      · simp only [if_neg hex] at hexists
        have hrename := hexists.advance (by simp) (by simp)
        simp only [hcall, advance_rename, renameTmp] at hrename
        cases hr : Fs.rename fs ⟨root, tmpName stamp⟩ ⟨root, n⟩ with
        | error e =>
            simp only [hr] at hrename
            simp only [commit, hc, if_neg hex, hr, Bool.false_eq_true, if_false]
            exact hrename.unlock
        | ok fs' =>
            simp only [hr] at hrename
            simp only [commit, hc, if_neg hex, hr, Bool.false_eq_true, if_false]
            exact hrename.unlock

lemma Reaches.added {src : PathBuf} {stamp : Stamp} (hcall : calls i = .add src stamp)
    (h : Reaches root calls i s .start fs none) :
    Reaches root calls i s (.done (add root src stamp {} fs).1) (add root src stamp {} fs).2
      none := by
  have h1 := h.advance (by simp) (by simp)
  cases hstat : metadata fs src with
  | error e =>
      simp only [hcall, advance_start, hstat] at h1
      simp only [add, hstat, Bool.false_eq_true, if_false]
      exact h1
  | ok stat =>
      cases hname : fileName src with
      | none =>
          simp only [hcall, advance_start, hstat, hname] at h1
          simp only [add, hstat, hname, Bool.false_eq_true, if_false]
          exact h1
      | some n =>
          simp only [hcall, advance_start, hstat, hname] at h1
          have h2 := h1.advance (by simp) (by simp)
          simp only [hcall, advance_copy] at h2
          rcases hcopy : copyToTmp root src (tmpName stamp) {} fs with ⟨r, fs'⟩
          rw [hcopy] at h2
          simp only [add, hstat, hname, hcopy, Bool.false_eq_true, if_false]
          cases r with
          | error e => exact h2
          | ok u => exact h2.lock.committed hcall

lemma Reaches.approved {size : ℕ} (hcall : calls i = .canAdd size)
    (h : Reaches root calls i s .start fs none) :
    Reaches root calls i s (.done (canAdd root {} fs size)) fs none := by
  have h1 := h.advance (by simp) (by simp)
  simp only [hcall, advance_canAdd] at h1
  have h2 := h1.lock.checked
  rw [canAdd]
  cases hc : canAddLocked root {} fs size with
  | error e =>
      rw [hc] at h2
      exact h2.unlock
  | ok u =>
      rw [hc] at h2
      exact h2.unlock

lemma Reaches.removed {name : String} (hcall : calls i = .remove name)
    (h : Reaches root calls i s .start fs none) :
    Reaches root calls i s (.done (remove root name {} fs).1) (remove root name {} fs).2
      none := by
  have h1 := h.advance (by simp) (by simp)
  simp only [hcall, advance_remove] at h1
  by_cases hex : pathExists fs ⟨root, ofStr name⟩
  · simp only [if_pos hex] at h1
    have h2 := h1.advance (by simp) (by simp)
    simp only [hcall, advance_removeFile] at h2
    simp only [remove, if_pos hex, Bool.false_eq_true, if_false]
    cases hr : Fs.removeFile fs ⟨root, ofStr name⟩ with
    | error e =>
        simp only [hr] at h2
        exact h2
    | ok fs' =>
        simp only [hr] at h2
        exact h2
  · simp only [if_neg hex] at h1
    simp only [remove, if_neg hex]
    exact h1

/-- **A call on its own.**  Scheduled alone from its start with the mutex free, a call
returns what its function returns and leaves the tree as the function leaves it. -/
theorem solo_run (root : AbsPath) (calls : ι → Call) {i : ι} {s : Threads ι C}
    (hstart : s.pcs i = .start) (hfree : s.mutex = none) :
    Reaches root calls i s (.done ((calls i).run root s.fs).1) ((calls i).run root s.fs).2
      none := by
  have h0 : Reaches root calls i s .start s.fs none := ⟨0, hstart, rfl, hfree⟩
  cases hcall : calls i with
  | add src stamp => exact h0.added hcall
  | canAdd size => exact h0.approved hcall
  | remove name => exact h0.removed hcall

end Solo

/-! ### What a call relies on -/

/-- Whether the call is an `add`, or a `remove`. -/
def Call.isAdd : Call → Bool
  | .add _ _ => true
  | _ => false

def Call.isRemove : Call → Bool
  | .remove _ => true
  | _ => false

/-- The temp name of an `add`. -/
def Call.tmp : Call → Option OsString
  | .add _ stamp => some (tmpName stamp)
  | _ => none

/-- The names of adds and removals have no slash and no leading dot. -/
def Call.Legal : Call → Prop
  | .add src _ => ∀ n ∈ fileName src, Visible n
  | .canAdd _ => True
  | .remove name => slash ∉ ofStr name ∧ Visible (ofStr name)

instance : DecidablePred Call.Legal := fun call => by
  cases call <;> unfold Call.Legal <;> infer_instance

omit [HasLen C] in
/-- The source of an `add` is as it was in `fs₀`. -/
def Call.SourceSame (fs₀ fs : FileSystem C) : Call → Prop
  | .add src _ => metadata fs src = metadata fs₀ src
  | _ => True

instance [DecidableEq C] (fs₀ fs : FileSystem C) (call : Call) :
    Decidable (call.SourceSame fs₀ fs) := by
  cases call <;> unfold Call.SourceSame <;> infer_instance

/-- The temp file of an `add` has the content of its source. -/
structure Copied (root : AbsPath) (fs₀ fs : FileSystem C) (src : PathBuf) (stamp : Stamp)
    (n : OsString) (c : C) : Prop where
  fileName : fileName src = some n
  source : metadata fs₀ src = .ok (.file c)
  plain : Plain n
  visible : Visible n
  temp : entry fs root (tmpName stamp) = some (.file c)

/-- A call on its way through the limit check. -/
def Aims (root : AbsPath) (fs₀ fs : FileSystem C) (size : ℕ) : Call → Option OsString → Prop
  | .add src stamp, some n => ∃ c, Copied root fs₀ fs src stamp n c ∧ size = HasLen.len c
  | .canAdd _, none => True
  | _, _ => False

/-- Every listed name is still to be looked at or was found. -/
def Covers (root : AbsPath) (fs : FileSystem C) (pending : List OsString)
    (found : List FileEntry) : Prop :=
  ∃ seen : List OsString, seen.length = found.length
    ∧ ∀ n, Listed root fs n → n ∈ pending ∨ n ∈ seen

/-- What a call knows where it stands; `fs₀` is the tree at the beginning. -/
def TaskOk (root : AbsPath) (fs₀ fs : FileSystem C) : Call → Pc → Prop
  | .add src stamp, .copy size n =>
      fileName src = some n ∧ (∃ x, metadata fs₀ src = .ok x ∧ size = nodeLen x)
        ∧ entry fs root (tmpName stamp) = entry fs₀ root (tmpName stamp)
  | call, .lock size target => Aims root fs₀ fs size call target
  | call, .check size target => Aims root fs₀ fs size call target
  | call, .count target pending found =>
      ∃ size ≤ maxFileBytes, Aims root fs₀ fs size call target ∧ Covers root fs pending found
  | .add src stamp, .exists n => ∃ c, Copied root fs₀ fs src stamp n c
      ∧ HasLen.len c ≤ maxFileBytes ∧ fileCount root fs < maxFiles
  | .add src stamp, .rename n => ∃ c, Copied root fs₀ fs src stamp n c
      ∧ HasLen.len c ≤ maxFileBytes ∧ fileCount root fs < maxFiles ∧ entry fs root n = none
  | .add src stamp, .discard _ => ∃ n c, Copied root fs₀ fs src stamp n c
  | .add _ stamp, .unlock _ => entry fs root (tmpName stamp) = none
  | .add _ stamp, .done (.ok ()) => entry fs root (tmpName stamp) = none
  | .add _ stamp, .done (.error _) => entry fs root (tmpName stamp) = none
      ∨ entry fs root (tmpName stamp) = entry fs₀ root (tmpName stamp)
  | .add _ stamp, .start => entry fs root (tmpName stamp) = entry fs₀ root (tmpName stamp)
  | .canAdd _, .start | .canAdd _, .unlock _ | .canAdd _, .done _ => True
  | .remove _, .start | .remove _, .removeFile | .remove _, .done _ => True
  | _, _ => False

/-- What a call has added to the number of visible files. -/
def balance : Call → Pc → ℤ
  | .add _ _, .unlock (.ok ()) | .add _ _, .done (.ok ()) => 1
  | .remove _, .done (.ok ()) => -1
  | _, _ => 0

/-- The change of the store that a step makes. -/
inductive Effect (root : AbsPath) (fs₀ fs : FileSystem C) (call : Call) (pc : Pc) (o : Next C) :
    Prop
  | hidden (same : SameVisible root fs o.fs) (changes : o.changes = [])
      (balance_eq : balance call o.pc = balance call pc)
  | placed (src : PathBuf) (stamp : Stamp) (n : OsString) (c : C) (call_eq : call = .add src stamp)
      (pc_eq : pc = .rename n) (copied : Copied root fs₀ fs src stamp n c)
      (free : entry fs root n = none)
      (placed : Placed root n c fs o.fs) (room : fileCount root fs < maxFiles)
      (size : HasLen.len c ≤ maxFileBytes) (changes : o.changes = [.put n c])
      (next : o.pc = .unlock (.ok ()))
  | dropped (name : String) (call_eq : call = .remove name) (pc_eq : pc = .removeFile)
      (visible : Visible (ofStr name)) (dropped : Dropped root (ofStr name) fs o.fs)
      (changes : o.changes = [.del (ofStr name)]) (next : o.pc = .done (.ok ()))

/-- What a step that leaves the mutex alone does. -/
structure Advanced (root : AbsPath) (fs₀ fs : FileSystem C) (call : Call) (pc : Pc) (o : Next C) :
    Prop where
  task : TaskOk root fs₀ o.fs call o.pc
  others : ∀ m, ¬ Visible m → call.tmp ≠ some m → entry o.fs root m = entry fs root m
  holding : o.pc.Holding ↔ pc.Holding
  effect : Effect root fs₀ fs call pc o

/-! ### One step of a call -/

variable {root : AbsPath} {fs₀ fs : FileSystem C}

lemma taskOk_lock {call : Call} {size : ℕ} {target : Option OsString} :
    TaskOk root fs₀ fs call (.lock size target) ↔ Aims root fs₀ fs size call target := by
  cases call <;> rfl

lemma taskOk_check {call : Call} {size : ℕ} {target : Option OsString} :
    TaskOk root fs₀ fs call (.check size target) ↔ Aims root fs₀ fs size call target := by
  cases call <;> rfl

lemma taskOk_count {call : Call} {target : Option OsString} {pending : List OsString}
    {found : List FileEntry} : TaskOk root fs₀ fs call (.count target pending found)
      ↔ ∃ size ≤ maxFileBytes, Aims root fs₀ fs size call target
        ∧ Covers root fs pending found := by
  cases call <;> rfl

/-- A step that only moves the call on. -/
lemma Advanced.stay {call : Call} {pc pc' : Pc} (htask : TaskOk root fs₀ fs call pc')
    (hhold : pc'.Holding ↔ pc.Holding) (hbal : balance call pc' = balance call pc) :
    Advanced root fs₀ fs call pc { pc := pc', fs := fs } where
  task := htask
  others := fun _ _ _ => rfl
  holding := hhold
  effect := .hidden (.refl fs) rfl hbal

lemma taskOk_refuse {call : Call} {size : ℕ} {target : Option OsString} {e : StoreError}
    (h : Aims root fs₀ fs size call target) : TaskOk root fs₀ fs call (refuse target e)
      ∧ (refuse target e).Holding ∧ balance call (refuse target e) = 0 := by
  match call, target with
  | .add src stamp, some n =>
      obtain ⟨c, hc, -⟩ := h
      exact ⟨⟨n, c, hc⟩, trivial, rfl⟩
  | .canAdd size, none => exact ⟨trivial, trivial, rfl⟩
  | .add src stamp, none => exact h.elim
  | .canAdd size, some n => exact h.elim
  | .remove name, target => exact h.elim

omit [HasLen C] in
lemma ne_tmpName {src : PathBuf} {stamp : Stamp} {m : OsString}
    (h : (Call.add src stamp).tmp ≠ some m) : m ≠ tmpName stamp :=
  fun heq => h (congrArg some heq.symm)

/-- `add` stats its source. -/
lemma advanced_stat {src : PathBuf} {stamp : Stamp} (hsrc : (Call.add src stamp).SourceSame fs₀ fs)
    (htask : TaskOk root fs₀ fs (.add src stamp) .start) :
    Advanced root fs₀ fs (.add src stamp) .start (advance root fs (.add src stamp) .start) := by
  rw [advance_start]
  split
  · exact .stay (.inr htask) Iff.rfl rfl
  · rename_i x hx
    split
    · exact .stay (.inr htask) Iff.rfl rfl
    · rename_i n hn
      exact .stay ⟨hn, ⟨x, hsrc ▸ hx, rfl⟩, htask⟩ Iff.rfl rfl

omit [HasLen C] in
/-- Without faults the copy fails only where it leaves nothing. -/
lemma copyToTmp_error_eq {src : PathBuf} {tmp : OsString} {fs' : FileSystem C} {e : IoError}
    (h : copyToTmp root src tmp {} fs = (.error e, fs')) : fs' = fs := by
  rw [copyToTmp] at h
  simp only at h
  split at h
  · exact (Prod.mk.inj h).2.symm
  · exact absurd (Prod.mk.inj h).1 (by simp)

/-- `add` copies its source to the temp file. -/
lemma advanced_copy {src : PathBuf} {stamp : Stamp} {size : ℕ} {n : OsString}
    (hleg : (Call.add src stamp).Legal) (hsrc : (Call.add src stamp).SourceSame fs₀ fs)
    (htask : TaskOk root fs₀ fs (.add src stamp) (.copy size n)) :
    Advanced root fs₀ fs (.add src stamp) (.copy size n)
      (advance root fs (.add src stamp) (.copy size n)) := by
  obtain ⟨hn, ⟨x, hx, hsize⟩, htmp⟩ := htask
  rw [advance_copy]
  rcases hcopy : copyToTmp root src (tmpName stamp) {} fs with ⟨r, fs'⟩
  cases r with
  | error e =>
      rw [copyToTmp_error_eq hcopy]
      exact .stay (.inr htmp) Iff.rfl rfl
  | ok u =>
      obtain ⟨c, hc, rfl⟩ := copyToTmp_ok (plain_tmpName stamp) hcopy
      have hplain : Plain n := plain_of_fileName hn (nul_notMem_of_metadata hc)
      rw [hsrc] at hc
      obtain rfl : x = .file c := Except.ok.inj (hx.symm.trans hc)
      exact ⟨⟨c, ⟨hn, hc, hplain, hleg n hn, entry_insert_self _ _ _ _⟩, hsize⟩,
        fun m _ hm => entry_insert_of_ne _ _ (by simpa using ne_tmpName hm), Iff.rfl,
        .hidden (sameVisible_insert _ (not_visible_tmpName stamp)) rfl rfl⟩

/-- The limit check begins. -/
lemma advanced_beginCheck {call : Call} {size : ℕ} {target : Option OsString}
    (hroot : node fs root = some .dir) (h : Aims root fs₀ fs size call target) :
    Advanced root fs₀ fs call (.check size target)
      { pc := beginCheck root size target fs, fs := fs } := by
  have hrefuse := fun e => taskOk_refuse (e := e) h
  have hbal : balance call (.check size target) = 0 := by cases call <;> rfl
  rw [beginCheck, readDir_root hroot]
  split
  · obtain ⟨ht, hh, hb⟩ := hrefuse (.tooLarge size maxFileBytes)
    exact .stay ht ⟨fun _ => trivial, fun _ => hh⟩ (hb.trans hbal.symm)
  · rename_i hsize
    refine .stay (taskOk_count.mpr ⟨size, not_lt.mp hsize, h, [], rfl, fun n hn => .inl ?_⟩)
      Iff.rfl ?_
    · obtain ⟨-, c, hc⟩ := hn
      exact List.mem_map_of_mem (f := Prod.fst) (mem_children.mpr hc)
    · cases call <;> rfl

/-- One entry of the listing. -/
lemma advanced_countEntry {call : Call} {target : Option OsString} {n : OsString}
    {pending : List OsString} {found : List FileEntry}
    (h : TaskOk root fs₀ fs call (.count target (n :: pending) found)) :
    Advanced root fs₀ fs call (.count target (n :: pending) found)
      { pc := countEntry root target n pending found fs, fs := fs } := by
  obtain ⟨size, hsize, haims, seen, hlen, hcover⟩ := taskOk_count.mp h
  have hbal : ∀ {p f}, balance call (.count target p f) = 0 := by
    intro p f
    cases call <;> rfl
  rw [countEntry]
  split
  · rename_i hdot
    refine .stay (taskOk_count.mpr ⟨size, hsize, haims, seen, hlen, fun m hm => ?_⟩) Iff.rfl
      (hbal.trans hbal.symm)
    refine (hcover m hm).imp_left fun hmem => (List.mem_cons.mp hmem).resolve_left ?_
    rintro rfl
    exact startsWithDot_toStringLossy.mp hdot hm.1
  · rename_i hdot
    have hv : Visible n := by
      by_contra hv
      exact hdot (startsWithDot_toStringLossy.mpr hv)
    cases hn : entry fs root n with
    | none =>
        -- removed since the directory was read
        obtain ⟨ht, hh, hb⟩ := taskOk_refuse (e := .io .notFound) haims
        exact .stay ht ⟨fun _ => trivial, fun _ => hh⟩ (hb.trans hbal.symm)
    | some x =>
        refine .stay (taskOk_count.mpr ⟨size, hsize, haims, ?_⟩) Iff.rfl (hbal.trans hbal.symm)
        cases x with
        | dir =>
            rw [fileEntry_dir, Option.toList_none, List.append_nil]
            refine ⟨seen, hlen, fun m hm => ?_⟩
            refine (hcover m hm).imp_left fun hmem => (List.mem_cons.mp hmem).resolve_left ?_
            rintro rfl
            obtain ⟨-, c, hc⟩ := hm
            rw [hn] at hc
            cases hc
        | file c =>
            rw [fileEntry_file, if_pos hv, Option.toList_some]
            refine ⟨n :: seen, by simp [hlen], fun m hm => ?_⟩
            rcases hcover m hm with hmem | hmem
            · rcases List.mem_cons.mp hmem with rfl | hmem
              · exact .inr List.mem_cons_self
              · exact .inl hmem
            · exact .inr (List.mem_cons_of_mem n hmem)

/-- The limit check ends: what was found bounds what is there. -/
lemma advanced_endCheck {call : Call} {target : Option OsString} {found : List FileEntry}
    (h : TaskOk root fs₀ fs call (.count target [] found)) :
    Advanced root fs₀ fs call (.count target [] found)
      { pc := endCheck target found, fs := fs } := by
  obtain ⟨size, hsize, haims, seen, hlen, hcover⟩ := taskOk_count.mp h
  have hbal : balance call (.count target [] found) = 0 := by cases call <;> rfl
  rw [endCheck]
  split
  · obtain ⟨ht, hh, hb⟩ := taskOk_refuse (e := .full found.length maxFiles) haims
    exact .stay ht ⟨fun _ => trivial, fun _ => hh⟩ (hb.trans hbal.symm)
  · rename_i hfound
    have hcount : fileCount root fs ≤ seen.length :=
      fileCount_le_of_cover fun n hn => (hcover n hn).resolve_left List.not_mem_nil
    match call, target, haims with
    | .add src stamp, some n, ⟨c, hc, hs⟩ =>
        exact .stay ⟨c, hc, hs ▸ hsize, by omega⟩ Iff.rfl rfl
    | .canAdd size, none, _ => exact .stay trivial Iff.rfl rfl

/-- `add` looks for its target. -/
lemma advanced_exists {src : PathBuf} {stamp : Stamp} {n : OsString}
    (h : TaskOk root fs₀ fs (.add src stamp) (.exists n)) :
    Advanced root fs₀ fs (.add src stamp) (.exists n)
      (advance root fs (.add src stamp) (.exists n)) := by
  obtain ⟨c, hc, hsize, hcount⟩ := h
  rw [advance_exists]
  split
  · exact .stay ⟨n, c, hc⟩ Iff.rfl rfl
  · rename_i hfree
    rw [pathExists_plain hc.plain, Bool.not_eq_true, Option.isSome_eq_false_iff,
      Option.isNone_iff_eq_none] at hfree
    exact .stay ⟨c, hc, hsize, hcount, hfree⟩ Iff.rfl rfl

/-- The temp file can be renamed to a free name. -/
lemma advance_rename_eq {src : PathBuf} {stamp : Stamp} {n : OsString} {c : C}
    (hc : Copied root fs₀ fs src stamp n c) (hfree : entry fs root n = none) :
    advance root fs (.add src stamp) (.rename n)
      = { pc := .unlock (.ok ())
          fs := (fs.erase (root ++ [tmpName stamp])).insert (root ++ [n]) (.file c)
          changes := [.put n c] } := by
  have hrename : Fs.rename fs ⟨root, tmpName stamp⟩ ⟨root, n⟩
      = .ok ((fs.erase (root ++ [tmpName stamp])).insert (root ++ [n]) (.file c)) := by
    simp only [Fs.rename, resolve_plain fs root (plain_tmpName stamp),
      resolve_plain fs root hc.plain, node_snoc, hc.temp, hfree]
  rw [advance_rename, renameTmp, hrename]
  simp only [entry_insert_self]

/-- `add` renames its temp file to a free name. -/
lemma advanced_rename {src : PathBuf} {stamp : Stamp} {n : OsString}
    (h : TaskOk root fs₀ fs (.add src stamp) (.rename n)) :
    Advanced root fs₀ fs (.add src stamp) (.rename n)
      (advance root fs (.add src stamp) (.rename n)) := by
  obtain ⟨c, hc, hsize, hcount, hfree⟩ := h
  have hne : n ≠ tmpName stamp := fun heq => not_visible_tmpName stamp (heq ▸ hc.visible)
  rw [advance_rename_eq hc hfree]
  refine ⟨?_, fun m hm hmtmp => ?_, Iff.rfl, .placed src stamp n c rfl rfl hc hfree
    ((sameVisible_erase (not_visible_tmpName stamp)).placed (placed_insert root n c _)) hcount hsize
    rfl rfl⟩
  · show entry _ root (tmpName stamp) = none
    rw [entry_insert_of_ne _ _ (by simpa using hne.symm), entry_erase_self]
  · have hmn : m ≠ n := fun heq => hm (heq ▸ hc.visible)
    rw [entry_insert_of_ne _ _ (by simpa using hmn),
      entry_erase_of_ne _ (by simpa using ne_tmpName hmtmp)]

/-- `add` discards its temp file. -/
lemma advanced_discard {src : PathBuf} {stamp : Stamp} {e : StoreError}
    (h : TaskOk root fs₀ fs (.add src stamp) (.discard e)) :
    Advanced root fs₀ fs (.add src stamp) (.discard e)
      (advance root fs (.add src stamp) (.discard e)) := by
  obtain ⟨n, c, hc⟩ := h
  have hnext : advance root fs (.add src stamp) (.discard e)
      = { pc := .unlock (.error e), fs := fs.erase (root ++ [tmpName stamp]) } := by
    simp only [advance_discard, discardTmp, Fs.removeFile,
      resolve_plain fs root (plain_tmpName stamp), node_snoc, hc.temp, Bool.false_eq_true, if_false]
  rw [hnext]
  exact ⟨entry_erase_self _ _ _,
    fun m _ hm => entry_erase_of_ne _ (by simpa using ne_tmpName hm), Iff.rfl,
    .hidden (sameVisible_erase (not_visible_tmpName stamp)) rfl rfl⟩

omit [HasLen C] in
/-- Removing a visible name takes a listed file out. -/
lemma removeFile_visible {n : OsString} {fs' : FileSystem C} (hroot : node fs root = some .dir)
    (hs : slash ∉ n) (hv : Visible n) (h : Fs.removeFile fs ⟨root, n⟩ = .ok fs') :
    fs' = fs.erase (root ++ [n]) ∧ ∃ c, entry fs root n = some (.file c) := by
  rw [Fs.removeFile] at h
  obtain h0 | h0 | hp := visible_name_cases hs hv
  · simp [h0, hroot] at h
  · simp [resolve, h0] at h
  · simp only [resolve_plain fs root hp, node_snoc] at h
    split at h
    · cases h
    · cases h
    · rename_i c hc
      exact ⟨(Except.ok.inj h).symm, c, hc⟩

/-- `remove` takes its file out or finds it gone. -/
lemma advanced_removeFile {name : String} (hroot : node fs root = some .dir)
    (hleg : (Call.remove name).Legal) :
    Advanced root fs₀ fs (.remove name) .removeFile
      (advance root fs (.remove name) .removeFile) := by
  rw [advance_removeFile]
  split
  · exact .stay trivial Iff.rfl rfl
  · rename_i fs' hfs
    obtain ⟨rfl, c, hc⟩ := removeFile_visible hroot hleg.1 hleg.2 hfs
    refine ⟨trivial, fun m hm _ => entry_erase_of_ne _ ?_, Iff.rfl,
      .dropped name rfl rfl hleg.2 (dropped_erase hc) rfl rfl⟩
    have hne : m ≠ ofStr name := fun heq => hm (heq ▸ hleg.2)
    simpa using hne

/-- **One step of a call.**  A call that knows what it should where it stands knows what it
should afterwards, and the step hides its change, fills a free name or removes a file. -/
theorem advance_spec {call : Call} {pc : Pc} (hroot : node fs root = some .dir)
    (hleg : call.Legal) (hsrc : call.SourceSame fs₀ fs) (htask : TaskOk root fs₀ fs call pc) :
    Advanced root fs₀ fs call pc (advance root fs call pc) := by
  cases pc with
  | start =>
      cases call with
      | add src stamp => exact advanced_stat hsrc htask
      | canAdd size => exact .stay trivial Iff.rfl rfl
      | remove name =>
          rw [advance_remove]
          split <;> exact .stay trivial Iff.rfl rfl
  | copy size n =>
      cases call with
      | add src stamp => exact advanced_copy hleg hsrc htask
      | canAdd size => exact htask.elim
      | remove name => exact htask.elim
  | lock size target => cases call <;> exact .stay htask Iff.rfl rfl
  | check size target =>
      rw [advance_check]
      exact advanced_beginCheck hroot (taskOk_check.mp htask)
  | count target pending found =>
      cases pending with
      | nil =>
          rw [advance_count_nil]
          exact advanced_endCheck htask
      | cons n pending =>
          rw [advance_count_cons]
          exact advanced_countEntry htask
  | «exists» n =>
      cases call with
      | add src stamp => exact advanced_exists htask
      | canAdd size => exact htask.elim
      | remove name => exact htask.elim
  | rename n =>
      cases call with
      | add src stamp => exact advanced_rename htask
      | canAdd size => exact htask.elim
      | remove name => exact htask.elim
  | discard e =>
      cases call with
      | add src stamp => exact advanced_discard htask
      | canAdd size => exact htask.elim
      | remove name => exact htask.elim
  | removeFile =>
      cases call with
      | add src stamp => exact htask.elim
      | canAdd size => exact htask.elim
      | remove name => exact advanced_removeFile hroot hleg
  | unlock r => cases call <;> exact .stay htask Iff.rfl rfl
  | done r => cases call <;> exact .stay htask Iff.rfl rfl

end Dddatasync
