import Dddatasync.PullFrame
import Dddatasync.Pushing
import Dddatasync.Writers

/-!
The directories that `push` and `pull` of `src/sync.rs` make for themselves in the store, and
what is left of them at every point of the call.

* `PushCall`, `SendPc`, `SendMove`, `sendStep`: a `push` as its store sees it.  The blob store
  writes below the directory of the call, the guard takes entries away one at a time.
* `Guarded`: a directory is there from its creation until its guard has removed it.
* `push_left`: the directory of a `push`; `pull_left`: the directory and the exported file of a
  `pull`.
-/

namespace Dddatasync

open Fs OsString Runs

variable {π C NodeId Sock Relay Hash : Type*}

/-! ### A `push` in its store -/

/-- The arguments of a `push` and the clock reading behind its name. -/
structure PushCall (π : Type*) where
  filePath : PathBuf
  peers : List π
  stamp : Stamp

/-- Where a `push` stands: before its directory is made, returned without one, with it, or
returned with the guard at work. -/
inductive SendPc where
  | start
  | returned (r : Except PushError Unit)
  | serving
  | done (r : Except PushError Unit)

/-- What happens next: the call goes on, `create_dir_all` fails, a later call fails, the last
peer has been told, the blob store writes or removes something, the guard removes something. -/
inductive SendMove (C : Type*) where
  | go
  | fault
  | stop (e : PushError)
  | finish
  | blob (name : OsString) (below : List OsString) (node : Option (Node C))
  | unlink (below : List OsString)

/-- The errors that a `push` meets once its directory is there. -/
def PushError.late : PushError → Bool
  | .noFileName | .createDir _ => false
  | _ => true

/-- The first step: the checks and `create_dir_all`. -/
def pushStart (root : AbsPath) (p : PushCall π) (fs : FileSystem C) : SendPc × FileSystem C :=
  if p.peers = [] then (.returned (.ok ()), fs)
  else
    match (fileName p.filePath).bind toStr with
    | none => (.returned (.error .noFileName), fs)
    | some _ =>
        match createDirAll fs ⟨root, sendName p.stamp⟩ with
        | .error e => (.returned (.error (.createDir e)), fs)
        | .ok fs' => (.serving, fs')

/-- One step of a `push`. -/
def sendStep (root : AbsPath) (p : PushCall π) (fs : FileSystem C) :
    SendPc → SendMove C → Option (SendPc × FileSystem C)
  | .start, .go => some (pushStart root p fs)
  | .start, .fault =>
      if p.peers ≠ [] ∧ ((fileName p.filePath).bind toStr).isSome then
        some (.returned (.error (.createDir .other)), fs)
      else none
  | .serving, .stop e => if e.late then some (.done (.error e), fs) else none
  | .serving, .finish => some (.done (.ok ()), fs)
  | .serving, .blob name below node =>
      some (.serving, setNode (root ++ [sendName p.stamp] ++ name :: below) node fs)
  | .done r, .unlink below => some (.done r, fs.erase (root ++ sendName p.stamp :: below))
  | _, _ => none

/-- The directory has been made. -/
def SendPc.created : SendPc → Bool
  | .serving | .done _ => true
  | _ => false

/-- The directory has been made. -/
def PullPc.created : PullPc C Hash → Bool
  | .start | .refused _ => false
  | _ => true

/-- The fetch has ended with a file, or the call is over. -/
def PullPc.fetched : PullPc C Hash → Bool
  | .start | .refused _ | .fetching _ => false
  | _ => true

/-- The exported file is there, after these moves: the export has written to it, and it has not
been renamed. -/
def PullPc.ExportLeft (moves : List (PullMove C Hash)) : PullPc C Hash → Prop
  | .publishing _ | .done (.error (.rename _)) => True
  | .exporting _ | .done (.error (.exporting _)) => ∃ part, .chunk part ∈ moves
  | _ => False

/-! ### Guards -/

/-- The directory `n` of the store is there from its creation until its guard has removed it. -/
structure Guarded (root : AbsPath) (n : OsString) (created : Bool) (removed : Prop)
    (fs : FileSystem C) : Prop where
  there : created = true → ¬ removed → entry fs root n = some .dir
  gone : created = false ∨ removed → entry fs root n = none
  early : created = false → ¬ removed

variable {root : AbsPath} {n : OsString} {fs₀ fs fs' : FileSystem C} {created : Bool}
  {removed removed' : Prop}

lemma Guarded.congr (h : Guarded root n created removed fs)
    (heq : entry fs' root n = entry fs root n) (hremoved : removed' ↔ removed) :
    Guarded root n created removed' fs' := by
  rw [propext hremoved]
  exact ⟨fun hc hr => heq.trans (h.there hc hr), fun hr => heq.trans (h.gone hr), h.early⟩

/-- `create_dir_all` makes the directory. -/
lemma Guarded.begin (h : Guarded root n false removed fs)
    (heq : entry fs' root n = some .dir) (hremoved : removed' ↔ removed) :
    Guarded root n true removed' fs' := by
  have hnot : ¬ removed' := fun hr => h.early rfl (hremoved.mp hr)
  exact ⟨fun _ _ => heq, fun hr => absurd (hr.resolve_left (by simp)) hnot, fun hc => by cases hc⟩

/-- The guard takes the directory away. -/
lemma guarded_removed (h : entry fs root n = none) (hremoved : removed) :
    Guarded root n true removed fs :=
  ⟨fun _ hnot => absurd hremoved hnot, fun _ => h, fun hc => by cases hc⟩

lemma mem_snoc_of_ne {α : Type*} {a b : α} {l : List α} (h : a ≠ b) : a ∈ l ++ [b] ↔ a ∈ l := by
  rw [List.mem_append, List.mem_singleton, or_iff_left h]

/-- What lies deeper than an entry of the root is no entry of it. -/
lemma entry_setNode_deep (below : List OsString) (m name : OsString) (x : Option (Node C)) :
    entry (setNode (root ++ [m] ++ name :: below) x fs) root n = entry fs root n := by
  have hne : root ++ [n] ≠ root ++ [m] ++ name :: below := by
    intro heq
    have hlen := congrArg List.length heq
    simp only [List.length_append, List.length_cons, List.length_nil] at hlen
    omega
  cases x with
  | some x => exact entry_insert_of_ne fs x hne
  | none => exact entry_erase_of_ne fs hne

lemma node_setNode_deep (below : List OsString) (m name : OsString) (x : Option (Node C)) :
    node (setNode (root ++ [m] ++ name :: below) x fs) root = node fs root := by
  have hne : root ≠ root ++ [m] ++ name :: below := by simp
  cases x with
  | some x => exact node_insert_of_ne fs x hne
  | none => exact node_erase_of_ne fs hne

/-- One removal by the guard: of something in the directory, or of the directory. -/
lemma entry_unlink (m : OsString) (below : List OsString) :
    entry (fs.erase (root ++ m :: below)) root m
      = if below = [] then none else entry fs root m := by
  cases below with
  | nil => rw [if_pos rfl, entry_erase_self]
  | cons name below =>
      rw [if_neg (List.cons_ne_nil name below)]
      have hdeep : entry (setNode (root ++ [m] ++ name :: below) none fs) root m
          = entry fs root m := entry_setNode_deep below m name none
      rwa [← List.append_cons] at hdeep

/-- `create_dir_all` under an ordinary name that is free. -/
lemma createDirAll_new {fs' : FileSystem C} (hn : Plain n) (hfree : entry fs root n = none)
    (h : createDirAll fs ⟨root, n⟩ = .ok fs') :
    SameExcept root n fs fs' ∧ entry fs' root n = some .dir := by
  simp only [createDirAll, resolve_plain fs root hn, node_snoc, hfree] at h
  obtain rfl := Except.ok.inj h
  exact ⟨sameExcept_insert root n _ fs, entry_insert_self fs root n _⟩

/-! ### What a `push` leaves -/

/-- What a `push` has changed in its store after some moves. -/
structure SendAt (root : AbsPath) (p : PushCall π) (fs₀ : FileSystem C)
    (moves : List (SendMove C)) (pc : SendPc) (fs : FileSystem C) : Prop where
  same : SameExcept root (sendName p.stamp) fs₀ fs
  dir : Guarded root (sendName p.stamp) pc.created (.unlink [] ∈ moves) fs

variable {p : PushCall π} {moves : List (SendMove C)} {move : SendMove C} {pc pc' : SendPc}

/-- A step that leaves the entries of the root alone. -/
lemma SendAt.still (h : SendAt root p fs₀ moves pc fs) (hroot : node fs' root = node fs root)
    (hentry : ∀ n, entry fs' root n = entry fs root n) (hcreated : pc'.created = pc.created)
    (hmove : move ≠ .unlink []) : SendAt root p fs₀ (moves ++ [move]) pc' fs' where
  same := ⟨hroot.trans h.same.root_eq, fun n hn => (hentry n).trans (h.same.entry_eq n hn)⟩
  dir := by
    rw [hcreated]
    exact h.dir.congr (hentry _) (mem_snoc_of_ne (Ne.symm hmove))

lemma sendAt_start (h : SendAt root p fs₀ moves .start fs) {o : SendPc × FileSystem C}
    (hstart : pushStart root p fs = o) : SendAt root p fs₀ (moves ++ [.go]) o.1 o.2 := by
  subst hstart
  rw [pushStart]
  split_ifs
  · exact h.still rfl (fun _ => rfl) rfl (by simp)
  · split
    · exact h.still rfl (fun _ => rfl) rfl (by simp)
    · cases hdir : createDirAll fs ⟨root, sendName p.stamp⟩ with
      | error e => exact h.still rfl (fun _ => rfl) rfl (by simp)
      | ok fs' =>
          obtain ⟨hsame, hnew⟩ :=
            createDirAll_new (plain_sendName p.stamp) (h.dir.gone (.inl rfl)) hdir
          exact ⟨h.same.trans hsame, h.dir.begin hnew (mem_snoc_of_ne (by simp))⟩

/-- **A step of a `push`** in its store. -/
lemma sendAt_step (h : SendAt root p fs₀ moves pc fs)
    (hstep : sendStep root p fs pc move = some (pc', fs')) :
    SendAt root p fs₀ (moves ++ [move]) pc' fs' := by
  cases pc with
  | start =>
      cases move with
      | go => exact sendAt_start h (Option.some.inj hstep)
      | fault =>
          simp only [sendStep] at hstep
          split_ifs at hstep
          cases hstep
          exact h.still rfl (fun _ => rfl) rfl (by simp)
      | stop | finish | blob | unlink => simp [sendStep] at hstep
  | serving =>
      cases move with
      | stop e =>
          simp only [sendStep] at hstep
          split_ifs at hstep
          cases hstep
          exact h.still rfl (fun _ => rfl) rfl (by simp)
      | finish =>
          cases hstep
          exact h.still rfl (fun _ => rfl) rfl (by simp)
      | blob name below node =>
          obtain ⟨rfl, rfl⟩ := Prod.mk.inj (Option.some.inj hstep)
          exact h.still (node_setNode_deep below _ name node)
            (fun n => entry_setNode_deep below _ name node) rfl (by simp)
      | go | fault | unlink => simp [sendStep] at hstep
  | done r =>
      cases move with
      | unlink below =>
          obtain ⟨rfl, rfl⟩ := Prod.mk.inj (Option.some.inj hstep)
          have hentry : entry (fs.erase (root ++ sendName p.stamp :: below)) root
              (sendName p.stamp) = if below = [] then none else entry fs root (sendName p.stamp) :=
            entry_unlink _ below
          refine ⟨h.same.trans (unlink_sameExcept _ below), ?_⟩
          by_cases hbelow : below = []
          · subst hbelow
            exact guarded_removed (by rw [hentry, if_pos rfl]) (by simp)
          · rw [if_neg hbelow] at hentry
            exact h.dir.congr hentry (mem_snoc_of_ne (by simpa using Ne.symm hbelow))
      | go | fault | stop | finish | blob => simp [sendStep] at hstep
  | returned r => cases move <;> simp [sendStep] at hstep

/-- **A `push`** changes one entry of its store, its own directory, which is there from its
creation until its guard has removed it. -/
theorem push_left (hfree : entry fs₀ root (sendName p.stamp) = none)
    (hrun : exec (fun s move => sendStep root p s.2 s.1 move) (.start, fs₀) moves
      = some (pc, fs)) : SendAt root p fs₀ moves pc fs := by
  have hat : ∀ s, exec (fun s move => sendStep root p s.2 s.1 move) (.start, fs₀) moves = some s →
      SendAt root p fs₀ moves s.1 s.2 := by
    intro s hs
    refine history_invariant (I := fun moves s => SendAt root p fs₀ moves s.1 s.2) ?_ ?_ hs
    · exact ⟨.refl _ fs₀, ⟨fun hc => (by cases hc), fun _ => hfree, fun _ => by simp⟩⟩
    · rintro done move ⟨pc, fs⟩ ⟨pc', fs'⟩ - - h hstep
      exact sendAt_step h hstep
  exact hat (pc, fs) hrun

/-! ### What a `pull` leaves -/

/-- What a `pull` has changed in its store after some moves. -/
structure PullAt (root : AbsPath) (p : PullCall) (fs₀ : FileSystem C)
    (moves : List (PullMove C Hash)) (pc : PullPc C Hash) (fs : FileSystem C) : Prop where
  own : Changes (Own root p) fs₀ fs
  safe : pc.begun = true → safeName p.fileName = true
  dir : Guarded root (recvName p.recv) pc.created (.unlink [] ∈ moves) fs
  early : pc.fetched = false → ∀ part, .chunk part ∉ moves
  exported : pc.ExportLeft moves → ∃ c, entry fs root (exportName p.exportStamp) = some (.file c)
  clear : ¬ pc.ExportLeft moves → entry fs root (exportName p.exportStamp) = none

section Pull

variable [DecidableEq Hash] {k : Codec NodeId Sock Relay Hash} {b : Blobs C Hash} {p : PullCall}
  {moves : List (PullMove C Hash)} {move : PullMove C Hash} {pc pc' : PullPc C Hash}

/-- A step with its tree: what is left to say is what becomes of the two hidden entries. -/
lemma PullAt.next (h : PullAt root p fs₀ moves pc fs) (hroot : node fs₀ root = some .dir)
    (hstep : pullStep k b root p fs pc move = some (pc', fs'))
    (hdir : Guarded root (recvName p.recv) pc'.created (.unlink [] ∈ moves ++ [move]) fs')
    (hearly : pc'.fetched = false → pc.fetched = false ∧ ∀ part, move ≠ .chunk part)
    (hexported : pc'.ExportLeft (moves ++ [move]) →
      ∃ c, entry fs' root (exportName p.exportStamp) = some (.file c))
    (hclear : ¬ pc'.ExportLeft (moves ++ [move]) →
      entry fs' root (exportName p.exportStamp) = none) :
    PullAt root p fs₀ (moves ++ [move]) pc' fs' where
  own := h.own.trans (pullStep_own hstep ((node_of_changes h.own).trans hroot) h.safe)
  safe := safe_of_begun hstep h.safe
  dir := hdir
  early := fun hf part hmem => by
    obtain ⟨hf', hne⟩ := hearly hf
    exact h.early hf' part ((mem_snoc_of_ne (Ne.symm (hne part))).mp hmem)
  exported := hexported
  clear := hclear

/-- A step that leaves the entries of the root alone. -/
lemma PullAt.still (h : PullAt root p fs₀ moves pc fs) (hroot : node fs₀ root = some .dir)
    (hstep : pullStep k b root p fs pc move = some (pc', fs'))
    (hentry : ∀ n, entry fs' root n = entry fs root n) (hcreated : pc'.created = pc.created)
    (hmove : move ≠ .unlink [])
    (hearly : pc'.fetched = false → pc.fetched = false ∧ ∀ part, move ≠ .chunk part)
    (hleft : pc'.ExportLeft (moves ++ [move]) ↔ pc.ExportLeft moves) :
    PullAt root p fs₀ (moves ++ [move]) pc' fs' := by
  refine h.next hroot hstep ?_ hearly ?_ ?_
  · rw [hcreated]
    exact h.dir.congr (hentry _) (mem_snoc_of_ne (Ne.symm hmove))
  · rw [hentry, hleft]
    exact h.exported
  · rw [hentry, hleft]
    exact h.clear

omit [DecidableEq Hash] in
lemma chunk_snoc (hmove : ∀ part, move ≠ .chunk part) :
    (∃ part, .chunk part ∈ moves ++ [move]) ↔ ∃ part, .chunk part ∈ moves :=
  exists_congr fun part => mem_snoc_of_ne (Ne.symm (hmove part))

lemma pullAt_start (h : PullAt root p fs₀ moves .start fs) (hroot : node fs₀ root = some .dir)
    (hstep : pullStep k b root p fs .start .go = some (pc', fs')) :
    PullAt root p fs₀ (moves ++ [.go]) pc' fs' := by
  have hstart : pullStart k root p fs = (pc', fs') := Option.some.inj hstep
  rw [pullStart] at hstart
  split_ifs at hstart
  · split at hstart
    · cases hstart
      exact h.still hroot hstep (fun _ => rfl) rfl (by simp) (fun _ => ⟨rfl, by simp⟩) (by rfl)
    · cases hdir : createDirAll fs ⟨root, recvName p.recv⟩ with
      | error e =>
          rw [hdir] at hstart
          cases hstart
          exact h.still hroot hstep (fun _ => rfl) rfl (by simp) (fun _ => ⟨rfl, by simp⟩) (by rfl)
      | ok fs₁ =>
          rw [hdir] at hstart
          cases hstart
          obtain ⟨hsame, hnew⟩ :=
            createDirAll_new (plain_recvName p.recv) (h.dir.gone (.inl rfl)) hdir
          refine h.next hroot hstep (h.dir.begin hnew (mem_snoc_of_ne (by simp)))
            (fun _ => ⟨rfl, by simp⟩) (fun hleft => hleft.elim) fun hleft => ?_
          rw [hsame.entry_eq _ (exportName_ne_recvName _ _)]
          exact h.clear hleft
  · cases hstart
    exact h.still hroot hstep (fun _ => rfl) rfl (by simp) (fun _ => ⟨rfl, by simp⟩) (by rfl)

/-- The export writes to its file, which is then left. -/
lemma pullAt_write {content : C} (h : PullAt root p fs₀ moves pc fs)
    (hroot : node fs₀ root = some .dir)
    (hstep : pullStep k b root p fs pc move = some (pc', fs'))
    (hwrite : pullWrite root p content pc' fs = some (pc', fs'))
    (hcreated : pc'.created = pc.created) (hmove : move ≠ .unlink [])
    (hfetched : pc'.fetched = true) (hleft : pc'.ExportLeft (moves ++ [move])) :
    PullAt root p fs₀ (moves ++ [move]) pc' fs' := by
  obtain ⟨-, hsame, hc⟩ := pullWrite_same hwrite
  refine h.next hroot hstep ?_ (fun hf => by rw [hfetched] at hf; cases hf) (fun _ => ⟨_, hc⟩)
    (fun hnot => absurd hleft hnot)
  rw [hcreated]
  exact h.dir.congr (hsame.entry_eq _ (exportName_ne_recvName _ _).symm)
    (mem_snoc_of_ne (Ne.symm hmove))

/-- The rename takes the exported file away, or leaves it. -/
lemma pullAt_rename {c : C} (h : PullAt root p fs₀ moves (.publishing c) fs)
    (hroot : node fs₀ root = some .dir)
    (hstep : pullStep k b root p fs (.publishing c) .go = some (pc', fs')) :
    PullAt root p fs₀ (moves ++ [.go]) pc' fs' := by
  have hrename : pullRename root p fs = (pc', fs') := Option.some.inj hstep
  rw [pullRename] at hrename
  cases hr : Fs.rename fs ⟨root, exportName p.exportStamp⟩ ⟨root, ofStr p.fileName⟩ with
  | error e =>
      rw [hr] at hrename
      cases hrename
      exact h.still hroot hstep (fun _ => rfl) rfl (by simp) (fun hf => by cases hf) (by rfl)
  | ok fs₁ =>
      rw [hr] at hrename
      cases hrename
      obtain ⟨d, hd⟩ := h.exported trivial
      have hdir : node fs root = some .dir := (node_of_changes h.own).trans hroot
      obtain ⟨-, hvisible⟩ := safeName_visible (h.safe rfl)
      obtain ⟨⟨e, he⟩, -⟩ | ⟨⟨hplain, -⟩, -⟩ := rename_hidden hdir
        (plain_exportName p.exportStamp) (not_visible_exportName p.exportStamp) hd (h.safe rfl)
      · rw [hr] at he
        cases he
      · obtain ⟨c', -, hfs⟩ := rename_plain (plain_exportName p.exportStamp) hplain hr
        have hother : ∀ {m}, ¬ Visible m → entry fs' root m
            = entry (fs.erase (root ++ [exportName p.exportStamp])) root m := by
          intro m hm
          rw [hfs, entry_insert_of_ne]
          intro heq
          rw [List.append_cancel_left_eq, List.cons.injEq] at heq
          rw [heq.1] at hm
          exact hm hvisible
        refine h.next hroot hstep ?_ (fun hf => by cases hf) (fun hleft => hleft.elim) fun _ => ?_
        · refine h.dir.congr ?_ (mem_snoc_of_ne (by simp))
          rw [hother (not_visible_recvName p.recv), entry_erase_of_ne]
          simpa using (exportName_ne_recvName p.exportStamp p.recv).symm
        · rw [hother (not_visible_exportName p.exportStamp), entry_erase_self]

/-- The blob store of a call works below the directory of the call. -/
lemma pullAt_blob {name : OsString} {below : List OsString} {x : Option (Node C)}
    (h : PullAt root p fs₀ moves pc fs) (hroot : node fs₀ root = some .dir)
    (hstep : pullStep k b root p fs pc (.blob name below x)
      = some (pc, p.blob root name below x fs)) :
    PullAt root p fs₀ (moves ++ [.blob name below x]) pc (p.blob root name below x fs) := by
  refine h.still hroot hstep (fun n => entry_setNode_deep below _ name x) rfl (by simp)
    (fun hf => ⟨hf, by simp⟩) ?_
  have hchunk : (∃ part, .chunk part ∈ moves ++ [.blob name below x])
      ↔ ∃ part, .chunk part ∈ moves := chunk_snoc (by simp)
  cases pc with
  | exporting c => exact hchunk
  | done r =>
      cases r with
      | ok u => exact Iff.rfl
      | error e =>
          cases e with
          | exporting e => exact hchunk
          | _ => exact Iff.rfl
  | _ => exact Iff.rfl

/-- The guard of a call removes something. -/
lemma pullAt_unlink {r : Except PullError Unit} {below : List OsString}
    (h : PullAt root p fs₀ moves (.done r) fs) (hroot : node fs₀ root = some .dir)
    (hstep : pullStep k b root p fs (.done r) (.unlink below)
      = some (.done r, fs.erase (root ++ recvName p.recv :: below))) :
    PullAt root p fs₀ (moves ++ [.unlink below]) (.done r)
      (fs.erase (root ++ recvName p.recv :: below)) := by
  have hexport : entry (fs.erase (root ++ recvName p.recv :: below)) root
      (exportName p.exportStamp) = entry fs root (exportName p.exportStamp) :=
    (unlink_sameExcept (recvName p.recv) below).entry_eq _ (exportName_ne_recvName _ _)
  have hentry : entry (fs.erase (root ++ recvName p.recv :: below)) root (recvName p.recv)
      = if below = [] then none else entry fs root (recvName p.recv) := entry_unlink _ below
  have hleft : (PullPc.done r : PullPc C Hash).ExportLeft (moves ++ [.unlink below])
      ↔ (PullPc.done r : PullPc C Hash).ExportLeft moves := by
    cases r with
    | ok u => exact Iff.rfl
    | error e =>
        cases e with
        | exporting e => exact chunk_snoc (by simp)
        | _ => exact Iff.rfl
  refine h.next hroot hstep ?_ (fun hf => by cases hf) ?_ ?_
  · by_cases hbelow : below = []
    · subst hbelow
      exact guarded_removed (by rw [hentry, if_pos rfl]) (by simp)
    · rw [if_neg hbelow] at hentry
      exact h.dir.congr hentry (mem_snoc_of_ne (by simpa using Ne.symm hbelow))
  · rw [hexport, hleft]
    exact h.exported
  · rw [hexport, hleft]
    exact h.clear

/-- **A step of a `pull`** in its store. -/
lemma pullAt_step (h : PullAt root p fs₀ moves pc fs) (hroot : node fs₀ root = some .dir)
    (hstep : pullStep k b root p fs pc move = some (pc', fs')) :
    PullAt root p fs₀ (moves ++ [move]) pc' fs' := by
  cases pullStep_moved hstep with
  | began pc' result => exact pullAt_start h hroot hstep
  | unmade safe parsed fs_eq =>
      subst fs_eq
      exact h.still hroot hstep (fun _ => rfl) rfl (by simp) (fun _ => ⟨rfl, by simp⟩) (by rfl)
  | unfetched hash e fs_eq =>
      subst fs_eq
      exact h.still hroot hstep (fun _ => rfl) rfl (by simp) (fun hf => by cases hf) (by rfl)
  | empty hash stands fs_eq =>
      subst fs_eq
      exact h.still hroot hstep (fun _ => rfl) rfl (by simp) (fun hf => by cases hf) (by rfl)
  | fetched hash name rest c stands fs_eq =>
      subst fs_eq
      refine h.still hroot hstep (fun _ => rfl) rfl (by simp) (fun hf => by cases hf) ?_
      -- nothing of the export has been written before the fetch ends
      refine iff_of_false (fun hleft => ?_) id
      obtain ⟨part, hmem⟩ := (chunk_snoc (by simp)).mp hleft
      exact h.early rfl part hmem
  | wrote c part pc' result =>
      obtain ⟨rfl, -, -⟩ := pullWrite_same result
      exact pullAt_write h hroot hstep result rfl (by simp) rfl ⟨part, by simp⟩
  | exported c pc' result =>
      obtain ⟨rfl, -, -⟩ := pullWrite_same result
      exact pullAt_write h hroot hstep result rfl (by simp) rfl trivial
  | unexported c e fs_eq =>
      subst fs_eq
      exact h.still hroot hstep (fun _ => rfl) rfl (by simp) (fun hf => by cases hf)
        (chunk_snoc (by simp))
  | renamed c pc' result => exact pullAt_rename h hroot hstep
  | unrenamed c fs_eq =>
      subst fs_eq
      exact h.still hroot hstep (fun _ => rfl) rfl (by simp) (fun hf => by cases hf) (by rfl)
  | stored pc name below x called running fs_eq =>
      subst fs_eq
      exact pullAt_blob h hroot hstep
  | unlinked r below fs_eq =>
      subst fs_eq
      exact pullAt_unlink h hroot hstep

/-- **A `pull`** changes the file of its offer and two hidden entries: its directory, which is
there from its creation until its guard has removed it, and the exported file, which is there
from the first write to the rename. -/
theorem pull_left (hroot : node fs₀ root = some .dir)
    (hrecv : entry fs₀ root (recvName p.recv) = none)
    (hexport : entry fs₀ root (exportName p.exportStamp) = none)
    (hrun : exec (fun s move => pullStep k b root p s.2 s.1 move) (.start, fs₀) moves
      = some (pc, fs)) : PullAt root p fs₀ moves pc fs := by
  have hat : ∀ s, exec (fun s move => pullStep k b root p s.2 s.1 move) (.start, fs₀) moves
      = some s → PullAt root p fs₀ moves s.1 s.2 := by
    intro s hs
    refine history_invariant (I := fun moves s => PullAt root p fs₀ moves s.1 s.2) ?_ ?_ hs
    · exact ⟨.refl _ fs₀, fun hb => (by cases hb),
        ⟨fun hc => (by cases hc), fun _ => hrecv, fun _ => by simp⟩, fun _ part => by simp,
        fun hleft => hleft.elim, fun _ => hexport⟩
    · rintro done move ⟨pc, fs⟩ ⟨pc', fs'⟩ - - h hstep
      exact pullAt_step h hroot hstep
  exact hat (pc, fs) hrun

end Pull

end Dddatasync
