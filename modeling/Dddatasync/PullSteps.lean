import Dddatasync.Library.Runs
import Dddatasync.Sync

/-!
One `pull` of `src/sync.rs`, one step for each thing it does to the tree.

* `Blobs`: how iroh names a file and a collection; a fetch only ends with what the hash
  stands for.
* `PullCall`, `PullPc`, `PullMove`, `pullStep`: the call, where it stands, what it meets and
  does next.  An export writes any part of the file before it writes the file, the blob
  store writes below its directory, the guard takes entries away one at a time.
* `pullStep_moved`: the branch of `pullStep` that a step is.
* `pullStep_stepped`: every step leaves all names but its own alone, or it is the rename.
* `pull_steps`: a call that nobody interferes with does what `pull` does.
* `textBlobs`: texts in the place of hashes.
-/

namespace Dddatasync

open Fs OsString Runs

/-! ### Steps -/

/-- The hash of a file, and of a collection with the names and hashes in it. -/
structure Blobs (C Hash : Type*) where
  fileHash : C → Hash
  collectionHash : List (String × Hash) → Hash

/-- The arguments of a `pull` and the two clock readings behind its names. -/
structure PullCall where
  hash : String
  fileName : String
  recv : Stamp
  exportStamp : Stamp
  deriving DecidableEq

/-- Where a `pull` stands.  From `fetching` on its directory is there and so is the guard. -/
inductive PullPc (C Hash : Type*) where
  | start
  | refused (e : PullError)
  | fetching (hash : Hash)
  | exporting (content : C)
  | publishing (content : C)
  | done (r : Except PullError Unit)
  deriving DecidableEq

/-- What happens next: the call goes on, a call of it on the tree fails, a call into iroh
fails, the fetch ends with a collection and the content of its first file, the export
writes a part or fails, the blob store writes or removes something, the guard removes
something. -/
inductive PullMove (C Hash : Type*) where
  | go
  | fault
  | fail (e : TransferError)
  | empty
  | fetched (name : String) (rest : List (String × Hash)) (content : C)
  | chunk (part : C)
  | exportFailed (e : String)
  | blob (name : OsString) (below : List OsString) (node : Option (Node C))
  | unlink (below : List OsString)

variable {C NodeId Sock Relay Hash : Type*}

/-- The tree with another node at a path. -/
def setNode (p : AbsPath) (node : Option (Node C)) (fs : FileSystem C) : FileSystem C :=
  match node with
  | some x => fs.insert p x
  | none => fs.erase p

/-- The blob store of a call changes something below its directory. -/
def PullCall.blob (p : PullCall) (root : AbsPath) (name : OsString) (below : List OsString)
    (node : Option (Node C)) (fs : FileSystem C) : FileSystem C :=
  setNode (root ++ [recvName p.recv] ++ name :: below) node fs

/-- The first step: the checks and `create_dir_all`. -/
def pullStart (k : Codec NodeId Sock Relay Hash) (root : AbsPath) (p : PullCall)
    (fs : FileSystem C) : PullPc C Hash × FileSystem C :=
  if safeName p.fileName then
    match k.parseHash p.hash with
    | none => (.refused (k.hashError p.hash), fs)
    | some hash =>
        match createDirAll fs ⟨root, recvName p.recv⟩ with
        | .error e => (.refused (.createDir e), fs)
        | .ok fs' => (.fetching hash, fs')
  else (.refused (.unsafeName p.fileName), fs)

/-- Writing to the exported file; where that fails the export fails. -/
def pullWrite (root : AbsPath) (p : PullCall) (content : C) (pc : PullPc C Hash)
    (fs : FileSystem C) : Option (PullPc C Hash × FileSystem C) :=
  match write fs ⟨root, exportName p.exportStamp⟩ content with
  | .error _ => none
  | .ok fs' => some (pc, fs')

/-- The rename to the final name. -/
def pullRename (root : AbsPath) (p : PullCall) (fs : FileSystem C) :
    PullPc C Hash × FileSystem C :=
  match Fs.rename fs ⟨root, exportName p.exportStamp⟩ ⟨root, ofStr p.fileName⟩ with
  | .error e => (.done (.error (.rename e)), fs)
  | .ok fs' => (.done (.ok ()), fs')

/-- One step of a `pull`. -/
def pullStep [DecidableEq Hash] (k : Codec NodeId Sock Relay Hash) (b : Blobs C Hash)
    (root : AbsPath) (p : PullCall) (fs : FileSystem C) :
    PullPc C Hash → PullMove C Hash → Option (PullPc C Hash × FileSystem C)
  | .start, .go => some (pullStart k root p fs)
  | .start, .fault =>
      if safeName p.fileName ∧ (k.parseHash p.hash).isSome then
        some (.refused (.createDir .other), fs)
      else none
  | .fetching _, .fail e => some (.done (.error (.transfer e)), fs)
  | .fetching hash, .empty =>
      if b.collectionHash [] = hash then some (.done (.error .emptyCollection), fs) else none
  | .fetching hash, .fetched name rest content =>
      -- only the first file of the collection matters
      if b.collectionHash ((name, b.fileHash content) :: rest) = hash then
        some (.exporting content, fs)
      else none
  | .exporting content, .chunk part => pullWrite root p part (.exporting content) fs
  | .exporting content, .go => pullWrite root p content (.publishing content) fs
  | .exporting _, .exportFailed e => some (.done (.error (.exporting e)), fs)
  | .publishing _, .go => some (pullRename root p fs)
  | .publishing _, .fault => some (.done (.error (.rename .other)), fs)
  | .fetching hash, .blob name below node => some (.fetching hash, p.blob root name below node fs)
  | .exporting content, .blob name below node =>
      some (.exporting content, p.blob root name below node fs)
  | .publishing content, .blob name below node =>
      some (.publishing content, p.blob root name below node fs)
  | .done r, .unlink below => some (.done r, fs.erase (root ++ recvName p.recv :: below))
  | _, _ => none

/-! ### What a step does -/

variable {k : Codec NodeId Sock Relay Hash} {b : Blobs C Hash} {root : AbsPath} {p : PullCall}
  {fs fs' : FileSystem C} {pc pc' : PullPc C Hash} {move : PullMove C Hash} {c : C}

/-- The result of a call that has one. -/
def PullPc.result : PullPc C Hash → Option (Except PullError Unit)
  | .refused e => some (.error e)
  | .done r => some r
  | _ => none

/-- What a step of a call is: it begins, the fetch ends, its blob store or its guard works,
a part of the export is written, the export ends, the rename succeeds, or the call fails
and leaves the tree. -/
inductive PullStepped (k : Codec NodeId Sock Relay Hash) (b : Blobs C Hash) (root : AbsPath)
    (p : PullCall) (fs fs' : FileSystem C) : PullPc C Hash → PullPc C Hash → Prop
  | begun (hash : Hash) (safe : safeName p.fileName = true)
      (parsed : k.parseHash p.hash = some hash) (same : SameExcept root (recvName p.recv) fs fs') :
      PullStepped k b root p fs fs' .start (.fetching hash)
  | fetched (hash : Hash) (c : C) (name : String) (rest : List (String × Hash))
      (stands : b.collectionHash ((name, b.fileHash c) :: rest) = hash) (fs_eq : fs' = fs) :
      PullStepped k b root p fs fs' (.fetching hash) (.exporting c)
  | stored (pc : PullPc C Hash) (same : SameExcept root (recvName p.recv) fs fs') :
      PullStepped k b root p fs fs' pc pc
  | written (c : C) (same : SameExcept root (exportName p.exportStamp) fs fs') :
      PullStepped k b root p fs fs' (.exporting c) (.exporting c)
  | exported (c : C) (same : SameExcept root (exportName p.exportStamp) fs fs')
      (content : entry fs' root (exportName p.exportStamp) = some (.file c)) :
      PullStepped k b root p fs fs' (.exporting c) (.publishing c)
  | renamed (c : C) (moved : Fs.rename fs ⟨root, exportName p.exportStamp⟩
        ⟨root, ofStr p.fileName⟩ = .ok fs') :
      PullStepped k b root p fs fs' (.publishing c) (.done (.ok ()))
  | failed (pc : PullPc C Hash) (e : PullError) (running : pc.result = none) (fs_eq : fs' = fs) :
      PullStepped k b root p fs fs' pc (.done (.error e))
  | refused (e : PullError) (fs_eq : fs' = fs) :
      PullStepped k b root p fs fs' .start (.refused e)

/-- The blob store changes no entry of the root. -/
lemma blob_sameExcept (name : OsString) (below : List OsString) (node : Option (Node C)) :
    SameExcept root (recvName p.recv) fs (p.blob root name below node fs) := by
  have hne : ∀ n : List OsString, n.length ≤ 1 →
      root ++ n ≠ root ++ [recvName p.recv] ++ name :: below := by
    intro n hn heq
    have := congrArg List.length heq
    simp only [List.length_append, List.length_cons, List.length_nil] at this
    omega
  have hroot : root ≠ root ++ [recvName p.recv] ++ name :: below := by simp
  cases node with
  | some x =>
      exact ⟨node_insert_of_ne fs x hroot, fun n _ => entry_insert_of_ne fs x (hne [n] (by simp))⟩
  | none => exact ⟨node_erase_of_ne fs hroot, fun n _ => entry_erase_of_ne fs (hne [n] (by simp))⟩

/-- The guard takes nothing away but its directory and what is below. -/
lemma unlink_sameExcept (m : OsString) (below : List OsString) :
    SameExcept root m fs (fs.erase (root ++ m :: below)) := by
  refine ⟨node_erase_of_ne fs (by simp), fun n hn => entry_erase_of_ne fs ?_⟩
  intro heq
  rw [List.append_cancel_left_eq, List.cons.injEq] at heq
  exact hn heq.1

lemma pullStart_stepped {o : PullPc C Hash × FileSystem C} (h : pullStart k root p fs = o) :
    PullStepped k b root p fs o.2 .start o.1 := by
  subst h
  rw [pullStart]
  split_ifs with hsafe
  · split
    · exact .refused _ rfl
    · rename_i hash hhash
      obtain ⟨-, hdir⟩ | ⟨-, fs₁, hdir, hsame⟩ := createDirAll_cases root fs (plain_recvName p.recv)
      · rw [hdir]
        exact .refused _ rfl
      · rw [hdir]
        exact .begun hash hsafe hhash hsame
  · exact .refused _ rfl

lemma pullWrite_same {content : C} {next : PullPc C Hash}
    (h : pullWrite root p content next fs = some (pc', fs')) : pc' = next
      ∧ SameExcept root (exportName p.exportStamp) fs fs'
      ∧ entry fs' root (exportName p.exportStamp) = some (.file content) := by
  rw [pullWrite] at h
  obtain ⟨-, hw⟩ | ⟨-, fs₁, hw, hsame, hc⟩ :=
    write_cases root fs content (plain_exportName p.exportStamp)
  · rw [hw] at h
    cases h
  · rw [hw] at h
    obtain ⟨rfl, rfl⟩ := Prod.mk.inj (Option.some.inj h)
    exact ⟨rfl, hsame, hc⟩

lemma pullRename_stepped {o : PullPc C Hash × FileSystem C} (h : pullRename root p fs = o) :
    PullStepped k b root p fs o.2 (.publishing c) o.1 := by
  subst h
  rw [pullRename]
  cases hr : Fs.rename fs ⟨root, exportName p.exportStamp⟩ ⟨root, ofStr p.fileName⟩ with
  | error e => exact .failed _ _ rfl rfl
  | ok fs₁ => exact .renamed c hr

/-- Which branch of `pullStep` a step is. -/
inductive PullMoved (k : Codec NodeId Sock Relay Hash) (b : Blobs C Hash) (root : AbsPath)
    (p : PullCall) (fs fs' : FileSystem C) :
    PullPc C Hash → PullMove C Hash → PullPc C Hash → Prop
  | began (pc' : PullPc C Hash) (result : pullStart k root p fs = (pc', fs')) :
      PullMoved k b root p fs fs' .start .go pc'
  | unmade (safe : safeName p.fileName = true) (parsed : (k.parseHash p.hash).isSome)
      (fs_eq : fs' = fs) :
      PullMoved k b root p fs fs' .start .fault (.refused (.createDir .other))
  | unfetched (hash : Hash) (e : TransferError) (fs_eq : fs' = fs) :
      PullMoved k b root p fs fs' (.fetching hash) (.fail e) (.done (.error (.transfer e)))
  | empty (hash : Hash) (stands : b.collectionHash [] = hash) (fs_eq : fs' = fs) :
      PullMoved k b root p fs fs' (.fetching hash) .empty (.done (.error .emptyCollection))
  | fetched (hash : Hash) (name : String) (rest : List (String × Hash)) (c : C)
      (stands : b.collectionHash ((name, b.fileHash c) :: rest) = hash) (fs_eq : fs' = fs) :
      PullMoved k b root p fs fs' (.fetching hash) (.fetched name rest c) (.exporting c)
  | wrote (c part : C) (pc' : PullPc C Hash)
      (result : pullWrite root p part (.exporting c) fs = some (pc', fs')) :
      PullMoved k b root p fs fs' (.exporting c) (.chunk part) pc'
  | exported (c : C) (pc' : PullPc C Hash)
      (result : pullWrite root p c (.publishing c) fs = some (pc', fs')) :
      PullMoved k b root p fs fs' (.exporting c) .go pc'
  | unexported (c : C) (e : String) (fs_eq : fs' = fs) :
      PullMoved k b root p fs fs' (.exporting c) (.exportFailed e) (.done (.error (.exporting e)))
  | renamed (c : C) (pc' : PullPc C Hash) (result : pullRename root p fs = (pc', fs')) :
      PullMoved k b root p fs fs' (.publishing c) .go pc'
  | unrenamed (c : C) (fs_eq : fs' = fs) :
      PullMoved k b root p fs fs' (.publishing c) .fault (.done (.error (.rename .other)))
  | stored (pc : PullPc C Hash) (name : OsString) (below : List OsString)
      (x : Option (Node C)) (called : pc ≠ .start) (running : pc.result = none)
      (fs_eq : fs' = p.blob root name below x fs) :
      PullMoved k b root p fs fs' pc (.blob name below x) pc
  | unlinked (r : Except PullError Unit) (below : List OsString)
      (fs_eq : fs' = fs.erase (root ++ recvName p.recv :: below)) :
      PullMoved k b root p fs fs' (.done r) (.unlink below) (.done r)

/-- **Every step of a `pull` is one of these.** -/
lemma pullStep_moved [DecidableEq Hash] (h : pullStep k b root p fs pc move = some (pc', fs')) :
    PullMoved k b root p fs fs' pc move pc' := by
  cases pc with
  | start =>
      cases move with
      | go =>
          rw [pullStep] at h
          exact .began pc' (Option.some.inj h)
      | fault =>
          simp only [pullStep] at h
          split_ifs at h with hchecks
          cases h
          exact .unmade hchecks.1 hchecks.2 rfl
      | fail | empty | fetched | chunk | exportFailed | blob | unlink => simp [pullStep] at h
  | fetching hash =>
      cases move with
      | fail e =>
          cases h
          exact .unfetched hash e rfl
      | empty =>
          simp only [pullStep] at h
          split_ifs at h with hstands
          cases h
          exact .empty hash hstands rfl
      | fetched name rest c =>
          simp only [pullStep] at h
          split_ifs at h with hstands
          cases h
          exact .fetched hash name rest c hstands rfl
      | blob name below x =>
          obtain ⟨rfl, rfl⟩ := Prod.mk.inj (Option.some.inj h)
          exact .stored _ name below x (by simp) rfl rfl
      | go | fault | chunk | exportFailed | unlink => simp [pullStep] at h
  | exporting c =>
      cases move with
      | go =>
          rw [pullStep] at h
          exact .exported c pc' h
      | chunk part =>
          rw [pullStep] at h
          exact .wrote c part pc' h
      | exportFailed e =>
          cases h
          exact .unexported c e rfl
      | blob name below x =>
          obtain ⟨rfl, rfl⟩ := Prod.mk.inj (Option.some.inj h)
          exact .stored _ name below x (by simp) rfl rfl
      | fault | fail | empty | fetched | unlink => simp [pullStep] at h
  | publishing c =>
      cases move with
      | go =>
          rw [pullStep] at h
          exact .renamed c pc' (Option.some.inj h)
      | fault =>
          cases h
          exact .unrenamed c rfl
      | blob name below x =>
          obtain ⟨rfl, rfl⟩ := Prod.mk.inj (Option.some.inj h)
          exact .stored _ name below x (by simp) rfl rfl
      | fail | empty | fetched | chunk | exportFailed | unlink => simp [pullStep] at h
  | done r =>
      cases move with
      | unlink below =>
          obtain ⟨rfl, rfl⟩ := Prod.mk.inj (Option.some.inj h)
          exact .unlinked r below rfl
      | go | fault | fail | empty | fetched | chunk | exportFailed | blob => simp [pullStep] at h
  | refused e => cases move <;> simp [pullStep] at h

/-- **What a step of a `pull` is.** -/
lemma pullStep_stepped [DecidableEq Hash] (h : pullStep k b root p fs pc move = some (pc', fs')) :
    PullStepped k b root p fs fs' pc pc' := by
  cases pullStep_moved h with
  | began pc' result => exact pullStart_stepped result
  | unmade safe parsed fs_eq => exact .refused _ fs_eq
  | unfetched hash e fs_eq => exact .failed _ _ rfl fs_eq
  | empty hash stands fs_eq => exact .failed _ _ rfl fs_eq
  | fetched hash name rest c stands fs_eq => exact .fetched hash c name rest stands fs_eq
  | wrote c part pc' result =>
      obtain ⟨rfl, hsame, -⟩ := pullWrite_same result
      exact .written c hsame
  | exported c pc' result =>
      obtain ⟨rfl, hsame, hc⟩ := pullWrite_same result
      exact .exported c hsame hc
  | unexported c e fs_eq => exact .failed _ _ rfl fs_eq
  | renamed c pc' result => exact pullRename_stepped result
  | unrenamed c fs_eq => exact .failed _ _ rfl fs_eq
  | stored pc name below x called running fs_eq =>
      subst fs_eq
      exact .stored _ (blob_sameExcept name below x)
  | unlinked r below fs_eq =>
      subst fs_eq
      exact .stored _ (unlink_sameExcept _ below)

/-! ### A call on its own -/

/-- The download can end like that: what it exports is the first file of a collection that the
hash stands for. -/
def Pulling.Genuine (b : Blobs C Hash) (hash : Hash) (io : Pulling C) : Prop :=
  match io.transfer with
  | .failed _ => True
  | .emptyCollection => b.collectionHash [] = hash
  | .exportFailed _ _ => ∃ name rest c, b.collectionHash ((name, b.fileHash c) :: rest) = hash
  | .exported c => ∃ name rest, b.collectionHash ((name, b.fileHash c) :: rest) = hash

section Solo

variable [DecidableEq Hash] {io : Pulling C} {hash : Hash} {r : Except PullError Unit}

/-- Some moves lead the call from where it stands to its result, and to this tree. -/
def Ends (k : Codec NodeId Sock Relay Hash) (b : Blobs C Hash) (root : AbsPath) (p : PullCall)
    (s : PullPc C Hash × FileSystem C) (r : Except PullError Unit) (fs' : FileSystem C) : Prop :=
  ∃ moves pc, pc.result = some r
    ∧ exec (fun s move => pullStep k b root p s.2 s.1 move) s moves = some (pc, fs')

lemma ends_of_result (h : pc.result = some r) : Ends k b root p (pc, fs) r fs := ⟨[], pc, h, rfl⟩

lemma Ends.step {s : PullPc C Hash × FileSystem C} (move : PullMove C Hash)
    (hstep : pullStep k b root p fs pc move = some s) (h : Ends k b root p s r fs') :
    Ends k b root p (pc, fs) r fs' := by
  obtain ⟨moves, pc', hr, hrun⟩ := h
  refine ⟨move :: moves, pc', hr, ?_⟩
  rw [exec, hstep]
  exact hrun

/-- The blob store fills its directory. -/
lemma Ends.blobs (l : List (OsString × C))
    (h : Ends k b root p (.fetching hash, fillBlobs (root ++ [recvName p.recv]) l fs) r fs') :
    Ends k b root p (.fetching hash, fs) r fs' := by
  induction l generalizing fs with
  | nil => exact h
  | cons f l ih => exact Ends.step (.blob f.1 [] (some (.file f.2))) rfl (ih h)

/-- The export and the rename, step by step. -/
lemma ends_exportAndRename (hgenuine : io.Genuine b hash)
    (hexport : p.exportStamp = io.exportStamp)
    (h : exportAndRename root p.fileName io fs = (r, fs')) :
    Ends k b root p (.fetching hash, fs) r fs' := by
  rw [Pulling.Genuine] at hgenuine
  rw [exportAndRename, ← hexport] at h
  cases htr : io.transfer with
  | failed e =>
      rw [htr] at h
      obtain ⟨rfl, rfl⟩ := Prod.mk.inj h
      exact Ends.step (.fail e) rfl (ends_of_result rfl)
  | emptyCollection =>
      rw [htr] at h hgenuine
      obtain ⟨rfl, rfl⟩ := Prod.mk.inj h
      exact Ends.step .empty (if_pos hgenuine) (ends_of_result rfl)
  | exportFailed e left =>
      rw [htr] at h hgenuine
      obtain ⟨name, rest, c, hstands⟩ := hgenuine
      refine Ends.step (.fetched name rest c) (if_pos hstands) ?_
      cases left with
      | none =>
          obtain ⟨rfl, rfl⟩ := Prod.mk.inj h
          exact Ends.step (.exportFailed e) rfl (ends_of_result rfl)
      | some part =>
          simp only at h
          cases hw : write fs ⟨root, exportName p.exportStamp⟩ part with
          | error e' =>
              rw [hw] at h
              obtain ⟨rfl, rfl⟩ := Prod.mk.inj h
              exact Ends.step (.exportFailed e) rfl (ends_of_result rfl)
          | ok fs₁ =>
              rw [hw] at h
              obtain ⟨rfl, rfl⟩ := Prod.mk.inj h
              have hchunk : pullStep k b root p fs (.exporting c) (.chunk part)
                  = some (.exporting c, fs₁) := by
                rw [pullStep, pullWrite, hw]
              exact Ends.step (.chunk part) hchunk
                (Ends.step (.exportFailed e) rfl (ends_of_result rfl))
  | exported c =>
      rw [htr] at h hgenuine
      obtain ⟨name, rest, hstands⟩ := hgenuine
      refine Ends.step (.fetched name rest c) (if_pos hstands) ?_
      simp only at h
      cases hw : write fs ⟨root, exportName p.exportStamp⟩ c with
      | error e =>
          rw [hw] at h
          obtain ⟨rfl, rfl⟩ := Prod.mk.inj h
          exact Ends.step (.exportFailed (io.exportText e)) rfl (ends_of_result rfl)
      | ok fs₁ =>
          simp only [hw] at h
          refine Ends.step (s := (.publishing c, fs₁)) .go ?_ ?_
          · rw [pullStep, pullWrite, hw]
          split_ifs at h
          · obtain ⟨rfl, rfl⟩ := Prod.mk.inj h
            exact Ends.step .fault rfl (ends_of_result rfl)
          · refine Ends.step (s := pullRename root p fs₁) .go rfl ?_
            rw [pullRename]
            cases hr : Fs.rename fs₁ ⟨root, exportName p.exportStamp⟩ ⟨root, ofStr p.fileName⟩ with
            | error e =>
                rw [hr] at h
                obtain ⟨rfl, rfl⟩ := Prod.mk.inj h
                exact ends_of_result rfl
            | ok fs₂ =>
                rw [hr] at h
                obtain ⟨rfl, rfl⟩ := Prod.mk.inj h
                exact ends_of_result rfl

/-- **A call on its own.**  Whatever a call of `pull` meets, if its download is genuine then
some moves lead it to the same result and tree; its guard still has to run. -/
theorem pull_steps (hgenuine : ∀ hash ∈ k.parseHash p.hash, io.Genuine b hash)
    (hrecv : p.recv = io.recv) (hexport : p.exportStamp = io.exportStamp)
    (hguard : io.cleanup = true) (h : pull k root p.hash p.fileName io fs = (r, fs')) :
    Ends k b root p (.start, fs) r fs' := by
  have hgo : pullStep k b root p fs .start .go = some (pullStart k root p fs) := rfl
  rw [pullStart] at hgo
  rw [pull, ← hrecv] at h
  by_cases hsafe : safeName p.fileName = true
  swap
  · rw [if_neg hsafe] at h hgo
    obtain ⟨rfl, rfl⟩ := Prod.mk.inj h
    exact Ends.step .go hgo (ends_of_result rfl)
  rw [if_pos hsafe] at h hgo
  cases hhash : k.parseHash p.hash with
  | none =>
      rw [hhash] at h hgo
      obtain ⟨rfl, rfl⟩ := Prod.mk.inj h
      exact Ends.step .go hgo (ends_of_result rfl)
  | some hash =>
      simp only [hhash] at h hgo
      by_cases hfault : io.createDir = true
      · rw [if_pos hfault] at h
        obtain ⟨rfl, rfl⟩ := Prod.mk.inj h
        have hstep : pullStep k b root p fs .start .fault
            = some (.refused (.createDir .other), fs) := by
          rw [pullStep, if_pos ⟨hsafe, by rw [hhash]; rfl⟩]
        exact Ends.step .fault hstep (ends_of_result rfl)
      · rw [if_neg hfault] at h
        cases hdir : createDirAll fs ⟨root, recvName p.recv⟩ with
        | error e =>
            rw [hdir] at h hgo
            obtain ⟨rfl, rfl⟩ := Prod.mk.inj h
            exact Ends.step .go hgo (ends_of_result rfl)
        | ok fs₁ =>
            simp only [hdir, dropGuard, hguard, if_true] at h hgo
            have hrun : exportAndRename root p.fileName io
                (fillBlobs (root ++ [recvName p.recv]) io.blobs fs₁) = (r, fs') := h
            have hends := ends_exportAndRename (k := k) (hgenuine hash hhash) hexport hrun
            exact Ends.step .go hgo (hends.blobs io.blobs)

end Solo

/-! ### Texts in the place of hashes -/

/-- A text with a mark before each character and one at the end. -/
def marked (s : List Char) : List Char := s.flatMap (fun c => ['+', c]) ++ [';']

/-- Hashes that are texts: the bytes of a file, the names and hashes of a collection. -/
def textBlobs : Blobs (List UInt8) String where
  fileHash bytes := String.ofList (bytes.map fun b => Char.ofNat b.toNat)
  collectionHash l := String.ofList (l.flatMap fun e => marked e.1.toList ++ marked e.2.toList)

/-- A marked text shows where it ends. -/
lemma marked_append_inj {s t u v : List Char} (h : marked s ++ u = marked t ++ v) :
    s = t ∧ u = v := by
  induction s generalizing t with
  | nil =>
      cases t with
      | nil => exact ⟨rfl, by simpa [marked] using h⟩
      | cons d t => simp [marked] at h
  | cons c s ih =>
      cases t with
      | nil => simp [marked] at h
      | cons d t =>
          have hcons : c = d ∧ marked s ++ u = marked t ++ v := by simpa [marked] using h
          obtain ⟨rfl, rfl⟩ := ih hcons.2
          exact ⟨by rw [hcons.1], rfl⟩

lemma fileHash_textBlobs_injective : Function.Injective textBlobs.fileHash := by
  intro l l' h
  have hchar : Function.Injective fun b : UInt8 => Char.ofNat b.toNat := by
    intro b b' hb
    have hval : ∀ b : UInt8, (Char.ofNat b.toNat).toNat = b.toNat := by
      intro b
      have hlt := b.toNat_lt
      have hvalid : b.toNat.isValidChar := .inl (by omega)
      rw [Char.ofNat, dif_pos hvalid]
      rfl
    have heq := congrArg Char.toNat hb
    rw [hval, hval] at heq
    exact UInt8.toNat_inj.mp heq
  exact List.map_injective_iff.mpr hchar (String.ofList_injective h)

lemma collectionHash_textBlobs_injective : Function.Injective textBlobs.collectionHash := by
  intro l l' h
  have hlist := String.ofList_injective h
  clear h
  induction l generalizing l' with
  | nil =>
      cases l' with
      | nil => rfl
      | cons e l' => simp [marked] at hlist
  | cons e l ih =>
      cases l' with
      | nil => simp [marked] at hlist
      | cons e' l' =>
          rw [List.flatMap_cons, List.flatMap_cons, List.append_assoc, List.append_assoc] at hlist
          obtain ⟨hname, hrest⟩ := marked_append_inj hlist
          obtain ⟨hhash, htail⟩ := marked_append_inj hrest
          rw [ih htail, Prod.ext (String.toList_injective hname) (String.toList_injective hhash)]

end Dddatasync
