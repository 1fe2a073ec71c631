import Dddatasync.Library.TreeChanges
import Dddatasync.PullSteps

/-!
What a `pull` can touch, in a store that other writers change as they like.

* `PullAct`, `pullAmong`: the steps of a call among changes of others that leave the store a
  directory.
* `Own`: the file that is offered, a visible one of the store, and what lies under the two
  temporary names of the call.
* `pull_touches_own`: no step of a call, wherever it stops, touches anything else.
-/

namespace Dddatasync

open Fs OsString Runs

variable {C NodeId Sock Relay Hash : Type*}

/-! ### A call among others -/

variable {fs fs' : FileSystem C} {q root : AbsPath}

lemma changes_setNode (fs : FileSystem C) (q : AbsPath) (x : Option (Node C)) :
    Changes (· = q) fs (setNode q x fs) := by
  cases x with
  | none => exact changes_erase fs q
  | some x => exact changes_insert fs q x

/-- An act in the store: a step of the call, or others leave this tree. -/
inductive PullAct (C Hash : Type*) where
  | own (move : PullMove C Hash)
  | others (fs : FileSystem C)

/-- One act; the store stays a directory. -/
def pullAmong [DecidableEq Hash] (k : Codec NodeId Sock Relay Hash) (b : Blobs C Hash)
    (root : AbsPath) (p : PullCall) (s : PullPc C Hash × FileSystem C) :
    PullAct C Hash → Option (PullPc C Hash × FileSystem C)
  | .own move => pullStep k b root p s.2 s.1 move
  | .others fs =>
      match node fs root with
      | some .dir => some (s.1, fs)
      | _ => none

/-- What a call may touch: the file of the offer, which is a visible file of the store itself,
and what lies under its two temporary names. -/
def Own (root : AbsPath) (p : PullCall) (q : AbsPath) : Prop :=
  (q = root ++ [ofStr p.fileName] ∧ Plain (ofStr p.fileName) ∧ Visible (ofStr p.fileName))
    ∨ root ++ [recvName p.recv] <+: q ∨ root ++ [exportName p.exportStamp] <+: q

variable {k : Codec NodeId Sock Relay Hash} {b : Blobs C Hash} {p : PullCall}
  {pc pc' : PullPc C Hash} {move : PullMove C Hash}

/-- What is touched lies in the store, and in no hidden entry but the two of the call. -/
lemma Own.below (h : Own root p q) : ∃ n below, q = root ++ n :: below
    ∧ (n = recvName p.recv ∨ n = exportName p.exportStamp ∨ Visible n ∧ below = []) := by
  rcases h with ⟨rfl, -, hvisible⟩ | ⟨below, rfl⟩ | ⟨below, rfl⟩
  · exact ⟨ofStr p.fileName, [], rfl, .inr (.inr ⟨hvisible, rfl⟩)⟩
  · exact ⟨recvName p.recv, below, by simp, .inl rfl⟩
  · exact ⟨exportName p.exportStamp, below, by simp, .inr (.inl rfl)⟩

lemma node_of_changes (h : Changes (Own root p) fs fs') : node fs' root = node fs root := by
  rw [node, node]
  split_ifs
  · rfl
  · by_contra hne
    obtain ⟨n, below, hq, -⟩ := (h root hne).below
    exact absurd hq (by simp)

lemma own_recv (h : q = root ++ [recvName p.recv]) : Own root p q :=
  .inr (.inl (h ▸ List.prefix_rfl))

lemma own_export (h : q = root ++ [exportName p.exportStamp]) : Own root p q :=
  .inr (.inr (h ▸ List.prefix_rfl))

/-- The name is checked and the call is not over. -/
def PullPc.begun : PullPc C Hash → Bool
  | .fetching _ | .exporting _ | .publishing _ => true
  | _ => false

/-- Only a safe name gets that far. -/
lemma safe_of_begun [DecidableEq Hash] (h : pullStep k b root p fs pc move = some (pc', fs'))
    (hsafe : pc.begun = true → safeName p.fileName = true) (hpc' : pc'.begun = true) :
    safeName p.fileName = true := by
  cases pullStep_stepped h with
  | begun hash safe parsed same => exact safe
  | fetched | written | exported => exact hsafe rfl
  | stored => exact hsafe hpc'
  | renamed | failed | refused => cases hpc'

/-- The rename puts the file of the offer into the store, or fails. -/
lemma pullRename_own {o : PullPc C Hash × FileSystem C} (hroot : node fs root = some .dir)
    (hsafe : safeName p.fileName = true) (h : pullRename root p fs = o) :
    Changes (Own root p) fs o.2 := by
  subst h
  rw [pullRename]
  cases hr : Fs.rename fs ⟨root, exportName p.exportStamp⟩ ⟨root, ofStr p.fileName⟩ with
  | error e => exact .refl _ _
  | ok fs₁ =>
      obtain ⟨hslash, hvisible⟩ := safeName_visible hsafe
      have hexport := plain_exportName p.exportStamp
      rcases visible_name_cases hslash hvisible with hempty | hnul | hplain
      · -- the empty name is the store itself
        simp only [Fs.rename, hempty, resolve_nil, resolve_plain fs root hexport, hroot] at hr
        split at hr <;> cases hr
      · have hres : resolve fs ⟨root, ofStr p.fileName⟩ = .error .invalidInput := by
          rw [resolve, if_pos hnul]
        simp only [Fs.rename, hres, resolve_plain fs root hexport] at hr
        cases hr
      · refine (rename_changes hexport hplain hr).mono ?_
        rintro q (rfl | rfl)
        · exact own_export rfl
        · exact .inl ⟨rfl, hplain, hvisible⟩

lemma pullWrite_own {content : C} {next : PullPc C Hash}
    (h : pullWrite root p content next fs = some (pc', fs')) : Changes (Own root p) fs fs' := by
  rw [pullWrite] at h
  split at h
  · cases h
  · rename_i fs₁ hwrite
    cases h
    exact (write_changes (plain_exportName _) hwrite).mono fun q => own_export

lemma pullStart_own {o : PullPc C Hash × FileSystem C} (h : pullStart k root p fs = o) :
    Changes (Own root p) fs o.2 := by
  subst h
  rw [pullStart]
  split_ifs
  · split
    · exact .refl _ _
    · cases hdir : createDirAll fs ⟨root, recvName p.recv⟩ with
      | error e => exact .refl _ _
      | ok fs₁ =>
          exact (createDirAll_changes (plain_recvName _) hdir).mono fun q => own_recv
  · exact .refl _ _

/-- The blob store and the guard stay below the directory of the call. -/
lemma setNode_own (below : List OsString) (x : Option (Node C)) :
    Changes (Own root p) fs (setNode (root ++ recvName p.recv :: below) x fs) := by
  refine (changes_setNode fs _ x).mono ?_
  rintro q rfl
  exact .inr (.inl ⟨below, by simp⟩)

/-- **One step** of a call. -/
lemma pullStep_own [DecidableEq Hash] (h : pullStep k b root p fs pc move = some (pc', fs'))
    (hroot : node fs root = some .dir) (hsafe : pc.begun = true → safeName p.fileName = true) :
    Changes (Own root p) fs fs' := by
  cases pullStep_moved h with
  | began pc' result => exact pullStart_own result
  | unmade | unfetched | empty | fetched | unexported | unrenamed =>
      subst fs'
      exact .refl _ fs
  | wrote c part pc' result => exact pullWrite_own result
  | exported c pc' result => exact pullWrite_own result
  | renamed c pc' result => exact pullRename_own hroot (hsafe rfl) result
  | stored pc name below x called running fs_eq =>
      have hbelow : Changes (Own root p) fs
          (setNode (root ++ recvName p.recv :: name :: below) x fs) := setNode_own (name :: below) x
      rwa [fs_eq, PullCall.blob, ← List.append_cons]
  | unlinked r below fs_eq =>
      subst fs_eq
      exact setNode_own below none

/-- The store is a directory at every point, and only a safe name gets past the check. -/
lemma pullAmong_invariant [DecidableEq Hash] (hroot : node fs root = some .dir)
    {acts : List (PullAct C Hash)} {s : PullPc C Hash × FileSystem C}
    (hrun : exec (pullAmong k b root p) (.start, fs) acts = some s) :
    node s.2 root = some .dir ∧ (s.1.begun = true → safeName p.fileName = true) := by
  refine exec_invariant (I := fun s => node s.2 root = some .dir
    ∧ (s.1.begun = true → safeName p.fileName = true)) ?_ ⟨hroot, fun h => by cases h⟩ hrun
  rintro ⟨pc, fs⟩ act ⟨pc', fs'⟩ - ⟨hdir, hsafe⟩ hstep
  cases act with
  | own move =>
      refine ⟨?_, fun h => safe_of_begun hstep hsafe h⟩
      rw [← hdir]
      exact node_of_changes (pullStep_own hstep hdir hsafe)
  | others fs₁ =>
      simp only [pullAmong] at hstep
      split at hstep
      · rename_i hdir₁
        cases hstep
        exact ⟨hdir₁, hsafe⟩
      · cases hstep

/-- **A `pull` among others.**  Whatever the offer contains and wherever the call stops, a step
of it only touches the offered file, which is a visible file of the store itself, or what lies
under the two temporary names of the call: nothing outside the store and no other hidden
entry. -/
theorem pull_touches_own [DecidableEq Hash] (k : Codec NodeId Sock Relay Hash)
    (b : Blobs C Hash) (root : AbsPath) (p : PullCall) {fs : FileSystem C}
    (hroot : node fs root = some .dir) {acts : List (PullAct C Hash)}
    {s s' : PullPc C Hash × FileSystem C} {move : PullMove C Hash}
    (hrun : exec (pullAmong k b root p) (.start, fs) acts = some s)
    (hstep : pullStep k b root p s.2 s.1 move = some s') :
    (∀ q, s'.2.lookup q ≠ s.2.lookup q → Own root p q)
      ∧ (∀ q, ¬ root <+: q → s'.2.lookup q = s.2.lookup q)
      ∧ ∀ n, ¬ Visible n → n ≠ recvName p.recv → n ≠ exportName p.exportStamp →
          ∀ below, s'.2.lookup (root ++ n :: below) = s.2.lookup (root ++ n :: below) := by
  obtain ⟨hdir, hsafe⟩ := pullAmong_invariant hroot hrun
  have hown : Changes (Own root p) s.2 s'.2 := pullStep_own hstep hdir hsafe
  refine ⟨hown, fun q hq => ?_, fun n hhidden hrecv hexport below => ?_⟩
  · by_contra hne
    obtain ⟨n, below, rfl, -⟩ := (hown q hne).below
    exact hq (List.prefix_append root _)
  · by_contra hne
    obtain ⟨m, below', heq, hm⟩ := (hown _ hne).below
    obtain ⟨rfl, -⟩ := List.cons.inj (List.append_cancel_left heq)
    rcases hm with h | h | ⟨h, -⟩
    · exact hrecv h
    · exact hexport h
    · exact hhidden h

/-- An offer of a file `a` with one byte. -/
def offeredByte : PullCall where
  hash := textBlobs.collectionHash [("a", textBlobs.fileHash [1])]
  fileName := "a"
  recv := ⟨1, 1⟩
  exportStamp := ⟨1, 2⟩

/-- A store with an identity. -/
def enrolledStore : FileSystem (List UInt8) :=
  (AList.insert [ofStr "store"] .dir ∅).insert [ofStr "store", ofStr ".identity"] (.file [7])

/-- The offer is fetched and exported, and in between the store loses its identity. -/
def fetchedAmong : List (PullAct (List UInt8) String) :=
  [.own .go, .own (.fetched "a" [] [1]), .own (.chunk []),
    .others (AList.insert [ofStr "store"] .dir ∅), .own .go]

theorem pull_touches_own_rename : ∃ s s',
    exec (pullAmong textCodec textBlobs [ofStr "store"] offeredByte) (.start, enrolledStore)
        fetchedAmong = some s
      ∧ pullStep textCodec textBlobs [ofStr "store"] offeredByte s.2 s.1 .go = some s'
      ∧ s'.1 = .done (.ok ())
      ∧ ∀ q, s'.2.lookup q ≠ s.2.lookup q → Own [ofStr "store"] offeredByte q := by
  have hends : ((exec (pullAmong textCodec textBlobs [ofStr "store"] offeredByte)
      (.start, enrolledStore) fetchedAmong).bind fun s =>
        (pullStep textCodec textBlobs [ofStr "store"] offeredByte s.2 s.1 .go).map Prod.fst)
      = some (.done (.ok ())) := by decide
  obtain ⟨s, hs, hlast⟩ := Option.bind_eq_some_iff.mp hends
  obtain ⟨s', hs', hdone⟩ := Option.map_eq_some_iff.mp hlast
  exact ⟨s, s', hs, hs', hdone,
    (pull_touches_own textCodec textBlobs [ofStr "store"] offeredByte (by decide) hs hs').1⟩

end Dddatasync
