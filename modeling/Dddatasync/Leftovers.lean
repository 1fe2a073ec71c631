import Dddatasync.Cleanup
import Dddatasync.GuardedDirs
import Dddatasync.StoppedAdd

/-!
What `add` of `src/store.rs` and `push` and `pull` of `src/sync.rs` leave in the store if the
process ends inside of them, and whether it is found and cleaned up.

* `Interrupted`: an operation and the moves it makes before the process ends;
  `Interrupted.Exposed`: the points at which it leaves something that is not found, or that no
  cleanup takes away.
* `Tidy`: a store without leftovers of a `push` or a `pull`.
* `crash_recovers_iff`: in a tidy store the leftovers are found and cleaned up at exactly the
  other points.
-/

namespace Dddatasync

open Fs OsString Runs

variable {π C NodeId Sock Relay Hash : Type*} [HasLen C] [DecidableEq Hash]

/-! ### Statements -/

/-- An operation, and the moves it makes until the process ends. -/
inductive Interrupted (π C Hash : Type*) where
  | add (src : PathBuf) (stamp : Stamp) (moves : List (AddMove C))
  | push (p : PushCall π) (moves : List (SendMove C))
  | pull (p : PullCall) (moves : List (PullMove C Hash))

/-- Where the moves lead an `add`. -/
def addRun (root : AbsPath) (fs₀ : FileSystem C) (src : PathBuf) (stamp : Stamp)
    (moves : List (AddMove C)) : Option (AddPc C × FileSystem C) :=
  exec (fun s move => addAlone root src stamp s.2 s.1 move) (.call .start, fs₀) moves

omit [HasLen C] in
/-- Where the moves lead a `push`. -/
def pushRun (root : AbsPath) (fs₀ : FileSystem C) (p : PushCall π) (moves : List (SendMove C)) :
    Option (SendPc × FileSystem C) :=
  exec (fun s move => sendStep root p s.2 s.1 move) (.start, fs₀) moves

/-- Where the moves lead a `pull`. -/
def pullRun (k : Codec NodeId Sock Relay Hash) (b : Blobs C Hash) (root : AbsPath)
    (fs₀ : FileSystem C) (p : PullCall) (moves : List (PullMove C Hash)) :
    Option (PullPc C Hash × FileSystem C) :=
  exec (fun s move => pullStep k b root p s.2 s.1 move) (.start, fs₀) moves

namespace Interrupted

variable (k : Codec NodeId Sock Relay Hash) (b : Blobs C Hash) (root : AbsPath)
  (fs₀ : FileSystem C)

/-- The tree that is left. -/
def leaves : Interrupted π C Hash → Option (FileSystem C)
  | .add src stamp moves => (addRun root fs₀ src stamp moves).map Prod.snd
  | .push p moves => (pushRun root fs₀ p moves).map Prod.snd
  | .pull p moves => (pullRun k b root fs₀ p moves).map Prod.snd

/-- The points at which the process must not end.  A `push` has made its directory, or a `pull`
has, and its guard has not removed it; a `pull` has begun to write its export and has not
renamed it; an `add` has put its file under a hidden name that `temp_files` does not look for.
The last does harm only if the name is a temporary one, or if a cleanup can succeed at all. -/
def Exposed : Interrupted π C Hash → Prop
  | .add src stamp moves => ∃ s n, addRun root fs₀ src stamp moves = some s
      ∧ fileName src = some n ∧ ¬ Visible n ∧ ¬ TmpLike n
      ∧ entry s.2 root n ≠ entry fs₀ root n ∧ (Temporary n ∨ Removable root fs₀)
  | .push p moves => ∃ s, pushRun root fs₀ p moves = some s
      ∧ s.1.created = true ∧ .unlink [] ∉ moves
  | .pull p moves => ∃ s, pullRun k b root fs₀ p moves = some s
      ∧ (s.1.created = true ∧ .unlink [] ∉ moves ∨ s.1.ExportLeft moves)

end Interrupted

/-- A store directory in which every hidden entry is `.identity`, `.token` or something that
`temp_files` looks for. -/
structure Tidy (root : AbsPath) (fs : FileSystem C) : Prop extends StoreDir root fs where
  hidden : ∀ n x, entry fs root n = some x →
    Visible n ∨ TmpLike n ∨ n = identityName ∨ n = tokenName

/-! ### Names -/

variable {root : AbsPath} {fs₀ fs fs' : FileSystem C} {n : OsString} {x : Node C}

section Frames

omit [HasLen C]

lemma Temporary.not_visible (h : Temporary n) : ¬ Visible n := by
  rw [Visible, not_not]
  obtain ⟨t, h | h | h | h⟩ := h
  · rw [h, head?_tmpName]
  · rw [h, head?_sendName]
  · rw [h, head?_recvName]
  · rw [h, head?_exportName]

lemma temporary_send (t : Stamp) : Temporary (sendName t) := ⟨t, .inr (.inl rfl)⟩

lemma temporary_recv (t : Stamp) : Temporary (recvName t) := ⟨t, .inr (.inr (.inl rfl))⟩

lemma temporary_export (t : Stamp) : Temporary (exportName t) := ⟨t, .inr (.inr (.inr rfl))⟩

/-- A name behind another prefix is not what `temp_files` looks for. -/
lemma not_tmpLike_append {s t : String} (hs : 2 ≤ s.toList.length)
    (h : s.toList.take 2 ≠ ['.', 't']) : ¬ TmpLike (ofStr (s ++ t)) := by
  rw [tmpLike_ofStr, startsWithTmp, String.toList_append, List.isPrefixOf_iff_prefix]
  rintro ⟨rest, hrest⟩
  have htake := congrArg (List.take 2) hrest
  rw [List.take_append_of_le_length hs] at htake
  exact h htake.symm

lemma not_tmpLike_send (t : Stamp) : ¬ TmpLike (sendName t) :=
  not_tmpLike_append (by decide) (by decide)

lemma not_tmpLike_recv (t : Stamp) : ¬ TmpLike (recvName t) :=
  not_tmpLike_append (by decide) (by decide)

lemma not_tmpLike_export (t : Stamp) : ¬ TmpLike (exportName t) :=
  not_tmpLike_append (by decide) (by decide)

/-- Names behind prefixes that differ early on differ. -/
lemma append_ne_ofStr {p s u : String} (h : (p ++ s).toList.take 3 ≠ u.toList.take 3) :
    ofStr (p ++ s) ≠ ofStr u :=
  fun heq => h (by rw [ofStr_injective heq])

/-- `.identity` and `.token` are no temporary names. -/
lemma Temporary.ne_kept (h : Temporary n) : n ≠ identityName ∧ n ≠ tokenName := by
  obtain ⟨t, h | h | h | h⟩ := h <;> rw [h] <;>
    exact ⟨append_ne_ofStr (by rw [String.toList_append]; simp),
      append_ne_ofStr (by rw [String.toList_append]; simp)⟩

/-! ### Tidy stores -/

/-- There is no leftover of a `push` or a `pull`. -/
lemma Tidy.free (h : Tidy root fs) (htemp : Temporary n) (hn : ¬ TmpLike n) :
    entry fs root n = none := by
  cases hx : entry fs root n with
  | none => rfl
  | some x =>
      obtain hv | ht | hi | ht := h.hidden n x hx
      · exact absurd hv htemp.not_visible
      · exact absurd ht hn
      · exact absurd hi htemp.ne_kept.1
      · exact absurd ht htemp.ne_kept.2

/-- If nothing but visible entries has changed, there is nothing to find. -/
lemma recovers_of_frame (h : Tidy root fs₀) (hdir : StoreDir root fs)
    (hframe : ∀ n x, entry fs root n = some x → Visible n ∨ entry fs₀ root n = some x) :
    Recovers root fs₀ fs := by
  refine (recovers_iff hdir).mpr ⟨fun n x hx htemp => ?_, fun _ n x hx hn => ?_⟩
  · by_contra hn
    obtain hv | hx₀ := hframe n x hx
    · exact htemp.not_visible hv
    · rw [h.free htemp hn] at hx₀
      cases hx₀
  · obtain hv | hx₀ := hframe n x hx
    · exact .inl hv
    · obtain hv | ht | hkept := h.hidden n x hx₀
      · exact .inl hv
      · exact absurd ht hn
      · exact .inr ⟨hkept, hx₀⟩

/-- A temporary entry that `temp_files` does not look for stays. -/
lemma not_recovers_of_entry (hdir : StoreDir root fs) (hx : entry fs root n = some x)
    (htemp : Temporary n) (hn : ¬ TmpLike n) : ¬ Recovers root fs₀ fs :=
  fun hrec => hn (((recovers_iff hdir).mp hrec).1 n x hx htemp)

end Frames

/-! ### A `push` and a `pull` -/

omit [HasLen C] in
lemma push_recovers_iff (h : Tidy root fs₀) {p : PushCall π} {moves : List (SendMove C)}
    {pc : SendPc} (hrun : pushRun root fs₀ p moves = some (pc, fs)) :
    Recovers root fs₀ fs ↔ ¬ (pc.created = true ∧ .unlink [] ∉ moves) := by
  have hat := push_left (h.free (temporary_send p.stamp) (not_tmpLike_send p.stamp)) hrun
  have hdir : StoreDir root fs := by
    refine ⟨hat.same.root_eq.trans h.dir, fun n x hx => ?_⟩
    by_cases hn : n = sendName p.stamp
    · exact hn ▸ plain_sendName p.stamp
    · exact h.plain n x (by rw [← hat.same.entry_eq n hn, hx])
  constructor
  · rintro hrec ⟨hcreated, hunlink⟩
    exact not_recovers_of_entry hdir (hat.dir.there hcreated hunlink) (temporary_send p.stamp)
      (not_tmpLike_send p.stamp) hrec
  · intro hclear
    refine recovers_of_frame h hdir fun n x hx => ?_
    by_cases hn : n = sendName p.stamp
    · rw [hn, hat.dir.gone] at hx
      · cases hx
      · by_contra hnot
        rw [not_or, Bool.not_eq_false] at hnot
        exact hclear hnot
    · exact .inr (by rw [← hat.same.entry_eq n hn, hx])

omit [HasLen C] in
lemma pull_recovers_iff (h : Tidy root fs₀) {k : Codec NodeId Sock Relay Hash} {b : Blobs C Hash}
    {p : PullCall} {moves : List (PullMove C Hash)} {pc : PullPc C Hash}
    (hrun : pullRun k b root fs₀ p moves = some (pc, fs)) : Recovers root fs₀ fs
      ↔ ¬ (pc.created = true ∧ .unlink [] ∉ moves ∨ pc.ExportLeft moves) := by
  have hat := pull_left h.dir (h.free (temporary_recv p.recv) (not_tmpLike_recv p.recv))
    (h.free (temporary_export p.exportStamp) (not_tmpLike_export p.exportStamp)) hrun
  have hother : ∀ n x, entry fs root n = some x → n = recvName p.recv
      ∨ n = exportName p.exportStamp ∨ Plain n ∧ Visible n ∨ entry fs₀ root n = some x := by
    intro n x hx
    by_cases hsame : entry fs root n = entry fs₀ root n
    · exact .inr (.inr (.inr (by rw [← hsame, hx])))
    · rcases hat.own _ hsame with ⟨heq, hplain, hvisible⟩ | ⟨below, heq⟩ | ⟨below, heq⟩
      · obtain ⟨rfl, -⟩ := List.cons.inj (List.append_cancel_left heq)
        exact .inr (.inr (.inl ⟨hplain, hvisible⟩))
      · rw [List.append_assoc] at heq
        exact .inl (List.cons.inj (List.append_cancel_left heq)).1.symm
      · rw [List.append_assoc] at heq
        exact .inr (.inl (List.cons.inj (List.append_cancel_left heq)).1.symm)
  have hdir : StoreDir root fs := by
    refine ⟨(node_of_changes hat.own).trans h.dir, fun n x hx => ?_⟩
    rcases hother n x hx with hn | hn | ⟨hplain, -⟩ | hx₀
    · exact hn ▸ plain_recvName p.recv
    · exact hn ▸ plain_exportName p.exportStamp
    · exact hplain
    · exact h.plain n x hx₀
  constructor
  · rintro hrec (⟨hcreated, hunlink⟩ | hleft)
    · exact not_recovers_of_entry hdir (hat.dir.there hcreated hunlink) (temporary_recv p.recv)
        (not_tmpLike_recv p.recv) hrec
    · obtain ⟨c, hc⟩ := hat.exported hleft
      exact not_recovers_of_entry hdir hc (temporary_export p.exportStamp)
        (not_tmpLike_export p.exportStamp) hrec
  · intro hclear
    rw [not_or] at hclear
    refine recovers_of_frame h hdir fun n x hx => ?_
    rcases hother n x hx with hn | hn | ⟨-, hvisible⟩ | hx₀
    · rw [hn, hat.dir.gone] at hx
      · cases hx
      · by_contra hnot
        rw [not_or, Bool.not_eq_false] at hnot
        exact hclear.1 hnot
    · rw [hn, hat.clear hclear.2] at hx
      cases hx
    · exact .inl hvisible
    · exact .inr hx₀

/-! ### An `add` -/

section Add

variable {src : PathBuf} {stamp : Stamp} {pc pc' : AddPc C} {move : AddMove C}

omit [HasLen C] in
lemma AddLeft.storeDir (h : AddLeft root src stamp fs₀ fs) (hdir : StoreDir root fs₀) :
    StoreDir root fs := by
  refine ⟨h.root_eq.trans hdir.dir, fun n x hx => ?_⟩
  by_cases hn : n = tmpName stamp
  · exact hn ▸ plain_tmpName stamp
  · obtain heq | ⟨-, hplain, -⟩ := h.other n hn
    · exact hdir.plain n x (by rw [← heq, hx])
    · exact hplain

omit [HasLen C] in
/-- An `add` under a name that `temp_files` does not look for does not change whether a cleanup
can succeed. -/
lemma AddLeft.removable_iff (h : AddLeft root src stamp fs₀ fs) (hname : fileName src = some n)
    (hn : ¬ TmpLike n) : Removable root fs ↔ Removable root fs₀ := by
  have hsame : ∀ m, TmpLike m → m ≠ tmpName stamp → entry fs root m = entry fs₀ root m := by
    intro m hm hne
    obtain heq | ⟨hname', -⟩ := h.other m hne
    · exact heq
    · rw [hname] at hname'
      exact absurd (Option.some.inj hname' ▸ hm) hn
  have hfile : ∀ {fs : FileSystem C} {x}, entry fs root (tmpName stamp) = some x →
      entry fs root (tmpName stamp) ≠ some .dir → ∃ c, x = .file c := by
    intro fs x hx hne
    cases x with
    | dir => exact absurd hx hne
    | file c => exact ⟨c, rfl⟩
  have hgo : ∀ {fs fs' : FileSystem C},
      (∀ m, TmpLike m → m ≠ tmpName stamp → entry fs' root m = entry fs root m) →
      (entry fs' root (tmpName stamp) = entry fs root (tmpName stamp)
        ∨ entry fs' root (tmpName stamp) ≠ some .dir) →
      Removable root fs → Removable root fs' := by
    intro fs fs' hsame htmp hrem m x hx hm
    by_cases hne : m = tmpName stamp
    · rw [hne] at hx hm
      refine ⟨⟨_, hne⟩, ?_⟩
      rcases htmp with heq | hdir
      · exact (hrem _ x (by rw [← heq, hx]) hm).2
      · exact hfile hx hdir
    · exact hrem m x (by rw [← hsame m hm hne, hx]) hm
  exact ⟨hgo (fun m hm hne => (hsame m hm hne).symm) (h.tmp.imp Eq.symm And.left),
    hgo hsame (h.tmp.imp id And.right)⟩

lemma add_recovers_iff (h : Tidy root fs₀) {moves : List (AddMove C)}
    (hrun : addRun root fs₀ src stamp moves = some (pc, fs)) : Recovers root fs₀ fs
      ↔ ¬ ∃ n, fileName src = some n ∧ ¬ Visible n ∧ ¬ TmpLike n
        ∧ entry fs root n ≠ entry fs₀ root n ∧ (Temporary n ∨ Removable root fs₀) := by
  have hleft := add_left hrun
  have hdir := hleft.storeDir h.toStoreDir
  have hne : ∀ {n}, ¬ TmpLike n → n ≠ tmpName stamp :=
    fun hn heq => hn (heq ▸ tmpLike_tmpName stamp)
  constructor
  · rintro hrec ⟨n, hname, hhidden, hn, hchanged, hcase⟩
    obtain ⟨-, -, c, hc⟩ := (hleft.other n (hne hn)).resolve_left hchanged
    obtain ⟨htemp, hrest⟩ := (recovers_iff hdir).mp hrec
    rcases hcase with htn | hrem
    · exact hn (htemp n _ hc htn)
    · obtain hv | ⟨-, hsame⟩ := hrest ((hleft.removable_iff hname hn).mpr hrem) n _ hc hn
      · exact hhidden hv
      · exact hchanged (hc.trans hsame.symm)
  · intro hclear
    -- an entry that `temp_files` does not look for is visible, or as before, or exposed
    have hother : ∀ n x, entry fs root n = some x → ¬ TmpLike n → ¬ Visible n →
        entry fs₀ root n = some x ∨ fileName src = some n ∧ ¬ Temporary n
          ∧ ¬ Removable root fs₀ := by
      intro n x hx hn hhidden
      by_cases hsame : entry fs root n = entry fs₀ root n
      · exact .inl (by rw [← hsame, hx])
      · obtain ⟨hname, -⟩ := (hleft.other n (hne hn)).resolve_left hsame
        exact .inr ⟨hname, not_or.mp fun hcase => hclear ⟨n, hname, hhidden, hn, hsame, hcase⟩⟩
    refine (recovers_iff hdir).mpr ⟨fun n x hx htemp => ?_, fun hrem n x hx hn => ?_⟩
    · by_contra hn
      obtain hx₀ | ⟨-, hnot, -⟩ := hother n x hx hn htemp.not_visible
      · rw [h.free htemp hn] at hx₀
        cases hx₀
      · exact hnot htemp
    · by_cases hv : Visible n
      · exact .inl hv
      · obtain hx₀ | ⟨hname, -, hnot⟩ := hother n x hx hn hv
        · obtain hv' | ht | hkept := h.hidden n x hx₀
          · exact absurd hv' hv
          · exact absurd ht hn
          · exact .inr ⟨hkept, hx₀⟩
        · exact absurd ((hleft.removable_iff hname hn).mp hrem) hnot

end Add

/-! ### The three together -/

/-- **Crashes.**  In a tidy store, and wherever the process ends in an `add`, a `push` or a
`pull`, what is left is found and cleaned up exactly if the operation is at none of its exposed
points. -/
theorem crash_recovers_iff (k : Codec NodeId Sock Relay Hash) (b : Blobs C Hash)
    (h : Tidy root fs₀) (o : Interrupted π C Hash) (hcrash : o.leaves k b root fs₀ = some fs) :
    Recovers root fs₀ fs ↔ ¬ o.Exposed k b root fs₀ := by
  cases o with
  | add src stamp moves =>
      obtain ⟨⟨pc, fs⟩, hrun, rfl⟩ := Option.map_eq_some_iff.mp hcrash
      refine (add_recovers_iff h hrun).trans (not_congr ?_)
      constructor
      · rintro ⟨n, hn⟩
        exact ⟨_, n, hrun, hn⟩
      · rintro ⟨s, n, hrun', hn⟩
        obtain rfl := Option.some.inj (hrun.symm.trans hrun')
        exact ⟨n, hn⟩
  | push p moves =>
      obtain ⟨⟨pc, fs⟩, hrun, rfl⟩ := Option.map_eq_some_iff.mp hcrash
      refine (push_recovers_iff h hrun).trans (not_congr ?_)
      constructor
      · exact fun hn => ⟨_, hrun, hn⟩
      · rintro ⟨s, hrun', hn⟩
        obtain rfl := Option.some.inj (hrun.symm.trans hrun')
        exact hn
  | pull p moves =>
      obtain ⟨⟨pc, fs⟩, hrun, rfl⟩ := Option.map_eq_some_iff.mp hcrash
      refine (pull_recovers_iff h hrun).trans (not_congr ?_)
      constructor
      · exact fun hn => ⟨_, hrun, hn⟩
      · rintro ⟨s, hrun', hn⟩
        obtain rfl := Option.some.inj (hrun.symm.trans hrun')
        exact hn

omit [HasLen C] [DecidableEq Hash] in
lemma tidy_enrolledStore : Tidy [ofStr "store"] enrolledStore := by
  have hentry : ∀ n x, entry enrolledStore [ofStr "store"] n = some x → n = identityName := by
    intro n x hx
    have hmem : (n, x) ∈ [(identityName, Node.file [7])] := mem_children.mpr hx
    exact congrArg Prod.fst (List.mem_singleton.mp hmem)
  refine ⟨⟨by rfl, fun n x hx => ?_⟩, fun n x hx => .inr (.inr (.inl (hentry n x hx)))⟩
  rw [hentry n x hx]
  decide

/-- The offer is fetched, exported and renamed, and the guard takes the directory away. -/
def pulledByte : Interrupted Unit (List UInt8) String :=
  .pull offeredByte [.go, .fetched "a" [] [1], .go, .go, .unlink []]

theorem crash_recovers_iff_pulledByte : ∃ fs,
    pulledByte.leaves textCodec textBlobs [ofStr "store"] enrolledStore = some fs
      ∧ Recovers [ofStr "store"] enrolledStore fs := by
  have hends : (pullRun textCodec textBlobs [ofStr "store"] enrolledStore offeredByte
      [.go, .fetched "a" [] [1], .go, .go, .unlink []]).map Prod.fst = some (.done (.ok ())) := by
    decide
  obtain ⟨s, hs, hdone⟩ := Option.map_eq_some_iff.mp hends
  have hleaves : pulledByte.leaves textCodec textBlobs [ofStr "store"] enrolledStore = some s.2 :=
    Option.map_eq_some_iff.mpr ⟨s, hs, rfl⟩
  refine ⟨s.2, hleaves,
    (crash_recovers_iff textCodec textBlobs tidy_enrolledStore pulledByte hleaves).mpr ?_⟩
  rintro ⟨s', hs', hexposed⟩
  obtain rfl := Option.some.inj (hs.symm.trans hs')
  rw [hdone] at hexposed
  rcases hexposed with ⟨-, hunlink⟩ | hleft
  · exact hunlink (by simp)
  · exact hleft

/-- The process ends while it fetches: the directory of the `pull` is not found, and a cleanup
succeeds and leaves it. -/
theorem fetching_not_recovered : ∃ fs,
    (Interrupted.pull offeredByte [.go] : Interrupted Unit (List UInt8) String).leaves textCodec
        textBlobs [ofStr "store"] enrolledStore = some fs
      ∧ Tidy [ofStr "store"] enrolledStore
      ∧ entry fs [ofStr "store"] (recvName offeredByte.recv) = some .dir
      ∧ tempFiles [ofStr "store"] {} fs = .ok []
      ∧ cleanTempFiles [ofStr "store"] {} fs = (.ok 0, fs)
      ∧ ¬ Recovers [ofStr "store"] enrolledStore fs := by
  let fs := enrolledStore.insert ([ofStr "store"] ++ [recvName offeredByte.recv]) .dir
  have hfound : tempFiles [ofStr "store"] {} fs = .ok [] := by decide
  have hentry : entry fs [ofStr "store"] (recvName offeredByte.recv) = some .dir :=
    entry_insert_self _ _ _ _
  refine ⟨fs, by rfl, tidy_enrolledStore, hentry, hfound, ?_, fun hrec => ?_⟩
  · rw [cleanTempFiles, hfound]
    rfl
  · exact absurd (hrec.reported {} [] hfound _ _ hentry (temporary_recv _)) List.not_mem_nil

end Dddatasync
