import Dddatasync.Library.Runs
import Dddatasync.Sync

/-!
The limits of a store that both `add` and received offers write to.

* `Op`, `Op.apply`: an offer from any sender, an `add`, a `remove`, or a change outside
  the store; `Op.Legal`: the names of adds and removals.
* `Op.Fits`: what the receiving side does not check: an offer that lands replaces a
  listed file or finds a free place, and is not too large.
* `runs_within_limits_iff`: a run of operations keeps the store within its limits exactly
  when all its offers fit.
-/

namespace Dddatasync

open Fs OsString Runs

variable {C NodeId Sock Relay Hash : Type*} [HasLen C] [LinearOrder Sock] [LinearOrder Relay]

/-- One operation on the store or around it. -/
inductive Op (C : Type*) where
  | offer (inc : Incoming) (io : Pulling C)
  | add (src : PathBuf) (stamp : Stamp) (io : Faults C)
  | remove (name : String) (io : Faults C)
  /-- somebody changes a place that neither lies in the store nor contains it -/
  | elsewhere (p : AbsPath) (x : Node C)

/-- What the operation makes of the tree. -/
def Op.apply (k : Codec NodeId Sock Relay Hash) (dbg : String → String)
    (ioText : IoError → String) (root : AbsPath) (fs : FileSystem C) : Op C → FileSystem C
  | .offer inc io => (handleSyncConnection k dbg ioText root inc io fs).fs
  | .add src stamp io => (Dddatasync.add root src stamp io fs).2
  | .remove name io => (Dddatasync.remove root name io fs).2
  | .elsewhere p x => if root <+: p ∨ p <+: root then fs else fs.insert p x

/-- The names of adds and removals have no slash and no leading dot. -/
def Op.Legal : Op C → Prop
  | .offer _ _ => True
  | .add src _ _ => ∀ n, fileName src = some n → Visible n
  | .remove name _ => slash ∉ ofStr name ∧ Visible (ofStr name)
  | .elsewhere _ _ => True

/-- The offer that `handle_sync_connection` hands to `pull`, if the connection gets so far. -/
def Incoming.read (k : Codec NodeId Sock Relay Hash) (inc : Incoming) : Option SyncOffer :=
  if inc.accepted ∧ inc.alpn = syncAlpn ∧ inc.stream then
    inc.offer.filter fun offer => (toEndpointAddr k offer.senderAddr).isOk
  else none

/-- There is room for the content of a landing offer, and it is not too large. -/
def Op.Fits (k : Codec NodeId Sock Relay Hash) (root : AbsPath) (fs : FileSystem C) :
    Op C → Prop
  | .offer inc io => ∀ offer c, inc.read k = some offer →
      Lands k root offer.hash offer.fileName io fs c →
      (Listed root fs (ofStr offer.fileName) ∨ fileCount root fs < maxFiles)
        ∧ HasLen.len c ≤ maxFileBytes
  | _ => True

/-! ### One operation -/

variable {k : Codec NodeId Sock Relay Hash} {dbg : String → String}
  {ioText : IoError → String} {root : AbsPath} {fs : FileSystem C}

omit [HasLen C] in
/-- The handler changes the tree only through the `pull` of the offer it read. -/
lemma handleSyncConnection_fs (inc : Incoming) (io : Pulling C) :
    (handleSyncConnection k dbg ioText root inc io fs).fs
      = match inc.read k with
        | none => fs
        | some offer => (pull k root offer.hash offer.fileName io fs).2 := by
  rw [handleSyncConnection, Incoming.read]
  by_cases hacc : inc.accepted = true
  swap
  · simp [hacc]
  by_cases halpn : inc.alpn = syncAlpn
  swap
  · simp [hacc, halpn]
  by_cases hstream : inc.stream = true
  swap
  · simp [hacc, halpn, hstream]
  simp only [hacc, halpn, hstream, Bool.not_true, Bool.false_eq_true, if_false, ne_eq,
    not_true_eq_false, and_self, if_true]
  cases inc.offer with
  | none => rfl
  | some offer =>
      cases haddr : toEndpointAddr k offer.senderAddr with
      | error e => simp only [Option.filter_some, haddr, Except.isOk, Except.toBool,
          Bool.false_eq_true, if_false]
      | ok a =>
          simp only [Option.filter_some, haddr, Except.isOk, Except.toBool, if_true]
          split_ifs
          · rfl
          · rfl
          · split <;> rfl

/-- **One operation.**  Nothing that can be seen changes, a visible file goes, or a visible
name gets a content; an offer is the only operation that can do so without room for it. -/
theorem apply_cases (k : Codec NodeId Sock Relay Hash) (dbg : String → String)
    (ioText : IoError → String) (op : Op C) (hop : op.Legal) (hroot : node fs root = some .dir) :
    (SameVisible root fs (op.apply k dbg ioText root fs) ∧ op.Fits k root fs)
      ∨ (∃ n, Visible n ∧ Dropped root n fs (op.apply k dbg ioText root fs)
        ∧ op.Fits k root fs)
      ∨ ∃ n c, Visible n ∧ Placed root n c fs (op.apply k dbg ioText root fs)
        ∧ (op.Fits k root fs ↔ (Listed root fs n ∨ fileCount root fs < maxFiles)
          ∧ HasLen.len c ≤ maxFileBytes) := by
  cases op with
  | offer inc io =>
      rw [Op.apply, handleSyncConnection_fs, Op.Fits]
      cases inc.read k with
      | none => exact .inl ⟨.refl fs, fun _ _ h => by cases h⟩
      | some offer =>
          rcases hrun : pull k root offer.hash offer.fileName io fs with ⟨r, fs'⟩
          simp only [hrun]
          obtain ⟨-, c, hl, hpl⟩ | ⟨-, hno, hsame⟩ := pull_cases hroot hrun
          · refine .inr (.inr ⟨_, c, (safeName_visible hl.safe).2, hpl, fun h => h _ c rfl hl, ?_⟩)
            rintro h offer' c' heq hl'
            obtain rfl := Option.some.inj heq
            obtain rfl : c = c' := by simpa [hl.exported] using hl'.exported
            exact h
          · refine .inl ⟨hsame, fun offer' c heq hl => ?_⟩
            obtain rfl := Option.some.inj heq
            exact absurd hl (hno c)
  | add src stamp io =>
      rw [Op.apply]
      rcases hrun : Dddatasync.add root src stamp io fs with ⟨r, fs'⟩
      cases r with
      | error e => exact .inl ⟨add_error_sameVisible hrun, trivial⟩
      | ok u =>
          obtain ⟨n, c, hadd⟩ := added_of_add hrun
          obtain ⟨-, hcount, hlen⟩ := hadd.room
          exact .inr (.inr ⟨n, c, hop n hadd.fileName, hadd.placed,
            fun _ => ⟨.inr hcount, hlen⟩, fun _ => trivial⟩)
  | remove name io =>
      rw [Op.apply]
      rcases hrun : Dddatasync.remove root name io fs with ⟨r, fs'⟩
      obtain ⟨-, -, hdrop⟩ | ⟨-, rfl⟩ := remove_visible hroot hop.1 hop.2 hrun
      · exact .inr (.inl ⟨_, hop.2, hdrop, trivial⟩)
      · exact .inl ⟨.refl _, trivial⟩
  | elsewhere p x =>
      rw [Op.apply]
      refine .inl ⟨?_, trivial⟩
      split_ifs with hp
      · exact .refl fs
      · rw [not_or] at hp
        refine ⟨node_insert_of_ne fs x fun heq => hp.1 (heq ▸ List.prefix_rfl), fun n _ => ?_⟩
        exact entry_insert_of_ne fs x fun heq => hp.1 (heq ▸ List.prefix_append _ _)

/-- An operation keeps the root a directory. -/
lemma apply_root (op : Op C) (hop : op.Legal) (hroot : node fs root = some .dir) :
    node (op.apply k dbg ioText root fs) root = some .dir := by
  obtain ⟨h, -⟩ | ⟨n, -, h, -⟩ | ⟨n, c, -, h, -⟩ :=
    apply_cases k dbg ioText op hop hroot
  · exact h.root_eq.trans hroot
  · exact h.root_eq.trans hroot
  · exact h.root_eq.trans hroot

/-- An operation keeps the limits exactly when it fits. -/
lemma apply_withinLimits_iff (op : Op C) (hop : op.Legal) (hroot : node fs root = some .dir)
    (hw : WithinLimits root fs) :
    WithinLimits root (op.apply k dbg ioText root fs) ↔ op.Fits k root fs := by
  obtain ⟨h, hfit⟩ | ⟨n, hn, h, hfit⟩ | ⟨n, c, hn, h, hfit⟩ :=
    apply_cases k dbg ioText op hop hroot
  · exact ⟨fun _ => hfit, fun _ => h.withinLimits hw⟩
  · exact ⟨fun _ => hfit, fun _ => h.withinLimits hn hw⟩
  · rw [hfit, withinLimits_placed_iff h hn hw]

/-! ### Runs -/

/-- **The limits over a run.**  From a store within its limits, every state that a run of
offers, adds and removals reaches is within the limits exactly when every offer that
lands in the run replaces a listed file or finds a free place, and is not too large. -/
theorem runs_within_limits_iff (k : Codec NodeId Sock Relay Hash) (dbg : String → String)
    (ioText : IoError → String) {root : AbsPath} {fs : FileSystem C} {ops : List (Op C)}
    (hroot : node fs root = some .dir) (hw : WithinLimits root fs)
    (hops : ∀ op ∈ ops, op.Legal) :
    Throughout (Op.apply k dbg ioText root) (WithinLimits root) fs ops
      ↔ Along (Op.apply k dbg ioText root) (fun fs op => op.Fits k root fs) fs ops :=
  throughout_iff_along (L := fun _ op => op.Legal) (J := fun fs => node fs root = some .dir)
    (fun _ op hop hr => apply_root op hop hr)
    (fun _ op hop hr hwi => apply_withinLimits_iff op hop hr hwi)
    (along_of_forall fun op hop _ => hops op hop) hroot hw

/-- An offer of the one-byte file `d`. -/
def offerD : Op (List UInt8) :=
  .offer ⟨true, syncAlpn, true, some ⟨zeroHash, "d", ⟨"peer", [], none⟩⟩, true⟩
    { recv := ⟨0, 0⟩, exportStamp := ⟨0, 1⟩, transfer := .exported [4] }

/-- An offer puts a fourth file into a full store. -/
theorem fourth_file_by_offer :
    node threeFiles [ofStr "store"] = some .dir ∧ WithinLimits [ofStr "store"] threeFiles
      ∧ (∀ op ∈ [offerD], op.Legal)
      ∧ ¬ Throughout (Op.apply textCodec id (fun _ => "io error") [ofStr "store"])
        (WithinLimits [ofStr "store"]) threeFiles [offerD] := by
  refine ⟨by rfl, by decide, by simp [offerD, Op.Legal], fun h => ?_⟩
  have hbad : ¬ WithinLimits [ofStr "store"]
      (offerD.apply textCodec id (fun _ => "io error") [ofStr "store"] threeFiles) := by
    decide
  exact hbad (h [offerD] List.prefix_rfl)

theorem offer_to_full_store_iff :
    Throughout (Op.apply textCodec id (fun _ => "io error") [ofStr "store"])
        (WithinLimits [ofStr "store"]) threeFiles [offerD]
      ↔ Along (Op.apply textCodec id (fun _ => "io error") [ofStr "store"])
        (fun fs op => op.Fits textCodec [ofStr "store"] fs) threeFiles [offerD] :=
  runs_within_limits_iff textCodec id (fun _ => "io error") (by rfl) (by decide)
    (by simp [offerD, Op.Legal])

end Dddatasync
