import Dddatasync.Address
import Dddatasync.StoreOps

/-!
Receiving a file: `pull` and `handle_sync_connection` of `src/sync.rs`.

* `SyncOffer`, `SyncAck`: the two messages; `safeName`: the name check.
* `Transfer`, `Pulling`: how the calls into iroh and its blob store end, and the rest of
  what one pull meets from outside.
* `pull`, `handleSyncConnection`.
* `Lands`: the offers that reach the rename and get through it, read off the offer, the
  surroundings and the tree before; `pull_cases`: what a pull does if its offer lands, and
  if it does not; `exists_lands`: a safe offer can always land.
-/

namespace Dddatasync

open Fs OsString

variable {C NodeId Sock Relay Hash : Type*} [LinearOrder Sock] [LinearOrder Relay]

/-! ### Messages -/

/-- `SYNC_ALPN`. -/
def syncAlpn : List UInt8 := ofStr "dddatasync/sync/0"

/-- `SyncOffer`. -/
structure SyncOffer where
  hash : String
  fileName : String
  senderAddr : EndpointAddrWire
  deriving DecidableEq, Repr

/-- `SyncAck`. -/
structure SyncAck where
  ok : Bool
  error : Option String
  deriving DecidableEq, Repr

/-- The name check of `pull`. -/
def safeName (fileName : String) : Bool :=
  !fileName.toList.contains '/' && !fileName.toList.contains '\\' && !startsWithDot fileName

/-! ### Pulling -/

/-- The calls into iroh and its blob store that can fail before the export. -/
inductive TransferError where
  | openStore
  | bind
  | connectTimeout
  | connect
  | fetch (e : String)
  | loadCollection
  deriving DecidableEq, Repr

/-- How far the download gets: a failing call, an empty collection, an export that stops
midway, or the exported content. -/
inductive Transfer (C : Type*) where
  | failed (e : TransferError)
  | emptyCollection
  | exportFailed (e : String) (left : Option C)
  | exported (c : C)
  deriving DecidableEq

/-- What one pull meets from outside: the two clock readings behind its names, the
download, the files the blob store has in its directory, its text for an export that cannot
be written, and the calls that fail. -/
structure Pulling (C : Type*) where
  recv : Stamp
  exportStamp : Stamp
  transfer : Transfer C
  blobs : List (OsString × C) := []
  exportText : IoError → String := fun _ => ""
  createDir : Bool := false
  rename : Bool := false
  cleanup : Bool := false

/-- Why a pull fails; `hashPanic` ends the task instead of returning an error. -/
inductive PullError where
  | unsafeName (fileName : String)
  | parseHash
  | hashPanic
  | createDir (e : IoError)
  | transfer (e : TransferError)
  | emptyCollection
  | exporting (e : String)
  | rename (e : IoError)
  deriving DecidableEq, Repr

/-- The text of an error, without its causes; `dbg` prints a string the way `{:?}` does. -/
def PullError.message (dbg : String → String) (ioText : IoError → String) :
    PullError → String
  | .unsafeName fileName => s!"unsafe file name in sync offer: {dbg fileName}"
  | .parseHash => "parse collection hash"
  -- nobody is left to show a text
  | .hashPanic => ""
  | .createDir e => ioText e
  | .transfer .openStore => "open recv FsStore"
  | .transfer .bind => "bind recv endpoint"
  | .transfer .connectTimeout => "connect timeout to sender"
  | .transfer .connect => "connect to sender"
  | .transfer (.fetch e) => s!"fetch failed: {e}"
  | .transfer .loadCollection => "load collection"
  | .emptyCollection => "empty collection in sync offer"
  | .exporting e => s!"export failed: {e}"
  | .rename _ => "atomic rename of downloaded file"

/-- What the parser does with a text that is no hash. -/
def Codec.hashError (k : Codec NodeId Sock Relay Hash) (hash : String) : PullError :=
  if k.hashPanics hash then .hashPanic else .parseHash

/-- The files the blob store writes into its directory. -/
def fillBlobs (dir : AbsPath) (blobs : List (OsString × C)) (fs : FileSystem C) :
    FileSystem C :=
  blobs.foldl (fun fs b => fs.insert (dir ++ [b.1]) (.file b.2)) fs

/-- The export to a temporary name and the rename to the final one. -/
def exportAndRename (root : AbsPath) (fileName : String) (io : Pulling C) (fs : FileSystem C) :
    Except PullError Unit × FileSystem C :=
  match io.transfer with
  | .failed e => (.error (.transfer e), fs)
  | .emptyCollection => (.error .emptyCollection, fs)
  | .exportFailed e left =>
      match left with
      | none => (.error (.exporting e), fs)
      | some c =>
          match write fs ⟨root, exportName io.exportStamp⟩ c with
          | .error _ => (.error (.exporting e), fs)
          | .ok fs' => (.error (.exporting e), fs')
  | .exported c =>
      match write fs ⟨root, exportName io.exportStamp⟩ c with
      | .error e => (.error (.exporting (io.exportText e)), fs)
      | .ok fs' =>
          if io.rename then (.error (.rename .other), fs')
          else
            match Fs.rename fs' ⟨root, exportName io.exportStamp⟩ ⟨root, ofStr fileName⟩ with
            | .error e => (.error (.rename e), fs')
            | .ok fs'' => (.ok (), fs'')

/-- `TempDirGuard::drop`: the directory goes, an error is ignored.  The thread it is left to is
taken to be done when `pull` returns. -/
def dropGuard (root : AbsPath) (io : Pulling C) (fs : FileSystem C) : FileSystem C :=
  if io.cleanup then fs
  else
    match removeDirAll fs ⟨root, recvName io.recv⟩ with
    | .error _ => fs
    | .ok fs' => fs'

/-- `pull`; the address of the sender only matters to the calls summed up in `io`. -/
def pull (k : Codec NodeId Sock Relay Hash) (root : AbsPath) (hash fileName : String)
    (io : Pulling C) (fs : FileSystem C) : Except PullError Unit × FileSystem C :=
  if safeName fileName then
    match k.parseHash hash with
    | none => (.error (k.hashError hash), fs)
    | some _ =>
        if io.createDir then (.error (.createDir .other), fs)
        else
          match createDirAll fs ⟨root, recvName io.recv⟩ with
          | .error e => (.error (.createDir e), fs)
          | .ok fs' =>
              let r := exportAndRename root fileName io
                (fillBlobs (root ++ [recvName io.recv]) io.blobs fs')
              -- the guard runs on every way out from here on
              (r.1, dropGuard root io r.2)
  else (.error (.unsafeName fileName), fs)

/-! ### The listener -/

/-- A connection as the listener gets it: whether it is accepted, its protocol, whether
the sender opens a stream, the offer read from it, and whether the answer goes out. -/
structure Incoming where
  accepted : Bool := true
  alpn : List UInt8 := syncAlpn
  stream : Bool := true
  offer : Option SyncOffer
  ackSent : Bool := true

/-- Why the handling of a connection fails. -/
inductive HandlerError where
  | accept
  | acceptBi
  | readOffer
  | senderAddr (e : AddrError)
  | writeAck
  | panicked
  | pull (e : PullError)
  deriving DecidableEq, Repr

/-- The result, the answer written, and the tree after one connection. -/
structure Handled (C : Type*) where
  result : Except HandlerError Unit
  ack : Option SyncAck
  fs : FileSystem C

/-- The answer to an offer. -/
def ackOf (dbg : String → String) (ioText : IoError → String) :
    Except PullError Unit → SyncAck
  | .ok () => ⟨true, none⟩
  | .error e => ⟨false, some (e.message dbg ioText)⟩

/-- `handle_sync_connection`. -/
def handleSyncConnection (k : Codec NodeId Sock Relay Hash) (dbg : String → String)
    (ioText : IoError → String) (root : AbsPath) (inc : Incoming) (io : Pulling C)
    (fs : FileSystem C) : Handled C :=
  if !inc.accepted then ⟨.error .accept, none, fs⟩
  -- other protocols belong to the router
  else if inc.alpn ≠ syncAlpn then ⟨.ok (), none, fs⟩
  else if !inc.stream then ⟨.error .acceptBi, none, fs⟩
  else
    match inc.offer with
    | none => ⟨.error .readOffer, none, fs⟩
    | some offer =>
        match toEndpointAddr k offer.senderAddr with
        | .error e => ⟨.error (.senderAddr e), none, fs⟩
        | .ok _ =>
            let r := pull k root offer.hash offer.fileName io fs
            -- a panic leaves no answer either
            if r.1 = .error .hashPanic then ⟨.error .panicked, none, r.2⟩
            else if !inc.ackSent then ⟨.error .writeAck, none, r.2⟩
            else
              match r.1 with
              | .ok () => ⟨.ok (), some (ackOf dbg ioText r.1), r.2⟩
              | .error e => ⟨.error (.pull e), some (ackOf dbg ioText r.1), r.2⟩

/-! ### What a pull does -/

omit [LinearOrder Sock] [LinearOrder Relay]

variable {k : Codec NodeId Sock Relay Hash} {root : AbsPath} {hash fileName : String}
  {io : Pulling C} {fs fs' : FileSystem C} {c : C}

lemma not_visible_recvName (t : Stamp) : ¬ Visible (recvName t) := by
  rw [Visible, head?_recvName]
  simp

lemma not_visible_exportName (t : Stamp) : ¬ Visible (exportName t) := by
  rw [Visible, head?_exportName]
  simp

/-- A name that passes the check has no slash and is visible. -/
lemma safeName_visible (h : safeName fileName = true) :
    slash ∉ ofStr fileName ∧ Visible (ofStr fileName) := by
  simp only [safeName, Bool.and_eq_true, Bool.not_eq_true', List.contains_eq_mem,
    decide_eq_false_iff_not] at h
  exact ⟨fun hs => h.1.1 ((mem_ofStr_iff (a := '/') (by decide) fileName).mp hs),
    visible_ofStr.mpr h.2⟩

lemma exportName_ne_recvName (t t' : Stamp) : exportName t ≠ recvName t' := by
  intro h
  have hl := congrArg (fun s : String => s.toList.take 13) (ofStr_injective h)
  simp only [String.toList_append] at hl
  exact absurd hl (by simp)

/-- Files below an entry are no entries of the root. -/
lemma fillBlobs_sameExcept (root : AbsPath) (n : OsString) (blobs : List (OsString × C))
    (fs : FileSystem C) : SameExcept root n fs (fillBlobs (root ++ [n]) blobs fs) := by
  induction blobs generalizing fs with
  | nil => exact .refl n fs
  | cons b bs ih =>
      have hne : ∀ m : List OsString, m.length ≤ 1 → root ++ m ≠ root ++ [n] ++ [b.1] := by
        intro m hm heq
        have := congrArg List.length heq
        simp only [List.length_append, List.length_singleton] at this
        omega
      refine SameExcept.trans ⟨?_, fun m _ => ?_⟩ (ih (fs.insert (root ++ [n] ++ [b.1]) _))
      · exact node_insert_of_ne fs _ (by simp)
      · exact entry_insert_of_ne fs _ (hne [m] (by simp))

lemma dropGuard_sameExcept (root : AbsPath) (io : Pulling C) (fs : FileSystem C) :
    SameExcept root (recvName io.recv) fs (dropGuard root io fs) := by
  rw [dropGuard]
  split_ifs
  · exact .refl _ fs
  · simp only [removeDirAll, resolve_plain fs root (plain_recvName io.recv)]
    cases node fs (root ++ [recvName io.recv]) with
    | none => exact .refl _ fs
    | some x =>
        cases x with
        | file c => exact .refl _ fs
        | dir =>
            have hkeep : ∀ p : AbsPath, ¬ (root ++ [recvName io.recv] <+: p) →
                (AssocMap.filterMap (fun p x =>
                  if root ++ [recvName io.recv] <+: p then none else some x) fs).lookup p
                  = fs.lookup p := by
              intro p hp
              rw [AssocMap.lookup_filterMap]
              simp [hp]
            refine ⟨?_, fun n hn => hkeep _ fun hpre => ?_⟩
            · rw [node, node, hkeep root]
              intro hpre
              have := hpre.length_le
              simp at this
            · have heq := hpre.eq_of_length (by simp)
              rw [List.append_cancel_left_eq, List.cons.injEq] at heq
              exact hn heq.1.symm

lemma createDirAll_cases (root : AbsPath) (fs : FileSystem C) {n : OsString} (hn : Plain n) :
    ((∃ d, entry fs root n = some (.file d))
        ∧ createDirAll fs ⟨root, n⟩ = .error .alreadyExists)
      ∨ (∀ d, entry fs root n ≠ some (.file d))
        ∧ ∃ fs', createDirAll fs ⟨root, n⟩ = .ok fs' ∧ SameExcept root n fs fs' := by
  simp only [createDirAll, resolve_plain fs root hn, node_snoc]
  cases entry fs root n with
  | none => exact .inr ⟨by simp, _, rfl, sameExcept_insert root n _ fs⟩
  | some x =>
      cases x with
      | dir => exact .inr ⟨by simp, _, rfl, .refl n fs⟩
      | file d => exact .inl ⟨⟨d, rfl⟩, rfl⟩

lemma write_cases (root : AbsPath) (fs : FileSystem C) (c : C) {n : OsString} (hn : Plain n) :
    (entry fs root n = some .dir ∧ write fs ⟨root, n⟩ c = .error .isADirectory)
      ∨ entry fs root n ≠ some .dir ∧ ∃ fs', write fs ⟨root, n⟩ c = .ok fs'
        ∧ SameExcept root n fs fs' ∧ entry fs' root n = some (.file c) := by
  have hins := sameExcept_insert root n (.file c) fs
  have hself := entry_insert_self fs root n (.file c)
  simp only [write, resolve_plain fs root hn, node_snoc]
  cases entry fs root n with
  | none => exact .inr ⟨by simp, _, rfl, hins, hself⟩
  | some x =>
      cases x with
      | dir => exact .inl ⟨rfl, rfl⟩
      | file d => exact .inr ⟨by simp, _, rfl, hins, hself⟩

/-- A rename of a hidden file to a safe name places its content, unless the name is empty,
refused by the system or taken by a directory. -/
lemma rename_hidden {n : OsString} (hroot : node fs root = some .dir) (hn : Plain n)
    (hv : ¬ Visible n) (hc : entry fs root n = some (.file c))
    (hs : safeName fileName = true) :
    ((∃ e, Fs.rename fs ⟨root, n⟩ ⟨root, ofStr fileName⟩ = .error e)
        ∧ ¬ (Plain (ofStr fileName) ∧ entry fs root (ofStr fileName) ≠ some .dir))
      ∨ (Plain (ofStr fileName) ∧ entry fs root (ofStr fileName) ≠ some .dir)
        ∧ ∃ fs', Fs.rename fs ⟨root, n⟩ ⟨root, ofStr fileName⟩ = .ok fs'
          ∧ Placed root (ofStr fileName) c fs fs' := by
  obtain ⟨hslash, hvis⟩ := safeName_visible hs
  have hq := resolve_plain fs root hn
  obtain h0 | h0 | hp := visible_name_cases hslash hvis
  · refine .inl ⟨⟨ontoDirectory [], ?_⟩, fun hp => hp.1.ne_nil h0⟩
    simp only [h0, Fs.rename, hq, resolve_nil, node_snoc, hc, hroot]
  · refine .inl ⟨⟨.invalidInput, ?_⟩, fun hp => hp.1.no_nul h0⟩
    have hres : resolve fs ⟨root, ofStr fileName⟩ = .error .invalidInput := by
      rw [resolve, if_pos h0]
    simp only [Fs.rename, hq, hres]
  · by_cases hd : entry fs root (ofStr fileName) = some .dir
    · refine .inl ⟨⟨ontoDirectory (ofStr fileName), ?_⟩, fun hp => hp.2 hd⟩
      simp only [Fs.rename, hq, resolve_plain fs root hp, node_snoc, hc, hd]
    · refine .inr ⟨⟨hp, hd⟩, (fs.erase (root ++ [n])).insert (root ++ [ofStr fileName]) (.file c),
        ?_, (sameVisible_erase hv).placed (placed_insert _ _ _ _)⟩
      simp only [Fs.rename, hq, resolve_plain fs root hp, node_snoc, hc]

/-- What the export meets when it gets through: the content arrived, the two names are no
directories and the rename does not fail. -/
structure Exports (root : AbsPath) (fileName : String) (io : Pulling C) (fs : FileSystem C)
    (c : C) : Prop where
  plain : Plain (ofStr fileName)
  exported : io.transfer = .exported c
  no_dir : entry fs root (ofStr fileName) ≠ some .dir
  no_export : entry fs root (exportName io.exportStamp) ≠ some .dir
  no_fault : io.rename = false

/-- The export ends with the content in place, or without a change that can be seen. -/
lemma exportAndRename_cases {r : Except PullError Unit} (hroot : node fs root = some .dir)
    (hs : safeName fileName = true) (h : exportAndRename root fileName io fs = (r, fs')) :
    (r = .ok () ∧ ∃ c, Exports root fileName io fs c ∧ Placed root (ofStr fileName) c fs fs')
      ∨ (∃ e, r = .error e) ∧ (∀ c, ¬ Exports root fileName io fs c)
        ∧ SameVisible root fs fs' := by
  have hplain := plain_exportName io.exportStamp
  have hhid := not_visible_exportName io.exportStamp
  have hvis := (safeName_visible hs).2
  rw [exportAndRename] at h
  cases htr : io.transfer with
  | failed e =>
      rw [htr] at h
      obtain ⟨rfl, rfl⟩ := Prod.mk.inj h
      exact .inr ⟨⟨_, rfl⟩, fun c hc => by simpa [htr] using hc.exported, .refl fs⟩
  | emptyCollection =>
      rw [htr] at h
      obtain ⟨rfl, rfl⟩ := Prod.mk.inj h
      exact .inr ⟨⟨_, rfl⟩, fun c hc => by simpa [htr] using hc.exported, .refl fs⟩
  | exportFailed e left =>
      rw [htr] at h
      have hnot : ∀ c, ¬ Exports root fileName io fs c :=
        fun c hc => by simpa [htr] using hc.exported
      cases left with
      | none =>
          obtain ⟨rfl, rfl⟩ := Prod.mk.inj h
          exact .inr ⟨⟨_, rfl⟩, hnot, .refl fs⟩
      | some c =>
          obtain ⟨-, hw⟩ | ⟨-, fs₁, hw, hsame, -⟩ := write_cases root fs c hplain
          · simp only [hw] at h
            obtain ⟨rfl, rfl⟩ := Prod.mk.inj h
            exact .inr ⟨⟨_, rfl⟩, hnot, .refl _⟩
          · simp only [hw] at h
            obtain ⟨rfl, rfl⟩ := Prod.mk.inj h
            exact .inr ⟨⟨_, rfl⟩, hnot, hsame.sameVisible hhid⟩
  | exported c =>
      rw [htr] at h
      obtain ⟨hd, hw⟩ | ⟨hd, fs₁, hw, hsame, hc⟩ := write_cases root fs c hplain
      · simp only [hw] at h
        obtain ⟨rfl, rfl⟩ := Prod.mk.inj h
        exact .inr ⟨⟨_, rfl⟩, fun c hc => hc.no_export hd, .refl _⟩
      · simp only [hw] at h
        have hsv := hsame.sameVisible hhid
        split at h
        · rename_i hf
          obtain ⟨rfl, rfl⟩ := Prod.mk.inj h
          exact .inr ⟨⟨_, rfl⟩, fun c hc => by simp [hc.no_fault] at hf, hsv⟩
        · rename_i hf
          have hent := hsv.entry_eq _ hvis
          obtain ⟨⟨e, hr⟩, hnot⟩ | ⟨hok, fs₂, hr, hpl⟩ :=
            rename_hidden (by rw [hsv.root_eq, hroot]) hplain hhid hc hs
          · rw [hr] at h
            obtain ⟨rfl, rfl⟩ := Prod.mk.inj h
            exact .inr ⟨⟨_, rfl⟩, fun c hc => hnot ⟨hc.plain, by rw [hent]; exact hc.no_dir⟩, hsv⟩
          · rw [hr] at h
            obtain ⟨rfl, rfl⟩ := Prod.mk.inj h
            exact .inl ⟨rfl, c, ⟨hok.1, htr, by rw [← hent]; exact hok.2, hd, by simpa using hf⟩,
              hsv.placed hpl⟩

/-- The way of an offer through `pull` to the end, read off the offer, the surroundings and
the tree before: the name is safe and ordinary, the hash parses, the download yields `c`,
and no directory or fault is in the way. -/
structure Lands (k : Codec NodeId Sock Relay Hash) (root : AbsPath) (hash fileName : String)
    (io : Pulling C) (fs : FileSystem C) (c : C) : Prop extends
    Exports root fileName io fs c where
  safe : safeName fileName = true
  hash : (k.parseHash hash).isSome
  no_recv : ∀ d, entry fs root (recvName io.recv) ≠ some (.file d)
  no_create_fault : io.createDir = false

/-- Every outcome of `pull`: the offer lands, its content is in place under the offered
name and nothing else changed; or it does not land, and nothing that can be seen changed. -/
lemma pull_cases {r : Except PullError Unit} (hroot : node fs root = some .dir)
    (h : pull k root hash fileName io fs = (r, fs')) :
    (r = .ok () ∧ ∃ c, Lands k root hash fileName io fs c
        ∧ Placed root (ofStr fileName) c fs fs')
      ∨ (∃ e, r = .error e) ∧ (∀ c, ¬ Lands k root hash fileName io fs c)
        ∧ SameVisible root fs fs' := by
  rw [pull] at h
  by_cases hs : safeName fileName = true
  swap
  · rw [if_neg hs] at h
    obtain ⟨rfl, rfl⟩ := Prod.mk.inj h
    exact .inr ⟨⟨_, rfl⟩, fun c hc => hs hc.safe, .refl fs⟩
  rw [if_pos hs] at h
  cases hx : k.parseHash hash with
  | none =>
      rw [hx] at h
      obtain ⟨rfl, rfl⟩ := Prod.mk.inj h
      exact .inr ⟨⟨_, rfl⟩, fun c hc => by simpa [hx] using hc.hash, .refl fs⟩
  | some x =>
      simp only [hx] at h
      split at h
      · rename_i hf
        obtain ⟨rfl, rfl⟩ := Prod.mk.inj h
        exact .inr ⟨⟨_, rfl⟩, fun c hc => by simp [hc.no_create_fault] at hf, .refl fs⟩
      · rename_i hf
        obtain ⟨⟨d, hd⟩, hdir⟩ | ⟨hd, fs₁, hdir, hsame₁⟩ :=
          createDirAll_cases root fs (plain_recvName io.recv)
        · rw [hdir] at h
          obtain ⟨rfl, rfl⟩ := Prod.mk.inj h
          exact .inr ⟨⟨_, rfl⟩, fun c hc => hc.no_recv d hd, .refl _⟩
        · simp only [hdir] at h
          have hsame := hsame₁.trans (fillBlobs_sameExcept root _ io.blobs fs₁)
          have hrecv := not_visible_recvName io.recv
          have hsv := hsame.sameVisible hrecv
          have hexp := hsame.entry_eq _ (exportName_ne_recvName io.exportStamp io.recv)
          have hent := hsv.entry_eq _ (safeName_visible hs).2
          rcases hrun : exportAndRename root fileName io
            (fillBlobs (root ++ [recvName io.recv]) io.blobs fs₁) with ⟨r₁, fs₂⟩
          rw [hrun] at h
          have hguard := (dropGuard_sameExcept root io fs₂).sameVisible hrecv
          obtain ⟨rfl, rfl⟩ := Prod.mk.inj h
          obtain ⟨hr, c, hc, hpl⟩ | ⟨he, hnot, hsv'⟩ :=
            exportAndRename_cases (by rw [hsv.root_eq, hroot]) hs hrun
          · refine .inl ⟨hr, c, ⟨⟨hc.plain, hc.exported, by rw [← hent]; exact hc.no_dir,
              by rw [← hexp]; exact hc.no_export, hc.no_fault⟩, hs, by simp [hx], hd,
              by simpa using hf⟩, ?_⟩
            exact hsv.placed (hpl.sameVisible hguard (safeName_visible hs).2)
          · refine .inr ⟨he, fun c hc => hnot c ⟨hc.plain, hc.exported,
              by rw [hent]; exact hc.no_dir, by rw [hexp]; exact hc.no_export, hc.no_fault⟩, ?_⟩
            exact hsv.trans (hsv'.trans hguard)

/-- An offer of a safe ordinary name not taken by a directory can always land. -/
lemma exists_lands (hplain : Plain (ofStr fileName)) (hsafe : safeName fileName = true)
    (hdir : entry fs root (ofStr fileName) ≠ some .dir) (hhash : (k.parseHash hash).isSome)
    (c : C) : ∃ io : Pulling C, Lands k root hash fileName io fs c
      ∧ io.transfer = .exported c := by
  obtain ⟨t, hrecv, hexport⟩ := exists_fresh_stamp fs root
  refine ⟨{ recv := t, exportStamp := t, transfer := .exported c }, ⟨⟨hplain, rfl, hdir, ?_, rfl⟩,
    hsafe, hhash, fun d => ?_, rfl⟩, rfl⟩
  · show entry fs root (exportName t) ≠ some .dir
    rw [hexport]
    exact Option.some_ne_none _ |>.symm
  · show entry fs root (recvName t) ≠ some (.file d)
    rw [hrecv]
    exact Option.some_ne_none _ |>.symm

end Dddatasync
