import Dddatasync.Messages

/-!
What the sender of an offer learns: `handle_sync_connection` over the bytes of its stream.

* `Ending`: how the connection ends after a pull; `Incoming.ofStream`: a connection whose stream
  holds these bytes; `Handled.written`, `Handled.received`: the bytes the handler writes, and
  those of them that the sender gets.
* `Answered`: one frame that the sender's `read_msg` takes, with the outcome of the pull.
* `written_ofStream`: an address that does not parse and a panic end the handler before it
  answers; `fits_of_readMsg`: an answer that is taken fits; `not_read_of_lost`: one that is cut
  off is not read.
* `TextsFit`: the error that a pull can end with, read off the offer, the tree and what the pull
  meets, fits into an answer; `fits_pull`.
* `answered_iff_fits`; `backslashes_without_answer`: a name that fills its answer.
-/

namespace Dddatasync

open Fs OsString Framing JsonText

variable {C NodeId Sock Relay Hash : Type*} [LinearOrder Sock] [LinearOrder Relay]

/-! ### The handler on a stream -/

/-- How a connection ends after its pull: whether the answer can be written, how many bytes at
the end of it the drop of the connection cuts off, and whether the sender has stopped waiting
by then. -/
structure Ending where
  sent : Bool := true
  lost : ℕ := 0
  late : Bool := false
  deriving DecidableEq

/-- The sender gets all that is written, in time. -/
def Ending.Whole (e : Ending) : Prop := e.sent = true ∧ e.lost = 0 ∧ e.late = false

/-- The offer among the bytes on the stream. -/
def receivedOffer (j : SerdeJson) (stream : List UInt8) : Option SyncOffer :=
  match (readMsg j .offer stream).1 with
  | .ok (.offer o) => some o
  | _ => none

/-- A connection of the sync protocol with a stream that holds these bytes. -/
def Incoming.ofStream (j : SerdeJson) (stream : List UInt8) (e : Ending) : Incoming where
  offer := receivedOffer j stream
  ackSent := e.sent

/-- The bytes the handler writes to its stream. -/
def Handled.written (h : Handled C) : List UInt8 :=
  match h.ack with
  | none => []
  | some ack => writeMsg (.ack ack)

/-- The bytes the sender gets while it waits. -/
def Handled.received (h : Handled C) (e : Ending) : List UInt8 :=
  if e.late then [] else h.written.take (h.written.length - e.lost)

/-- The bytes written are one answer that `read_msg` takes, it tells how the pull ended, and it
is what the sender reads. -/
def Answered (j : SerdeJson) (r : Except PullError Unit) (written received : List UInt8) : Prop :=
  ∃ ack : SyncAck, written = writeMsg (.ack ack) ∧ readMsg j .ack written = (.ok (.ack ack), [])
    ∧ (ack.ok = true ↔ r = .ok ()) ∧ (readMsg j .ack received).1 = .ok (.ack ack)

variable {k : Codec NodeId Sock Relay Hash} {j : SerdeJson} {dbg : String → String}
  {ioText : IoError → String} {root : AbsPath} {stream : List UInt8} {io : Pulling C}
  {fs : FileSystem C} {offer : SyncOffer} {e : Ending} {hash fileName : String}

/-- An address that does not parse ends the handler, and so does a panic; otherwise it writes the
answer to its pull. -/
lemma written_ofStream (hread : (readMsg j .offer stream).1 = .ok (.offer offer)) :
    (handleSyncConnection k dbg ioText root (.ofStream j stream e) io fs).written
      = match toEndpointAddr k offer.senderAddr with
        | .error _ => []
        | .ok _ =>
            if (pull k root offer.hash offer.fileName io fs).1 = .error .hashPanic
                ∨ e.sent = false then []
            else writeMsg
              (.ack (ackOf dbg ioText (pull k root offer.hash offer.fileName io fs).1)) := by
  have hoffer : (Incoming.ofStream j stream e).offer = some offer := by
    rw [Incoming.ofStream, receivedOffer, hread]
  have hsent : (Incoming.ofStream j stream e).ackSent = e.sent := rfl
  rw [handleSyncConnection, if_neg (by simp [Incoming.ofStream]),
    if_neg (by simp [Incoming.ofStream]), if_neg (by simp [Incoming.ofStream]), hoffer]
  simp only [hsent]
  cases toEndpointAddr k offer.senderAddr with
  | error e => rfl
  | ok a =>
      simp only
      by_cases hpanic : (pull k root offer.hash offer.fileName io fs).1 = .error .hashPanic
      · rw [if_pos hpanic, if_pos (.inl hpanic)]
        rfl
      · rw [if_neg hpanic]
        by_cases hfailed : e.sent = false
        · rw [if_pos (by simp [hfailed]), if_pos (.inr hfailed)]
          rfl
        · rw [if_neg (by simp [hfailed]), if_neg (not_or.mpr ⟨hpanic, hfailed⟩)]
          cases (pull k root offer.hash offer.fileName io fs).1 <;> rfl

lemma not_answered_nil {r : Except PullError Unit} {received : List UInt8} :
    ¬ Answered j r [] received := by
  rintro ⟨ack, hwritten, -⟩
  have := congrArg List.length hwritten
  simp only [List.length_nil, writeMsg, frame, List.length_append, length_bigEndian] at this
  omega

omit [LinearOrder Sock] [LinearOrder Relay] in
lemma exportAndRename_ne_panic :
    (exportAndRename root fileName io fs).1 ≠ .error .hashPanic := by
  rw [exportAndRename]
  split
  · simp
  · simp
  · split
    · simp
    · split <;> simp
  · split
    · simp
    · split_ifs
      · simp
      · split <;> simp

omit [LinearOrder Sock] [LinearOrder Relay] in
/-- A panic of `pull` is one of the parser of the hash. -/
lemma pull_panics : (pull k root hash fileName io fs).1 = .error .hashPanic ↔
    safeName fileName = true ∧ k.parseHash hash = none ∧ k.hashPanics hash = true := by
  rw [pull]
  by_cases hsafe : safeName fileName = true
  swap
  · simp [hsafe]
  rw [if_pos hsafe]
  cases hhash : k.parseHash hash with
  | none => simp [hsafe, Codec.hashError]
  | some h =>
      refine ⟨fun heq => ?_, fun h => (by cases h.2.1)⟩
      simp only at heq
      split_ifs at heq
      · cases heq
      · split at heq
        · cases heq
        · simp only at heq
          exact absurd heq exportAndRename_ne_panic

/-! ### Answers that fit -/

/-- The room that the text of an error has in an answer. -/
def maxErrorText : ℕ := maxMessage - 23

/-- The text of the error, as it is escaped in an answer, has room there. -/
def Fits (dbg : String → String) (ioText : IoError → String) (e : PullError) : Prop :=
  (escape (e.message dbg ioText)).length ≤ maxErrorText

lemma length_toVec_error (text : String) :
    (SyncAck.toVec ⟨false, some text⟩).length = (escape text).length + 23 := by
  have h₁ : (ofStr "\x7b\"ok\":").length = 6 := rfl
  have h₂ : (ofStr ",\"error\":").length = 9 := rfl
  have h₃ : (ofStr "\x7d").length = 1 := rfl
  have h₄ : (boolText false).length = 5 := rfl
  simp only [SyncAck.toVec, List.length_append, h₁, h₂, h₃, h₄, quoteOption, quote,
    List.length_cons, List.length_nil]
  omega

/-- A message that is taken fits. -/
lemma fits_of_readMsg {kind : MessageKind} {m m' : SyncMessage}
    (h : readMsg j kind (writeMsg m) = (.ok m', [])) : m.toVec.length ≤ maxMessage := by
  obtain ⟨body, hframe, -⟩ := readMsg_eq_ok.mp h
  obtain ⟨header, heq, hheader, -, hlimit⟩ := readFrame_eq_ok.mp hframe
  have hlen := congrArg List.length heq
  rw [writeMsg, frame] at hlen
  simp only [List.length_append, length_bigEndian, List.length_nil] at hlen
  omega

lemma readMsg_writeMsg_self {m : SyncMessage} (h : m.toVec.length ≤ maxMessage) :
    readMsg j m.kind (writeMsg m) = (.ok m, []) := by
  have := readMsg_writeMsg (j := j) h []
  rwa [List.append_nil] at this

/-- A message that fits is not read without its last bytes. -/
lemma not_read_of_lost (j : SerdeJson) (kind : MessageKind) {m : SyncMessage} {lost : ℕ}
    (h : m.toVec.length ≤ maxMessage) (hlost : lost ≠ 0) :
    ∃ e, (readMsg j kind ((writeMsg m).take ((writeMsg m).length - lost))).1 = .error e := by
  have hlimit : maxMessage < 2 ^ 32 := by decide
  have hmod : m.toVec.length % 2 ^ 32 = m.toVec.length := Nat.mod_eq_of_lt (by omega)
  have hlen : (writeMsg m).length = 4 + m.toVec.length := by
    rw [writeMsg, frame, List.length_append, length_bigEndian]
  have hbody : m.toVec.length = ofBigEndian (bigEndian 4 (m.toVec.length % 2 ^ 32)) := by
    rw [ofBigEndian_bigEndian (by omega), hmod]
  have hne : (writeMsg m).take ((writeMsg m).length - lost) ≠ writeMsg m := fun heq => by
    have hshort := congrArg List.length heq
    rw [List.length_take] at hshort
    omega
  obtain ⟨e, he⟩ : ∃ e, (readFrame maxMessage
      ((writeMsg m).take ((writeMsg m).length - lost))).1 = .error e :=
    readFrame_of_prefix (length_bigEndian 4 _) hbody (List.take_prefix _ _) hne
  exact readMsg_error he

lemma ackOf_ok (r : Except PullError Unit) : (ackOf dbg ioText r).ok = true ↔ r = .ok () := by
  cases r with
  | error e => simp [ackOf]
  | ok u => simp [ackOf]

lemma fits_ackOf (r : Except PullError Unit) :
    (ackOf dbg ioText r).toVec.length ≤ maxMessage ↔ ∀ e, r = .error e → Fits dbg ioText e := by
  cases r with
  | ok u =>
      refine ⟨fun _ e he => (by cases he), fun _ => ?_⟩
      show (SyncAck.toVec ⟨true, none⟩).length ≤ maxMessage
      decide
  | error e =>
      have hlen : (ackOf dbg ioText (.error e)).toVec.length
          = (escape (e.message dbg ioText)).length + 23 := length_toVec_error _
      have hmax : maxErrorText + 23 = maxMessage := rfl
      constructor
      · rintro h e' he
        cases he
        rw [Fits]
        omega
      · intro h
        have := h e rfl
        rw [Fits] at this
        omega

/-! ### The texts of a pull -/

/-- The offer gets past the checks of `pull`. -/
def Begins (k : Codec NodeId Sock Relay Hash) (hash fileName : String) : Prop :=
  safeName fileName = true ∧ (k.parseHash hash).isSome

/-- The offer gets to its download: the directory for it can be made. -/
def Downloads (k : Codec NodeId Sock Relay Hash) (root : AbsPath) (hash fileName : String)
    (io : Pulling C) (fs : FileSystem C) : Prop :=
  Begins k hash fileName ∧ io.createDir = false
    ∧ ∀ d, entry fs root (recvName io.recv) ≠ some (.file d)

/-- The errors of a pull whose texts are not its own have room in an answer, where the pull gets
to them: a name that is not safe, a directory that cannot be made, a download or an export that
fails. -/
structure TextsFit (k : Codec NodeId Sock Relay Hash) (dbg : String → String)
    (ioText : IoError → String) (root : AbsPath) (hash fileName : String) (io : Pulling C)
    (fs : FileSystem C) : Prop where
  name : safeName fileName = false → Fits dbg ioText (.unsafeName fileName)
  createDir : Begins k hash fileName → io.createDir = true → Fits dbg ioText (.createDir .other)
  recvTaken : Begins k hash fileName → io.createDir = false →
    (∃ d, entry fs root (recvName io.recv) = some (.file d)) →
    Fits dbg ioText (.createDir .alreadyExists)
  fetchFailed : Downloads k root hash fileName io fs → ∀ e, io.transfer = .failed (.fetch e) →
    Fits dbg ioText (.transfer (.fetch e))
  exportFailed : Downloads k root hash fileName io fs → ∀ e left,
    io.transfer = .exportFailed e left → Fits dbg ioText (.exporting e)
  exportTaken : Downloads k root hash fileName io fs → ∀ c, io.transfer = .exported c →
    entry fs root (exportName io.exportStamp) = some .dir →
    Fits dbg ioText (.exporting (io.exportText .isADirectory))

/-- The texts of the other errors are constant. -/
lemma fits_constant (dbg : String → String) (ioText : IoError → String) :
    Fits dbg ioText .parseHash ∧ Fits dbg ioText .hashPanic ∧ Fits dbg ioText .emptyCollection
      ∧ (∀ e, Fits dbg ioText (.rename e))
      ∧ ∀ e : TransferError, (∀ text, e ≠ .fetch text) → Fits dbg ioText (.transfer e) := by
  have hfits : ∀ {e : PullError} (text : String), e.message dbg ioText = text →
      (escape text).length ≤ maxErrorText → Fits dbg ioText e := by
    rintro e text rfl hle
    exact hle
  refine ⟨hfits "parse collection hash" rfl (by decide), hfits "" rfl (by decide),
    hfits "empty collection in sync offer" rfl (by decide),
    fun e => hfits "atomic rename of downloaded file" rfl (by decide), fun e he => ?_⟩
  cases e with
  | openStore => exact hfits "open recv FsStore" rfl (by decide)
  | bind => exact hfits "bind recv endpoint" rfl (by decide)
  | connectTimeout => exact hfits "connect timeout to sender" rfl (by decide)
  | connect => exact hfits "connect to sender" rfl (by decide)
  | loadCollection => exact hfits "load collection" rfl (by decide)
  | fetch text => exact absurd rfl (he text)

/-- The errors of the export, over a tree that has what it finds under its own name. -/
lemma fits_exportAndRename {fs₁ : FileSystem C}
    (hsame : entry fs₁ root (exportName io.exportStamp)
      = entry fs root (exportName io.exportStamp)) :
    (∀ e, (exportAndRename root fileName io fs₁).1 = .error e → Fits dbg ioText e) ↔
      (∀ e, io.transfer = .failed (.fetch e) → Fits dbg ioText (.transfer (.fetch e)))
        ∧ (∀ e left, io.transfer = .exportFailed e left → Fits dbg ioText (.exporting e))
        ∧ ∀ c, io.transfer = .exported c → entry fs root (exportName io.exportStamp) = some .dir →
            Fits dbg ioText (.exporting (io.exportText .isADirectory)) := by
  obtain ⟨-, -, hempty, hrename, htransfer⟩ := fits_constant dbg ioText
  rw [exportAndRename]
  cases htr : io.transfer with
  | failed e =>
      simp only [Except.error.injEq, forall_eq', Transfer.failed.injEq, reduceCtorEq,
        false_imp_iff, implies_true, and_true]
      refine ⟨fun h text heq => heq ▸ h, fun h => ?_⟩
      by_cases hfetch : ∃ text, e = .fetch text
      · obtain ⟨text, rfl⟩ := hfetch
        exact h text rfl
      · exact htransfer e fun text heq => hfetch ⟨text, heq⟩
  | emptyCollection => simp [hempty]
  | exportFailed e left =>
      cases left with
      | none => simp
      | some c =>
          rcases hw : write fs₁ ⟨root, exportName io.exportStamp⟩ c with e' | fs₂ <;> simp [hw]
  | exported c =>
      obtain ⟨hdir, hw⟩ | ⟨hne, fs₂, hw, -⟩ :=
        write_cases root fs₁ c (plain_exportName io.exportStamp)
      · simp [hw, ← hsame, hdir]
      · simp only [hw, ← hsame, Transfer.exported.injEq, reduceCtorEq, false_imp_iff,
          implies_true, true_and]
        refine ⟨fun _ _ _ hdir => absurd hdir hne, fun _ e he => ?_⟩
        split_ifs at he
        · rw [← Except.error.inj he]
          exact hrename _
        · split at he
          · rw [← Except.error.inj he]
            exact hrename _
          · cases he

omit [LinearOrder Sock] [LinearOrder Relay] in
/-- **The error of a pull** has room in an answer exactly when every error has that it can get
to. -/
lemma fits_pull : (∀ e, (pull k root hash fileName io fs).1 = .error e → Fits dbg ioText e) ↔
    TextsFit k dbg ioText root hash fileName io fs := by
  obtain ⟨hparse, hpanic, -⟩ := fits_constant dbg ioText
  rw [pull]
  by_cases hsafe : safeName fileName = true
  swap
  · have hunsafe : safeName fileName = false := by simpa using hsafe
    have hnot : ¬ Begins k hash fileName := fun h => hsafe h.1
    rw [if_neg hsafe]
    refine ⟨fun h => ⟨fun _ => h _ rfl, fun hb => absurd hb hnot, fun hb => absurd hb hnot,
      fun hd => absurd hd.1 hnot, fun hd => absurd hd.1 hnot, fun hd => absurd hd.1 hnot⟩,
      fun h e he => ?_⟩
    rw [← Except.error.inj he]
    exact h.name hunsafe
  rw [if_pos hsafe]
  have hname : safeName fileName = false → Fits dbg ioText (.unsafeName fileName) := by
    intro h
    rw [hsafe] at h
    cases h
  cases hhash : k.parseHash hash with
  | none =>
      have hnot : ¬ Begins k hash fileName := fun h => by simp [Begins, hhash] at h
      refine ⟨fun _ => ⟨hname, fun hb => absurd hb hnot, fun hb => absurd hb hnot,
        fun hd => absurd hd.1 hnot, fun hd => absurd hd.1 hnot, fun hd => absurd hd.1 hnot⟩,
        fun _ e he => ?_⟩
      rw [← Except.error.inj he, Codec.hashError]
      split_ifs
      · exact hpanic
      · exact hparse
  | some h =>
      have hbegins : Begins k hash fileName := ⟨hsafe, by rw [hhash]; rfl⟩
      by_cases hfault : io.createDir = true
      · have hnot : ¬ Downloads k root hash fileName io fs := fun hd => by
          rw [hd.2.1] at hfault
          cases hfault
        simp only [hfault, if_true]
        refine ⟨fun h => ⟨hname, fun _ _ => h _ rfl, fun _ hok => ?_, fun hd => absurd hd hnot,
          fun hd => absurd hd hnot, fun hd => absurd hd hnot⟩, fun h e he => ?_⟩
        · rw [hfault] at hok
          cases hok
        · rw [← Except.error.inj he]
          exact h.createDir hbegins hfault
      have hcan : io.createDir = false := by simpa using hfault
      simp only [hcan, Bool.false_eq_true, if_false]
      obtain ⟨htaken, hdir⟩ | ⟨hfree, fs₁, hdir, hsame⟩ :=
        createDirAll_cases root fs (plain_recvName io.recv)
      · have hnot : ¬ Downloads k root hash fileName io fs := fun hd => by
          obtain ⟨d, hd'⟩ := htaken
          exact hd.2.2 d hd'
        simp only [hdir]
        refine ⟨fun h => ⟨hname, fun _ hio => absurd hio hfault, fun _ _ _ => h _ rfl,
          fun hd => absurd hd hnot, fun hd => absurd hd hnot, fun hd => absurd hd hnot⟩,
          fun h e he => ?_⟩
        rw [← Except.error.inj he]
        exact h.recvTaken hbegins hcan htaken
      · have hdownloads : Downloads k root hash fileName io fs := ⟨hbegins, hcan, hfree⟩
        have hentry := (hsame.trans (fillBlobs_sameExcept root _ io.blobs fs₁)).entry_eq
          (exportName io.exportStamp) (exportName_ne_recvName _ _)
        simp only [hdir]
        rw [fits_exportAndRename hentry]
        refine ⟨fun h => ⟨hname, fun _ hio => absurd hio hfault,
          fun _ _ htaken => htaken.elim fun d hd => absurd hd (hfree d), fun _ => h.1,
          fun _ => h.2.1, fun _ => h.2.2⟩, fun h => ⟨h.fetchFailed hdownloads,
          h.exportFailed hdownloads, h.exportTaken hdownloads⟩⟩

/-- An offer is answered if its address parses, its pull does not panic, the text of the error
fits and the answer gets through. -/
lemma answered_iff (hread : (readMsg j .offer stream).1 = .ok (.offer offer)) :
    Answered j (pull k root offer.hash offer.fileName io fs).1
        (handleSyncConnection k dbg ioText root (.ofStream j stream e) io fs).written
        ((handleSyncConnection k dbg ioText root (.ofStream j stream e) io fs).received e) ↔
      (∃ a, toEndpointAddr k offer.senderAddr = .ok a)
        ∧ (pull k root offer.hash offer.fileName io fs).1 ≠ .error .hashPanic
        ∧ (∀ err, (pull k root offer.hash offer.fileName io fs).1 = .error err →
            Fits dbg ioText err) ∧ e.Whole := by
  rw [Handled.received, written_ofStream hread]
  generalize (pull k root offer.hash offer.fileName io fs).1 = r
  cases haddr : toEndpointAddr k offer.senderAddr with
  | error e =>
      refine ⟨fun h => absurd h not_answered_nil, ?_⟩
      rintro ⟨⟨a, ha⟩, -⟩
      cases ha
  | ok a =>
      simp only
      rw [← fits_ackOf]
      by_cases hsilent : r = .error .hashPanic ∨ e.sent = false
      · rw [if_pos hsilent]
        refine ⟨fun h => absurd h not_answered_nil, ?_⟩
        rintro ⟨-, hcalm, -, hsent, -⟩
        rcases hsilent with hpanic | hunsent
        · exact absurd hpanic hcalm
        · exact absurd hsent (by simp [hunsent])
      rw [if_neg hsilent]
      obtain ⟨hcalm, hsent⟩ := not_or.mp hsilent
      rw [Bool.not_eq_false] at hsent
      constructor
      · rintro ⟨ack, hwritten, htaken, -, hgot⟩
        have hfits := fits_of_readMsg htaken
        refine ⟨⟨a, rfl⟩, hcalm, hfits, hsent, ?_, ?_⟩
        · by_contra hlost
          split_ifs at hgot
          · cases hgot
          · obtain ⟨e', he'⟩ := not_read_of_lost j .ack hfits hlost
            cases he'.symm.trans hgot
        · by_contra hlate
          rw [Bool.not_eq_false] at hlate
          rw [if_pos hlate] at hgot
          cases hgot
      · rintro ⟨-, -, hfits, -, hlost, hlate⟩
        have htaken := readMsg_writeMsg_self (j := j) (m := .ack (ackOf dbg ioText r)) hfits
        refine ⟨_, rfl, htaken, ackOf_ok r, ?_⟩
        rw [if_neg (by rw [hlate]; simp), hlost, Nat.sub_zero, List.take_length]
        exact congrArg Prod.fst htaken

/-- The stream of an offer. -/
def streamOf (offer : SyncOffer) : List UInt8 := writeMsg (.offer offer)

lemma readMsg_streamOf (offer : SyncOffer) (h : offer.toVec.length ≤ maxMessage) :
    (readMsg j .offer (streamOf offer)).1 = .ok (.offer offer) :=
  congrArg Prod.fst (readMsg_writeMsg_self (m := .offer offer) h)

/-! ### A name that fills its answer -/

/-- An offer of a name of so many backslashes. -/
def backslashes (n : ℕ) : SyncOffer :=
  ⟨zeroHash, String.ofList (List.replicate n '\\'), ⟨"n", [], none⟩⟩

lemma length_escape_backslashes (n : ℕ) :
    (escape (String.ofList (List.replicate n '\\'))).length = 2 * n := by
  induction n with
  | zero => rfl
  | succ n ih =>
      have hsplit : escape (String.ofList (List.replicate (n + 1) '\\'))
          = [0x5C, 0x5C] ++ escape (String.ofList (List.replicate n '\\')) := by
        simp only [escape, ofStr, String.toList_ofList, List.replicate_succ, List.flatMap_cons,
          List.flatMap_append]
        rfl
      rw [hsplit, List.length_append, ih, List.length_cons, List.length_singleton]
      omega

lemma length_toVec_backslashes (n : ℕ) : (backslashes n).toVec.length = 2 * n + 148 := by
  have hhash : (ofStr "\x7b\"hash\":" ++ quote zeroHash).length = 74 := rfl
  have hname : (ofStr ",\"file_name\":").length = 13 := rfl
  have haddr : (ofStr ",\"sender_addr\":").length = 15 := rfl
  have hsender : (EndpointAddrWire.toVec ⟨"n", [], none⟩).length = 43 := rfl
  have hend : (ofStr "\x7d").length = 1 := rfl
  have hquote : (quote (String.ofList (List.replicate n '\\'))).length = 2 * n + 2 := by
    rw [quote, List.length_append, List.length_cons, length_escape_backslashes]
    rfl
  rw [List.length_append] at hhash
  simp only [SyncOffer.toVec, backslashes, List.length_append, hname, haddr, hsender, hend, hquote]
  omega

/-- **A name of backslashes** doubles when the error shows it and again in the answer, so the
offer is read and its answer is not, if `{:?}` writes two for one. -/
theorem backslashes_without_answer (k : Codec NodeId Sock Relay Hash) (j : SerdeJson)
    {dbg : String → String} (ioText : IoError → String) (root : AbsPath) (io : Pulling C)
    (fs : FileSystem C) {n : ℕ}
    (hdbg : dbg (backslashes n).fileName
      = "\"" ++ String.ofList (List.replicate (2 * n) '\\') ++ "\"")
    (e : Ending) (hlow : 16379 ≤ n) (hhigh : n ≤ 32000) :
    (readMsg j .offer (streamOf (backslashes n))).1 = .ok (.offer (backslashes n))
      ∧ ¬ Answered j (pull k root (backslashes n).hash (backslashes n).fileName io fs).1
        (handleSyncConnection k dbg ioText root (.ofStream j (streamOf (backslashes n)) e) io
          fs).written
        ((handleSyncConnection k dbg ioText root (.ofStream j (streamOf (backslashes n)) e) io
          fs).received e) := by
  have hread : (readMsg j .offer (streamOf (backslashes n))).1 = .ok (.offer (backslashes n)) :=
    readMsg_streamOf _ (by rw [length_toVec_backslashes, maxMessage]; omega)
  have hunsafe : ¬ safeName (backslashes n).fileName = true := by
    have hmem : '\\' ∈ (backslashes n).fileName.toList := by
      rw [backslashes, String.toList_ofList]
      exact List.mem_replicate.mpr ⟨by omega, rfl⟩
    simp only [safeName, List.contains_eq_mem, hmem, decide_true, Bool.not_true, Bool.and_false,
      Bool.false_and, Bool.false_eq_true, not_false_iff]
  have hpull : (pull k root (backslashes n).hash (backslashes n).fileName io fs).1
      = .error (.unsafeName (backslashes n).fileName) := by
    rw [pull, if_neg hunsafe]
  refine ⟨hread, fun h => ?_⟩
  have htext : Fits dbg ioText (.unsafeName (backslashes n).fileName) :=
    ((answered_iff hread).mp h).2.2.1 _ hpull
  have hmessage : (PullError.unsafeName (backslashes n).fileName).message dbg ioText
      = "unsafe file name in sync offer: " ++ dbg (backslashes n).fileName := rfl
  have hlen := length_escape_backslashes (2 * n)
  have hmax : maxErrorText = 65513 := rfl
  rw [Fits, hmessage, hdbg, escape_append, escape_append, escape_append, List.length_append,
    List.length_append, List.length_append, hlen, hmax] at htext
  omega

/-! ### Offers and their answers -/

/-- **An offer is answered** exactly when the address in it parses, its hash is no text that the
parser panics on, the errors that its pull can get to have room in an answer, and the sender gets
all of the answer in time. -/
theorem answered_iff_fits (k : Codec NodeId Sock Relay Hash) (j : SerdeJson)
    (dbg : String → String) (ioText : IoError → String) (root : AbsPath) {stream : List UInt8}
    (io : Pulling C) (fs : FileSystem C) (e : Ending) {offer : SyncOffer}
    (hread : (readMsg j .offer stream).1 = .ok (.offer offer)) :
    Answered j (pull k root offer.hash offer.fileName io fs).1
        (handleSyncConnection k dbg ioText root (.ofStream j stream e) io fs).written
        ((handleSyncConnection k dbg ioText root (.ofStream j stream e) io fs).received e) ↔
      (∃ a, toEndpointAddr k offer.senderAddr = .ok a)
        ∧ (safeName offer.fileName = true → k.parseHash offer.hash = none →
            k.hashPanics offer.hash = false)
        ∧ TextsFit k dbg ioText root offer.hash offer.fileName io fs ∧ e.Whole := by
  rw [answered_iff hread, fits_pull, Ne, pull_panics, not_and, not_and, Bool.not_eq_true]

/-- An offer of this hash from a node with this id. -/
def offerFrom (hash nodeId : String) : SyncOffer := ⟨hash, "a.txt", ⟨nodeId, [], none⟩⟩

/-- A pull that gets its file. -/
def arriving : Pulling String where
  recv := ⟨1, 1⟩
  exportStamp := ⟨2, 2⟩
  transfer := .exported "text"

theorem answered_iff_fits_arriving :
    Answered compactJson (pull hashCodec [ofStr "store"] zeroHash "a.txt" arriving ∅).1
        (handleSyncConnection hashCodec id (fun _ => "io error") [ofStr "store"]
          (.ofStream compactJson (streamOf (offerFrom zeroHash "n")) {}) arriving ∅).written
        ((handleSyncConnection hashCodec id (fun _ => "io error") [ofStr "store"]
          (.ofStream compactJson (streamOf (offerFrom zeroHash "n")) {}) arriving ∅).received {}) ↔
      (∃ a, toEndpointAddr hashCodec ⟨"n", [], none⟩ = .ok a)
        ∧ (safeName "a.txt" = true → hashCodec.parseHash zeroHash = none →
            hashCodec.hashPanics zeroHash = false)
        ∧ TextsFit hashCodec id (fun _ => "io error") [ofStr "store"] zeroHash "a.txt" arriving ∅
        ∧ ({} : Ending).Whole :=
  answered_iff_fits hashCodec compactJson id (fun _ => "io error") [ofStr "store"] arriving ∅ {}
    (readMsg_streamOf (offerFrom zeroHash "n") (by decide +kernel))

/-- The offer, on a connection that ends so, is read and not answered. -/
def Unanswered (offer : SyncOffer) (e : Ending) : Prop :=
  (readMsg compactJson .offer (streamOf offer)).1 = .ok (.offer offer)
    ∧ ¬ Answered compactJson
      (pull hashCodec [ofStr "store"] offer.hash offer.fileName arriving ∅).1
      (handleSyncConnection hashCodec id (fun _ => "io error") [ofStr "store"]
        (.ofStream compactJson (streamOf offer) e) arriving ∅).written
      ((handleSyncConnection hashCodec id (fun _ => "io error") [ofStr "store"]
        (.ofStream compactJson (streamOf offer) e) arriving ∅).received e)

/-- **Offers without an answer**: from a sender without a node id, with a hash of one letter, and
one whose answer loses its last byte when the connection is dropped. -/
theorem offer_without_answer : Unanswered (offerFrom zeroHash "") {}
    ∧ Unanswered (offerFrom "h" "n") {} ∧ Unanswered (offerFrom zeroHash "n") { lost := 1 } := by
  have hread : ∀ offer ∈ [offerFrom zeroHash "", offerFrom "h" "n", offerFrom zeroHash "n"],
      (readMsg compactJson .offer (streamOf offer)).1 = .ok (.offer offer) := by
    intro offer hoffer
    refine readMsg_streamOf offer ?_
    revert offer
    decide +kernel
  refine ⟨⟨hread _ (by simp), fun h => ?_⟩, ⟨hread _ (by simp), fun h => ?_⟩,
    hread _ (by simp), fun h => ?_⟩
  · obtain ⟨⟨a, ha⟩, -⟩ := (answered_iff (hread _ (by simp))).mp h
    cases ha
  · obtain ⟨-, hcalm, -⟩ := (answered_iff (hread _ (by simp))).mp h
    exact hcalm (by decide)
  · obtain ⟨-, -, -, -, hlost, -⟩ := (answered_iff (hread _ (by simp))).mp h
    cases hlost

end Dddatasync
