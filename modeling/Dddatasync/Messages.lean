import Dddatasync.Library.Framing
import Dddatasync.Library.JsonText
import Dddatasync.Sync

/-!
The messages of `src/sync.rs` on a stream: `write_msg` and `read_msg`.

* `SyncOffer.toVec`, `SyncAck.toVec`: the JSON that `serde_json` writes.
* `SerdeJson`: its readers, which are code of another crate; `compactJson`: those that read
  such text only.
* `writeMsg`, `readMsg`, `readMsgs`; `readMsg_writeMsg`, `readMsgs_flatMap`: one message and
  a stream of them.
* `read_msg_inverts_write_msg`: round trip, what is read and how far, and frames cut off.
-/

namespace Dddatasync

open OsString Framing JsonText

/-! ### JSON -/

/-- `serde_json::to_vec` on an address. -/
def EndpointAddrWire.toVec (w : EndpointAddrWire) : List UInt8 :=
  ofStr "\x7b\"node_id\":" ++ (quote w.nodeId ++ (ofStr ",\"addrs\":" ++ (quoteList w.addrs
    ++ (ofStr ",\"relay_url\":" ++ (quoteOption w.relayUrl ++ ofStr "\x7d")))))

/-- `serde_json::to_vec` on an offer. -/
def SyncOffer.toVec (offer : SyncOffer) : List UInt8 :=
  ofStr "\x7b\"hash\":" ++ (quote offer.hash ++ (ofStr ",\"file_name\":" ++ (quote offer.fileName
    ++ (ofStr ",\"sender_addr\":" ++ (offer.senderAddr.toVec ++ ofStr "\x7d")))))

/-- `serde_json::to_vec` on an answer. -/
def SyncAck.toVec (ack : SyncAck) : List UInt8 :=
  ofStr "\x7b\"ok\":" ++ (boolText ack.ok ++ (ofStr ",\"error\":" ++ (quoteOption ack.error
    ++ ofStr "\x7d")))

/-- `serde_json::from_slice` for the two messages; reading undoes writing. -/
structure SerdeJson where
  readOffer : List UInt8 → Option SyncOffer
  readAck : List UInt8 → Option SyncAck
  readOffer_toVec : ∀ offer : SyncOffer, readOffer offer.toVec = some offer
  readAck_toVec : ∀ ack : SyncAck, readAck ack.toVec = some ack

/-- An address at the front. -/
def compactAddr (bytes : List UInt8) : Option (EndpointAddrWire × List UInt8) := do
  let rest ← literal "\x7b\"node_id\":" bytes
  let (nodeId, rest) ← unquote rest
  let rest ← literal ",\"addrs\":" rest
  let (addrs, rest) ← unquoteList rest
  let rest ← literal ",\"relay_url\":" rest
  let (relayUrl, rest) ← unquoteOption rest
  let rest ← literal "\x7d" rest
  return (⟨nodeId, addrs, relayUrl⟩, rest)

/-- An offer as it is written, with its fields in order and no blanks. -/
def compactOffer (bytes : List UInt8) : Option SyncOffer := do
  let rest ← literal "\x7b\"hash\":" bytes
  let (hash, rest) ← unquote rest
  let rest ← literal ",\"file_name\":" rest
  let (fileName, rest) ← unquote rest
  let rest ← literal ",\"sender_addr\":" rest
  let (senderAddr, rest) ← compactAddr rest
  let rest ← literal "\x7d" rest
  if rest = [] then return ⟨hash, fileName, senderAddr⟩ else none

/-- An answer as it is written. -/
def compactAck (bytes : List UInt8) : Option SyncAck := do
  let rest ← literal "\x7b\"ok\":" bytes
  let (ok, rest) ← unbool rest
  let rest ← literal ",\"error\":" rest
  let (error, rest) ← unquoteOption rest
  let rest ← literal "\x7d" rest
  if rest = [] then return ⟨ok, error⟩ else none

lemma compactAddr_toVec (w : EndpointAddrWire) (rest : List UInt8) :
    compactAddr (w.toVec ++ rest) = some (w, rest) := by
  simp [compactAddr, EndpointAddrWire.toVec]

/-- Readers for text without blanks. -/
def compactJson : SerdeJson where
  readOffer := compactOffer
  readAck := compactAck
  readOffer_toVec offer := by
    have hend := literal_append "\x7d" []
    rw [List.append_nil] at hend
    simp [compactOffer, SyncOffer.toVec, compactAddr_toVec, hend]
  readAck_toVec ack := by
    have hend := literal_append "\x7d" []
    rw [List.append_nil] at hend
    simp [compactAck, SyncAck.toVec, hend]

/-! ### Messages on a stream -/

/-- A message. -/
inductive SyncMessage where
  | offer (o : SyncOffer)
  | ack (a : SyncAck)
  deriving DecidableEq, Repr

/-- The type a reader asks for. -/
inductive MessageKind where
  | offer
  | ack
  deriving DecidableEq, Repr

/-- The type of a message. -/
def SyncMessage.kind : SyncMessage → MessageKind
  | .offer _ => .offer
  | .ack _ => .ack

/-- `serde_json::to_vec`. -/
def SyncMessage.toVec : SyncMessage → List UInt8
  | .offer o => o.toVec
  | .ack a => a.toVec

/-- `serde_json::from_slice`. -/
def SerdeJson.fromSlice (j : SerdeJson) (kind : MessageKind) (bytes : List UInt8) :
    Option SyncMessage :=
  match kind with
  | .offer => (j.readOffer bytes).map .offer
  | .ack => (j.readAck bytes).map .ack

/-- The largest message that is read. -/
def maxMessage : ℕ := 64 * 1024

/-- Why no message is read. -/
inductive ReadError where
  | finishedEarly
  | tooLarge (text : String)
  | json
  deriving DecidableEq, Repr

/-- `write_msg`: the bytes on the stream. -/
def writeMsg (m : SyncMessage) : List UInt8 := frame m.toVec

/-- `read_msg`: the message, and what is left of the stream. -/
def readMsg (j : SerdeJson) (kind : MessageKind) (stream : List UInt8) :
    Except ReadError SyncMessage × List UInt8 :=
  match readFrame maxMessage stream with
  | (.error .finishedEarly, rest) => (.error .finishedEarly, rest)
  | (.error (.tooLarge len), rest) =>
      (.error (.tooLarge s!"sync message too large: {len} bytes"), rest)
  | (.ok body, rest) =>
      match j.fromSlice kind body with
      | none => (.error .json, rest)
      | some m => (.ok m, rest)

/-- `read_msg` for one message of each type after another. -/
def readMsgs (j : SerdeJson) : List MessageKind → List UInt8 →
    Except ReadError (List SyncMessage) × List UInt8
  | [], stream => (.ok [], stream)
  | kind :: kinds, stream =>
      match readMsg j kind stream with
      | (.error e, rest) => (.error e, rest)
      | (.ok m, rest) =>
          match readMsgs j kinds rest with
          | (.error e, rest) => (.error e, rest)
          | (.ok ms, rest) => (.ok (m :: ms), rest)

variable {j : SerdeJson} {kind : MessageKind} {stream rest : List UInt8} {m : SyncMessage}

lemma fromSlice_toVec (m : SyncMessage) : j.fromSlice m.kind m.toVec = some m := by
  cases m with
  | offer offer => exact congrArg (Option.map SyncMessage.offer) (j.readOffer_toVec offer)
  | ack ack => exact congrArg (Option.map SyncMessage.ack) (j.readAck_toVec ack)

/-- A message that fits is read as it was written. -/
lemma readMsg_writeMsg (h : m.toVec.length ≤ maxMessage) (rest : List UInt8) :
    readMsg j m.kind (writeMsg m ++ rest) = (.ok m, rest) := by
  rw [readMsg, writeMsg, readFrame_frame h (by decide)]
  simp only [fromSlice_toVec]

/-- So is a stream of them. -/
lemma readMsgs_flatMap {ms : List SyncMessage} (h : ∀ m ∈ ms, m.toVec.length ≤ maxMessage)
    (rest : List UInt8) :
    readMsgs j (ms.map SyncMessage.kind) (ms.flatMap writeMsg ++ rest) = (.ok ms, rest) := by
  induction ms with
  | nil => rfl
  | cons m ms ih =>
      obtain ⟨hm, hms⟩ := List.forall_mem_cons.mp h
      rw [List.map_cons, List.flatMap_cons, List.append_assoc, readMsgs, readMsg_writeMsg hm]
      simp only [ih hms]

/-- A message is read from a frame that holds a valid text of it. -/
lemma readMsg_eq_ok : readMsg j kind stream = (.ok m, rest) ↔
    ∃ body, readFrame maxMessage stream = (.ok body, rest) ∧ j.fromSlice kind body = some m := by
  rw [readMsg]
  constructor
  · intro h
    split at h
    · cases h
    · cases h
    · rename_i body rest' hframe
      cases hread : j.fromSlice kind body with
      | none =>
          simp only [hread] at h
          cases h
      | some m' =>
          simp only [hread] at h
          cases h
          exact ⟨body, hframe, hread⟩
  · rintro ⟨body, hframe, hread⟩
    rw [hframe]
    simp only [hread]

/-- It takes from the stream what its frame takes. -/
lemma readMsg_rest : (readMsg j kind stream).2 = (readFrame maxMessage stream).2 := by
  rw [readMsg]
  split
  · rename_i h
    rw [h]
  · rename_i h
    rw [h]
  · rename_i h
    rw [h]
    split <;> rfl

/-- It fails where its frame fails. -/
lemma readMsg_error {e : FrameError} (h : (readFrame maxMessage stream).1 = .error e) :
    ∃ e, (readMsg j kind stream).1 = .error e := by
  rw [readMsg]
  rcases hframe : readFrame maxMessage stream with ⟨e' | body, rest⟩
  · cases e' <;> exact ⟨_, rfl⟩
  · rw [hframe] at h
    cases h

/-- **The messages on a stream.**  What `write_msg` has written, `read_msg` reads, to the last
byte of it; it succeeds on a length of four bytes up to the limit with a valid text of that
length behind it; it never goes past the frame; and it fails on a frame cut off. -/
theorem read_msg_inverts_write_msg (j : SerdeJson) :
    (∀ ms : List SyncMessage, (∀ m ∈ ms, m.toVec.length ≤ maxMessage) → ∀ rest,
        readMsgs j (ms.map SyncMessage.kind) (ms.flatMap writeMsg ++ rest) = (.ok ms, rest))
      ∧ (∀ kind stream m rest, readMsg j kind stream = (.ok m, rest) ↔
          ∃ header body, stream = header ++ (body ++ rest) ∧ header.length = 4
            ∧ body.length = ofBigEndian header ∧ body.length ≤ maxMessage
            ∧ j.fromSlice kind body = some m)
      ∧ (∀ kind stream, ∃ taken, stream = taken ++ (readMsg j kind stream).2
          ∧ taken.length ≤ 4 + ofBigEndian (stream.take 4))
      ∧ ∀ kind header body cut, header.length = 4 → body.length = ofBigEndian header →
          cut <+: header ++ body → cut ≠ header ++ body →
            ∃ e, (readMsg j kind cut).1 = .error e := by
  refine ⟨fun ms h rest => readMsgs_flatMap h rest, fun kind stream m rest => ?_,
    fun kind stream => ?_, fun kind header body cut hheader hbody hcut hne => ?_⟩
  · rw [readMsg_eq_ok]
    constructor
    · rintro ⟨body, hframe, hread⟩
      obtain ⟨header, hstream, hheader, hbody, hlimit⟩ := readFrame_eq_ok.mp hframe
      exact ⟨header, body, hstream, hheader, hbody, hlimit, hread⟩
    · rintro ⟨header, body, hstream, hheader, hbody, hlimit, hread⟩
      exact ⟨body, readFrame_eq_ok.mpr ⟨header, hstream, hheader, hbody, hlimit⟩, hread⟩
  · rw [readMsg_rest]
    exact exists_taken maxMessage stream
  · obtain ⟨e, he⟩ : ∃ e, (readFrame maxMessage cut).1 = .error e :=
      readFrame_of_prefix hheader hbody hcut hne
    exact readMsg_error he

/-- An offer and its answer. -/
def exchange : List SyncMessage :=
  [.offer ⟨zeroHash, "a.txt", ⟨"n", ["10.0.0.7:4433"], none⟩⟩, .ack ⟨true, none⟩]

theorem exchange_read_back :
    readMsgs compactJson [.offer, .ack] (exchange.flatMap writeMsg ++ []) = (.ok exchange, []) :=
  (read_msg_inverts_write_msg compactJson).1 exchange (by decide +kernel) []

end Dddatasync
