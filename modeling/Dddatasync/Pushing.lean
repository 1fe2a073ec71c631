import Dddatasync.PullSteps

/-!
A `push` and the listeners it talks to: `push`, `import_file_as_collection`, `notify_peer` and
`handle_sync_connection` of `src/sync.rs`, step by step.

* `PushPc`, `NotifyPc`: where the sender stands; `HandlerPc`: where the handler of a connection
  stands, with its `pull`.
* `Pushing`: the file, the peers and their stores; `Link`: a connection of this push, or one of
  anybody else, on which any offer can arrive.
* `Traffic`, `Pushing.step`: the sender or a handler makes a move.  A message is read as it was
  written or not at all; every call of both sides can fail, and the waits can time out.  The
  connection of a handler goes with it, and with the connection an answer that is not read yet.
* `pushStep_stepped`, `handlerStep_stepped`: what a move does.
* `handler_steps`: a connection that nobody interferes with does what `handleSyncConnection`
  does.
-/

namespace Dddatasync

open Fs OsString Runs

variable {μ π C NodeId Sock Relay Hash : Type*}

/-! ### The sender -/

/-- Why `notify_peer` fails. -/
inductive NotifyError where
  | connectTimeout
  | connect
  | openBi (e : String)
  | writeOffer (e : String)
  | ackTimeout
  | readAck
  | reported (error : Option String)
  deriving DecidableEq, Repr

/-- The text of an error, without its causes. -/
def NotifyError.message : NotifyError → String
  | .connectTimeout => "connect timeout to peer"
  | .connect => "connect to peer"
  | .openBi e => e
  | .writeOffer e => e
  | .ackTimeout => "timeout waiting for SyncAck"
  | .readAck => "read SyncAck"
  | .reported error => "peer reported sync error: " ++ error.getD "unknown"

/-- Why `push` fails before its first offer. -/
inductive PushError where
  | noFileName
  | createDir (e : IoError)
  | openStore (e : String)
  | bind
  | online
  | importing (e : String)
  | storeCollection
  deriving DecidableEq, Repr

/-- Where `notify_peer` stands: before its connection, its stream, its offer, its answer. -/
inductive NotifyPc where
  | connecting
  | opening
  | writing
  | waiting
  deriving DecidableEq, Repr

/-- The errors `notify_peer` can meet where it stands. -/
def NotifyPc.canFail : NotifyPc → NotifyError → Bool
  | .connecting, .connectTimeout | .connecting, .connect => true
  | .opening, .openBi _ => true
  | .writing, .writeOffer _ => true
  | .waiting, .ackTimeout | .waiting, .readAck => true
  | _, _ => false

/-- Where `push` stands.  From `notifying` on the file is imported; `results` is what
`notify_peer` returned so far, in the order of the peers. -/
inductive PushPc (C : Type*) where
  | start
  | preparing (fileName : String)
  | notifying (fileName : String) (content : C) (call : NotifyPc)
      (results : List (Except NotifyError Unit))
  | finished (fileName : String) (content : C) (results : List (Except NotifyError Unit))
  | stopped (r : Except PushError Unit)

/-- The name and the content `push` offers. -/
def PushPc.file : PushPc C → Option (String × C)
  | .notifying fileName content _ _ | .finished fileName content _ => some (fileName, content)
  | _ => none

/-- What `notify_peer` returned for each peer so far. -/
def PushPc.results : PushPc C → List (Except NotifyError Unit)
  | .notifying _ _ _ results | .finished _ _ results => results
  | _ => []

/-- The sender has tried to connect to its `n`-th peer. -/
def PushPc.dialled (n : ℕ) : PushPc C → Bool
  | .notifying _ _ _ results => n ≤ results.length
  | .finished _ _ results => n < results.length
  | _ => false

/-- What the sender does next: it goes on, fails before its first offer, has imported the
file, or its `notify_peer` fails. -/
inductive PushMove (C : Type*) where
  | go
  | stop (e : PushError)
  | imported (content : C)
  | fail (e : NotifyError)

/-! ### A handler -/

/-- Where a handler stands: before its connection, its stream, its offer; in its `pull`; after
it, with the guard of the `pull` perhaps still at work; over before any `pull`. -/
inductive HandlerPc (C Hash : Type*) where
  | idle
  | accepting
  | opening
  | reading
  | pulling (offer : SyncOffer) (pc : PullPc C Hash)
  | answered (offer : SyncOffer) (pc : PullPc C Hash) (r : Except HandlerError Unit)
  | closed (r : Except HandlerError Unit)

/-- The offer of a handler and where its `pull` stands. -/
def HandlerPc.call : HandlerPc C Hash → Option (SyncOffer × PullPc C Hash)
  | .pulling offer pc | .answered offer pc _ => some (offer, pc)
  | _ => none

/-- What a handler does next: it goes on, fails, reads an offer, its `pull` makes a move, it
answers, or it has returned and its connection is dropped. -/
inductive HandlerMove (C Hash : Type*) where
  | go
  | fail (e : HandlerError)
  | read (offer : SyncOffer)
  | pull (move : PullMove C Hash)
  | answer
  | close

/-- What `pull` returns, if it is over and did not panic. -/
def PullPc.returned (pc : PullPc C Hash) : Option (Except PullError Unit) :=
  if pc.result = some (.error .hashPanic) then none else pc.result

/-! ### Both sides -/

/-- A connection: the one to the `n`-th peer of the push, or one that somebody else makes. -/
inductive Link (μ : Type*) where
  | mine (n : ℕ)
  | other (m : μ)
  deriving DecidableEq

/-- A push of the file at `path` to some peers, and who else connects to them.  The clock
readings behind the names of a `pull` are those of its connection. -/
structure Pushing (μ π C NodeId Sock Relay Hash : Type*) where
  codec : Codec NodeId Sock Relay Hash
  blobs : Blobs C Hash
  dbg : String → String
  ioText : IoError → String
  path : PathBuf
  addr : EndpointAddr NodeId Sock Relay
  peers : List π
  target : μ → π
  alpn : μ → List UInt8
  root : π → AbsPath
  recv : Link μ → Stamp
  exportStamp : Link μ → Stamp

/-- The push, the stores of the peers, the handlers, and for each connection the message that
was written in either direction. -/
structure Traffic (μ π C Hash : Type*) where
  push : PushPc C
  store : π → FileSystem C
  handler : Link μ → HandlerPc C Hash
  toPeer : Link μ → Option SyncOffer
  toSender : Link μ → Option SyncAck

/-- Nothing has happened yet. -/
def Traffic.init (store : π → FileSystem C) : Traffic μ π C Hash where
  push := .start
  store := store
  handler := fun _ => .idle
  toPeer := fun _ => none
  toSender := fun _ => none

/-- A move of the sender or of a handler. -/
inductive TrafficAct (μ C Hash : Type*) where
  | push (move : PushMove C)
  | handler (l : Link μ) (move : HandlerMove C Hash)

namespace Pushing

variable (w : Pushing μ π C NodeId Sock Relay Hash)

/-- The peer at the other end of a connection. -/
def peer : Link μ → Option π
  | .mine n => w.peers[n]?
  | .other m => some (w.target m)

/-- The protocol of a connection. -/
def linkAlpn : Link μ → List UInt8
  | .mine _ => syncAlpn
  | .other m => w.alpn m

/-- `import_file_as_collection`: the hash of the collection with the one file in it. -/
def importHash (fileName : String) (content : C) : Hash :=
  w.blobs.collectionHash [(fileName, w.blobs.fileHash content)]

/-- The `pull` for an offer that came on a connection. -/
def call (l : Link μ) (offer : SyncOffer) : PullCall where
  hash := offer.hash
  fileName := offer.fileName
  recv := w.recv l
  exportStamp := w.exportStamp l

@[simp]
lemma call_exportStamp (l : Link μ) (offer : SyncOffer) :
    (w.call l offer).exportStamp = w.exportStamp l := rfl

variable [LinearOrder Sock] [LinearOrder Relay]

/-- The offer of the push. -/
def offer (fileName : String) (content : C) : SyncOffer where
  hash := w.codec.printHash (w.importHash fileName content)
  fileName := fileName
  senderAddr := fromEndpointAddr w.codec w.addr

variable [DecidableEq μ]

/-- `notify_peer` has returned: the next peer is next, or the loop is over. -/
def notified (fileName : String) (content : C) (results : List (Except NotifyError Unit))
    (r : Except NotifyError Unit) : PushPc C :=
  if results.length + 1 < w.peers.length then
    .notifying fileName content .connecting (results ++ [r])
  else .finished fileName content (results ++ [r])

/-- A move of the sender. -/
def pushStep (s : Traffic μ π C Hash) : PushPc C → PushMove C → Option (Traffic μ π C Hash)
  | .start, .go =>
      if w.peers = [] then some { s with push := .stopped (.ok ()) }
      else
        match (fileName w.path).bind toStr with
        | none => some { s with push := .stopped (.error .noFileName) }
        | some f => some { s with push := .preparing f }
  | .preparing _, .stop e =>
      if e = .noFileName then none else some { s with push := .stopped (.error e) }
  | .preparing f, .imported content => some { s with push := .notifying f content .connecting [] }
  | .notifying f content .connecting results, .go =>
      some { s with push := .notifying f content .opening results }
  | .notifying f content .opening results, .go =>
      some { s with push := .notifying f content .writing results }
  | .notifying f content .writing results, .go =>
      some { s with
        push := .notifying f content .waiting results
        toPeer := Function.update s.toPeer (.mine results.length) (some (w.offer f content)) }
  | .notifying f content .waiting results, .go =>
      match s.toSender (.mine results.length) with
      | none => none
      | some ack =>
          let r := if ack.ok then .ok () else .error (.reported ack.error)
          some { s with push := w.notified f content results r }
  | .notifying f content call results, .fail e =>
      if call.canFail e then some { s with push := w.notified f content results (.error e) }
      else none
  | _, _ => none

/-- A connection comes in: somebody else's at any time. -/
def incoming (s : Traffic μ π C Hash) : Link μ → Bool
  | .mine n => s.push.dialled n
  | .other _ => true

/-- The offer can be read from the stream: what was written there, or anything if somebody else
writes. -/
def readable (s : Traffic μ π C Hash) (offer : SyncOffer) : Link μ → Bool
  | .mine n => s.toPeer (.mine n) = some offer
  | .other _ => true

/-- The handler of `l` is at `pc` now. -/
def goes (s : Traffic μ π C Hash) (l : Link μ) (pc : HandlerPc C Hash) : Traffic μ π C Hash :=
  { s with handler := Function.update s.handler l pc }

/-- The offer is read: its address is parsed before the `pull`. -/
def readOffer (l : Link μ) (offer : SyncOffer) (s : Traffic μ π C Hash) : Traffic μ π C Hash :=
  match toEndpointAddr w.codec offer.senderAddr with
  | .error e => goes s l (.closed (.error (.senderAddr e)))
  | .ok _ => goes s l (.pulling offer .start)

/-- The result of a handler that has written its answer. -/
def answerResult : Except PullError Unit → Except HandlerError Unit
  | .ok () => .ok ()
  | .error e => .error (.pull e)

/-- The answer is written. -/
def answer (l : Link μ) (offer : SyncOffer) (pc : PullPc C Hash) (r : Except PullError Unit)
    (s : Traffic μ π C Hash) : Traffic μ π C Hash :=
  { s with
    handler := Function.update s.handler l (.answered offer pc (answerResult r))
    toSender := Function.update s.toSender l (some (ackOf w.dbg w.ioText r)) }

variable [DecidableEq π] [DecidableEq Hash]

/-- A move of the `pull` of `l`; `next` says where the handler stands then. -/
def pullMove (s : Traffic μ π C Hash) (l : Link μ) (offer : SyncOffer) (pc : PullPc C Hash)
    (next : PullPc C Hash → HandlerPc C Hash) (move : PullMove C Hash) :
    Option (Traffic μ π C Hash) :=
  match w.peer l with
  | none => none
  | some p =>
      (pullStep w.codec w.blobs (w.root p) (w.call l offer) (s.store p) pc move).map fun o =>
        { s with
          store := Function.update s.store p o.2
          handler := Function.update s.handler l (next o.1) }

/-- A move of the handler of `l`. -/
def handlerStep (s : Traffic μ π C Hash) (l : Link μ) :
    HandlerPc C Hash → HandlerMove C Hash → Option (Traffic μ π C Hash)
  | .idle, .go => if incoming s l then some (goes s l .accepting) else none
  | .accepting, .go =>
      -- other protocols belong to the router
      if w.linkAlpn l ≠ syncAlpn then some (goes s l (.closed (.ok ())))
      else some (goes s l .opening)
  | .accepting, .fail .accept => some (goes s l (.closed (.error .accept)))
  | .opening, .go => some (goes s l .reading)
  | .opening, .fail .acceptBi => some (goes s l (.closed (.error .acceptBi)))
  | .reading, .fail .readOffer => some (goes s l (.closed (.error .readOffer)))
  | .reading, .read offer =>
      if readable s offer l then some (w.readOffer l offer s) else none
  | .pulling offer pc, .pull move => w.pullMove s l offer pc (.pulling offer) move
  | .pulling offer pc, .answer => pc.returned.map fun r => w.answer l offer pc r s
  | .pulling offer pc, .fail .writeAck =>
      if pc.returned.isSome then some (goes s l (.answered offer pc (.error .writeAck))) else none
  | .pulling offer pc, .fail .panicked =>
      if pc.result = some (.error .hashPanic) then
        some (goes s l (.answered offer pc (.error .panicked)))
      else none
  -- `connection` is dropped at once, and the sender may not have read the answer yet
  | .answered _ _ _, .close =>
      if (s.toSender l).isSome then some { s with toSender := Function.update s.toSender l none }
      else none
  -- the thread of the guard outlives the handler
  | .answered offer pc r, .pull (.unlink below) =>
      w.pullMove s l offer pc (fun pc' => .answered offer pc' r) (.unlink below)
  | _, _ => none

/-- One step. -/
def step (s : Traffic μ π C Hash) : TrafficAct μ C Hash → Option (Traffic μ π C Hash)
  | .push move => w.pushStep s s.push move
  | .handler l move => w.handlerStep s l (s.handler l) move

end Pushing

/-! ### What a move does -/

/-- The moves of the sender, each with its guard. -/
inductive PushMoved [LinearOrder Sock] [LinearOrder Relay] [DecidableEq μ]
    (w : Pushing μ π C NodeId Sock Relay Hash) (s : Traffic μ π C Hash) :
    PushPc C → Traffic μ π C Hash → Prop
  | empty (peers : w.peers = []) : PushMoved w s .start { s with push := .stopped (.ok ()) }
  | unnamed (peers : w.peers ≠ []) (name : (fileName w.path).bind toStr = none) :
      PushMoved w s .start { s with push := .stopped (.error .noFileName) }
  | named (f : String) (peers : w.peers ≠ []) (name : (fileName w.path).bind toStr = some f) :
      PushMoved w s .start { s with push := .preparing f }
  | failed (f : String) (e : PushError) (error : e ≠ .noFileName) :
      PushMoved w s (.preparing f) { s with push := .stopped (.error e) }
  | imported (f : String) (c : C) :
      PushMoved w s (.preparing f) { s with push := .notifying f c .connecting [] }
  | connected (f : String) (c : C) (results : List (Except NotifyError Unit)) :
      PushMoved w s (.notifying f c .connecting results)
        { s with push := .notifying f c .opening results }
  | opened (f : String) (c : C) (results : List (Except NotifyError Unit)) :
      PushMoved w s (.notifying f c .opening results)
        { s with push := .notifying f c .writing results }
  | wrote (f : String) (c : C) (results : List (Except NotifyError Unit)) :
      PushMoved w s (.notifying f c .writing results) { s with
        push := .notifying f c .waiting results
        toPeer := Function.update s.toPeer (.mine results.length) (some (w.offer f c)) }
  | acked (f : String) (c : C) (results : List (Except NotifyError Unit)) (ack : SyncAck)
      (received : s.toSender (.mine results.length) = some ack) :
      PushMoved w s (.notifying f c .waiting results) { s with
        push := w.notified f c results (if ack.ok then .ok () else .error (.reported ack.error)) }
  | lost (f : String) (c : C) (call : NotifyPc) (results : List (Except NotifyError Unit))
      (e : NotifyError) (error : call.canFail e = true) :
      PushMoved w s (.notifying f c call results)
        { s with push := w.notified f c results (.error e) }

/-- What a move of the sender is: it is not past its import yet, it goes on, it writes its
offer, or `notify_peer` returns, `Ok` only for an answer that says so. -/
inductive PushStepped [LinearOrder Sock] [LinearOrder Relay] [DecidableEq μ]
    (w : Pushing μ π C NodeId Sock Relay Hash) (s : Traffic μ π C Hash) :
    Traffic μ π C Hash → Prop
  | begun (pc : PushPc C) (file : s.push.file = none) (results : pc.results = []) :
      PushStepped w s { s with push := pc }
  | moved (pc : PushPc C) (file : pc.file = s.push.file) (results : pc.results = s.push.results) :
      PushStepped w s { s with push := pc }
  | wrote (pc : PushPc C) (f : String) (c : C) (was : s.push.file = some (f, c))
      (file : pc.file = some (f, c)) (results : pc.results = s.push.results) :
      PushStepped w s { s with
        push := pc
        toPeer := Function.update s.toPeer (.mine s.push.results.length) (some (w.offer f c)) }
  | returned (pc : PushPc C) (r : Except NotifyError Unit) (file : pc.file = s.push.file)
      (results : pc.results = s.push.results ++ [r])
      (acked : r = .ok () →
        ∃ ack, s.toSender (.mine s.push.results.length) = some ack ∧ ack.ok = true) :
      PushStepped w s { s with push := pc }

/-- What a move of the handler of `l` is: it has no offer yet, it gets one, its `pull` makes a
step, the guard works, it answers, it does not answer, or its connection is dropped. -/
inductive HandlerStepped [DecidableEq μ] [DecidableEq π]
    (w : Pushing μ π C NodeId Sock Relay Hash) (s : Traffic μ π C Hash) (l : Link μ) :
    Traffic μ π C Hash → Prop
  | early (pc : HandlerPc C Hash) (was : (s.handler l).call = none) (call : pc.call = none) :
      HandlerStepped w s l (Pushing.goes s l pc)
  | got (offer : SyncOffer) (was : (s.handler l).call = none)
      (read : ∀ n, l = .mine n → s.toPeer (.mine n) = some offer) :
      HandlerStepped w s l (Pushing.goes s l (.pulling offer .start))
  | pulled (p : π) (offer : SyncOffer) (pc pc' : PullPc C Hash) (fs' : FileSystem C)
      (peer : w.peer l = some p) (was : s.handler l = .pulling offer pc)
      (stepped : PullStepped w.codec w.blobs (w.root p) (w.call l offer) (s.store p) fs' pc pc') :
      HandlerStepped w s l { s with
        store := Function.update s.store p fs'
        handler := Function.update s.handler l (.pulling offer pc') }
  | cleaned (p : π) (offer : SyncOffer) (pc : PullPc C Hash) (r : Except HandlerError Unit)
      (fs' : FileSystem C) (peer : w.peer l = some p) (was : s.handler l = .answered offer pc r)
      (same : SameExcept (w.root p) (recvName (w.recv l)) (s.store p) fs') :
      HandlerStepped w s l { s with
        store := Function.update s.store p fs'
        handler := Function.update s.handler l (.answered offer pc r) }
  | answered (offer : SyncOffer) (pc : PullPc C Hash) (r : Except PullError Unit)
      (was : s.handler l = .pulling offer pc) (result : pc.result = some r) :
      HandlerStepped w s l (w.answer l offer pc r s)
  | dropped (offer : SyncOffer) (pc : PullPc C Hash) (e : HandlerError)
      (was : s.handler l = .pulling offer pc) :
      HandlerStepped w s l (Pushing.goes s l (.answered offer pc (.error e)))
  | closed (offer : SyncOffer) (pc : PullPc C Hash) (r : Except HandlerError Unit)
      (was : s.handler l = .answered offer pc r) :
      HandlerStepped w s l { s with toSender := Function.update s.toSender l none }

section Steps

variable [LinearOrder Sock] [LinearOrder Relay] [DecidableEq μ]
  {w : Pushing μ π C NodeId Sock Relay Hash} {s s' : Traffic μ π C Hash} {l : Link μ}

omit [LinearOrder Sock] [LinearOrder Relay] [DecidableEq μ] in
lemma notified_file {f : String} {c : C} {results : List (Except NotifyError Unit)}
    {r : Except NotifyError Unit} :
    (w.notified f c results r).file = some (f, c)
      ∧ (w.notified f c results r).results = results ++ [r] := by
  rw [Pushing.notified]
  split_ifs <;> exact ⟨rfl, rfl⟩

lemma pushStep_moved {pc : PushPc C} {move : PushMove C} (h : w.pushStep s pc move = some s') :
    PushMoved w s pc s' := by
  cases pc with
  | start =>
      cases move with
      | go =>
          simp only [Pushing.pushStep] at h
          split_ifs at h with hpeers
          · cases h
            exact .empty hpeers
          · split at h
            · cases h
              exact .unnamed hpeers ‹_›
            · cases h
              exact .named _ hpeers ‹_›
      | stop | imported | fail => simp [Pushing.pushStep] at h
  | preparing f =>
      cases move with
      | stop e =>
          simp only [Pushing.pushStep] at h
          split_ifs at h with he
          cases h
          exact .failed f e he
      | imported c =>
          cases h
          exact .imported f c
      | go | fail => simp [Pushing.pushStep] at h
  | notifying f c call results =>
      cases move with
      | go =>
          cases call with
          | connecting =>
              cases h
              exact .connected f c results
          | opening =>
              cases h
              exact .opened f c results
          | writing =>
              obtain rfl := Option.some.inj h
              exact .wrote f c results
          | waiting =>
              simp only [Pushing.pushStep] at h
              split at h
              · cases h
              · rename_i ack hack
                obtain rfl := Option.some.inj h
                exact .acked f c results ack hack
      | fail e =>
          have hfail : (if call.canFail e then
              some { s with push := w.notified f c results (.error e) } else none) = some s' := by
            cases call <;> exact h
          split_ifs at hfail with he
          obtain rfl := Option.some.inj hfail
          exact .lost f c call results e he
      | stop | imported => cases call <;> simp [Pushing.pushStep] at h
  | finished f c results => cases move <;> simp [Pushing.pushStep] at h
  | stopped r => cases move <;> simp [Pushing.pushStep] at h

/-- **What a move of the sender is.** -/
lemma pushStep_stepped {move : PushMove C} (h : w.pushStep s s.push move = some s') :
    PushStepped w s s' := by
  have hmoved := pushStep_moved h
  have hfile : ∀ {pc}, s.push = pc → s.push.file = pc.file := congrArg PushPc.file
  have hresults : ∀ {pc}, s.push = pc → s.push.results = pc.results := congrArg PushPc.results
  generalize hpush : s.push = pc at hmoved
  cases hmoved with
  | empty | unnamed | named | failed | imported => exact .begun _ (hfile hpush) rfl
  | connected | opened => exact .moved _ (hfile hpush).symm (hresults hpush).symm
  | wrote f c results =>
      have hlen : s.push.results.length = results.length := congrArg _ (hresults hpush)
      rw [← hlen]
      exact .wrote _ f c (hfile hpush) rfl (hresults hpush).symm
  | acked f c results ack hack =>
      have hlen : s.push.results.length = results.length := congrArg _ (hresults hpush)
      refine .returned _ _ (notified_file.1.trans (hfile hpush).symm)
        (by rw [hresults hpush]; exact notified_file.2) fun hok => ⟨ack, by rw [hlen, hack], ?_⟩
      by_contra hne
      rw [if_neg hne] at hok
      cases hok
  | lost f c call results e =>
      exact .returned _ (.error e) (notified_file.1.trans (hfile hpush).symm)
        (by rw [hresults hpush]; exact notified_file.2) (by simp)

variable [DecidableEq π] [DecidableEq Hash]

omit [LinearOrder Sock] [LinearOrder Relay] [DecidableEq μ] [DecidableEq π] [DecidableEq Hash] in
lemma PullPc.returned_eq {pc : PullPc C Hash} {r : Except PullError Unit} :
    pc.returned = some r ↔ pc.result = some r ∧ r ≠ .error .hashPanic := by
  rw [PullPc.returned]
  split_ifs with hpanic
  · rw [hpanic]
    refine ⟨fun h => (nomatch h), fun ⟨heq, hne⟩ => absurd (Option.some.inj heq).symm hne⟩
  · exact ⟨fun h => ⟨h, fun heq => hpanic (heq ▸ h)⟩, fun h => h.1⟩

omit [LinearOrder Sock] [LinearOrder Relay] in
/-- The guard of a `pull` changes nothing but its directory. -/
lemma unlink_same {k : Codec NodeId Sock Relay Hash} {b : Blobs C Hash} {root : AbsPath}
    {p : PullCall} {fs fs' : FileSystem C} {pc pc' : PullPc C Hash} {below : List OsString}
    (h : pullStep k b root p fs pc (.unlink below) = some (pc', fs')) :
    pc' = pc ∧ SameExcept root (recvName p.recv) fs fs' := by
  cases pullStep_moved h with
  | unlinked r below fs_eq =>
      subst fs_eq
      exact ⟨rfl, unlink_sameExcept _ below⟩

/-- **What a move of a handler is.** -/
lemma handlerStep_stepped {move : HandlerMove C Hash}
    (h : w.handlerStep s l (s.handler l) move = some s') : HandlerStepped w s l s' := by
  cases hpc : s.handler l with
  | idle =>
      rw [hpc] at h
      cases move with
      | go =>
          simp only [Pushing.handlerStep] at h
          split_ifs at h
          cases h
          exact .early _ (by rw [hpc]; rfl) rfl
      | fail | read | pull | answer | close => simp [Pushing.handlerStep] at h
  | accepting =>
      rw [hpc] at h
      cases move with
      | go =>
          simp only [Pushing.handlerStep] at h
          split_ifs at h <;>
          · cases h
            exact .early _ (by rw [hpc]; rfl) rfl
      | fail e =>
          cases e with
          | accept =>
              cases h
              exact .early _ (by rw [hpc]; rfl) rfl
          | acceptBi | readOffer | senderAddr | writeAck | panicked | pull =>
              simp [Pushing.handlerStep] at h
      | read | pull | answer | close => simp [Pushing.handlerStep] at h
  | opening =>
      rw [hpc] at h
      cases move with
      | go =>
          cases h
          exact .early _ (by rw [hpc]; rfl) rfl
      | fail e =>
          cases e with
          | acceptBi =>
              cases h
              exact .early _ (by rw [hpc]; rfl) rfl
          | accept | readOffer | senderAddr | writeAck | panicked | pull =>
              simp [Pushing.handlerStep] at h
      | read | pull | answer | close => simp [Pushing.handlerStep] at h
  | reading =>
      rw [hpc] at h
      cases move with
      | read offer =>
          simp only [Pushing.handlerStep] at h
          split_ifs at h with hread
          obtain rfl := Option.some.inj h
          rw [Pushing.readOffer]
          cases toEndpointAddr w.codec offer.senderAddr with
          | error e => exact .early _ (by rw [hpc]; rfl) rfl
          | ok a =>
              refine .got offer (by rw [hpc]; rfl) fun n hn => ?_
              subst hn
              exact of_decide_eq_true hread
      | fail e =>
          cases e with
          | readOffer =>
              cases h
              exact .early _ (by rw [hpc]; rfl) rfl
          | accept | acceptBi | senderAddr | writeAck | panicked | pull =>
              simp [Pushing.handlerStep] at h
      | go | pull | answer | close => simp [Pushing.handlerStep] at h
  | pulling offer pc =>
      rw [hpc] at h
      cases move with
      | pull move =>
          simp only [Pushing.handlerStep, Pushing.pullMove] at h
          cases hp : w.peer l with
          | none =>
              rw [hp] at h
              cases h
          | some p =>
              rw [hp] at h
              obtain ⟨o, ho, rfl⟩ := Option.map_eq_some_iff.mp h
              exact .pulled p offer pc _ _ hp hpc (pullStep_stepped ho)
      | answer =>
          obtain ⟨r, hr, rfl⟩ := Option.map_eq_some_iff.mp h
          exact .answered offer pc r hpc (PullPc.returned_eq.mp hr).1
      | fail e =>
          cases e with
          | writeAck | panicked =>
              simp only [Pushing.handlerStep] at h
              split_ifs at h
              cases h
              exact .dropped offer pc _ hpc
          | accept | acceptBi | readOffer | senderAddr | pull =>
              simp [Pushing.handlerStep] at h
      | go | read | close => simp [Pushing.handlerStep] at h
  | answered offer pc r =>
      rw [hpc] at h
      cases move with
      | pull move =>
          cases move with
          | unlink below =>
              simp only [Pushing.handlerStep, Pushing.pullMove] at h
              cases hp : w.peer l with
              | none =>
                  rw [hp] at h
                  cases h
              | some p =>
                  rw [hp] at h
                  obtain ⟨⟨pc', fs'⟩, ho, rfl⟩ := Option.map_eq_some_iff.mp h
                  obtain ⟨rfl, hsame⟩ := unlink_same ho
                  exact .cleaned p offer pc' r fs' hp hpc hsame
          | go | fault | fail | empty | fetched | chunk | exportFailed | blob =>
              simp [Pushing.handlerStep] at h
      | close =>
          simp only [Pushing.handlerStep] at h
          split_ifs at h
          cases h
          exact .closed offer pc r hpc
      | go | fail | read | answer => simp [Pushing.handlerStep] at h
  | closed r =>
      rw [hpc] at h
      cases move <;> simp [Pushing.handlerStep] at h

/-! ### A connection on its own -/

/-- What `handle_sync_connection` returns, once it does. -/
def HandlerPc.result : HandlerPc C Hash → Option (Except HandlerError Unit)
  | .answered _ _ r | .closed r => some r
  | _ => none

/-- Some moves of the handler of `l` lead from `s` to a result, an answer and a store of `p`. -/
def HandlerEnds (w : Pushing μ π C NodeId Sock Relay Hash) (l : Link μ) (p : π)
    (s : Traffic μ π C Hash) (o : Handled C) : Prop :=
  ∃ moves s', exec (fun t move => w.step t (.handler l move)) s moves = some s'
    ∧ (s'.handler l).result = some o.result ∧ s'.toSender l = o.ack ∧ s'.store p = o.fs

variable {p : π} {o : Handled C}

lemma HandlerEnds.step {move : HandlerMove C Hash} (hstep : w.step s (.handler l move) = some s')
    (h : HandlerEnds w l p s' o) : HandlerEnds w l p s o := by
  obtain ⟨moves, t, hrun, hrest⟩ := h
  refine ⟨move :: moves, t, ?_, hrest⟩
  rw [exec, hstep]
  exact hrun

lemma handlerEnds_closed {r : Except HandlerError Unit} (hsilent : s.toSender l = none) :
    HandlerEnds w l p (Pushing.goes s l (.closed r)) ⟨r, none, s.store p⟩ := by
  refine ⟨[], _, rfl, ?_, hsilent, rfl⟩
  simp only [Pushing.goes, Function.update_self]
  rfl

/-- A move of the handler where it stands. -/
lemma step_handler {pc : HandlerPc C Hash} {move : HandlerMove C Hash}
    (hpc : s.handler l = pc) :
    w.step s (.handler l move) = w.handlerStep s l pc move := by
  rw [Pushing.step, hpc]

/-- The handler of `l` runs a `pull` that stands at `pc`, over the store `fs` of `p`. -/
def inPull (s : Traffic μ π C Hash) (l : Link μ) (p : π) (offer : SyncOffer)
    (pc : PullPc C Hash) (fs : FileSystem C) : Traffic μ π C Hash :=
  { s with
    store := Function.update s.store p fs
    handler := Function.update s.handler l (.pulling offer pc) }

/-- The moves of a `pull` are moves of its handler. -/
lemma inPull_run {offer : SyncOffer} {pc pc' : PullPc C Hash} {fs fs' : FileSystem C}
    {moves : List (PullMove C Hash)} (hp : w.peer l = some p)
    (h : exec (fun t move => pullStep w.codec w.blobs (w.root p) (w.call l offer) t.2 t.1 move)
      (pc, fs) moves = some (pc', fs')) :
    exec (fun t move => w.step t (.handler l move)) (inPull s l p offer pc fs)
      (moves.map .pull) = some (inPull s l p offer pc' fs') := by
  induction moves generalizing pc fs with
  | nil =>
      obtain ⟨rfl, rfl⟩ := Prod.mk.inj (Option.some.inj h)
      rfl
  | cons move moves ih =>
      obtain ⟨⟨qc, fs₁⟩, hq, hrest⟩ := Option.bind_eq_some_iff.mp h
      have hmove : w.step (inPull s l p offer pc fs) (.handler l (.pull move))
          = some (inPull s l p offer qc fs₁) := by
        rw [step_handler (Function.update_self ..), Pushing.handlerStep, Pushing.pullMove, hp]
        have hstore : (inPull s l p offer pc fs).store p = fs := Function.update_self ..
        simp only [hstore, hq, Option.map_some]
        simp only [inPull, Function.update_idem]
      rw [List.map_cons, exec, hmove]
      exact ih hrest

/-- The rest of a handler, from its `pull` on. -/
lemma handlerEnds_pull {offer : SyncOffer} {io : Pulling C}
    (hp : w.peer l = some p) (hpc : s.handler l = .pulling offer .start)
    (hsilent : s.toSender l = none)
    (hgenuine : ∀ hash ∈ w.codec.parseHash offer.hash, io.Genuine w.blobs hash)
    (hrecv : w.recv l = io.recv) (hexport : w.exportStamp l = io.exportStamp)
    (hguard : io.cleanup = true) {r : Except PullError Unit} {fs' : FileSystem C}
    (hpull : pull w.codec (w.root p) offer.hash offer.fileName io (s.store p) = (r, fs'))
    (ackSent : Bool) : HandlerEnds w l p s
      (if r = .error .hashPanic then ⟨.error .panicked, none, fs'⟩
        else if !ackSent then ⟨.error .writeAck, none, fs'⟩
        else ⟨Pushing.answerResult r, some (ackOf w.dbg w.ioText r), fs'⟩) := by
  obtain ⟨moves, pc, hresult, hrun⟩ := pull_steps (p := w.call l offer) hgenuine hrecv hexport
    hguard hpull
  have hstart : inPull s l p offer .start (s.store p) = s := by
    rw [inPull, Function.update_eq_self, ← hpc, Function.update_eq_self]
  have hmoves := inPull_run (s := s) hp hrun
  rw [hstart] at hmoves
  have hlast : ∀ (move : HandlerMove C Hash) (t : Traffic μ π C Hash) (o : Handled C),
      w.step (inPull s l p offer pc fs') (.handler l move) = some t →
      (t.handler l).result = some o.result → t.toSender l = o.ack → t.store p = o.fs →
      HandlerEnds w l p s o := by
    intro move t o hstep hr hack hfs
    refine ⟨moves.map .pull ++ [move], t, ?_, hr, hack, hfs⟩
    rw [exec_snoc, hmoves]
    exact hstep
  have hat : (inPull s l p offer pc fs').handler l = .pulling offer pc := Function.update_self ..
  have hfs : (inPull s l p offer pc fs').store p = fs' := Function.update_self ..
  by_cases hpanic : r = .error .hashPanic
  · rw [if_pos hpanic]
    refine hlast (.fail .panicked) (Pushing.goes (inPull s l p offer pc fs') l
      (.answered offer pc (.error .panicked))) _ ?_ ?_ hsilent hfs
    · rw [step_handler hat, Pushing.handlerStep, if_pos (hpanic ▸ hresult)]
    · simp only [Pushing.goes, Function.update_self]
      rfl
  rw [if_neg hpanic]
  have hreturned : pc.returned = some r := PullPc.returned_eq.mpr ⟨hresult, hpanic⟩
  cases ackSent with
  | false =>
      refine hlast (.fail .writeAck) (Pushing.goes (inPull s l p offer pc fs') l
        (.answered offer pc (.error .writeAck))) _ ?_ ?_ hsilent hfs
      · rw [step_handler hat, Pushing.handlerStep, if_pos (by rw [hreturned]; rfl)]
      · simp only [Pushing.goes, Function.update_self]
        rfl
  | true =>
      refine hlast .answer (w.answer l offer pc r (inPull s l p offer pc fs')) _ ?_ ?_ ?_ hfs
      · rw [step_handler hat, Pushing.handlerStep, hreturned, Option.map_some]
      · simp only [Pushing.answer, Function.update_self]
        rfl
      · simp only [Pushing.answer, Function.update_self]
        rfl

/-- **A connection on its own.**  Whatever a connection meets, if its download is genuine then
some moves of its handler lead to what `handleSyncConnection` returns, answers and leaves. -/
theorem handler_steps {inc : Incoming} {io : Pulling C} (hp : w.peer l = some p)
    (hpc : s.handler l = .accepting) (hsilent : s.toSender l = none)
    (halpn : inc.alpn = w.linkAlpn l)
    (hread : ∀ offer ∈ inc.offer, Pushing.readable s offer l = true)
    (hgenuine : ∀ offer ∈ inc.offer, ∀ hash ∈ w.codec.parseHash offer.hash,
      io.Genuine w.blobs hash)
    (hrecv : w.recv l = io.recv) (hexport : w.exportStamp l = io.exportStamp)
    (hguard : io.cleanup = true) :
    HandlerEnds w l p s
      (handleSyncConnection w.codec w.dbg w.ioText (w.root p) inc io (s.store p)) := by
  have hgoes : ∀ (t : Traffic μ π C Hash) (pc : HandlerPc C Hash),
      (Pushing.goes t l pc).handler l = pc := fun t pc => Function.update_self ..
  have hagain : ∀ (pc pc' : HandlerPc C Hash),
      Pushing.goes (Pushing.goes s l pc) l pc' = Pushing.goes s l pc' := by
    intro pc pc'
    simp only [Pushing.goes, Function.update_idem]
  rw [handleSyncConnection]
  by_cases hacc : inc.accepted = true
  swap
  · rw [if_pos (by simpa using hacc)]
    have hfail : w.step s (.handler l (.fail .accept))
        = some (Pushing.goes s l (.closed (.error .accept))) := by
      rw [step_handler hpc, Pushing.handlerStep]
    exact HandlerEnds.step hfail (handlerEnds_closed hsilent)
  rw [if_neg (by simpa using hacc)]
  by_cases halp : inc.alpn = syncAlpn
  swap
  · rw [if_pos halp]
    have hgo : w.step s (.handler l .go) = some (Pushing.goes s l (.closed (.ok ()))) := by
      rw [step_handler hpc, Pushing.handlerStep, if_pos (halpn ▸ halp)]
    exact HandlerEnds.step hgo (handlerEnds_closed hsilent)
  rw [if_neg (not_not.mpr halp)]
  have hopen : w.step s (.handler l .go) = some (Pushing.goes s l .opening) := by
    rw [step_handler hpc, Pushing.handlerStep, if_neg (not_not.mpr (halpn.symm.trans halp))]
  refine HandlerEnds.step hopen ?_
  by_cases hstream : inc.stream = true
  swap
  · rw [if_pos (by simpa using hstream)]
    have hfail : w.step (Pushing.goes s l .opening) (.handler l (.fail .acceptBi))
        = some (Pushing.goes s l (.closed (.error .acceptBi))) := by
      rw [step_handler (hgoes _ _), Pushing.handlerStep, hagain]
    exact HandlerEnds.step hfail (handlerEnds_closed hsilent)
  rw [if_neg (by simpa using hstream)]
  have hreading : w.step (Pushing.goes s l .opening) (.handler l .go)
      = some (Pushing.goes s l .reading) := by
    rw [step_handler (hgoes _ _), Pushing.handlerStep, hagain]
  refine HandlerEnds.step hreading ?_
  cases hoffer : inc.offer with
  | none =>
      have hfail : w.step (Pushing.goes s l .reading) (.handler l (.fail .readOffer))
          = some (Pushing.goes s l (.closed (.error .readOffer))) := by
        rw [step_handler (hgoes _ _), Pushing.handlerStep, hagain]
      exact HandlerEnds.step hfail (handlerEnds_closed hsilent)
  | some offer =>
      have hcan : Pushing.readable (Pushing.goes s l .reading) offer l = true := hread offer hoffer
      have hread' : w.step (Pushing.goes s l .reading) (.handler l (.read offer))
          = some (w.readOffer l offer (Pushing.goes s l .reading)) := by
        rw [step_handler (hgoes _ _), Pushing.handlerStep, if_pos hcan]
      refine HandlerEnds.step hread' ?_
      cases haddr : toEndpointAddr w.codec offer.senderAddr with
      | error e =>
          simp only [Pushing.readOffer, haddr, hagain]
          exact handlerEnds_closed hsilent
      | ok addr =>
          simp only [Pushing.readOffer, haddr, hagain]
          rcases hpull : pull w.codec (w.root p) offer.hash offer.fileName io (s.store p)
            with ⟨r, fs'⟩
          have hend := handlerEnds_pull (s := Pushing.goes s l (.pulling offer .start)) hp
            (hgoes _ _) hsilent (hgenuine offer hoffer) hrecv hexport hguard hpull inc.ackSent
          cases r with
          | ok u => exact hend
          | error e => exact hend

end Steps

end Dddatasync
