import Dddatasync.Enrolment
import Dddatasync.Pushing
import Dddatasync.Rendezvous.RustApi
import Dddatasync.Watcher

/-!
The loop of `Watcher::run` in `src/watcher.rs` with its clock, and the rendezvous server it
registers with.

* `PushWait`: what a `push` waits for, in order, with the timeouts of `src/sync.rs`.
* `RunPc`, `Running`: where the loop stands, its keepalive interval, the events that wait for
  it, the server and the time.
* `Watcher.step`: time passes in a wait, the loop makes a move, an event comes in, or somebody
  else sends the server a request.  The server answers every request at once.
* `LoopStepped`, `step_stepped`: what a move does to the clock, the interval and the server.
-/

namespace Dddatasync

open Fs OsString Rendezvous

/-! ### Time -/

/-- One second on the clock of the loop, which counts nanoseconds. -/
def second : ℕ := 10 ^ 9

/-- `now_secs` of the server. -/
def nowSecs (now : ℕ) : ℕ := now / second

/-- `KEEPALIVE_INTERVAL`. -/
def keepaliveInterval : ℕ := 120 * second

/-- How long `run` waits for its endpoint to come online. -/
def startupTimeout : ℕ := 30 * second

/-- The room in the channel of file events. -/
def channelCapacity : ℕ := 64

/-! ### A push -/

/-- What `push` waits for: its store and endpoint, a relay, the import of the file, a peer, the
shutdown of the router. -/
inductive PushWait where
  | preparing
  | online
  | importing
  | notifying (call : NotifyPc)
  | closing
  deriving DecidableEq, Repr

/-- The timeout of a wait; some have none. -/
def PushWait.timeout : PushWait → Option ℕ
  | .online => some (30 * second)
  | .notifying .connecting => some (30 * second)
  | .notifying .waiting => some (120 * second)
  | .closing => some (5 * second)
  | _ => none

/-- `push` goes on to the first of these peers, or shuts its router down. -/
def PushWait.notify {Addr : Type*} : List Addr → PushWait × List Addr
  | [] => (.closing, [])
  | p :: ps => (.notifying .connecting, p :: ps)

/-- What `push` waits for next when a wait ends, well or badly; `none` when it returns.  The
first of the peers is the one it is notifying. -/
def PushWait.after {Addr : Type*} : PushWait → Bool → List Addr → Option (PushWait × List Addr)
  | .preparing, true, peers => some (.online, peers)
  | .online, true, peers => some (.importing, peers)
  | .importing, true, peers => some (notify peers)
  | .notifying .connecting, true, peers => some (.notifying .opening, peers)
  | .notifying .opening, true, peers => some (.notifying .writing, peers)
  | .notifying .writing, true, peers => some (.notifying .waiting, peers)
  -- answered or given up
  | .notifying _, _, peers => some (notify peers.tail)
  | _, _, _ => none

/-! ### The loop -/

/-- Where `run` stands: before its endpoint is online, in its `select!`, at a path of an event,
in a `push` for one, or returned.  A deadline is when the wait times out. -/
inductive RunPc (Addr : Type*) where
  | startup (deadline : ℕ)
  | selecting
  | handling (path : PathBuf) (paths : List PathBuf)
  | pushing (wait : PushWait) (deadline : Option ℕ) (peers : List Addr) (paths : List PathBuf)
  | stopped

namespace RunPc

variable {Addr : Type*}

/-- The loop has set up its interval and runs. -/
def active : RunPc Addr → Bool
  | .startup _ | .stopped => false
  | _ => true

/-- The loop waits inside a `push`. -/
def isPushing : RunPc Addr → Bool
  | .pushing _ _ _ _ => true
  | _ => false

/-- The loop over the paths of an event. -/
def handle : List PathBuf → RunPc Addr
  | [] => .selecting
  | path :: paths => .handling path paths

/-- The first half of `handle_event`, on what comes out of the channel. -/
def received : Option Event → RunPc Addr
  | none => .selecting
  | some ev => if ev.kind = .create ∨ ev.kind = .modify then handle ev.paths else .selecting

/-- `push` begins a wait. -/
def await (now : ℕ) (wait : PushWait) (peers : List Addr) (paths : List PathBuf) : RunPc Addr :=
  .pushing wait (wait.timeout.map (now + ·)) peers paths

end RunPc

/-- The loop and the server at a time.  The interval ticks when it is `due`; at `turn` the loop
registered last, with or without success; `confirmed` is the time on the server's clock at which
a registration last succeeded. -/
structure Running (Addr : Type*) where
  now : ℕ
  server : AppState
  pc : RunPc Addr
  due : ℕ
  turn : ℕ
  queue : List (Option Event)
  confirmed : Option ℕ

/-- `run` begins. -/
def Running.init {Addr : Type*} (server : AppState) (now : ℕ) : Running Addr where
  now := now
  server := server
  pc := .startup (now + startupTimeout)
  due := now
  turn := now
  queue := []
  confirmed := none

/-- So much time can pass before the loop goes on: the `select!` waits while nothing is ready,
and a wait with a timeout ends at its deadline. -/
def Running.mayWait {Addr : Type*} (s : Running Addr) (d : ℕ) : Bool :=
  match s.pc with
  | .startup deadline => s.now + d ≤ deadline
  | .selecting => s.queue.isEmpty && s.now + d ≤ s.due
  | .handling _ _ => false
  | .pushing _ deadline _ _ => deadline.all (s.now + d ≤ ·)
  | .stopped => false

/-- What happens next: time passes; the endpoint comes online or does not; the interval ticks;
an event, or an error of the notify watcher, comes into the channel or out of it; the loop looks
at a path, in a store as it is then; a wait of a `push` ends; the shutdown signal is seen;
somebody else sends a request. -/
inductive RunMove (C NodeId Sock Relay : Type*) where
  | wait (d : ℕ)
  | online (addr : EndpointAddr NodeId Sock Relay)
  | offline
  | tick (addr : EndpointAddr NodeId Sock Relay)
  | notice (ev : Option Event)
  | recv
  | file (io : Faults C) (fs : FileSystem C)
  | push (ok : Bool)
  | shutdown
  | other (request : Request) (read : Reading)

/-- The answer of the server to a request, at once. -/
def serve (x : Externals) (now : ℕ) (read : Reading) (request : Request) (server : AppState) :
    Option (AppState × Response) :=
  complete x { read with now := nowSecs now } request 3 server .start

variable {C NodeId Sock Relay Hash : Type*}

/-- `Watcher`, with its store root, its token and the code of other crates that it calls. -/
structure Watcher (NodeId Sock Relay Hash : Type*) where
  codec : Codec NodeId Sock Relay Hash
  crypto : Crypto NodeId
  identity : UserIdentity
  token : String
  root : AbsPath

namespace Watcher

/-- The node id as the watcher registers it. -/
def nodeId (w : Watcher NodeId Sock Relay Hash) : String :=
  w.codec.printNodeId (w.identity.nodeId w.crypto)

/-- `RendezvousClient::bearer`. -/
def header (w : Watcher NodeId Sock Relay Hash) : Option String := some ("Bearer " ++ w.token)

variable [HasLen C] [LinearOrder Sock] [LinearOrder Relay]

/-- `register_with_rendezvous`. -/
def register (w : Watcher NodeId Sock Relay Hash) (x : Externals)
    (addr : EndpointAddr NodeId Sock Relay) (s : Running (EndpointAddr NodeId Sock Relay)) :
    Running (EndpointAddr NodeId Sock Relay) :=
  let request := .register w.header (some (registerRequest w.codec w.crypto w.identity addr))
  match serve x s.now { token := "" } request s.server with
  | none => { s with turn := s.now }
  | some (server, response) => { s with
      server := server
      turn := s.now
      confirmed := if response.Accepted then some (nowSecs s.now) else s.confirmed }

/-- `RendezvousClient::deregister`, at the end of `run`. -/
def deregister (w : Watcher NodeId Sock Relay Hash) (x : Externals)
    (s : Running (EndpointAddr NodeId Sock Relay)) : Running (EndpointAddr NodeId Sock Relay) :=
  let request := .deregister w.header (some ⟨w.identity.username, w.nodeId⟩)
  match serve x s.now { token := "" } request s.server with
  | none => { s with pc := .stopped }
  | some (server, _) => { s with server := server, pc := .stopped }

/-- One path of an event: the rest of `handle_event`, and `push_file` up to its `push`. -/
def handleFile (w : Watcher NodeId Sock Relay Hash) (io : Faults C) (fs : FileSystem C)
    (path : PathBuf) (paths : List PathBuf) (s : Running (EndpointAddr NodeId Sock Relay)) :
    RunPc (EndpointAddr NodeId Sock Relay) :=
  if isDotFile path || !isFile fs path then .handle paths
  else
    let peers := fetchPeers w.codec w.crypto w.identity fun username =>
      s.server.registry.peers username (nowSecs s.now)
    match pushFile w.root io fs peers.toOption path with
    | .pushed peers => .await s.now .preparing peers paths
    | _ => .handle paths

/-- One move; a token of somebody else is not the token of this device. -/
def step (w : Watcher NodeId Sock Relay Hash) (x : Externals)
    (s : Running (EndpointAddr NodeId Sock Relay)) :
    RunMove C NodeId Sock Relay → Option (Running (EndpointAddr NodeId Sock Relay))
  | .wait d => if s.mayWait d then some { s with now := s.now + d } else none
  | .online addr =>
      match s.pc with
      | .startup _ => some { w.register x addr s with
          pc := .selecting
          due := s.now + keepaliveInterval }
      | _ => none
  | .offline =>
      match s.pc with
      | .startup deadline => if s.now = deadline then some { s with pc := .stopped } else none
      | _ => none
  | .tick addr =>
      match s.pc with
      | .selecting =>
          -- a late tick does not move the later ones
          if s.due ≤ s.now then
            some { w.register x addr s with due := s.due + keepaliveInterval }
          else none
      | _ => none
  | .notice ev =>
      if s.pc.active ∧ s.queue.length < channelCapacity then
        some { s with queue := s.queue ++ [ev] }
      else none
  | .recv =>
      match s.pc, s.queue with
      | .selecting, ev :: queue => some { s with pc := .received ev, queue := queue }
      | _, _ => none
  | .file io fs =>
      match s.pc with
      | .handling path paths => some { s with pc := w.handleFile io fs path paths s }
      | _ => none
  | .push ok =>
      match s.pc with
      | .pushing wait _ peers paths => some { s with
          pc := match wait.after ok peers with
            | none => .handle paths
            | some (wait, peers) => .await s.now wait peers paths }
      | _ => none
  | .shutdown =>
      match s.pc with
      | .selecting => some (w.deregister x s)
      | _ => none
  | .other request read =>
      if read.token = w.token then none
      else (serve x s.now read request s.server).map fun answer => { s with server := answer.1 }

end Watcher

/-! ### What a move does -/

variable [HasLen C] [LinearOrder Sock] [LinearOrder Relay]

/-- The kinds of move: time passes; the loop registers, at its start or on a tick; it goes on
without the server; it is over; somebody else is served. -/
inductive LoopStepped (w : Watcher NodeId Sock Relay Hash) (x : Externals)
    (s : Running (EndpointAddr NodeId Sock Relay)) :
    RunMove C NodeId Sock Relay → Running (EndpointAddr NodeId Sock Relay) → Prop
  | waited {d : ℕ} (h : s.mayWait d = true) :
      LoopStepped w x s (.wait d) { s with now := s.now + d }
  | started {addr : EndpointAddr NodeId Sock Relay} {deadline : ℕ}
      (hpc : s.pc = .startup deadline) :
      LoopStepped w x s (.online addr)
        { w.register x addr s with pc := .selecting, due := s.now + keepaliveInterval }
  | ticked {addr : EndpointAddr NodeId Sock Relay} (hpc : s.pc = .selecting)
      (hdue : s.due ≤ s.now) :
      LoopStepped w x s (.tick addr)
        { w.register x addr s with pc := .selecting, due := s.due + keepaliveInterval }
  | moved {a : RunMove C NodeId Sock Relay} {pc : RunPc (EndpointAddr NodeId Sock Relay)}
      {queue : List (Option Event)} (hpc : s.pc.active = true) (hpc' : pc.active = true) :
      LoopStepped w x s a { s with pc := pc, queue := queue }
  | ended {a : RunMove C NodeId Sock Relay} {server : AppState} :
      LoopStepped w x s a { s with server := server, pc := .stopped }
  | served {request : Request} {read : Reading} {server : AppState} {response : Response}
      (htoken : read.token ≠ w.token)
      (h : serve x s.now read request s.server = some (server, response)) :
      LoopStepped w x s (.other request read) { s with server := server }

section Stepped

variable {w : Watcher NodeId Sock Relay Hash} {x : Externals}
  {s s' : Running (EndpointAddr NodeId Sock Relay)} {a : RunMove C NodeId Sock Relay}

@[simp]
lemma active_handle {Addr : Type*} (paths : List PathBuf) :
    (RunPc.handle paths : RunPc Addr).active = true := by
  cases paths <;> rfl

@[simp]
lemma active_received {Addr : Type*} (ev : Option Event) :
    (RunPc.received ev : RunPc Addr).active = true := by
  cases ev with
  | none => rfl
  | some ev =>
      rw [RunPc.received]
      split_ifs
      · exact active_handle _
      · rfl

lemma active_handleFile (io : Faults C) (fs : FileSystem C) (path : PathBuf)
    (paths : List PathBuf) : (w.handleFile io fs path paths s).active = true := by
  simp only [Watcher.handleFile]
  split
  · exact active_handle _
  · split
    · rfl
    · exact active_handle _

/-- Registering changes neither the place of the loop nor its interval. -/
lemma register_frame (addr : EndpointAddr NodeId Sock Relay) :
    (w.register x addr s).now = s.now ∧ (w.register x addr s).pc = s.pc
      ∧ (w.register x addr s).due = s.due ∧ (w.register x addr s).turn = s.now
      ∧ (w.register x addr s).queue = s.queue := by
  simp only [Watcher.register]
  split <;> exact ⟨rfl, rfl, rfl, rfl, rfl⟩

/-- A move is of one of these kinds. -/
lemma step_stepped (hs : w.step x s a = some s') : LoopStepped w x s a s' := by
  cases a with
  | wait d =>
      rw [Watcher.step] at hs
      split_ifs at hs with hwait
      obtain rfl := Option.some.inj hs
      exact .waited hwait
  | online addr =>
      simp only [Watcher.step] at hs
      split at hs
      · rename_i deadline hpc
        obtain rfl := Option.some.inj hs
        exact .started hpc
      · cases hs
  | offline =>
      simp only [Watcher.step] at hs
      split at hs
      · split_ifs at hs
        obtain rfl := Option.some.inj hs
        exact .ended
      · cases hs
  | tick addr =>
      simp only [Watcher.step] at hs
      split at hs
      · rename_i hpc
        split_ifs at hs with hdue
        obtain rfl := Option.some.inj hs
        have hstays : (w.register x addr s).pc = .selecting := (register_frame addr).2.1.trans hpc
        have hticked : LoopStepped w x s (.tick addr : RunMove C NodeId Sock Relay)
            { w.register x addr s with pc := .selecting, due := s.due + keepaliveInterval } :=
          .ticked hpc hdue
        rwa [← hstays] at hticked
      · cases hs
  | notice ev =>
      simp only [Watcher.step] at hs
      split_ifs at hs with h
      obtain rfl := Option.some.inj hs
      exact .moved h.1 h.1
  | recv =>
      simp only [Watcher.step] at hs
      split at hs
      · rename_i ev queue hpc hqueue
        obtain rfl := Option.some.inj hs
        exact .moved (by rw [hpc]; rfl) (active_received ev)
      · cases hs
  | file io fs =>
      simp only [Watcher.step] at hs
      split at hs
      · rename_i path paths hpc
        obtain rfl := Option.some.inj hs
        exact .moved (by rw [hpc]; rfl) (active_handleFile io fs path paths)
      · cases hs
  | push ok =>
      simp only [Watcher.step] at hs
      split at hs
      · rename_i wait deadline peers paths hpc
        obtain rfl := Option.some.inj hs
        refine .moved (by rw [hpc]; rfl) ?_
        cases wait.after ok peers with
        | none => exact active_handle paths
        | some next => rfl
      · cases hs
  | shutdown =>
      simp only [Watcher.step] at hs
      split at hs
      · obtain rfl := Option.some.inj hs
        simp only [Watcher.deregister]
        split
        · exact .ended
        · exact .ended
      · cases hs
  | other request read =>
      rw [Watcher.step] at hs
      split_ifs at hs with htoken
      obtain ⟨⟨server, response⟩, hserve, rfl⟩ := Option.map_eq_some_iff.mp hs
      exact .served htoken hserve

end Stepped

end Dddatasync
