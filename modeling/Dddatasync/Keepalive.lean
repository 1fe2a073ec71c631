import Dddatasync.Rendezvous.Presence
import Dddatasync.WatcherLoop

/-!
The keepalive of `Watcher::run`: whether a running device can be found.

* `Watcher.Discoverable`: `GET /peers` lists the node.
* `Watcher.KeepsUp`: what it takes of a move: a wait in a push ends before the record of the
  node is too old, a tick finds the session of the device alive, and nobody else deregisters
  the node.
* `Watcher.Kept`: the interval is never more than its period after the last registration, and
  the record of the node is as old as that registration; `kept_step`, one case for each kind of
  move.
* `discoverable_while_running`: a run that keeps up lists the node in every state.
* `hidden_while_running`: two slow peers, or a session that expires, hide a running device.
-/

namespace Dddatasync

open Fs OsString Rendezvous Runs

variable {C NodeId Sock Relay Hash : Type*}

/-! ### Seconds -/

lemma nowSecs_mono {a b : ℕ} (h : a ≤ b) : nowSecs a ≤ nowSecs b := Nat.div_le_div_right h

lemma nowSecs_add_interval (a : ℕ) : nowSecs (a + keepaliveInterval) = nowSecs a + 120 :=
  Nat.add_mul_div_right a 120 (by decide)

/-! ### The device on the server -/

/-- The header of a watcher carries its token. -/
lemma bearer_header (w : Watcher NodeId Sock Relay Hash) : bearer w.header = some w.token :=
  bearer_append w.token

namespace Watcher

/-- The server knows the device as a speaker for its account. -/
def MayRegister (w : Watcher NodeId Sock Relay Hash)
    (s : Running (EndpointAddr NodeId Sock Relay)) : Prop :=
  Speaker s.server (nowSecs s.now) w.token w.identity.username

/-- The server has a record of the node, seen at `since` or later. -/
def Present (w : Watcher NodeId Sock Relay Hash) (since : ℕ) (server : AppState) : Prop :=
  Presence w.identity.username w.nodeId w.token since server

end Watcher

/-! ### What holds along a run -/

namespace Watcher

/-- `GET /peers` lists the node. -/
def Discoverable (w : Watcher NodeId Sock Relay Hash)
    (s : Running (EndpointAddr NodeId Sock Relay)) : Prop :=
  w.nodeId ∈ (s.server.registry.peers w.identity.username (nowSecs s.now)).map (·.nodeId)

/-- The move does not cost the node its record: a wait in a push ends before the loop has been
away from its registrations for longer than the server keeps a record, a tick finds the session
of the token alive, and a request of somebody else does not deregister the node. -/
def KeepsUp (w : Watcher NodeId Sock Relay Hash)
    (s : Running (EndpointAddr NodeId Sock Relay)) : RunMove C NodeId Sock Relay → Prop
  | .wait d => s.pc.isPushing = true → nowSecs (s.now + d) ≤ nowSecs s.turn + peerTtlSecs
  | .tick _ => ∃ session ∈ s.server.sessions.lookup w.token, nowSecs s.now ≤ session.expiresAt
  | .other request _ => request.Tame w.identity.username w.nodeId
  | _ => True

/-- The registrations and the clock: the interval ticks at most a period after the loop was
there last; once a registration has succeeded they all do, and the record is as old as the
last. -/
structure Kept (w : Watcher NodeId Sock Relay Hash)
    (s : Running (EndpointAddr NodeId Sock Relay)) : Prop where
  turn_le : s.turn ≤ s.now
  due_le : s.pc.active = true → s.due ≤ s.turn + keepaliveInterval
  startup : ∀ deadline, s.pc = .startup deadline → s.confirmed = none
  present : s.confirmed.isSome → s.pc ≠ .stopped → s.confirmed = some (nowSecs s.turn)
    ∧ nowSecs s.now ≤ nowSecs s.turn + peerTtlSecs ∧ w.Present (nowSecs s.turn) s.server

end Watcher

section Waiting

variable {w : Watcher NodeId Sock Relay Hash} {s : Running (EndpointAddr NodeId Sock Relay)}

lemma kept_init (server : AppState) (now : ℕ) : w.Kept (.init server now) where
  turn_le := le_rfl
  due_le := fun h => by cases h
  startup := fun _ _ => rfl
  present := fun h => by cases h

/-- Time that passes makes the record no older than the server keeps it: the `select!` waits for
no longer than the next tick, and a push keeps up. -/
lemma Watcher.Kept.wait (h : w.Kept s) {d : ℕ} (hwait : s.mayWait d = true)
    (hkeeps : s.confirmed.isSome → w.KeepsUp s (.wait d : RunMove C NodeId Sock Relay))
    (hconfirmed : s.confirmed.isSome) :
    nowSecs (s.now + d) ≤ nowSecs s.turn + peerTtlSecs := by
  have hkeeps := hkeeps hconfirmed
  have hdue := h.due_le
  have hstartup := h.startup
  rw [Running.mayWait] at hwait
  rw [Watcher.KeepsUp] at hkeeps
  cases hpc : s.pc with
  | startup deadline =>
      rw [hstartup deadline hpc] at hconfirmed
      cases hconfirmed
  | selecting =>
      rw [hpc] at hwait hdue
      simp only [Bool.and_eq_true, decide_eq_true_eq] at hwait
      have hle : s.now + d ≤ s.turn + keepaliveInterval := hwait.2.trans (hdue rfl)
      calc nowSecs (s.now + d)
          ≤ nowSecs (s.turn + keepaliveInterval) := nowSecs_mono hle
        _ = nowSecs s.turn + 120 := nowSecs_add_interval _
        _ ≤ nowSecs s.turn + peerTtlSecs := Nat.add_le_add_left (by decide) _
  | handling path paths =>
      rw [hpc] at hwait
      cases hwait
  | pushing wait deadline peers paths =>
      exact hkeeps (by rw [hpc]; rfl)
  | stopped =>
      rw [hpc] at hwait
      cases hwait

end Waiting

/-! ### Registering -/

variable [LinearOrder Sock] [LinearOrder Relay]

section Registering

variable {w : Watcher NodeId Sock Relay Hash} {x : Externals}
  {s : Running (EndpointAddr NodeId Sock Relay)} {addr : EndpointAddr NodeId Sock Relay}

lemma register_speaker (h : w.MayRegister s) :
    (w.register x addr s).confirmed = some (nowSecs s.now)
      ∧ w.Present (nowSecs s.now) (w.register x addr s).server := by
  let req := registerRequest w.codec w.crypto w.identity addr
  let read : Reading := { token := "", now := nowSecs s.now }
  have hspeaker : Speaker s.server read.now w.token req.username := h
  have hserve : serve x s.now { token := "" } (.register w.header (some req)) s.server
      = some (registered read req s.server, ⟨200, .empty⟩) :=
    complete_register_speaker (bearer_header w) hspeaker
  simp only [Watcher.register, req, hserve]
  exact ⟨if_pos accepted_ok, .of_register hspeaker⟩

lemma register_refused (h : ¬ w.MayRegister s) :
    (w.register x addr s).confirmed = s.confirmed := by
  let req := registerRequest w.codec w.crypto w.identity addr
  let read : Reading := { token := "", now := nowSecs s.now }
  have hno : ¬ Speaker s.server read.now w.token req.username := h
  obtain ⟨r, hr, hrefused⟩ := complete_register_refused (x := x) (bearer_header w) hno
  have hserve : serve x s.now { token := "" } (.register w.header (some req)) s.server
      = some (s.server, r) := hr
  simp only [Watcher.register, req, hserve]
  exact if_neg hrefused

/-- If the loop could register before, then it has just registered, or never yet. -/
lemma register_present (h : s.confirmed.isSome → w.MayRegister s)
    (hconfirmed : (w.register x addr s).confirmed.isSome) :
    (w.register x addr s).confirmed = some (nowSecs s.now)
      ∧ w.Present (nowSecs s.now) (w.register x addr s).server := by
  by_cases hmay : w.MayRegister s
  · exact register_speaker hmay
  · rw [register_refused hmay] at hconfirmed
    exact absurd (h hconfirmed) hmay

end Registering

/-! ### Runs -/

section Run

variable [HasLen C] {w : Watcher NodeId Sock Relay Hash} {x : Externals}
  {s s' : Running (EndpointAddr NodeId Sock Relay)} {a : RunMove C NodeId Sock Relay}

/-- After a registration that could not fail if one succeeded before. -/
lemma kept_register (hmay : s.confirmed.isSome → w.MayRegister s)
    {addr : EndpointAddr NodeId Sock Relay} {pc : RunPc (EndpointAddr NodeId Sock Relay)}
    (hpc : pc.active = true) {due : ℕ} (hdue : due ≤ s.now + keepaliveInterval) :
    w.Kept { w.register x addr s with pc := pc, due := due } := by
  obtain ⟨hnow, -, -, hturn, -⟩ := register_frame (w := w) (x := x) (s := s) addr
  refine ⟨?_, fun _ => ?_, fun deadline hstartup => ?_, fun hconfirmed _ => ?_⟩
  · exact (hturn.trans hnow.symm).le
  · exact hturn.symm ▸ hdue
  · obtain rfl : pc = .startup deadline := hstartup
    cases hpc
  · obtain ⟨hlast, hpresent⟩ := register_present hmay hconfirmed
    simp only [hturn, hnow]
    exact ⟨hlast, Nat.le_add_right _ _, hpresent⟩

/-- **A move that keeps up** keeps the node on the server. -/
lemma kept_step (h : w.Kept s) (hkeeps : s.confirmed.isSome → w.KeepsUp s a)
    (hs : w.step x s a = some s') : w.Kept s' := by
  cases step_stepped hs with
  | waited hwait =>
      refine ⟨h.turn_le.trans (Nat.le_add_right _ _), h.due_le, h.startup,
        fun hconfirmed hpc => ?_⟩
      obtain ⟨hlast, -, hpresent⟩ := h.present hconfirmed hpc
      exact ⟨hlast, h.wait hwait hkeeps hconfirmed, hpresent⟩
  | started hpc =>
      refine kept_register (fun hconfirmed => ?_) rfl le_rfl
      rw [h.startup _ hpc] at hconfirmed
      cases hconfirmed
  | ticked hpc hdue =>
      refine kept_register (fun hconfirmed => ?_) rfl (Nat.add_le_add_right hdue keepaliveInterval)
      obtain ⟨session, hsession, hlive⟩ := hkeeps hconfirmed
      obtain ⟨-, -, hpresent⟩ := h.present hconfirmed (by rw [hpc]; nofun)
      exact Presence.speaker hpresent hsession hlive
  | @moved _ pc queue hpc hpc' =>
      refine ⟨h.turn_le, fun _ => h.due_le hpc, fun deadline hstartup => ?_,
        fun hconfirmed _ => h.present hconfirmed fun hstopped => ?_⟩
      · obtain rfl : pc = .startup deadline := hstartup
        cases hpc'
      · rw [hstopped] at hpc
        cases hpc
  | ended =>
      refine ⟨h.turn_le, fun hactive => ?_, fun _ hstartup => ?_, fun _ hne => absurd rfl hne⟩
      · cases hactive
      · cases hstartup
  | served htoken hserve =>
      refine ⟨h.turn_le, h.due_le, h.startup, fun hconfirmed hpc => ?_⟩
      obtain ⟨hlast, hfresh, hpresent⟩ := h.present hconfirmed hpc
      have hnow : nowSecs s.turn ≤ nowSecs s.now := nowSecs_mono h.turn_le
      rw [serve] at hserve
      refine ⟨hlast, hfresh, complete_presence ?_ ?_ ?_ ?_ ?_ hpresent hserve⟩
      · exact hnow
      · exact hfresh
      · exact htoken
      · exact hkeeps hconfirmed
      · trivial

/-- **A device that keeps up can be found.**  From its first registration that succeeds to its
shutdown, `GET /peers` lists the node and its last registration is at most `peerTtlSecs` old, in
every state of a run in which no wait of a push ends later than `peerTtlSecs` after the loop was
at its registrations last, every tick finds the session of the token alive, and nobody else
deregisters the node. -/
theorem discoverable_while_running (w : Watcher NodeId Sock Relay Hash) (x : Externals)
    {server : AppState} {now : ℕ} {as : List (RunMove C NodeId Sock Relay)}
    (hrun : exec (w.step x) (.init server now) as = some s)
    (hkeeps : ∀ t ∈ trace (w.step x) (.init server now) as, t.1.confirmed.isSome →
      w.KeepsUp t.1 t.2.1)
    (hconfirmed : s.confirmed.isSome) (hpc : s.pc ≠ .stopped) :
    w.Discoverable s ∧ ∀ last ∈ s.confirmed, nowSecs s.now ≤ last + peerTtlSecs := by
  have hkept : w.Kept s := by
    refine exec_of_trace (fun t ht hkept => ?_) (kept_init server now) hrun
    obtain ⟨_, _, _, _, hstep⟩ := exists_of_mem_trace ht
    exact kept_step hkept (hkeeps t ht) hstep
  obtain ⟨hlast, hfresh, hpresent⟩ := hkept.present hconfirmed hpc
  refine ⟨Presence.mem_peers hpresent hfresh, fun last hmem => ?_⟩
  rw [hlast, Option.mem_some_iff] at hmem
  exact hmem ▸ hfresh

end Run

/-! ### Runs of alice's laptop -/

/-- The laptop of alice. -/
def aliceWatcher : Watcher String String String String where
  codec := textCodec
  crypto := plainCrypto
  identity := aliceIdentity
  token := "laptop"
  root := [ofStr "store"]

/-- The server with alice's account and a session of the laptop. -/
def aliceServer (expiresAt : ℕ) : AppState where
  registry := ∅
  users := AList.insert "alice" aliceAccount ∅
  sessions := AList.insert "laptop" ⟨"alice", expiresAt⟩ ∅
  verifyTokens := ∅

/-- A store with the file `foo`. -/
def fooStore : FileSystem (List UInt8) :=
  AList.insert [ofStr "store", ofStr "foo"] (.file [1]) (AList.insert [ofStr "store"] .dir ∅)

abbrev LaptopMove := RunMove (List UInt8) String String String

/-- The laptop registers as it is. -/
def laptopAddr : EndpointAddr String String String := ⟨"n", ∅, ∅⟩

/-- Another node registers for alice. -/
def peerRegisters (nodeId : String) : LaptopMove :=
  .other (.register (some "Bearer laptop") (some ⟨"alice", nodeId, [], none⟩)) { token := "" }

/-- `foo` is created, and its push begins, is online after 30 seconds and turns to its first
peer. -/
def fooCreated : List LaptopMove :=
  [.notice (some ⟨.create, [⟨[ofStr "store"], ofStr "foo"⟩]⟩), .recv, .file {} fooStore,
    .push true, .wait (30 * second), .push true, .push true]

/-- A peer is connected after 30 seconds and does not answer in the next 120. -/
def slowPeer : List LaptopMove :=
  [.wait (30 * second), .push true, .push true, .push true, .wait (120 * second), .push false]

/-- One slow peer, and the tick that was due meanwhile. -/
def oneSlowPeer : List LaptopMove :=
  [.online laptopAddr, peerRegisters "p"] ++ fooCreated ++ slowPeer
    ++ [.push true, .tick laptopAddr, .wait (60 * second)]

/-- Two slow peers, up to the end of the second wait for an answer. -/
def twoSlowPeers : List LaptopMove :=
  [.online laptopAddr, peerRegisters "p", peerRegisters "q"] ++ fooCreated ++ slowPeer
    ++ slowPeer.dropLast

/-- Nothing happens but the ticks, the first of them 20 seconds after the session expired. -/
def sessionExpires : List LaptopMove :=
  [.online laptopAddr, .wait keepaliveInterval, .tick laptopAddr, .wait keepaliveInterval,
    .tick laptopAddr, .wait (61 * second)]

instance (s : Running (EndpointAddr String String String)) :
    Decidable (aliceWatcher.Discoverable s) :=
  inferInstanceAs (Decidable (_ ∈ _))

instance (s : Running (EndpointAddr String String String)) :
    ∀ a : LaptopMove, Decidable (aliceWatcher.KeepsUp s a)
  | .wait _ => inferInstanceAs (Decidable (_ → _))
  | .tick _ => inferInstanceAs (Decidable (∃ session ∈ _, _))
  | .other request _ => inferInstanceAs (Decidable (request.Tame _ _))
  | .online _ => isTrue trivial
  | .offline => isTrue trivial
  | .notice _ => isTrue trivial
  | .recv => isTrue trivial
  | .file _ _ => isTrue trivial
  | .push _ => isTrue trivial
  | .shutdown => isTrue trivial

lemma ne_stopped {Addr : Type*} {pc : RunPc Addr} (h : pc.active = true) : pc ≠ .stopped := by
  rintro rfl
  cases h

theorem oneSlowPeer_found : ∃ s,
    exec (aliceWatcher.step plainExternals) (.init (aliceServer 86400) 0) oneSlowPeer = some s
      ∧ aliceWatcher.Discoverable s ∧ ∀ last ∈ s.confirmed, nowSecs s.now ≤ last + peerTtlSecs := by
  have hend : (exec (aliceWatcher.step plainExternals) (.init (aliceServer 86400) 0)
      oneSlowPeer).map (fun s => (s.confirmed, s.pc.active)) = some (some 180, true) := by
    decide +kernel
  obtain ⟨s, hrun, heq⟩ := Option.map_eq_some_iff.mp hend
  obtain ⟨hconfirmed, hactive⟩ := Prod.mk.inj heq
  refine ⟨s, hrun, discoverable_while_running aliceWatcher plainExternals hrun ?_ ?_
    (ne_stopped hactive)⟩
  · decide +kernel
  · rw [hconfirmed]
    rfl

/-- **A running device is hidden.**  Two slow peers keep the loop from its ticks for 330 seconds,
longer than the server keeps a record; and once the session has expired every tick fails, and 300
seconds after its last registration the laptop is off the list. -/
theorem hidden_while_running :
    (∃ s, exec (aliceWatcher.step plainExternals) (.init (aliceServer 86400) 0) twoSlowPeers
        = some s ∧ s.confirmed.isSome ∧ s.pc ≠ .stopped ∧ ¬ aliceWatcher.Discoverable s)
      ∧ ∃ s, exec (aliceWatcher.step plainExternals) (.init (aliceServer 86400) (86300 * second))
        sessionExpires = some s ∧ s.confirmed.isSome ∧ s.pc ≠ .stopped
          ∧ ¬ aliceWatcher.Discoverable s := by
  constructor
  · have hend : (exec (aliceWatcher.step plainExternals) (.init (aliceServer 86400) 0)
        twoSlowPeers).map
          (fun s => (s.confirmed, s.pc.active, decide (aliceWatcher.Discoverable s)))
            = some (some 0, true, false) := by
      decide +kernel
    obtain ⟨s, hrun, heq⟩ := Option.map_eq_some_iff.mp hend
    simp only [Prod.mk.injEq, decide_eq_false_iff_not] at heq
    exact ⟨s, hrun, by rw [heq.1]; rfl, ne_stopped heq.2.1, heq.2.2⟩
  · have hend : (exec (aliceWatcher.step plainExternals)
        (.init (aliceServer 86400) (86300 * second)) sessionExpires).map
          (fun s => (s.confirmed, s.pc.active, decide (aliceWatcher.Discoverable s)))
            = some (some 86300, true, false) := by
      decide +kernel
    obtain ⟨s, hrun, heq⟩ := Option.map_eq_some_iff.mp hend
    simp only [Prod.mk.injEq, decide_eq_false_iff_not] at heq
    exact ⟨s, hrun, by rw [heq.1]; rfl, ne_stopped heq.2.1, heq.2.2⟩

end Dddatasync
