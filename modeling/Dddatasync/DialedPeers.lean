import Dddatasync.Keepalive
import Dddatasync.Rendezvous.Attribution

/-!
Whom a watcher dials.

* `RunPc.dialing`: the addresses that a push still goes to; `step_dialing`: whom a move adds.
* `RunMove.turn`, `step_server`: what a move asks of the server.
* `Observed`, `Watcher.observe`: the loop of a watcher with the turns of its server and the time at
  which it last looked at a path.
* `dials_enrolled`: every address a push goes to was registered by somebody who had logged in to
  the user's own account, and its record was live when the push began.
-/

namespace Dddatasync

open Fs OsString Rendezvous Runs

/-! ### The loop -/

/-- Whom the push of the loop still goes to. -/
def RunPc.dialing {Addr : Type*} : RunPc Addr → List Addr
  | .pushing _ _ peers _ => peers
  | _ => []

/-- The loop, what its server was asked, and when the loop looked at a path last. -/
structure Observed (Addr : Type*) where
  loop : Running Addr
  turns : List Turn
  looked : ℕ

section Loop

variable {C NodeId Sock Relay Hash : Type*} [LinearOrder Sock] [LinearOrder Relay]

/-- What a move asks of the server. -/
def RunMove.turn (w : Watcher NodeId Sock Relay Hash)
    (s : Running (EndpointAddr NodeId Sock Relay)) : RunMove C NodeId Sock Relay → Option Turn
  | .online addr | .tick addr =>
      some (.serve (.register w.header (some (registerRequest w.codec w.crypto w.identity addr)))
        { token := "", now := nowSecs s.now })
  | .shutdown =>
      some (.serve (.deregister w.header (some ⟨w.identity.username, w.nodeId⟩))
        { token := "", now := nowSecs s.now })
  | .other request read => some (.serve request { read with now := nowSecs s.now })
  | _ => none

/-- The time at which the loop looked at a path last, after a move. -/
def RunMove.looked (now looked : ℕ) : RunMove C NodeId Sock Relay → ℕ
  | .file _ _ => now
  | _ => looked

variable [HasLen C] {w : Watcher NodeId Sock Relay Hash} {x : Externals}
  {s s' : Running (EndpointAddr NodeId Sock Relay)} {a : RunMove C NodeId Sock Relay}
  {addr : EndpointAddr NodeId Sock Relay}

/-- A move of the loop, observed. -/
def Watcher.observe (w : Watcher NodeId Sock Relay Hash) (x : Externals)
    (o : Observed (EndpointAddr NodeId Sock Relay)) (a : RunMove C NodeId Sock Relay) :
    Option (Observed (EndpointAddr NodeId Sock Relay)) :=
  (w.step x o.loop a).map fun loop =>
    ⟨loop, o.turns ++ (a.turn w o.loop).toList, a.looked o.loop.now o.looked⟩

lemma register_server (addr : EndpointAddr NodeId Sock Relay) :
    (w.register x addr s).server
      = (Turn.serve (.register w.header (some (registerRequest w.codec w.crypto w.identity addr)))
        { token := "", now := nowSecs s.now }).next x s.server := by
  simp only [Watcher.register, serve, Turn.next]
  cases complete x _ _ 3 s.server .start <;> rfl

omit [LinearOrder Sock] [LinearOrder Relay] in
lemma deregister_server : (w.deregister x s).server
    = (Turn.serve (.deregister w.header (some ⟨w.identity.username, w.nodeId⟩))
        { token := "", now := nowSecs s.now }).next x s.server := by
  simp only [Watcher.deregister, serve, Turn.next]
  cases complete x _ _ 3 s.server .start <;> rfl

/-- **The server** changes by what a move asks of it. -/
lemma step_server (hs : w.step x s a = some s') :
    s'.server = (a.turn w s).toList.foldl (Turn.next x) s.server := by
  cases a with
  | wait d =>
      rw [Watcher.step] at hs
      split_ifs at hs
      cases hs
      rfl
  | online addr =>
      simp only [Watcher.step] at hs
      split at hs <;> cases hs
      exact register_server addr
  | offline =>
      simp only [Watcher.step] at hs
      split at hs
      · split_ifs at hs
        cases hs
        rfl
      · cases hs
  | tick addr =>
      simp only [Watcher.step] at hs
      split at hs
      · split_ifs at hs
        cases hs
        exact register_server addr
      · cases hs
  | notice ev =>
      simp only [Watcher.step] at hs
      split_ifs at hs
      cases hs
      rfl
  | recv =>
      simp only [Watcher.step] at hs
      split at hs <;> cases hs
      rfl
  | file io fs =>
      simp only [Watcher.step] at hs
      split at hs <;> cases hs
      rfl
  | push ok =>
      simp only [Watcher.step] at hs
      split at hs <;> cases hs
      rfl
  | shutdown =>
      simp only [Watcher.step] at hs
      split at hs <;> cases hs
      exact deregister_server
  | other request read =>
      rw [Watcher.step] at hs
      split_ifs at hs
      obtain ⟨⟨server, response⟩, hserve, rfl⟩ := Option.map_eq_some_iff.mp hs
      rw [serve] at hserve
      show server = (Turn.serve request { read with now := nowSecs s.now }).next x s.server
      rw [Turn.next, hserve]

lemma dialing_handle {Addr : Type*} (paths : List PathBuf) :
    (RunPc.handle paths : RunPc Addr).dialing = [] := by
  cases paths <;> rfl

lemma dialing_received {Addr : Type*} (ev : Option Event) :
    (RunPc.received ev : RunPc Addr).dialing = [] := by
  cases ev with
  | none => rfl
  | some ev =>
      rw [RunPc.received]
      split_ifs
      · exact dialing_handle _
      · rfl

omit [LinearOrder Sock] [LinearOrder Relay] [HasLen C] in
lemma dialing_deregister : (w.deregister x s).pc.dialing = [] := by
  simp only [Watcher.deregister]
  cases serve x s.now _ _ s.server <;> rfl

lemma notify_subset {Addr : Type*} (peers : List Addr) : (PushWait.notify peers).2 ⊆ peers := by
  cases peers <;> exact List.Subset.refl _

/-- A push goes on to peers that it has. -/
lemma after_subset {Addr : Type*} {wait wait' : PushWait} {ok : Bool} {peers peers' : List Addr}
    (h : wait.after ok peers = some (wait', peers')) : peers' ⊆ peers := by
  rw [PushWait.after.eq_def] at h
  split at h
  case h_8 => cases h
  all_goals obtain rfl := congrArg Prod.snd (Option.some.inj h)
  case h_3 => exact notify_subset peers
  case h_7 => exact List.Subset.trans (notify_subset peers.tail) (List.tail_subset peers)
  all_goals exact List.Subset.refl peers

/-- `push_file` pushes to the peers it fetched. -/
lemma pushFile_pushed {Addr : Type*} {root : AbsPath} {io : Faults C} {fs : FileSystem C}
    {peers : Option (List Addr)} {path : PathBuf} {ps : List Addr}
    (h : pushFile root io fs peers path = .pushed ps) : peers = some ps := by
  unfold pushFile at h
  split_ifs at h
  split at h
  · cases h
  · split at h
    · cases h
    · split at h <;> cases h
      rfl

/-- Every address that `fetch_peers` returns is that of a record of another node. -/
lemma mem_fetchPeers_ok {k : Codec NodeId Sock Relay Hash} {c : Crypto NodeId}
    {identity : UserIdentity} {get : String → List PeerRecord}
    {peers : List (EndpointAddr NodeId Sock Relay)}
    (h : fetchPeers k c identity get = .ok peers) (haddr : addr ∈ peers) :
    ∃ r ∈ get identity.username, r.nodeId ≠ k.printNodeId (identity.nodeId c)
      ∧ peerAddr k r = .ok addr := by
  obtain ⟨r, hr, hok⟩ := mem_of_mapM_ok h haddr
  rw [clientPeers, List.mem_filter, decide_eq_true_iff] at hr
  refine ⟨r, hr.1, hr.2, ?_⟩
  cases hp : peerAddr k r with
  | error e =>
      rw [hp] at hok
      cases hok
  | ok a =>
      rw [hp] at hok
      cases hok
      rfl

/-- A push begins with the live records of the user that are not of this node. -/
lemma dialing_handleFile {io : Faults C} {fs : FileSystem C} {path : PathBuf}
    {paths : List PathBuf} (h : addr ∈ (w.handleFile io fs path paths s).dialing) :
    ∃ r ∈ s.server.registry.peers w.identity.username (nowSecs s.now),
      r.nodeId ≠ w.nodeId ∧ peerAddr w.codec r = .ok addr := by
  simp only [Watcher.handleFile] at h
  split at h
  · rw [dialing_handle] at h
    cases h
  · split at h
    · rename_i peers hpushed
      have hpeers := pushFile_pushed hpushed
      cases hfetch : fetchPeers w.codec w.crypto w.identity fun username =>
          s.server.registry.peers username (nowSecs s.now) with
      | error e =>
          rw [hfetch] at hpeers
          cases hpeers
      | ok fetched =>
          rw [hfetch] at hpeers
          cases hpeers
          exact mem_fetchPeers_ok hfetch h
    · rw [dialing_handle] at h
      cases h

/-- **Whom a move makes the push go to**: nobody new, unless the loop looks at a path. -/
lemma step_dialing (hs : w.step x s a = some s') (haddr : addr ∈ s'.pc.dialing) :
    (addr ∈ s.pc.dialing ∧ ∀ now looked, a.looked now looked = looked)
      ∨ (∀ now looked, a.looked now looked = now)
      ∧ ∃ r ∈ s.server.registry.peers w.identity.username (nowSecs s.now),
        r.nodeId ≠ w.nodeId ∧ peerAddr w.codec r = .ok addr := by
  cases a with
  | wait d =>
      rw [Watcher.step] at hs
      split_ifs at hs
      cases hs
      exact .inl ⟨haddr, fun _ _ => rfl⟩
  | online a =>
      simp only [Watcher.step] at hs
      split at hs <;> cases hs
      cases haddr
  | offline =>
      simp only [Watcher.step] at hs
      split at hs
      · split_ifs at hs
        cases hs
        cases haddr
      · cases hs
  | tick a =>
      simp only [Watcher.step] at hs
      split at hs
      · split_ifs at hs
        cases hs
        rw [(register_frame a).2.1] at haddr
        exact .inl ⟨haddr, fun _ _ => rfl⟩
      · cases hs
  | notice ev =>
      simp only [Watcher.step] at hs
      split_ifs at hs
      cases hs
      exact .inl ⟨haddr, fun _ _ => rfl⟩
  | recv =>
      simp only [Watcher.step] at hs
      split at hs <;> cases hs
      rw [dialing_received] at haddr
      cases haddr
  | file io fs =>
      simp only [Watcher.step] at hs
      split at hs <;> cases hs
      exact .inr ⟨fun _ _ => rfl, dialing_handleFile haddr⟩
  | push ok =>
      simp only [Watcher.step] at hs
      split at hs
      · rename_i wait deadline peers paths hpc
        cases hs
        cases hafter : wait.after ok peers with
        | none =>
            simp only [hafter, dialing_handle] at haddr
            cases haddr
        | some next =>
            simp only [hafter] at haddr
            rw [hpc]
            exact .inl ⟨after_subset hafter haddr, fun _ _ => rfl⟩
      · cases hs
  | shutdown =>
      simp only [Watcher.step] at hs
      split at hs <;> cases hs
      rw [dialing_deregister] at haddr
      cases haddr
  | other request read =>
      rw [Watcher.step] at hs
      split_ifs at hs
      obtain ⟨⟨server, response⟩, hserve, rfl⟩ := Option.map_eq_some_iff.mp hs
      exact .inl ⟨haddr, fun _ _ => rfl⟩

/-! ### Runs -/

/-- The address is that of another node's record, registered with a token of the account and live
at the time. -/
def Dialable (w : Watcher NodeId Sock Relay Hash) (x : Externals) (turns : List Turn) (looked : ℕ)
    (addr : EndpointAddr NodeId Sock Relay) : Prop :=
  ∃ r, Enrolled x turns w.identity.username r ∧ nowSecs looked ≤ r.lastSeen + peerTtlSecs
    ∧ r.nodeId ≠ w.nodeId ∧ peerAddr w.codec r = .ok addr

/-- The server is as its turns made it, and the push goes to such addresses. -/
structure Attributed (w : Watcher NodeId Sock Relay Hash) (x : Externals)
    (o : Observed (EndpointAddr NodeId Sock Relay)) : Prop where
  server : o.loop.server = serverAfter x o.turns
  dialable : ∀ addr ∈ o.loop.pc.dialing, Dialable w x o.turns o.looked addr

/-- **One move** keeps it. -/
lemma attributed_step {o o' : Observed (EndpointAddr NodeId Sock Relay)} (h : Attributed w x o)
    (hs : w.observe x o a = some o') : Attributed w x o' := by
  obtain ⟨loop, hloop, rfl⟩ := Option.map_eq_some_iff.mp hs
  have hpre : o.turns <+: o.turns ++ (a.turn w o.loop).toList := List.prefix_append _ _
  refine ⟨?_, fun addr haddr => ?_⟩
  · show loop.server = serverAfter x (o.turns ++ (a.turn w o.loop).toList)
    rw [step_server hloop, h.server, serverAfter, serverAfter, List.foldl_append]
  · rcases step_dialing hloop haddr with ⟨hold, hlooked⟩ | ⟨hlooked, r, hr, hne, hok⟩
    · obtain ⟨r, henrolled, hrest⟩ := h.dialable addr hold
      rw [hlooked]
      exact ⟨r, henrolled.mono hpre, hrest⟩
    · rw [Registry.peers, Registry.mem_live, Registry.cutoff, h.server] at hr
      rw [hlooked]
      exact ⟨r, (records_enrolled hr.1).mono hpre, Nat.sub_le_iff_le_add.mp hr.2, hne, hok⟩

/-- **A watcher dials nobody else.**  In every run of the loop, against a server that was started
empty and was asked anything before and meanwhile: every address that a push still goes to is that
of a record which was registered with a token that a login with the password of the user's own
account was answered with, which was live when the push fetched its peers, and which is not under
the node id of the watcher. -/
theorem dials_enrolled {turns : List Turn} {now : ℕ} {as : List (RunMove C NodeId Sock Relay)}
    {o : Observed (EndpointAddr NodeId Sock Relay)}
    (hrun : exec (w.observe x) ⟨.init (serverAfter x turns) now, turns, now⟩ as = some o) :
    ∀ addr ∈ o.loop.pc.dialing, Dialable w x o.turns o.looked addr := by
  have hattributed : Attributed w x o := by
    refine exec_invariant (fun _ _ _ _ h hs => attributed_step h hs) ⟨rfl, ?_⟩ hrun
    intro addr haddr
    cases haddr
  exact hattributed.dialable

end Loop

/-! ### A run of alice's laptop -/

/-- Alice has signed up and logged in on her laptop and on her phone. -/
def aliceLogins : List Turn :=
  [.serve (.signup ⟨"alice", "a@b", "pw"⟩) ⟨0, "t", "s", true⟩,
    .serve (.login ⟨"alice", "pw"⟩) ⟨1, "laptop", "s", true⟩,
    .serve (.login ⟨"alice", "pw"⟩) ⟨2, "phone", "s", true⟩]

/-- The phone registers under a node id of its own, and the laptop pushes `foo` to it. -/
def phoneFound : List LaptopMove :=
  [.online laptopAddr,
    .other (.register (some "Bearer phone") (some ⟨"alice", "p", ["10.0.0.2:1"], none⟩))
      { token := "" }] ++ fooCreated

/-- The laptop dials the phone, and the theorem tells why. -/
theorem laptop_dials_phone : ∃ o, exec (aliceWatcher.observe plainExternals)
    ⟨.init (serverAfter plainExternals aliceLogins) 0, aliceLogins, 0⟩ phoneFound = some o
      ∧ o.loop.pc.dialing.map (·.id) = ["p"]
      ∧ ∀ addr ∈ o.loop.pc.dialing, Dialable aliceWatcher plainExternals o.turns o.looked addr := by
  have hend : (exec (aliceWatcher.observe plainExternals)
      ⟨.init (serverAfter plainExternals aliceLogins) 0, aliceLogins, 0⟩ phoneFound).map
        (fun o => o.loop.pc.dialing.map (·.id)) = some ["p"] := by
    decide +kernel
  obtain ⟨o, hrun, hdialing⟩ := Option.map_eq_some_iff.mp hend
  exact ⟨o, hrun, hdialing, dials_enrolled hrun⟩

end Dddatasync
