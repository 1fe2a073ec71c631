import Dddatasync.Address
import Dddatasync.Auth
import Dddatasync.Rendezvous.Server

/-!
Enrolment and discovery: the rendezvous client of `src/rendezvous_client.rs`, `cmd_login` of
`src/main.rs` and the part of `src/watcher.rs` that registers a device and looks for peers.

* `handleLogin`: the server's answer to one login; `serverLogin`, `cmdLogin`.
* `registerRequest`, `clientPeers`, `fetchPeers`: what a watcher tells the registry and what
  it makes of the answer.
* `Device`: a device on which the login command completed for an account; `Discovery`: two
  of them, registered and live.
* `Device.nodeId_eq`: all devices of an account have one node id; `enrolled_not_found`: so
  neither of two devices finds the other.
-/

namespace Dddatasync

open OsString Rendezvous

/-! ### Login -/

/-- `handle_login` with no other request between its locks. -/
def handleLogin (x : Externals) (read : Reading) (req : LoginRequest) (s : AppState) :
    Response :=
  match (loginStart x read 0 req s).next with
  | .inr response => response
  | .inl (.openSession username token) =>
      match (openSession read 0 username token s).next with
      | .inr response => response
      | .inl _ => ⟨500, .empty⟩
  | .inl _ => ⟨500, .empty⟩

/-- Why a login at the server fails. -/
inductive ServerLoginError where
  | rejected (body : Body)
  | status (status : ℕ)
  | noToken
  deriving DecidableEq, Repr

/-- `RendezvousClient::server_login` on the answer it gets. -/
def serverLogin (response : Response) : Except ServerLoginError String :=
  if response.status = 403 then .error (.rejected response.body)
  else if ¬ (200 ≤ response.status ∧ response.status < 300) then .error (.status response.status)
  else
    match response.body with
    | .token token => .ok token
    | _ => .error .noToken

variable {NodeId Sock Relay Hash : Type*}

/-- `cmd_login`: the outcome has the token of the server or why there is none, which is
only a warning. -/
def cmdLogin (c : Crypto NodeId) (post : LoginRequest → Response) (username passphrase : String)
    (home : Home) : Except AuthError (Except ServerLoginError String) × Home :=
  match login c username passphrase home with
  | (.error e, home) => (.error e, home)
  | (.ok _, home) =>
      match serverLogin (post ⟨username, passphrase⟩) with
      | .ok token => (.ok (.ok token), { home with token := some (ofStr token) })
      | .error e => (.ok (.error e), home)

/-! ### Registration and discovery -/

section Discovery

variable [LinearOrder Sock] [LinearOrder Relay]

/-- The request of `register_with_rendezvous`. -/
def registerRequest (k : Codec NodeId Sock Relay Hash) (c : Crypto NodeId)
    (identity : UserIdentity) (addr : EndpointAddr NodeId Sock Relay) : RegisterRequest where
  username := identity.username
  nodeId := k.printNodeId (identity.nodeId c)
  addrs := addr.printedAddrs k
  relayUrl := addr.printedRelay k

/-- `RendezvousClient::fetch_peers` on the records of the answer. -/
def clientPeers (peers : List PeerRecord) (ownNodeId : Option String) : List PeerRecord :=
  match ownNodeId with
  | some id => peers.filter fun p => p.nodeId ≠ id
  | none => peers

/-- What `Watcher::fetch_peers` makes of one record. -/
def peerAddr (k : Codec NodeId Sock Relay Hash) (r : PeerRecord) :
    Except AddrError (EndpointAddr NodeId Sock Relay) :=
  toEndpointAddr k ⟨r.nodeId, r.addrs, r.relayUrl⟩

/-- The context text of an error of `Watcher::fetch_peers`. -/
def peerContext : AddrError → String
  | .nodeId => "parse peer node_id"
  | .directAddr => "parse peer addr"
  | .relayUrl => "parse peer relay_url"

/-- `Watcher::fetch_peers` over the answers of `GET /peers`. -/
def fetchPeers (k : Codec NodeId Sock Relay Hash) (c : Crypto NodeId) (identity : UserIdentity)
    (get : String → List PeerRecord) : Except String (List (EndpointAddr NodeId Sock Relay)) :=
  let ownId := k.printNodeId (identity.nodeId c)
  (clientPeers (get identity.username) (some ownId)).mapM fun r =>
    (peerAddr k r).mapError peerContext

/-- The registry event of a watcher's request. -/
def registerEvent (req : RegisterRequest) (now : ℕ) : Event :=
  .register req.username req.nodeId req.addrs req.relayUrl now

end Discovery

/-! ### Devices -/

/-- A device on which the login command completed for the account `username`, whose
password the server keeps as `hash`, and which was started then. -/
structure Device (c : Crypto NodeId) (x : Externals) (username hash : String) where
  passphrase : String
  home : Home
  server : AppState
  read : Reading
  account : UserAccount
  stored : server.users.lookup username = some account
  account_hash : account.passwordHash = hash
  token : String
  enrolled : Home
  loggedIn : cmdLogin c (fun req => handleLogin x read req server) username passphrase home
    = (.ok (.ok token), enrolled)
  identity : UserIdentity
  loaded : load enrolled = .ok identity
  account_name : identity.username = username

/-- Two devices of an account at time `t`: every record of the account was registered by
some watcher, and both devices have registered and have a live record. -/
structure Discovery [LinearOrder Sock] [LinearOrder Relay] (k : Codec NodeId Sock Relay Hash)
    {c : Crypto NodeId} {x : Externals} {username hash : String}
    (a b : Device c x username hash) (events : List Event) (t : ℕ) : Prop where
  by_watchers : ∀ n addrs relayUrl now, .register username n addrs relayUrl now ∈ events →
    ∃ (identity : UserIdentity) (addr : EndpointAddr NodeId Sock Relay),
      registerRequest k c identity addr = ⟨username, n, addrs, relayUrl⟩
  registered_left : ∃ (addr : EndpointAddr NodeId Sock Relay) (now : ℕ),
    registerEvent (registerRequest k c a.identity addr) now ∈ events
  registered_right : ∃ (addr : EndpointAddr NodeId Sock Relay) (now : ℕ),
    registerEvent (registerRequest k c b.identity addr) now ∈ events
  live_left : ∃ r ∈ (Registry.run events).peers username t,
    r.nodeId = k.printNodeId (a.identity.nodeId c)
  live_right : ∃ r ∈ (Registry.run events).peers username t,
    r.nodeId = k.printNodeId (b.identity.nodeId c)

/-- The watcher of one device gets an address of the other from `fetch_peers`. -/
def Finds [LinearOrder Sock] [LinearOrder Relay] (k : Codec NodeId Sock Relay Hash)
    {c : Crypto NodeId} {x : Externals} {username hash : String}
    (a b : Device c x username hash) (events : List Event) (t : ℕ) : Prop :=
  ∃ peers, fetchPeers k c a.identity (fun u => (Registry.run events).peers u t) = .ok peers
    ∧ ∃ addr ∈ peers, addr.id = b.identity.nodeId c

/-! ### One node id for an account -/

/-- A token means that the password was verified. -/
lemma handleLogin_verified {x : Externals} {read : Reading} {req : LoginRequest} {s : AppState}
    {account : UserAccount} (hs : s.users.lookup req.username = some account) {token : String}
    (h : serverLogin (handleLogin x read req s) = .ok token) :
    x.verifyPassword req.password account.passwordHash = true := by
  by_contra hv
  have hlogin : handleLogin x read req s = ⟨401, .error "invalid credentials"⟩ := by
    simp only [handleLogin, loginStart, hs, if_neg hv, respond]
  rw [hlogin] at h
  cases h

lemma cmdLogin_ok {c : Crypto NodeId} {post : LoginRequest → Response}
    {username passphrase token : String} {home enrolled : Home}
    (h : cmdLogin c post username passphrase home = (.ok (.ok token), enrolled)) :
    ∃ identity home', login c username passphrase home = (.ok identity, home')
      ∧ enrolled.identity = home'.identity
      ∧ serverLogin (post ⟨username, passphrase⟩) = .ok token := by
  rw [cmdLogin] at h
  split at h
  · cases h
  · rename_i identity home' hlogin
    split at h
    · rename_i t ht
      cases h
      exact ⟨identity, home', hlogin, rfl, ht⟩
    · cases h

namespace Device

variable {c : Crypto NodeId} {x : Externals} {username hash : String}

/-- The server accepted the passphrase, so it is the account's password. -/
lemma verified (d : Device c x username hash) : x.verifyPassword d.passphrase hash = true := by
  obtain ⟨_, _, _, _, hserver⟩ := cmdLogin_ok d.loggedIn
  have h := handleLogin_verified d.stored hserver
  rwa [d.account_hash] at h

/-- The device runs under the key of its passphrase. -/
lemma key (d : Device c x username hash) :
    deriveKey c username d.passphrase = some d.identity.nodeKey := by
  obtain ⟨identity, home', hlogin, hfile, -⟩ := cmdLogin_ok d.loggedIn
  have hload : load home' = .ok d.identity := by
    have := d.loaded
    rwa [load, hfile] at this
  exact load_login c hlogin hload d.account_name

/-- **All devices of an account have one node id.** -/
theorem nodeId_eq {password : String}
    (hpassword : ∀ attempt, x.verifyPassword attempt hash = true → attempt = password)
    (a b : Device c x username hash) : a.identity.nodeId c = b.identity.nodeId c := by
  have hpass : a.passphrase = b.passphrase :=
    (hpassword _ a.verified).trans (hpassword _ b.verified).symm
  have hkey : some a.identity.nodeKey = some b.identity.nodeKey := by
    rw [← a.key, ← b.key, hpass]
  rw [UserIdentity.nodeId, UserIdentity.nodeId, Option.some.inj hkey]

end Device

/-! ### What a watcher finds -/

variable [LinearOrder Sock]

lemma withIpAddrs_id {k : Codec NodeId Sock Relay Hash} {addrs : List String}
    {a b : EndpointAddr NodeId Sock Relay} (h : withIpAddrs k addrs a = .ok b) : b.id = a.id := by
  induction addrs generalizing a with
  | nil =>
      cases h
      rfl
  | cons s ss ih =>
      rw [withIpAddrs] at h
      split at h
      · cases h
      · exact (ih h).trans rfl

variable [LinearOrder Relay]

/-- An address has the node id its record names. -/
lemma toEndpointAddr_id {k : Codec NodeId Sock Relay Hash} {w : EndpointAddrWire}
    {a : EndpointAddr NodeId Sock Relay} (h : toEndpointAddr k w = .ok a) :
    k.parseNodeId w.nodeId = some a.id := by
  rw [toEndpointAddr] at h
  split at h
  · cases h
  · rename_i id hid
    split at h
    · cases h
    · rename_i b hb
      have hbid : b.id = id := withIpAddrs_id hb
      split at h
      · cases h
        rw [hid, hbid]
      · split at h
        · cases h
        · cases h
          rw [hid, ← hbid]

lemma mem_of_mapM_ok {ε α β : Type*} {f : α → Except ε β} {l : List α} {out : List β}
    (h : l.mapM f = .ok out) {b : β} (hb : b ∈ out) : ∃ a ∈ l, f a = .ok b := by
  induction l generalizing out with
  | nil =>
      cases h
      cases hb
  | cons a l ih =>
      rw [List.mapM_cons] at h
      cases ha : f a with
      | error e =>
          rw [ha] at h
          cases h
      | ok b' =>
          rw [ha] at h
          cases hl : l.mapM f with
          | error e =>
              rw [hl] at h
              cases h
          | ok rest =>
              rw [hl] at h
              cases h
              rcases List.mem_cons.mp hb with rfl | hb
              · exact ⟨a, List.mem_cons_self, ha⟩
              · obtain ⟨a', ha', heq⟩ := ih hl hb
                exact ⟨a', List.mem_cons_of_mem a ha', heq⟩

/-- Every address that `fetch_peers` returns is of a record with another node id. -/
lemma mem_fetchPeers {k : Codec NodeId Sock Relay Hash} {c : Crypto NodeId}
    {identity : UserIdentity} {get : String → List PeerRecord}
    {peers : List (EndpointAddr NodeId Sock Relay)}
    (h : fetchPeers k c identity get = .ok peers) {addr : EndpointAddr NodeId Sock Relay}
    (haddr : addr ∈ peers) :
    ∃ r ∈ get identity.username, r.nodeId ≠ k.printNodeId (identity.nodeId c)
      ∧ k.parseNodeId r.nodeId = some addr.id := by
  obtain ⟨r, hr, hok⟩ := mem_of_mapM_ok h haddr
  rw [clientPeers, List.mem_filter, decide_eq_true_iff] at hr
  refine ⟨r, hr.1, hr.2, ?_⟩
  cases hp : peerAddr k r with
  | error e =>
      rw [hp] at hok
      cases hok
  | ok a =>
      rw [hp] at hok
      cases hok
      exact toEndpointAddr_id hp

/-! ### Two devices of one account -/

section Twins

variable {k : Codec NodeId Sock Relay Hash} {c : Crypto NodeId} {x : Externals}
  {username hash : String} {a b : Device c x username hash} {events : List Event} {t : ℕ}

lemma Discovery.symm (h : Discovery k a b events t) : Discovery k b a events t where
  by_watchers := h.by_watchers
  registered_left := h.registered_right
  registered_right := h.registered_left
  live_left := h.live_right
  live_right := h.live_left

/-- Every record of the account has the printed node id of some watcher. -/
lemma Discovery.printed (h : Discovery k a b events t) {r : PeerRecord}
    (hr : r ∈ (Registry.run events).peers username t) : ∃ id, r.nodeId = k.printNodeId id := by
  rw [Registry.peers, Registry.mem_live] at hr
  have hreg := ((refines_run events).sound username r hr.1).mem
  obtain ⟨identity, addr, hreq⟩ := h.by_watchers _ _ _ _ hreg
  exact ⟨identity.nodeId c, (congrArg RegisterRequest.nodeId hreq).symm⟩

/-- A device filters out the records under its own node id, and the other has no other. -/
lemma Discovery.not_finds (h : Discovery k a b events t)
    (hid : a.identity.nodeId c = b.identity.nodeId c) : ¬ Finds k a b events t := by
  rintro ⟨peers, hpeers, addr, haddr, heq⟩
  obtain ⟨r, hr, hne, hparse⟩ := mem_fetchPeers hpeers haddr
  rw [a.account_name] at hr
  obtain ⟨id, hprint⟩ := h.printed hr
  rw [hprint, k.parse_printNodeId, Option.some.injEq] at hparse
  rw [hprint, hparse, heq, hid] at hne
  exact hne rfl

/-- **Devices of one account never find each other.**  Where the server accepts nothing but
the account's password, the devices have one key, hence one node id, and each takes the
record of the other for its own. -/
theorem enrolled_not_found (password : String)
    (hpassword : ∀ attempt, x.verifyPassword attempt hash = true → attempt = password)
    (h : Discovery k a b events t) : ¬ Finds k a b events t ∧ ¬ Finds k b a events t :=
  ⟨h.not_finds (Device.nodeId_eq hpassword a b),
    h.symm.not_finds (Device.nodeId_eq hpassword b a)⟩

end Twins

/-- Keys of 32 equal bytes, for runs on fixed inputs. -/
def plainCrypto : Crypto String where
  argon2 := fun passphrase salt =>
    some ⟨List.replicate 32 ((passphrase ++ salt).foldl (· + ·) 0), List.length_replicate⟩
  publicKey := fun key => hexEncode key.bytes

/-- The account of the examples and its device key. -/
def aliceAccount : UserAccount := ⟨"alice", "a@b", "pw", .approved, none⟩

def aliceIdentity : UserIdentity := ⟨"alice", ⟨List.replicate 32 229, rfl⟩⟩

/-- A new device on which alice logs in, with the token the server gives it. -/
def aliceDevice (token : String) : Device plainCrypto plainExternals "alice" "pw" where
  passphrase := "pw"
  home := {}
  server := ⟨∅, AList.insert "alice" aliceAccount ∅, ∅, ∅⟩
  read := { token := token }
  account := aliceAccount
  stored := rfl
  account_hash := rfl
  token := token
  enrolled := ⟨some (saveIdentity aliceIdentity), some (ofStr token)⟩
  loggedIn := rfl
  identity := aliceIdentity
  loaded := rfl
  account_name := rfl

lemma registerRequest_alice (s : String) :
    registerRequest textCodec plainCrypto aliceIdentity ⟨"", {s}, ∅⟩
      = ⟨"alice", aliceIdentity.nodeId plainCrypto, [s], none⟩ := by
  simp [registerRequest, EndpointAddr.printedAddrs, EndpointAddr.printedRelay, textCodec,
    aliceIdentity]

/-- Two devices of alice register, each with an address of its own. -/
def twinEvents : List Event :=
  [.register "alice" (aliceIdentity.nodeId plainCrypto) ["10.0.0.1:1"] none 100,
    .register "alice" (aliceIdentity.nodeId plainCrypto) ["10.0.0.2:1"] none 110]

lemma discovery_twins :
    Discovery textCodec (aliceDevice "laptop") (aliceDevice "phone") twinEvents 120 where
  by_watchers := fun n addrs relayUrl now h => by
    simp only [twinEvents, List.mem_cons, List.not_mem_nil, or_false, Event.register.injEq,
      true_and] at h
    rcases h with ⟨rfl, rfl, rfl, -⟩ | ⟨rfl, rfl, rfl, -⟩
    · exact ⟨aliceIdentity, _, registerRequest_alice "10.0.0.1:1"⟩
    · exact ⟨aliceIdentity, _, registerRequest_alice "10.0.0.2:1"⟩
  registered_left := ⟨⟨"", {"10.0.0.1:1"}, ∅⟩, 100, by
    rw [aliceDevice, registerRequest_alice]
    exact List.mem_cons_self⟩
  registered_right := ⟨⟨"", {"10.0.0.2:1"}, ∅⟩, 110, by
    rw [aliceDevice, registerRequest_alice]
    exact List.mem_cons_of_mem _ List.mem_cons_self⟩
  live_left := ⟨⟨_, ["10.0.0.2:1"], none, 110⟩, by decide, rfl⟩
  live_right := ⟨⟨_, ["10.0.0.2:1"], none, 110⟩, by decide, rfl⟩

/-- The phone took the laptop's place in the registry, and the laptop drops what it gets. -/
theorem twins_not_found :
    Discovery textCodec (aliceDevice "laptop") (aliceDevice "phone") twinEvents 120
      ∧ fetchPeers textCodec plainCrypto (aliceDevice "laptop").identity
          (fun u => (Registry.run twinEvents).peers u 120) = .ok []
      ∧ ¬ Finds textCodec (aliceDevice "laptop") (aliceDevice "phone") twinEvents 120 := by
  have hfetch : fetchPeers textCodec plainCrypto (aliceDevice "laptop").identity
      (fun u => (Registry.run twinEvents).peers u 120) = .ok [] := rfl
  refine ⟨discovery_twins, hfetch, ?_⟩
  rintro ⟨peers, hpeers, addr, haddr, -⟩
  rw [hfetch, Except.ok.injEq] at hpeers
  subst hpeers
  exact absurd haddr List.not_mem_nil

theorem twins_hidden :
    ¬ Finds textCodec (aliceDevice "laptop") (aliceDevice "phone") twinEvents 120
      ∧ ¬ Finds textCodec (aliceDevice "phone") (aliceDevice "laptop") twinEvents 120 :=
  enrolled_not_found "pw" (fun _ h => eq_of_beq h) discovery_twins

end Dddatasync
