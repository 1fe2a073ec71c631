import Dddatasync.PeerPush

/-!
An address on its two wires: in an offer, `EndpointAddrWire` of `src/sync.rs`, and through the
registry, from `register_with_rendezvous` to `Watcher::fetch_peers` of `src/watcher.rs`.

* `fetchedAddr`: the closure of `fetch_peers`, which parses once more what `to_endpoint_addr`
  parses; `fetchedAddr_eq`.
* `FirstRelayOnly`: what arrives of an address.
* `addresses_survive`: the same on both wires.
-/

namespace Dddatasync

open Rendezvous

variable {NodeId Sock Relay Hash : Type*} [LinearOrder Sock] [LinearOrder Relay]

/-! ### The second parser -/

/-- The loop of `Watcher::fetch_peers` over the direct addresses of a record. -/
def fetchedIps (k : Codec NodeId Sock Relay Hash) :
    List String → EndpointAddr NodeId Sock Relay → Except String (EndpointAddr NodeId Sock Relay)
  | [], addr => .ok addr
  | s :: ss, addr =>
      match k.parseSock s with
      | none => .error "parse peer addr"
      | some sa => fetchedIps k ss { addr with ipAddrs := insert sa addr.ipAddrs }

/-- The closure of `Watcher::fetch_peers`. -/
def fetchedAddr (k : Codec NodeId Sock Relay Hash) (r : PeerRecord) :
    Except String (EndpointAddr NodeId Sock Relay) :=
  match k.parseNodeId r.nodeId with
  | none => .error "parse peer node_id"
  | some nodeId =>
      match fetchedIps k r.addrs ⟨nodeId, ∅, ∅⟩ with
      | .error e => .error e
      | .ok addr =>
          match r.relayUrl with
          | none => .ok addr
          | some relay =>
              match k.parseRelay relay with
              | none => .error "parse peer relay_url"
              | some url => .ok { addr with relayUrls := insert url addr.relayUrls }

variable {k : Codec NodeId Sock Relay Hash} {c : Crypto NodeId}

omit [LinearOrder Relay] in
lemma fetchedIps_eq (addrs : List String) (addr : EndpointAddr NodeId Sock Relay) :
    fetchedIps k addrs addr = (withIpAddrs k addrs addr).mapError peerContext := by
  induction addrs generalizing addr with
  | nil => rfl
  | cons s ss ih =>
      rw [fetchedIps, withIpAddrs]
      cases k.parseSock s with
      | none => rfl
      | some sa => exact ih _

/-- The two parsers differ in their texts only. -/
lemma fetchedAddr_eq (r : PeerRecord) :
    fetchedAddr k r = (peerAddr k r).mapError peerContext := by
  rw [fetchedAddr, peerAddr, toEndpointAddr]
  cases k.parseNodeId r.nodeId with
  | none => rfl
  | some nodeId =>
      simp only [fetchedIps_eq]
      cases withIpAddrs k r.addrs ⟨nodeId, ∅, (∅ : Finset Relay)⟩ with
      | error e => rfl
      | ok addr =>
          simp only [Except.mapError]
          cases r.relayUrl with
          | none => rfl
          | some relay =>
              simp only
              cases k.parseRelay relay <;> rfl

lemma fetchedAddr_ok_iff {r : PeerRecord} {b : EndpointAddr NodeId Sock Relay} :
    fetchedAddr k r = .ok b ↔ recordAddr k r = some b := by
  rw [fetchedAddr_eq, ← peerAddr_toOption]
  cases peerAddr k r with
  | error e => simp [Except.mapError, Except.toOption]
  | ok a => simp [Except.mapError, Except.toOption]

lemma fetchPeers_eq (identity : UserIdentity) (get : String → List PeerRecord) :
    fetchPeers k c identity get =
      (clientPeers (get identity.username) (some (k.printNodeId (identity.nodeId c)))).mapM
        (fetchedAddr k) := by
  have hfun : fetchedAddr k = fun r => (peerAddr k r).mapError peerContext := funext fetchedAddr_eq
  rw [hfun, fetchPeers]

/-! ### What arrives of an address -/

/-- `b` is `a`, except that it has at most the first of its relays. -/
structure FirstRelayOnly (a b : EndpointAddr NodeId Sock Relay) : Prop where
  id : b.id = a.id
  ipAddrs : b.ipAddrs = a.ipAddrs
  relays : a.relayUrls.card ≤ 1 → b.relayUrls = a.relayUrls
  first : ∀ h : a.relayUrls.Nonempty, b.relayUrls = {a.relayUrls.min' h}

omit [LinearOrder Sock] in
lemma firstRelay_of_nonempty {a : EndpointAddr NodeId Sock Relay} (h : a.relayUrls.Nonempty) :
    a.firstRelay.relayUrls = {a.relayUrls.min' h} := by
  have hhead : (a.relayUrls.sort (· ≤ ·)).head? = some (a.relayUrls.min' h) := by
    rw [Finset.min'_eq_sorted_zero, List.head?_eq_getElem?]
    exact List.getElem?_eq_getElem _
  rw [EndpointAddr.firstRelay, hhead, Option.toFinset_some]

omit [LinearOrder Sock] in
lemma firstRelayOnly (a : EndpointAddr NodeId Sock Relay) : FirstRelayOnly a a.firstRelay where
  id := rfl
  ipAddrs := rfl
  relays := fun h => by
    rcases a.relayUrls.eq_empty_or_nonempty with hnil | hne
    · rw [EndpointAddr.firstRelay, hnil]
      simp
    · obtain ⟨url, hurl⟩ := Finset.card_eq_one.mp (le_antisymm h hne.card_pos)
      rw [firstRelay_of_nonempty hne]
      simp only [hurl, Finset.min'_singleton]
  first := fun h => firstRelay_of_nonempty h

/-- The record that a registration leaves at the server. -/
def registeredRecord (k : Codec NodeId Sock Relay Hash) (c : Crypto NodeId)
    (identity : UserIdentity) (a : EndpointAddr NodeId Sock Relay) (now : ℕ) : PeerRecord where
  nodeId := (registerRequest k c identity a).nodeId
  addrs := (registerRequest k c identity a).addrs
  relayUrl := (registerRequest k c identity a).relayUrl
  lastSeen := now

/-- A printed address parses, whatever node id is printed with it. -/
lemma recordAddr_printed (id : NodeId) (a : EndpointAddr NodeId Sock Relay) (now : ℕ) :
    recordAddr k ⟨k.printNodeId id, a.printedAddrs k, a.printedRelay k, now⟩ =
      some { a.firstRelay with id := id } := by
  have haddrs : ∀ s ∈ a.printedAddrs k, (k.parseSock s).isSome := by
    intro s hs
    obtain ⟨sa, -, rfl⟩ := List.mem_map.mp hs
    simp
  have hrelay : ∀ u ∈ a.printedRelay k, (k.parseRelay u).isSome := by
    intro u hu
    obtain ⟨url, -, rfl⟩ := Option.map_eq_some_iff.mp hu
    simp
  have hips : (a.printedAddrs k).filterMap k.parseSock = a.ipAddrs.sort (· ≤ ·) := by
    rw [EndpointAddr.printedAddrs, List.filterMap_map]
    simp
  have hurl : (a.printedRelay k).bind k.parseRelay = (a.relayUrls.sort (· ≤ ·)).head? := by
    rw [EndpointAddr.printedRelay]
    cases (a.relayUrls.sort (· ≤ ·)).head? <;> simp
  rw [recordAddr, if_pos ⟨haddrs, hrelay⟩, hips, hurl, k.parse_printNodeId, Finset.sort_toFinset]
  rfl

/-- **The wire of an offer.** -/
lemma toEndpointAddr_fromEndpointAddr (a : EndpointAddr NodeId Sock Relay) :
    toEndpointAddr k (fromEndpointAddr k a) = .ok a.firstRelay := by
  have h : (toEndpointAddr k (fromEndpointAddr k a)).toOption = some a.firstRelay :=
    (peerAddr_toOption k ⟨k.printNodeId a.id, a.printedAddrs k, a.printedRelay k, 0⟩).trans
      (recordAddr_printed a.id a 0)
  cases hw : toEndpointAddr k (fromEndpointAddr k a) with
  | error e =>
      rw [hw] at h
      cases h
  | ok b =>
      rw [hw] at h
      exact congrArg _ (Option.some.inj h)

/-- **The wire of the registry.** -/
lemma fetchedAddr_registered {identity : UserIdentity} {a : EndpointAddr NodeId Sock Relay}
    (hown : identity.nodeId c = a.id) (now : ℕ) :
    fetchedAddr k (registeredRecord k c identity a now) = .ok a.firstRelay := by
  rw [fetchedAddr_ok_iff]
  refine (recordAddr_printed (identity.nodeId c) a now).trans ?_
  rw [hown]
  rfl

/-! ### What a watcher fetches -/

omit [LinearOrder Sock] [LinearOrder Relay] in
/-- A parse of all records fails because that of one does. -/
lemma exists_error_of_mapM {ε α β : Type*} {f : α → Except ε β} {l : List α} {e : ε}
    (h : l.mapM f = .error e) : ∃ a ∈ l, f a = .error e := by
  induction l with
  | nil => cases h
  | cons a l ih =>
      rw [List.mapM_cons] at h
      cases ha : f a with
      | error e' =>
          rw [ha] at h
          cases h
          exact ⟨a, List.mem_cons_self, ha⟩
      | ok b =>
          rw [ha] at h
          cases hl : l.mapM f with
          | error e' =>
              rw [hl] at h
              cases h
              obtain ⟨a', ha', he⟩ := ih hl
              exact ⟨a', List.mem_cons_of_mem a ha', he⟩
          | ok rest =>
              rw [hl] at h
              cases h

section Fetching

variable {identity reader : UserIdentity} {a : EndpointAddr NodeId Sock Relay}
  {events : List Rendezvous.Event} {now t : ℕ}

/-- The records that a reader takes from the answer of the server. -/
def answer (k : Codec NodeId Sock Relay Hash) (c : Crypto NodeId) (reader : UserIdentity)
    (events : List Rendezvous.Event) (t : ℕ) : List PeerRecord :=
  clientPeers ((Registry.run events).peers reader.username t)
    (some (k.printNodeId (reader.nodeId c)))

/-- Every record of the user was registered by a watcher. -/
def ByWatchers (k : Codec NodeId Sock Relay Hash) (c : Crypto NodeId) (username : String)
    (events : List Rendezvous.Event) : Prop :=
  ∀ n addrs relayUrl now, Rendezvous.Event.register username n addrs relayUrl now ∈ events →
    ∃ (identity : UserIdentity) (addr : EndpointAddr NodeId Sock Relay),
      registerRequest k c identity addr = ⟨username, n, addrs, relayUrl⟩

omit [LinearOrder Sock] [LinearOrder Relay] in
lemma mem_answer (ht : ∀ e ∈ events, e.now ≤ t) {r : PeerRecord} :
    r ∈ answer k c reader events t ↔
      (LastRegister events reader.username r ∧ Registry.cutoff t ≤ r.lastSeen)
        ∧ r.nodeId ≠ k.printNodeId (reader.nodeId c) := by
  rw [answer, clientPeers, List.mem_filter, decide_eq_true_iff, (mem_peers_iff ht _).2,
    Registry.cutoff]

/-- The registration is the one record under its node id. -/
lemma mem_answer_registered (hown : identity.nodeId c = a.id)
    (hname : reader.username = identity.username) (hreader : reader.nodeId c ≠ a.id)
    (hlast : LastRegister events identity.username (registeredRecord k c identity a now))
    (ht : ∀ e ∈ events, e.now ≤ t) (hlive : Registry.cutoff t ≤ now) {r : PeerRecord} :
    r ∈ answer k c reader events t ∧ r.nodeId = k.printNodeId a.id ↔
      r = registeredRecord k c identity a now := by
  have hid : (registeredRecord k c identity a now).nodeId = k.printNodeId a.id := by
    rw [← hown]
    rfl
  have hmem : registeredRecord k c identity a now ∈ answer k c reader events t := by
    rw [mem_answer ht, hname, hid]
    refine ⟨⟨hlast, hlive⟩, fun heq => hreader ?_⟩
    have := congrArg k.parseNodeId heq
    rwa [k.parse_printNodeId, k.parse_printNodeId, Option.some.injEq, eq_comm] at this
  constructor
  · rintro ⟨hr, hrid⟩
    have hnd := (mem_peers_iff ht reader.username).1
    rw [answer, clientPeers, List.mem_filter] at hr hmem
    exact List.inj_on_of_nodup_map hnd hr.1 hmem.1 (hrid.trans hid.symm)
  · rintro rfl
    exact ⟨hmem, hid⟩

/-- A record of a watcher parses, and its text is the printed node id of its address. -/
lemma ByWatchers.fetched (h : ByWatchers k c reader.username events)
    (ht : ∀ e ∈ events, e.now ≤ t) {r : PeerRecord} (hr : r ∈ answer k c reader events t) :
    ∃ b, fetchedAddr k r = .ok b ∧ r.nodeId = k.printNodeId b.id := by
  obtain ⟨⟨hlast, -⟩, -⟩ := (mem_answer ht).mp hr
  obtain ⟨identity, addr, hreq⟩ := h _ _ _ _ hlast.mem
  obtain ⟨n, addrs, relayUrl, seen⟩ := r
  simp only [registerRequest, RegisterRequest.mk.injEq] at hreq
  obtain ⟨-, rfl, rfl, rfl⟩ := hreq
  exact ⟨_, fetchedAddr_ok_iff.mpr (recordAddr_printed (identity.nodeId c) addr seen), rfl⟩

lemma fetchPeers_answer :
    fetchPeers k c reader (fun u => (Registry.run events).peers u t) =
      (answer k c reader events t).mapM (fetchedAddr k) := fetchPeers_eq reader _

lemma mem_of_fetchPeers {b : EndpointAddr NodeId Sock Relay} {r : PeerRecord}
    (hr : r ∈ answer k c reader events t) (hb : fetchedAddr k r = .ok b)
    {peers : List (EndpointAddr NodeId Sock Relay)}
    (h : (answer k c reader events t).mapM (fetchedAddr k) = .ok peers) : b ∈ peers := by
  have hopt := mapM_toOption (fetchedAddr k) (answer k c reader events t)
  rw [h] at hopt
  split_ifs at hopt
  · rw [Option.some.inj hopt, List.mem_filterMap]
    exact ⟨r, hr, by rw [hb]; rfl⟩
  · cases hopt

/-- **Addresses survive both wires.**  What a peer makes of an address is the same from an
offer and from the registry: the node id, all direct addresses, and the first relay.  No
record but another one can make the fetch fail, and where all are of watchers it succeeds. -/
theorem addresses_survive (k : Codec NodeId Sock Relay Hash) (c : Crypto NodeId)
    (a : EndpointAddr NodeId Sock Relay) {identity reader : UserIdentity}
    {events : List Rendezvous.Event} {now t : ℕ} (hown : identity.nodeId c = a.id)
    (hname : reader.username = identity.username) (hreader : reader.nodeId c ≠ a.id)
    (hlast : LastRegister events identity.username (registeredRecord k c identity a now))
    (ht : ∀ e ∈ events, e.now ≤ t) (hlive : Registry.cutoff t ≤ now) :
    ∃ b, FirstRelayOnly a b
      ∧ toEndpointAddr k (fromEndpointAddr k a) = .ok b
      ∧ (∀ r, r ∈ answer k c reader events t ∧ r.nodeId = k.printNodeId a.id ↔
        r = registeredRecord k c identity a now)
      ∧ fetchedAddr k (registeredRecord k c identity a now) = .ok b
      ∧ (∀ peers, fetchPeers k c reader (fun u => (Registry.run events).peers u t) = .ok peers →
        b ∈ peers)
      ∧ (∀ e, fetchPeers k c reader (fun u => (Registry.run events).peers u t) = .error e →
        ∃ r ∈ answer k c reader events t,
          r.nodeId ≠ k.printNodeId a.id ∧ fetchedAddr k r = .error e)
      ∧ (ByWatchers k c reader.username events →
        ∃ peers, fetchPeers k c reader (fun u => (Registry.run events).peers u t) = .ok peers
          ∧ ∀ b' ∈ peers, b'.id = a.id → b' = b) := by
  have hone := fun r => mem_answer_registered (r := r) hown hname hreader hlast ht hlive
  have hfetched := fetchedAddr_registered (k := k) hown now
  refine ⟨a.firstRelay, firstRelayOnly a, toEndpointAddr_fromEndpointAddr a, hone, hfetched,
    ?_, ?_, ?_⟩
  · intro peers hpeers
    rw [fetchPeers_answer] at hpeers
    exact mem_of_fetchPeers ((hone _).mpr rfl).1 hfetched hpeers
  · intro e he
    rw [fetchPeers_answer] at he
    obtain ⟨r, hr, hbad⟩ := exists_error_of_mapM he
    refine ⟨r, hr, fun hid => ?_, hbad⟩
    rw [(hone r).mp ⟨hr, hid⟩, hfetched] at hbad
    cases hbad
  · intro hw
    rw [fetchPeers_answer]
    cases hpeers : (answer k c reader events t).mapM (fetchedAddr k) with
    | error e =>
        obtain ⟨r, hr, hbad⟩ := exists_error_of_mapM hpeers
        obtain ⟨b, hb, -⟩ := hw.fetched ht hr
        rw [hb] at hbad
        cases hbad
    | ok peers =>
        refine ⟨peers, rfl, fun b' hb' hid => ?_⟩
        obtain ⟨r, hr, hok⟩ := mem_of_mapM_ok hpeers hb'
        obtain ⟨b, hb, hprint⟩ := hw.fetched ht hr
        obtain rfl : b = b' := Except.ok.inj (hb.symm.trans hok)
        rw [(hone r).mp ⟨hr, by rw [hprint, hid]⟩, hfetched] at hok
        exact (Except.ok.inj hok).symm

end Fetching

/-- The laptop of alice with two direct addresses and two relays. -/
def twoRelays : EndpointAddr String String String :=
  ⟨aliceIdentity.nodeId plainCrypto, {"10.0.0.1:1", "10.0.0.2:1"}, {"https://b/", "https://a/"}⟩

/-- A device with the name of alice and another key. -/
def otherIdentity : UserIdentity := ⟨"alice", ⟨List.replicate 32 7, rfl⟩⟩

/-- The laptop registers. -/
def laptopEvents : List Rendezvous.Event :=
  [registerEvent (registerRequest textCodec plainCrypto aliceIdentity twoRelays) 100]

lemma byWatchers_laptop : ByWatchers textCodec plainCrypto "alice" laptopEvents := by
  intro n addrs relayUrl now h
  rw [laptopEvents, List.mem_singleton, registerEvent, Rendezvous.Event.register.injEq] at h
  obtain ⟨-, rfl, rfl, rfl, -⟩ := h
  exact ⟨aliceIdentity, twoRelays, rfl⟩

theorem twoRelays_survive :
    ∃ b, FirstRelayOnly twoRelays b
      ∧ toEndpointAddr textCodec (fromEndpointAddr textCodec twoRelays) = .ok b
      ∧ ∃ peers, fetchPeers textCodec plainCrypto otherIdentity
          (fun u => (Registry.run laptopEvents).peers u 120) = .ok peers ∧ b ∈ peers := by
  have hname : otherIdentity.username = aliceIdentity.username := rfl
  have hother : otherIdentity.nodeId plainCrypto ≠ twoRelays.id := by decide
  have hlast : LastRegister laptopEvents aliceIdentity.username
      (registeredRecord textCodec plainCrypto aliceIdentity twoRelays 100) :=
    ⟨[], [], rfl, by simp⟩
  have ht : ∀ e ∈ laptopEvents, e.now ≤ 120 := by
    intro e he
    rw [List.mem_singleton.mp he]
    exact (by decide : 100 ≤ 120)
  obtain ⟨b, hfirst, hwire, -, -, hmem, -, hok⟩ :=
    addresses_survive textCodec plainCrypto twoRelays rfl hname hother hlast ht (by decide)
  obtain ⟨peers, hpeers, -⟩ := hok byWatchers_laptop
  exact ⟨b, hfirst, hwire, peers, hpeers, hmem peers hpeers⟩

end Dddatasync
