import Dddatasync.Enrolment
import Dddatasync.NotifyLoop
import Dddatasync.Watcher

/-!
`push_file` of `src/watcher.rs` over the records that the rendezvous server returns, down to
the peers that `push` notifies.

* `recordAddr`: the address in a record whose fields all parse; `peerAddr_toOption`.
* `PeerPush`: a file, the records, and the network; `outcome`, `Ran`: how far `push_file`
  gets, and whom it notifies.
* `due`: whom it should notify; `NotifiesEach`.
* `ran_iff`: one record that does not parse keeps the file from everybody;
  `notifiesEach_iff`.
-/

namespace Dddatasync

open Fs OsString Runs Rendezvous

variable {μ C NodeId Sock Relay Hash : Type*}

/-! ### Records -/

section Records

variable [LinearOrder Sock] [LinearOrder Relay]

/-- The address in a record; there is none if the node id, a direct address or the relay URL
does not parse. -/
def recordAddr (k : Codec NodeId Sock Relay Hash) (r : PeerRecord) :
    Option (EndpointAddr NodeId Sock Relay) :=
  if (∀ s ∈ r.addrs, (k.parseSock s).isSome) ∧ ∀ u ∈ r.relayUrl, (k.parseRelay u).isSome then
    (k.parseNodeId r.nodeId).map fun id =>
      ⟨id, (r.addrs.filterMap k.parseSock).toFinset, (r.relayUrl.bind k.parseRelay).toFinset⟩
  else none

omit [LinearOrder Relay] in
lemma withIpAddrs_toOption (k : Codec NodeId Sock Relay Hash) (addrs : List String)
    (a : EndpointAddr NodeId Sock Relay) :
    (withIpAddrs k addrs a).toOption
      = if ∀ s ∈ addrs, (k.parseSock s).isSome then
          some { a with ipAddrs := (addrs.filterMap k.parseSock).toFinset ∪ a.ipAddrs }
        else none := by
  induction addrs generalizing a with
  | nil => simp [withIpAddrs, Except.toOption]
  | cons s ss ih =>
      cases hs : k.parseSock s with
      | none => simp [withIpAddrs, hs, Except.toOption]
      | some sa =>
          simp only [withIpAddrs, hs, ih, List.forall_mem_cons, Option.isSome_some, true_and,
            List.filterMap_cons_some hs, List.toFinset_cons, Finset.insert_union,
            Finset.union_insert]

/-- The parse of `Watcher::fetch_peers` succeeds on the records with an address. -/
lemma peerAddr_toOption (k : Codec NodeId Sock Relay Hash) (r : PeerRecord) :
    (peerAddr k r).toOption = recordAddr k r := by
  rw [peerAddr, toEndpointAddr, recordAddr]
  cases hid : k.parseNodeId r.nodeId with
  | none => simp [Except.toOption]
  | some id =>
      have haddrs := withIpAddrs_toOption k r.addrs ⟨id, ∅, (∅ : Finset Relay)⟩
      cases hparsed : withIpAddrs k r.addrs ⟨id, ∅, ∅⟩ with
      | error e =>
          rw [hparsed] at haddrs
          have hbad : ¬ ∀ s ∈ r.addrs, (k.parseSock s).isSome := fun hall => by
            rw [if_pos hall] at haddrs
            cases haddrs
          simp [hparsed, hbad, Except.toOption]
      | ok a =>
          rw [hparsed] at haddrs
          have hall : ∀ s ∈ r.addrs, (k.parseSock s).isSome := by
            by_contra hbad
            rw [if_neg hbad] at haddrs
            cases haddrs
          rw [if_pos hall] at haddrs
          obtain rfl := Option.some.inj haddrs
          cases hrelay : r.relayUrl with
          | none =>
              rw [if_pos ⟨hall, by simp⟩]
              simp [hparsed, Except.toOption]
          | some u =>
              cases hu : k.parseRelay u with
              | none =>
                  rw [if_neg fun h => by simpa [hu] using h.2 u rfl]
                  simp [hparsed, hu, Except.toOption]
              | some url =>
                  rw [if_pos ⟨hall, by simp [hu]⟩]
                  simp [hparsed, hu, Except.toOption]

omit [LinearOrder Relay] in
/-- A record in which everything parses names the node of its address. -/
lemma parseNodeId_of_recordAddr {k : Codec NodeId Sock Relay Hash} {r : PeerRecord}
    {a : EndpointAddr NodeId Sock Relay} (h : recordAddr k r = some a) :
    k.parseNodeId r.nodeId = some a.id := by
  rw [recordAddr] at h
  split_ifs at h
  obtain ⟨id, hid, rfl⟩ := Option.map_eq_some_iff.mp h
  exact hid

omit [LinearOrder Sock] [LinearOrder Relay] in
/-- A parse of all records succeeds if that of each does. -/
lemma mapM_toOption {ε α β : Type*} (f : α → Except ε β) (l : List α) :
    (l.mapM f).toOption
      = if ∀ a ∈ l, (f a).toOption.isSome then some (l.filterMap fun a => (f a).toOption)
        else none := by
  induction l with
  | nil => rfl
  | cons a l ih =>
      rw [List.mapM_cons]
      cases ha : f a with
      | error e => simp [ha, Except.toOption, bind, Except.bind]
      | ok b =>
          have hrest : (do let bs ← l.mapM f; pure (b :: bs) : Except ε (List β)).toOption
              = (l.mapM f).toOption.map (b :: ·) := by
            cases l.mapM f <;> rfl
          refine hrest.trans ?_
          rw [ih]
          split_ifs with hall hall' hall'
          · simp [ha, Except.toOption]
          · exact absurd (List.forall_mem_cons.mpr ⟨by simp [ha, Except.toOption], hall⟩) hall'
          · exact absurd (List.forall_mem_cons.mp hall').2 hall
          · rfl

end Records

/-! ### The push of one file -/

/-- A file for which `push_file` is called and the tree it is in, the records that the server
returns, and the network with the stores of the peers. -/
structure PeerPush (μ C NodeId Sock Relay Hash : Type*) where
  crypto : Crypto NodeId
  identity : UserIdentity
  records : List PeerRecord
  root : AbsPath
  io : Faults C
  fs : FileSystem C
  world : Pushing μ (EndpointAddr NodeId Sock Relay) C NodeId Sock Relay Hash
  store : EndpointAddr NodeId Sock Relay → FileSystem C

namespace PeerPush

variable (d : PeerPush μ C NodeId Sock Relay Hash)

/-- The node id of the device. -/
def ownId : NodeId := d.identity.nodeId d.crypto

/-- The node id of the device as it registers it. -/
def ownText : String := d.world.codec.printNodeId d.ownId

/-- The `push` to these peers. -/
def push (peers : List (EndpointAddr NodeId Sock Relay)) :
    Pushing μ (EndpointAddr NodeId Sock Relay) C NodeId Sock Relay Hash :=
  { d.world with peers := peers }

/-- The records that the client does not take for its own. -/
def others : List PeerRecord := clientPeers d.records (some d.ownText)

lemma mem_others {r : PeerRecord} : r ∈ d.others ↔ r ∈ d.records ∧ r.nodeId ≠ d.ownText := by
  rw [others, clientPeers, List.mem_filter, decide_eq_true_iff]

variable [HasLen C]

/-- `push_file` does not fail before it asks for peers, and the file has a name to offer. -/
def Ready : Prop :=
  d.io.stat = false
    ∧ (∃ stat, metadata d.fs d.world.path = .ok stat
      ∧ canAdd d.root d.io d.fs (nodeLen stat) = .ok ())
    ∧ ((fileName d.world.path).bind toStr).isSome = true

variable [LinearOrder Sock] [LinearOrder Relay]

/-- Every record that the client does not take for its own is well formed. -/
def Parsed : Prop :=
  ∀ r ∈ d.records, r.nodeId ≠ d.ownText → (recordAddr d.world.codec r).isSome = true

/-- How far `push_file` gets before its push. -/
def outcome : PushOutcome (EndpointAddr NodeId Sock Relay) :=
  pushFile d.root d.io d.fs
    (fetchPeers d.world.codec d.crypto d.identity fun _ => d.records).toOption d.world.path

variable [DecidableEq NodeId]

/-- Whom `push_file` should notify: the other devices among the well-formed records. -/
def due : List (EndpointAddr NodeId Sock Relay) :=
  (d.records.filterMap (recordAddr d.world.codec)).filter fun a => a.id ≠ d.ownId

variable [DecidableEq μ] [DecidableEq Hash]

/-- The peers that `push_file` has notified when it returns: it returns before its push, or
the push, with the handlers of the peers, runs to its end. -/
inductive Ran : List (EndpointAddr NodeId Sock Relay) → Prop
  | early (h : ∀ peers, d.outcome ≠ .pushed peers) : Ran []
  | pushed (peers : List (EndpointAddr NodeId Sock Relay)) (acts : List (TrafficAct μ C Hash))
      (s : Traffic μ (EndpointAddr NodeId Sock Relay) C Hash) (h : d.outcome = .pushed peers)
      (run : exec (d.push peers).step (Traffic.init d.store) acts = some s)
      (hover : s.push.isOver = true) (hset : s.push.setUp = true) :
      Ran ((d.push peers).attempts (Traffic.init d.store) acts)

/-- `push_file` notifies every other device once and in order, and comes to an end. -/
structure NotifiesEach : Prop where
  each : ∀ notified, d.Ran notified → notified = d.due
  ends : ∀ peers acts s, d.outcome = .pushed peers →
    exec (d.push peers).step (Traffic.init d.store) acts = some s → s.push.setUp = true →
    acts.countP (fun a => a matches .push _) ≤ 4 * peers.length + 2
      ∧ ∃ more s', exec (d.push peers).step (Traffic.init d.store) (acts ++ more) = some s'
        ∧ s'.push.isOver = true ∧ s'.push.setUp = true

/-! ### Whom it notifies -/

variable {d} {peers l : List (EndpointAddr NodeId Sock Relay)}

omit [LinearOrder Sock] [LinearOrder Relay] [DecidableEq NodeId] [DecidableEq μ]
  [DecidableEq Hash] in
/-- `push_file` comes to its push if nothing fails and there are peers. -/
lemma pushFile_eq_pushed {Addr : Type*} {root : AbsPath} {io : Faults C} {fs : FileSystem C}
    {answer : Option (List Addr)} {path : PathBuf} {addrs : List Addr} :
    pushFile root io fs answer path = .pushed addrs ↔ io.stat = false
      ∧ (∃ stat, metadata fs path = .ok stat ∧ canAdd root io fs (nodeLen stat) = .ok ())
      ∧ answer = some addrs ∧ addrs ≠ [] := by
  cases hstat : io.stat with
  | true => simp [pushFile, hstat]
  | false =>
      cases hmeta : metadata fs path with
      | error e => simp [pushFile, hstat, hmeta]
      | ok stat =>
          cases hgate : canAdd root io fs (nodeLen stat) with
          | error e => simp [pushFile, hstat, hmeta, hgate]
          | ok u =>
              have hready : ∃ stat', (.ok stat : Except IoError (Node C)) = .ok stat'
                  ∧ canAdd root io fs (nodeLen stat') = .ok () := ⟨stat, rfl, hgate⟩
              simp only [pushFile, hstat, hmeta, hgate, hready, Bool.false_eq_true, if_false,
                true_and]
              cases answer with
              | none => simp
              | some as =>
                  cases as with
                  | nil =>
                      constructor
                      · intro h
                        cases h
                      · rintro ⟨h, hne⟩
                        exact absurd (Option.some.inj h).symm hne
                  | cons a as =>
                      constructor
                      · intro h
                        cases h
                        exact ⟨rfl, List.cons_ne_nil a as⟩
                      · rintro ⟨h, -⟩
                        cases h
                        rfl

omit [DecidableEq NodeId] [DecidableEq μ] [DecidableEq Hash] [HasLen C] in
lemma fetchPeers_toOption :
    (fetchPeers d.world.codec d.crypto d.identity fun _ => d.records).toOption
      = if ∀ r ∈ d.others, (recordAddr d.world.codec r).isSome then
          some (d.others.filterMap (recordAddr d.world.codec))
        else none := by
  have herror : ∀ r, ((peerAddr d.world.codec r).mapError peerContext).toOption
      = recordAddr d.world.codec r := fun r => by
    rw [← peerAddr_toOption]
    cases peerAddr d.world.codec r <;> rfl
  rw [fetchPeers, mapM_toOption]
  simp only [herror]
  rfl

omit [DecidableEq NodeId] [DecidableEq μ] [DecidableEq Hash] [HasLen C] [LinearOrder Relay] in
lemma parsed_iff : d.Parsed ↔ ∀ r ∈ d.others, (recordAddr d.world.codec r).isSome := by
  simp only [Parsed, mem_others, and_imp]

omit [DecidableEq NodeId] [DecidableEq μ] [DecidableEq Hash] in
/-- When `push_file` comes to its push, and with which peers. -/
lemma outcome_eq_pushed :
    d.outcome = .pushed peers ↔ d.io.stat = false
      ∧ (∃ stat, metadata d.fs d.world.path = .ok stat
        ∧ canAdd d.root d.io d.fs (nodeLen stat) = .ok ())
      ∧ d.Parsed ∧ peers = d.others.filterMap (recordAddr d.world.codec) ∧ peers ≠ [] := by
  rw [outcome, pushFile_eq_pushed, fetchPeers_toOption, parsed_iff]
  split_ifs with hall
  · rw [Option.some.injEq]
    exact ⟨fun ⟨h1, h2, h3, h4⟩ => ⟨h1, h2, hall, h3.symm, h4⟩,
      fun ⟨h1, h2, _, h3, h4⟩ => ⟨h1, h2, h3.symm, h4⟩⟩
  · simp [hall]

/-- A run of the push notifies all its peers, unless the file has no name to offer. -/
lemma ran_of_pushed (h : d.outcome = .pushed peers) (hran : d.Ran l) :
    l = if ((fileName d.world.path).bind toStr).isSome then peers else [] := by
  cases hran with
  | early hearly => exact absurd h (hearly peers)
  | pushed peers' acts s h' run hover hset =>
      obtain rfl : peers' = peers := PushOutcome.pushed.inj (h'.symm.trans h)
      have hinv := Pushing.loopInv_run run
      cases hpush : s.push with
      | start | preparing | notifying =>
          rw [hpush] at hover
          cases hover
      | finished f c results =>
          rw [hpush] at hinv
          obtain ⟨hall, -, hname⟩ := hinv
          exact hall.trans (if_pos hname).symm
      | stopped r =>
          rw [hpush] at hinv hset
          obtain ⟨hnone, hempty, hname⟩ := hinv
          cases r with
          | ok u => exact absurd (hempty rfl) (outcome_eq_pushed.mp h).2.2.2.2
          | error e =>
              obtain rfl : e = .noFileName := of_decide_eq_true hset
              have hname' : ¬ ((fileName d.world.path).bind toStr).isSome = true := by
                rw [show (fileName d.world.path).bind toStr = none from hname rfl]
                exact Bool.false_ne_true
              exact hnone.trans (if_neg hname').symm

variable [Inhabited C]

/-- `push_file` can be run. -/
lemma exists_ran (d : PeerPush μ C NodeId Sock Relay Hash) : ∃ l, d.Ran l := by
  by_cases h : ∃ peers, d.outcome = .pushed peers
  · obtain ⟨peers, h⟩ := h
    have hstart : exec (d.push peers).step (Traffic.init d.store) []
        = some (Traffic.init d.store) := rfl
    obtain ⟨acts, s, hrun, hover, hset⟩ := Pushing.push_ends hstart rfl
    exact ⟨_, .pushed peers acts s h hrun hover hset⟩
  · exact ⟨[], .early fun peers hpeers => h ⟨peers, hpeers⟩⟩

/-- **Whom `push_file` notifies.**  If all records but the device's own parse, the peers in
all of them, once each and in order; if one does not, nobody. -/
theorem ran_iff : d.Ran l ↔
    (d.Ready ∧ d.Parsed) ∧ l = d.others.filterMap (recordAddr d.world.codec)
      ∨ ¬ (d.Ready ∧ d.Parsed) ∧ l = [] := by
  by_cases h : ∃ peers, d.outcome = .pushed peers
  · obtain ⟨peers, h⟩ := h
    obtain ⟨hstat, hgate, hparsed, hpeers, -⟩ := outcome_eq_pushed.mp h
    have hran : d.Ran l
        ↔ l = if ((fileName d.world.path).bind toStr).isSome then peers else [] := by
      refine ⟨ran_of_pushed h, ?_⟩
      rintro rfl
      obtain ⟨l, hl⟩ := exists_ran d
      exact ran_of_pushed h hl ▸ hl
    have hready : d.Ready ∧ d.Parsed ↔ ((fileName d.world.path).bind toStr).isSome = true :=
      ⟨fun hr => hr.1.2.2, fun hname => ⟨⟨hstat, hgate, hname⟩, hparsed⟩⟩
    rw [hran, hready, ← hpeers]
    split_ifs with hname <;> simp [hname]
  · have hran : d.Ran l ↔ l = [] := by
      constructor
      · intro hl
        cases hl with
        | early => rfl
        | pushed peers _ _ hpeers => exact absurd ⟨peers, hpeers⟩ h
      · rintro rfl
        exact .early fun peers hpeers => h ⟨peers, hpeers⟩
    rw [hran]
    by_cases hready : d.Ready ∧ d.Parsed
    · have hnil : d.others.filterMap (recordAddr d.world.codec) = [] := by
        by_contra hne
        exact h ⟨_, outcome_eq_pushed.mpr ⟨hready.1.1, hready.1.2.1, hready.2, rfl, hne⟩⟩
      simp [hready, hnil]
    · simp [hready]

/-! ### Whom it should notify -/

omit [LinearOrder Relay] [DecidableEq μ] [DecidableEq Hash] [HasLen C] [Inhabited C] in
/-- The device's own record gives its own address. -/
lemma due_eq : d.due
    = (d.others.filterMap (recordAddr d.world.codec)).filter fun a => a.id ≠ d.ownId := by
  rw [due, others, clientPeers, List.filterMap_filter]
  rw [← List.filterMap_eq_filter, List.filterMap_filterMap, List.filterMap_filterMap]
  refine List.filterMap_congr fun r _ => ?_
  by_cases hr : r.nodeId = d.ownText
  · cases ha : recordAddr d.world.codec r with
    | none => simp
    | some a =>
        have hid := parseNodeId_of_recordAddr ha
        rw [hr, ownText, Codec.parse_printNodeId, Option.some.injEq] at hid
        simp [hr, ← hid]
  · simp [hr]

/-- The exact condition, in terms of the two lists. -/
lemma notifiesEach_iff_due : d.NotifiesEach ↔
    (d.Ready ∧ d.Parsed → d.others.filterMap (recordAddr d.world.codec) = d.due)
      ∧ (¬ (d.Ready ∧ d.Parsed) → d.due = []) := by
  constructor
  · intro h
    refine ⟨fun hready => h.each _ (ran_iff.mpr (.inl ⟨hready, rfl⟩)), fun hready => ?_⟩
    exact (h.each _ (ran_iff.mpr (.inr ⟨hready, rfl⟩))).symm
  · rintro ⟨hpush, hnone⟩
    refine ⟨fun l hl => ?_, fun peers acts s _ hrun hset =>
      ⟨Nat.le_of_add_right_le (Pushing.push_bounded hrun), Pushing.push_ends hrun hset⟩⟩
    rcases ran_iff.mp hl with ⟨hready, rfl⟩ | ⟨hready, rfl⟩
    · exact hpush hready
    · exact (hnone hready).symm

/-- **One bad record.**  Where every record parses, `push_file` notifies every other device if
and only if no record spells the device's own node id in another way.  Where one does not, or
`push_file` fails before, if and only if there is nobody to notify. -/
theorem notifiesEach_iff (d : PeerPush μ C NodeId Sock Relay Hash) : d.NotifiesEach ↔
    (d.Ready ∧ d.Parsed → ∀ r ∈ d.records, r.nodeId ≠ d.ownText →
        d.world.codec.parseNodeId r.nodeId ≠ some d.ownId)
      ∧ (¬ (d.Ready ∧ d.Parsed) → d.due = []) := by
  rw [notifiesEach_iff_due]
  refine and_congr_left' (imp_congr_right fun hready => ?_)
  rw [due_eq, eq_comm, List.filter_eq_self]
  constructor
  · intro h r hr hne heq
    obtain ⟨a, ha⟩ := Option.isSome_iff_exists.mp (hready.2 r hr hne)
    have hid := (parseNodeId_of_recordAddr ha).symm.trans heq
    have hmem : a ∈ d.others.filterMap (recordAddr d.world.codec) :=
      List.mem_filterMap.mpr ⟨r, (mem_others d).mpr ⟨hr, hne⟩, ha⟩
    exact of_decide_eq_true (h a hmem) (Option.some.inj hid)
  · intro h a ha
    obtain ⟨r, hr, ha⟩ := List.mem_filterMap.mp ha
    obtain ⟨hr, hne⟩ := (mem_others d).mp hr
    exact decide_eq_true fun hid => h r hr hne (hid ▸ parseNodeId_of_recordAddr ha)

end PeerPush

/-- A file of one byte is pushed where the server has a record without a node id before that of
a peer. -/
def badRecordFirst : PeerPush Unit (List UInt8) { s : String // s ≠ "" } String String String where
  crypto := ⟨fun _ _ => none, fun _ => ⟨"own", by decide⟩⟩
  identity := ⟨"alice", ⟨List.replicate 32 0, rfl⟩⟩
  records := [⟨"", [], none, 0⟩, ⟨"peer", ["10.0.0.2:1"], none, 0⟩]
  root := [ofStr "store"]
  io := {}
  fs := AList.insert [ofStr "store", ofStr "foo"] (.file [1])
    (AList.insert [ofStr "store"] .dir ∅)
  world := {
    codec := namedCodec
    blobs := textBlobs
    dbg := id
    ioText := fun _ => ""
    path := ⟨[ofStr "store"], ofStr "foo"⟩
    addr := ⟨⟨"own", by decide⟩, ∅, ∅⟩
    peers := []
    target := fun _ => ⟨⟨"peer", by decide⟩, ∅, ∅⟩
    alpn := fun _ => []
    root := fun _ => [ofStr "store"]
    recv := fun _ => ⟨1, 1⟩
    exportStamp := fun _ => ⟨1, 2⟩ }
  store := fun _ => AList.insert [ofStr "store"] .dir ∅

/-- The peer is not notified. -/
theorem badRecordFirst_silent :
    badRecordFirst.Ready ∧ badRecordFirst.Ran [] ∧ badRecordFirst.due ≠ []
      ∧ ¬ badRecordFirst.NotifiesEach := by
  have hready : badRecordFirst.Ready :=
    ⟨rfl, ⟨.file [1], by decide, by decide⟩, by decide⟩
  have hparsed : ¬ (badRecordFirst.Ready ∧ badRecordFirst.Parsed) := fun h =>
    absurd (h.2 ⟨"", [], none, 0⟩ List.mem_cons_self (by decide)) (by decide)
  have hdue : badRecordFirst.due ≠ [] := by decide
  refine ⟨hready, PeerPush.ran_iff.mpr (.inr ⟨hparsed, rfl⟩), hdue, fun h => ?_⟩
  exact hdue ((PeerPush.notifiesEach_iff_due.mp h).2 hparsed)

end Dddatasync
