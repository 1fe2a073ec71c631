import Dddatasync.Library.Json
import Dddatasync.Rendezvous.Server

/-!
What goes over the wire: the request bodies the Rust server decodes, and the answer of
`GET /peers` that the client decodes.

* `SignupRequest.decode`, `LoginRequest.decode`, `RegisterRequest.decode`,
  `DeregisterRequest.decode`: `serde_json` on the request structures, which takes an object
  by its names or an array by its positions, and whose names are all texts.
* `PeerRecord.toJson`, `PeerRecord.decode`, `decodePeers`: the records of an answer;
  `isSome_decodePeers`, `decode_toJson`: what the client makes of them.
-/

namespace Rendezvous

open Json

/-! ### Requests -/

/-- `SignupRequest` from JSON. -/
def SignupRequest.decode : Json → Option SignupRequest
  | .obj m =>
      if named m then
        match requiredText "username" m, requiredText "email" m, requiredText "password" m with
        | some username, some email, some password => some ⟨username, email, password⟩
        | _, _, _ => none
      else none
  | .arr [.str username, .str email, .str password] => some ⟨username, email, password⟩
  | _ => none

/-- `LoginRequest` from JSON. -/
def LoginRequest.decode : Json → Option LoginRequest
  | .obj m =>
      if named m then
        match requiredText "username" m, requiredText "password" m with
        | some username, some password => some ⟨username, password⟩
        | _, _ => none
      else none
  | .arr [.str username, .str password] => some ⟨username, password⟩
  | _ => none

/-- `RegisterRequest` from JSON. -/
def RegisterRequest.decode : Json → Option RegisterRequest
  | .obj m =>
      if named m then
        match requiredText "username" m, requiredText "node_id" m, requiredTexts "addrs" m,
          optionalText "relay_url" m with
        | some username, some nodeId, some addrs, some relayUrl =>
            some ⟨username, nodeId, addrs, relayUrl⟩
        | _, _, _, _ => none
      else none
  | .arr [.str username, .str nodeId, addrs, relayUrl] =>
      match addrs.texts, relayUrl.textOrNull with
      | some addrs, some relayUrl => some ⟨username, nodeId, addrs, relayUrl⟩
      | _, _ => none
  | _ => none

/-- `DeregisterRequest` from JSON. -/
def DeregisterRequest.decode : Json → Option DeregisterRequest
  | .obj m =>
      if named m then
        match requiredText "username" m, requiredText "node_id" m with
        | some username, some nodeId => some ⟨username, nodeId⟩
        | _, _ => none
      else none
  | .arr [.str username, .str nodeId] => some ⟨username, nodeId⟩
  | _ => none

/-! ### The answer of `GET /peers` -/

/-- A record as the Rust server writes it. -/
def PeerRecord.toJson (r : PeerRecord) : Json :=
  .obj [("node_id", .str r.nodeId), ("addrs", .arr (r.addrs.map .str)),
    ("relay_url", match r.relayUrl with
      | some url => .str url
      | none => .null),
    ("last_seen", .int r.lastSeen)]

/-- The answer of `handle_peers`. -/
def peersJson (peers : List Json) : Json := .obj [("peers", .arr peers)]

/-- A number that fits into a `u64`. -/
def u64 : Json → Option ℕ
  | .int n => n.toNat?.filter (· < 2 ^ 64)
  | _ => none

/-- `PeerRecord` of the client from JSON. -/
def PeerRecord.decode : Json → Option PeerRecord
  | .obj m =>
      if named m then
        match requiredText "node_id" m, requiredTexts "addrs" m, optionalText "relay_url" m,
          (only "last_seen" m).bind u64 with
        | some nodeId, some addrs, some relayUrl, some lastSeen =>
            some ⟨nodeId, addrs, relayUrl, lastSeen⟩
        | _, _, _, _ => none
      else none
  | .arr [.str nodeId, addrs, relayUrl, lastSeen] =>
      match addrs.texts, relayUrl.textOrNull, u64 lastSeen with
      | some addrs, some relayUrl, some lastSeen => some ⟨nodeId, addrs, relayUrl, lastSeen⟩
      | _, _, _ => none
  | _ => none

/-- `PeersResponse` of the client from JSON, the list in it. -/
def decodePeers : Json → Option (List PeerRecord)
  | .obj m =>
      if named m then
        match only "peers" m with
        | some (.arr peers) => peers.mapM PeerRecord.decode
        | _ => none
      else none
  | .arr [.arr peers] => peers.mapM PeerRecord.decode
  | _ => none

/-- The client decodes an answer when it decodes every record of it. -/
lemma isSome_decodePeers {peers : List Json} :
    (decodePeers (peersJson peers)).isSome ↔ ∀ p ∈ peers, (PeerRecord.decode p).isSome := by
  show (peers.mapM PeerRecord.decode).isSome ↔ _
  induction peers with
  | nil => simp
  | cons p ps ih =>
      rw [List.mapM_cons, List.forall_mem_cons]
      cases hp : PeerRecord.decode p with
      | none => simp
      | some r =>
          rw [Option.bind_eq_bind, Option.bind_some]
          cases hps : ps.mapM PeerRecord.decode with
          | none => simpa [hps] using ih
          | some rs => simpa [hps] using ih

/-- The client reads a record as the Rust server wrote it. -/
lemma decode_toJson {r : PeerRecord} (h : r.lastSeen < 2 ^ 64) :
    PeerRecord.decode r.toJson = some r := by
  have hu64 : u64 (.int r.lastSeen) = some r.lastSeen := by
    show (some r.lastSeen).filter (· < 2 ^ 64) = _
    rw [Option.filter_some, if_pos (by simpa using h)]
  have haddrs : (Json.arr (r.addrs.map .str)).texts = some r.addrs := mapM_text r.addrs
  obtain ⟨nodeId, addrs, relayUrl, lastSeen⟩ := r
  simp only at hu64 haddrs
  cases relayUrl with
  | none =>
      simp [PeerRecord.toJson, PeerRecord.decode, named, requiredText, requiredTexts, optionalText,
        only, occurrences, text, textOrNull, hu64, haddrs]
  | some url =>
      simp [PeerRecord.toJson, PeerRecord.decode, named, requiredText, requiredTexts, optionalText,
        only, occurrences, text, textOrNull, hu64, haddrs]

end Rendezvous
