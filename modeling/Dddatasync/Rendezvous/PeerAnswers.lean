import Dddatasync.Library.Runs
import Dddatasync.Rendezvous.PyServer

/-!
What `GET /peers` answers, and whether the client can decode it.

* `PeerOp`: a request of an authenticated client, with any JSON body, or a round of pruning;
  `rustApply`, `pyApply`: what the two servers do with it.
* `Every`: a property of every record of a registry, with a rule for each operation on it.
* `PeerOp.Typed`: the values that a registration leaves in the registry have the types of the
  client's record.
* `answers_decode_iff`: the client decodes every answer of the Rust server; it decodes every
  answer of the Python server exactly if every registration was typed.
-/

namespace Rendezvous

open Runs Json

/-! ### Operations -/

/-- An authenticated request with its user, its body and the clock it reads, or a round of
pruning. -/
inductive PeerOp where
  | register (username : String) (body : Json) (now : ℕ)
  | deregister (username : String) (body : Json)
  | prune (now : ℕ)

/-- The clock value an operation reads. -/
def PeerOp.now : PeerOp → ℕ
  | .register _ _ now => now
  | .deregister _ _ => 0
  | .prune now => now

/-- The stores after the rest of a handler that waits at most once more. -/
def finish (x : Externals) (read : Reading) (request : Request) (o : Outcome) : AppState :=
  match o.next with
  | .inr _ => o.state
  | .inl pc =>
      match segment x read 0 o.state request pc with
      | some o => o.state
      | none => o.state

/-- The handlers of the Rust server, after `authenticate`. -/
def rustApply (x : Externals) (s : AppState) : PeerOp → AppState
  | .register username body now =>
      let body := RegisterRequest.decode body
      let read : Reading := { now, token := "" }
      finish x read (.register none body) (registerBody read username body s)
  | .deregister username body =>
      let body := DeregisterRequest.decode body
      finish x { token := "" } (.deregister none body) (deregisterBody username body s)
  | .prune now => { s with registry := s.registry.prune now }

/-- The views of the Python server, after `_authenticate`. -/
def pyApply (x : PyExternals) (d : PyDb) : PeerOp → PyDb
  | .register username body now => (registerAs x now username body d).1
  | .deregister username body => (deregisterAs x username body d).1
  | .prune now => { d with registry := d.registry.prune now }

/-- The answer of `handle_peers`. -/
def rustAnswer (username : String) (now : ℕ) (s : AppState) : Json :=
  peersJson ((s.registry.peers username now).map PeerRecord.toJson)

/-! ### A property of every record -/

section Every

variable {R : Type*} {P : R → Prop} {m : AssocMap String (List R)} {u : String}

/-- Every record has the property. -/
def Every (P : R → Prop) (m : AssocMap String (List R)) : Prop :=
  ∀ u, ∀ r ∈ (m.lookup u).getD [], P r

lemma every_empty : Every P (∅ : AssocMap String (List R)) := by
  intro u r hr
  simp at hr

lemma Every.insert (h : Every P m) {l : List R} (hl : ∀ r ∈ l, P r) : Every P (m.insert u l) := by
  intro v r hr
  by_cases hv : v = u
  · rw [hv, AList.lookup_insert] at hr
    exact hl r hr
  · rw [AList.lookup_insert_ne hv] at hr
    exact h v r hr

lemma Every.erase (h : Every P m) : Every P (m.erase u) := by
  intro v r hr
  by_cases hv : v = u
  · rw [hv, AList.lookup_erase] at hr
    cases hr
  · rw [AList.lookup_erase_ne hv] at hr
    exact h v r hr

/-- Pruning leaves records that were there. -/
lemma Every.prune (h : Every P m) {f : List R → List R} (hf : ∀ l, f l ⊆ l) :
    Every P (AssocMap.filterMap (fun _ l => keep (f l)) m) := by
  intro u r hr
  rw [AssocMap.lookup_filterMap] at hr
  cases hu : m.lookup u with
  | none => simp [hu] at hr
  | some l =>
      rw [hu, Option.bind_some, getD_keep] at hr
      exact h u r (by simpa [hu] using hf l hr)

end Every

/-! ### The Rust server -/

variable {x : Externals} {s : AppState} {y : PyExternals} {d : PyDb} {op : PeerOp}

/-- The clock value of a record fits into a `u64`. -/
def Fits (r : PeerRecord) : Prop := r.lastSeen < 2 ^ 64

lemma every_register {registry : Registry} (h : Every Fits registry) {u : String} {r : PeerRecord}
    (hr : Fits r) : Every Fits (registry.register u r) := by
  refine h.insert fun p hp => ?_
  rcases mem_of_mem_upsert hp with rfl | hp
  · exact hr
  · exact h u p hp

lemma every_deregister {registry : Registry} (h : Every Fits registry) (u n : String) :
    Every Fits (registry.deregister u n) := by
  rw [Registry.deregister]
  cases hu : registry.lookup u with
  | none => exact h
  | some l =>
      simp only
      split_ifs
      · exact h.erase
      · exact h.insert fun r hr => h u r (by simpa [hu] using (List.mem_filter.mp hr).1)

/-- Every operation leaves clock values that fit. -/
lemma every_rustApply (h : Every Fits s.registry) (hop : op.now < 2 ^ 64) :
    Every Fits (rustApply x s op).registry := by
  cases op with
  | register u body now =>
      rw [rustApply]
      simp only [registerBody]
      split
      · exact h
      · split_ifs
        · exact h
        · exact every_register h hop
  | deregister u body =>
      rw [rustApply]
      simp only [deregisterBody]
      split
      · exact h
      · split_ifs
        · exact h
        · exact every_deregister h _ _
  | prune now => exact h.prune fun l => List.filter_sublist.subset

/-- The client decodes the answers of a Rust server whose clock values fit. -/
lemma rustAnswer_decodes (h : Every Fits s.registry) (u : String) (now : ℕ) :
    (decodePeers (rustAnswer u now s)).isSome := by
  rw [rustAnswer, isSome_decodePeers]
  intro p hp
  obtain ⟨r, hr, rfl⟩ := List.mem_map.mp hp
  rw [decode_toJson (h u r (List.mem_filter.mp hr).1)]
  rfl

/-! ### The Python server -/

/-- The client decodes the record. -/
def Decodes (r : JsonRecord) : Prop := (PeerRecord.decode r.toJson).isSome

/-- The body can be read and names this user, a node and its addresses: the view registers it. -/
def Registrable (y : PyExternals) (username : String) (body : Json) : Prop :=
  ∃ m, y.dict body = some m ∧ last "username" m = some (.str username) ∧ (last "node_id" m).isSome
    ∧ (last "addrs" m).isSome

/-- The values of the body have the types of the client's record. -/
def TypedBody (body : Json) : Prop :=
  ∃ m, body = .obj m ∧ (∃ v ∈ last "node_id" m, v.text.isSome)
    ∧ (∃ v ∈ last "addrs" m, v.texts.isSome)
    ∧ ((last "relay_url" m).getD .null).textOrNull.isSome

/-- An accepted registration has a typed body. -/
def PeerOp.Typed (y : PyExternals) : PeerOp → Prop
  | .register username body _ => Registrable y username body → TypedBody body
  | _ => True

lemma decodes_iff {r : JsonRecord} : Decodes r ↔ r.nodeId.text.isSome ∧ r.addrs.texts.isSome
    ∧ r.relayUrl.textOrNull.isSome ∧ (u64 (.int r.lastSeen)).isSome := by
  obtain ⟨nodeId, addrs, relayUrl, lastSeen⟩ := r
  let m : List (Key × Json) := [("node_id", nodeId), ("addrs", addrs), ("relay_url", relayUrl),
    ("last_seen", .int lastSeen)]
  have hnode : requiredText "node_id" m = nodeId.text := rfl
  have haddrs : requiredTexts "addrs" m = addrs.texts := rfl
  have hrelay : optionalText "relay_url" m = relayUrl.textOrNull := rfl
  have hseen : (only "last_seen" m).bind u64 = u64 (.int lastSeen) := rfl
  have hnamed : named m = true := rfl
  show (PeerRecord.decode (.obj m)).isSome ↔ _
  rw [PeerRecord.decode, if_pos hnamed, hnode, haddrs, hrelay, hseen]
  cases nodeId.text <;> cases addrs.texts <;> cases relayUrl.textOrNull <;>
    cases u64 (.int lastSeen) <;> simp

/-- The tables with one more record. -/
def recorded (y : PyExternals) (d : PyDb) (u : String) (nodeId addrs relayUrl : Json) (now : ℤ) :
    PyDb :=
  { d with registry := d.registry.upsert y u nodeId addrs relayUrl now }

/-- What the registration view does. -/
lemma registerAs_cases (now : ℕ) (username : String) (body : Json) :
    (∃ m nodeId addrs, y.dict body = some m ∧ last "username" m = some (.str username)
        ∧ last "node_id" m = some nodeId ∧ last "addrs" m = some addrs
        ∧ registerAs y now username body d = (recorded y d username nodeId addrs
          ((last "relay_url" m).getD .null) now, ⟨200, .empty⟩))
      ∨ ¬ Registrable y username body ∧ (registerAs y now username body d).1 = d
        ∧ (registerAs y now username body d).2.status ≠ 200 := by
  cases hbody : y.dict body with
  | none =>
      refine .inr ⟨?_, by rw [registerAs, hbody]; rfl, by rw [registerAs, hbody]; simp [raised]⟩
      rintro ⟨m, hm, -⟩
      rw [hbody] at hm
      cases hm
  | some m =>
      have hunique : ∀ m', y.dict body = some m' → m' = m := by
        intro m' hm'
        rw [hbody] at hm'
        exact (Option.some.inj hm').symm
      simp only [registerAs, hbody]
      split
      · rename_i name hname
        split_ifs with hne
        · refine .inr ⟨?_, rfl, by simp [refuse]⟩
          rintro ⟨m', heq, hname', -⟩
          rw [hunique m' heq, hname] at hname'
          cases hname'
          exact hne rfl
        · rw [not_not] at hne
          subst hne
          split
          · rename_i nodeId addrs hnode haddrs
            exact .inl ⟨m, nodeId, addrs, rfl, hname, hnode, haddrs, rfl⟩
          · rename_i hnone
            refine .inr ⟨?_, rfl, by simp [raised]⟩
            rintro ⟨m', heq, -, hnode, haddrs⟩
            rw [hunique m' heq] at hnode haddrs
            obtain ⟨nodeId, hnode⟩ := Option.isSome_iff_exists.mp hnode
            obtain ⟨addrs, haddrs⟩ := Option.isSome_iff_exists.mp haddrs
            exact hnone nodeId addrs hnode haddrs
      · rename_i hname
        refine .inr ⟨?_, rfl, by simp [refuse]⟩
        rintro ⟨m', heq, hname', -⟩
        rw [hunique m' heq] at hname'
        exact hname username hname'

lemma mem_put_self (record : JsonRecord) (l : List JsonRecord) :
    record ∈ JsonRegistry.put y record l := by
  induction l with
  | nil => exact List.mem_cons_self
  | cons p ps ih =>
      rw [JsonRegistry.put]
      split
      · exact List.mem_cons_self
      · exact List.mem_cons_of_mem _ ih

lemma mem_of_mem_put {record r : JsonRecord} {l : List JsonRecord}
    (h : r ∈ JsonRegistry.put y record l) : r = record ∨ r ∈ l := by
  induction l with
  | nil => exact .inl (List.mem_singleton.mp h)
  | cons p ps ih =>
      rw [JsonRegistry.put] at h
      split at h
      · rcases List.mem_cons.mp h with h | h
        · exact .inl h
        · exact .inr (List.mem_cons_of_mem _ h)
      · rcases List.mem_cons.mp h with h | h
        · exact .inr (h ▸ List.mem_cons_self)
        · exact (ih h).imp id (List.mem_cons_of_mem _)

/-- Registering keeps a property of all records that the new one has. -/
lemma every_upsert {P : JsonRecord → Prop} {registry : JsonRegistry} (h : Every P registry)
    {u : String} {nodeId addrs relayUrl : Json} {now : ℤ} (hr : P ⟨nodeId, addrs, relayUrl, now⟩) :
    Every P (registry.upsert y u nodeId addrs relayUrl now) := by
  refine h.insert fun p hp => ?_
  rcases mem_of_mem_put hp with rfl | hp
  · exact hr
  · exact h u p hp

/-- Removing a device keeps it. -/
lemma every_deregisterAs {P : JsonRecord → Prop} (h : Every P d.registry) (username : String)
    (body : Json) : Every P (deregisterAs y username body d).1.registry := by
  have hremove : ∀ u nodeId, Every P (d.registry.remove y u nodeId) := by
    intro u nodeId
    rw [JsonRegistry.remove]
    cases hu : d.registry.lookup u with
    | none => exact h
    | some l =>
        simp only
        split
        · exact h.erase
        · exact h.insert fun r hr => h u r (by simpa [hu] using (List.mem_filter.mp hr).1)
  rw [deregisterAs]
  split
  · split
    · split_ifs
      · exact h
      · split
        · exact hremove _ _
        · exact h
    · exact h
  · exact h

/-- The records are not older than the epoch. -/
def AfterEpoch (r : JsonRecord) : Prop := 0 ≤ r.lastSeen

lemma every_afterEpoch (h : Every AfterEpoch d.registry) :
    Every AfterEpoch (pyApply y d op).registry := by
  cases op with
  | register u body now =>
      obtain ⟨m, nodeId, addrs, -, -, -, -, heq⟩ | ⟨-, heq, -⟩ :=
        registerAs_cases (y := y) (d := d) now u body
      · rw [pyApply, heq]
        exact every_upsert h (Int.natCast_nonneg now)
      · rw [pyApply, heq]
        exact h
  | deregister u body => exact every_deregisterAs h u body
  | prune now => exact h.prune fun l => List.filter_sublist.subset

/-- The client decodes every answer. -/
def AnswersDecode (d : PyDb) : Prop := ∀ u now, (decodePeers (peersView u now d)).isSome

lemma answersDecode_iff (h : Every AfterEpoch d.registry) :
    AnswersDecode d ↔ Every Decodes d.registry := by
  constructor
  · intro hall u r hr
    -- at the epoch nothing is expired
    have hfetch : r ∈ d.registry.fetch u 0 := by
      refine List.mem_filter.mpr ⟨hr, ?_⟩
      have hpos : 0 ≤ r.lastSeen := h u r hr
      have hlive : r.lastSeen ≥ 0 - (peerTtlSecs : ℤ) := by
        rw [peerTtlSecs]
        omega
      exact decide_eq_true hlive
    exact isSome_decodePeers.mp (hall u 0) _ (List.mem_map_of_mem hfetch)
  · intro hall u now
    rw [peersView, isSome_decodePeers]
    intro p hp
    obtain ⟨r, hr, rfl⟩ := List.mem_map.mp hp
    exact hall u r (List.mem_filter.mp hr).1

/-- **One operation**: the answers stay decodable exactly if the operation is typed. -/
lemma answersDecode_apply (hop : op.now < 2 ^ 64) (h : Every AfterEpoch d.registry)
    (hall : AnswersDecode d) : AnswersDecode (pyApply y d op) ↔ op.Typed y := by
  rw [answersDecode_iff (every_afterEpoch h)]
  rw [answersDecode_iff h] at hall
  cases op with
  | register u body now =>
      have hnow : (u64 (.int now)).isSome := by
        show ((some now).filter (· < 2 ^ 64)).isSome
        have hlt : now < 2 ^ 64 := hop
        rw [Option.filter_some, if_pos (by simpa using hlt)]
        rfl
      obtain ⟨m, nodeId, addrs, hbody, hname, hnode, haddrs, heq⟩ | ⟨hnot, heq, -⟩ :=
        registerAs_cases (y := y) (d := d) now u body
      · obtain rfl := eq_obj_of_dict hbody
        have hreg : Registrable y u (.obj m) :=
          ⟨m, hbody, hname, by simp [hnode], by simp [haddrs]⟩
        have hrecord : TypedBody (.obj m) ↔
            Decodes ⟨nodeId, addrs, (last "relay_url" m).getD .null, now⟩ := by
          rw [decodes_iff]
          constructor
          · rintro ⟨m', hm, ⟨v, hv, hv'⟩, ⟨w, hw, hw'⟩, hrelay⟩
            cases hm
            rw [hnode] at hv
            rw [haddrs] at hw
            cases hv
            cases hw
            exact ⟨hv', hw', hrelay, hnow⟩
          · rintro ⟨hv, hw, hrelay, -⟩
            exact ⟨m, rfl, ⟨nodeId, hnode, hv⟩, ⟨addrs, haddrs, hw⟩, hrelay⟩
        rw [pyApply, heq]
        constructor
        · intro hevery _
          refine hrecord.mpr (hevery u _ ?_)
          rw [recorded, JsonRegistry.upsert, AList.lookup_insert]
          exact mem_put_self _ _
        · intro htyped
          exact every_upsert hall (hrecord.mp (htyped hreg))
      · rw [pyApply, heq]
        exact ⟨fun _ hreg => absurd hreg hnot, fun _ => hall⟩
  | deregister u body => exact ⟨fun _ => trivial, fun _ => every_deregisterAs hall u body⟩
  | prune now =>
      exact ⟨fun _ => trivial, fun _ => hall.prune fun l => List.filter_sublist.subset⟩

/-! ### Runs -/

/-- **What the client can decode.**  Over every run of operations of authenticated clients
with any JSON bodies, the client decodes every answer of the Rust server; it decodes every
answer of the Python server if and only if every registration that this server accepted had
a text as `node_id`, a list of texts as `addrs` and a text or nothing as `relay_url`; a text with
a lone surrogate, which the client cannot decode, counts as none. -/
theorem answers_decode_iff (x : Externals) (y : PyExternals) {ops : List PeerOp}
    (hclock : ∀ op ∈ ops, op.now < 2 ^ 64) {s : AppState} {d : PyDb} (hs : s.registry = ∅)
    (hd : d.registry = ∅) :
    Throughout (rustApply x) (fun s => ∀ u now, (decodePeers (rustAnswer u now s)).isSome) s ops
      ∧ (Throughout (pyApply y) (fun d => ∀ u now, (decodePeers (peersView u now d)).isSome) d ops
        ↔ ∀ op ∈ ops, op.Typed y) := by
  constructor
  · have hfits : Throughout (rustApply x) (fun s => Every Fits s.registry) s ops := by
      refine throughout_of_step (L := fun _ op => op.now < 2 ^ 64)
        (I := fun s : AppState => Every Fits s.registry)
        (fun s op hop h => every_rustApply h hop) (along_of_forall fun op hop s => hclock op hop) ?_
      rw [hs]
      exact every_empty
    intro done hdone u now
    exact rustAnswer_decodes (hfits done hdone) u now
  · have hstart : AnswersDecode d := by
      intro u now
      rw [peersView, JsonRegistry.fetch, hd]
      rfl
    have hepoch : Every AfterEpoch d.registry := hd ▸ every_empty
    refine (throughout_iff_along (I := AnswersDecode) (P := fun _ op => op.Typed y)
      (L := fun _ op => op.now < 2 ^ 64) (J := fun d => Every AfterEpoch d.registry)
      (fun d op _ h => every_afterEpoch h)
      (fun d op hop h hall => answersDecode_apply hop h hall)
      (along_of_forall fun op hop d => hclock op hop) hepoch hstart).trans ?_
    constructor
    · intro h op hop
      obtain ⟨before, after, rfl⟩ := List.append_of_mem hop
      exact h before op ⟨after, by simp⟩
    · intro h
      exact along_of_forall fun op hop _ => h op hop

/-- Alice registers a device; the answers to her devices decode on both servers. -/
def aliceOp : PeerOp :=
  .register "alice"
    (.obj [("username", .str "alice"), ("node_id", .str "n"), ("addrs", .arr [])]) 0

lemma aliceOp_typed : aliceOp.Typed plainPy := by
  intro _
  exact ⟨_, rfl, ⟨.str "n", rfl, rfl⟩, ⟨.arr [], rfl, rfl⟩, rfl⟩

/-- Both servers keep answering what the client decodes. -/
theorem alice_decodes :
    Throughout (rustApply plainExternals)
        (fun s => ∀ u now, (decodePeers (rustAnswer u now s)).isSome) ⟨∅, ∅, ∅, ∅⟩
        [aliceOp]
      ∧ Throughout (pyApply plainPy) (fun d => ∀ u now, (decodePeers (peersView u now d)).isSome)
        ⟨[], [], ∅⟩ [aliceOp] := by
  have hclock : ∀ op ∈ [aliceOp], op.now < 2 ^ 64 := by
    intro op hop
    rw [List.mem_singleton.mp hop]
    decide
  obtain ⟨hrust, hpy⟩ := answers_decode_iff plainExternals plainPy hclock
    (s := ⟨∅, ∅, ∅, ∅⟩) (d := ⟨[], [], ∅⟩) rfl rfl
  refine ⟨hrust, hpy.mpr fun op hop => ?_⟩
  rw [List.mem_singleton.mp hop]
  exact aliceOp_typed

/-- With a number as `node_id` her registration is accepted by the Python server alone, whose
next answer the client cannot decode. -/
theorem alice_poisons :
    let body : Json := .obj [("username", .str "alice"), ("node_id", .int 5), ("addrs", .arr [])]
    (registerAs plainPy 0 "alice" body ⟨[], [], ∅⟩).2.status = 200
      ∧ decodePeers (peersView "alice" 0 (pyApply plainPy ⟨[], [], ∅⟩ (.register "alice" body 0)))
        = none
      ∧ RegisterRequest.decode body = none := by
  refine ⟨rfl, ?_, rfl⟩
  rfl

-- The same with the lone surrogate `"\ud800"` as `node_id`.
example :
    let body : Json := .obj [("username", .str "alice"),
      ("node_id", .lone ⟨[0xD800], 0xD800, by decide⟩), ("addrs", .arr [])]
    (registerAs plainPy 0 "alice" body ⟨[], [], ∅⟩).2.status = 200
      ∧ decodePeers (peersView "alice" 0 (pyApply plainPy ⟨[], [], ∅⟩ (.register "alice" body 0)))
        = none
      ∧ RegisterRequest.decode body = none :=
  ⟨rfl, rfl, rfl⟩

end Rendezvous
