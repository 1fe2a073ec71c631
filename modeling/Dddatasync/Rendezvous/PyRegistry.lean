import Dddatasync.Rendezvous.Registry

/-!
The registry of the Python server, `rendezvous-py/rendezvous/registry.py`, beside the one
of the Rust server.

* `PyRegistry.upsert`, `fetch`, `remove`, `prune`: the module, with its index loop, its
  signed cutoff and its loop over the keys.
* `Agrees`: the two registries map every user to the same records in the same order;
  `Agrees.upsert`, `Agrees.remove`, `Agrees.prune`: the operations keep it.
* `RegOp`, `rustStep`, `pyStep`, `answers`: what the two answer along a run;
  `registries_agree`: the same, and for the same users.
-/

namespace Rendezvous

/-- A record of the Python registry, a `dict` with these keys. -/
structure PyRecord where
  nodeId : String
  addrs : List String
  relayUrl : Option String
  lastSeen : ℤ
  deriving DecidableEq, Repr

/-- `dict[str, list[dict]]`. -/
abbrev PyRegistry := AssocMap String (List PyRecord)

namespace PyRegistry

/-- The index of the first record of the node, counted from `i`: the `for` loop of
`upsert`. -/
def indexOf (nodeId : String) : ℕ → List PyRecord → Option ℕ
  | _, [] => none
  | i, p :: ps => if p.nodeId = nodeId then some i else indexOf nodeId (i + 1) ps

/-- `upsert`. -/
def upsert (registry : PyRegistry) (username nodeId : String) (addrs : List String)
    (relayUrl : Option String) (now : ℤ) : PyRegistry :=
  let record : PyRecord := ⟨nodeId, addrs, relayUrl, now⟩
  -- `setdefault`: a new user gets an empty list first
  let peers := (registry.lookup username).getD []
  match indexOf nodeId 0 peers with
  | some i => registry.insert username (peers.set i record)
  | none => registry.insert username (peers ++ [record])

/-- `_now() - PEER_TTL_SECS`, a signed number. -/
def cutoff (now : ℤ) : ℤ := now - peerTtlSecs

/-- The records that are not expired. -/
def live (now : ℤ) (peers : List PyRecord) : List PyRecord :=
  peers.filter fun p => p.lastSeen ≥ cutoff now

/-- `fetch`. -/
def fetch (registry : PyRegistry) (username : String) (now : ℤ) : List PyRecord :=
  live now ((registry.lookup username).getD [])

/-- `remove`. -/
def remove (registry : PyRegistry) (username nodeId : String) : PyRegistry :=
  match registry.lookup username with
  | none => registry
  | some peers =>
      let rest := peers.filter fun p => p.nodeId ≠ nodeId
      let registry' := registry.insert username rest
      if rest = [] then registry'.erase username else registry'

/-- One round of the loop of `prune`. -/
def pruneOne (now : ℤ) (s : PyRegistry × ℤ) (username : String) : PyRegistry × ℤ :=
  let before := (s.1.lookup username).getD []
  let after := live now before
  let registry := s.1.insert username after
  let pruned := s.2 + (before.length - after.length)
  (if after = [] then registry.erase username else registry, pruned)

/-- `prune`: the registry left and the number of records removed. -/
def prune (registry : PyRegistry) (now : ℤ) : PyRegistry × ℤ :=
  registry.keys.foldl (pruneOne now) (registry, 0)

/-! ### Lists -/

end PyRegistry

/-- A record of the Rust server as the Python server writes it. -/
def PeerRecord.toPy (r : PeerRecord) : PyRecord := ⟨r.nodeId, r.addrs, r.relayUrl, r.lastSeen⟩

/-- Leaving a list under its key commutes with rewriting its records. -/
lemma keep_map (l : List PeerRecord) :
    keep (l.map PeerRecord.toPy)
      = (keep l).map (List.map PeerRecord.toPy) := by
  cases l <;> rfl

namespace PyRegistry

lemma indexOf_succ (n : String) (i : ℕ) (l : List PyRecord) :
    indexOf n (i + 1) l = (indexOf n i l).map (· + 1) := by
  induction l generalizing i with
  | nil => rfl
  | cons p ps ih =>
      rw [indexOf, indexOf]
      split_ifs
      · rfl
      · exact ih (i + 1)

/-- Writing at the index found, or appending, is the replacement of the Rust server. -/
lemma set_or_append (r : PeerRecord) (l : List PeerRecord) :
    (match indexOf r.nodeId 0 (l.map PeerRecord.toPy) with
      | some i => (l.map PeerRecord.toPy).set i r.toPy
      | none => l.map PeerRecord.toPy ++ [r.toPy])
      = (Rendezvous.upsert r l).map PeerRecord.toPy := by
  induction l with
  | nil => rfl
  | cons p ps ih =>
      rw [Rendezvous.upsert, List.map_cons, indexOf]
      by_cases h : p.nodeId = r.nodeId
      · rw [if_pos (show p.toPy.nodeId = r.nodeId from h), if_pos h]
        rfl
      · rw [if_neg (show p.toPy.nodeId ≠ r.nodeId from h), if_neg h, List.map_cons, ← ih,
          indexOf_succ]
        cases indexOf r.nodeId 0 (ps.map PeerRecord.toPy) <;> rfl

/-- The signed cutoff lets through the same records as the saturating one. -/
lemma live_map (now : ℕ) (l : List PeerRecord) :
    live now (l.map PeerRecord.toPy) = (Registry.live now l).map PeerRecord.toPy := by
  rw [live, Registry.live, List.filter_map]
  refine congrArg _ (List.filter_congr fun p _ => ?_)
  rw [Function.comp_apply, decide_eq_decide]
  simp only [PeerRecord.toPy, cutoff, Registry.cutoff, peerTtlSecs]
  omega

lemma lookup_remove (registry : PyRegistry) (u n v : String) :
    (registry.remove u n).lookup v
      = if v = u then (registry.lookup u).bind fun l => keep (l.filter fun p => p.nodeId ≠ n)
        else registry.lookup v := by
  rw [remove]
  cases hu : registry.lookup u with
  | none =>
      split_ifs with hv
      · rw [hv, hu]
        rfl
      · rfl
  | some l =>
      simp only [Option.bind_some]
      split_ifs with hnil hv hv
      · rw [hv, AList.lookup_erase, keep_eq_none hnil]
      · rw [AList.lookup_erase_ne hv, AList.lookup_insert_ne hv]
      · rw [hv, AList.lookup_insert, keep_eq_some hnil]
      · rw [AList.lookup_insert_ne hv]

end PyRegistry

/-! ### The two registries side by side -/

/-- The two registries have the same records for every user, in the same order. -/
def Agrees (map : Registry) (registry : PyRegistry) : Prop :=
  ∀ u, registry.lookup u = (map.lookup u).map (List.map PeerRecord.toPy)

namespace Agrees

open PyRegistry

variable {map : Registry} {registry : PyRegistry}

lemma getD (h : Agrees map registry) (u : String) :
    (registry.lookup u).getD [] = (map.records u).map PeerRecord.toPy := by
  rw [h u, Registry.records]
  cases map.lookup u <;> rfl

lemma fetch (h : Agrees map registry) (u : String) (now : ℕ) :
    registry.fetch u now = (map.peers u now).map PeerRecord.toPy := by
  rw [PyRegistry.fetch, h.getD, live_map, Registry.peers, Registry.records]

lemma upsert (h : Agrees map registry) (u n : String) (addrs : List String)
    (relayUrl : Option String) (now : ℕ) :
    Agrees (map.register u ⟨n, addrs, relayUrl, now⟩)
      (registry.upsert u n addrs relayUrl now) := by
  have hset := set_or_append ⟨n, addrs, relayUrl, now⟩ (map.records u)
  have hins : registry.upsert u n addrs relayUrl now = registry.insert u
      ((Rendezvous.upsert ⟨n, addrs, relayUrl, now⟩ (map.records u)).map PeerRecord.toPy) := by
    rw [PyRegistry.upsert, h.getD, ← hset]
    simp only
    cases indexOf n 0 ((map.records u).map PeerRecord.toPy) <;> rfl
  intro v
  rw [hins, Registry.lookup_register]
  split_ifs with hv
  · rw [hv, AList.lookup_insert]
    rfl
  · rw [AList.lookup_insert_ne hv, h v]

lemma remove (h : Agrees map registry) (u n : String) :
    Agrees (map.deregister u n) (registry.remove u n) := by
  intro v
  rw [lookup_remove, Registry.lookup_deregister]
  split_ifs with hv
  · rw [h u]
    cases map.lookup u with
    | none => rfl
    | some l =>
        rw [Option.map_some, Option.bind_some, Option.bind_some, List.filter_map]
        exact keep_map _
  · exact h v

end Agrees

/-! ### Pruning -/

namespace PyRegistry

/-- How many records of a list are expired. -/
def expired (now : ℤ) (l : List PyRecord) : ℤ := l.length - (live now l).length

lemma lookup_pruneOne (now : ℤ) (s : PyRegistry × ℤ) (k v : String) :
    (pruneOne now s k).1.lookup v
      = if v = k then keep (live now ((s.1.lookup k).getD [])) else s.1.lookup v := by
  simp only [pruneOne]
  split_ifs with hnil hv hv
  · rw [hv, AList.lookup_erase, keep_eq_none hnil]
  · rw [AList.lookup_erase_ne hv, AList.lookup_insert_ne hv]
  · rw [hv, AList.lookup_insert, keep_eq_some hnil]
  · rw [AList.lookup_insert_ne hv]

/-- The loop of `prune` over distinct keys: each of them loses its expired records, which
are counted, and the other keys stay as they are. -/
lemma foldl_pruneOne (now : ℤ) (ks : List String) (hks : ks.Nodup) (s : PyRegistry × ℤ) :
    (∀ v, (ks.foldl (pruneOne now) s).1.lookup v
        = if v ∈ ks then keep (live now ((s.1.lookup v).getD [])) else s.1.lookup v)
      ∧ (ks.foldl (pruneOne now) s).2
        = s.2 + (ks.map fun u => expired now ((s.1.lookup u).getD [])).sum := by
  induction ks generalizing s with
  | nil => simp
  | cons k ks ih =>
      rw [List.nodup_cons] at hks
      obtain ⟨hl, hc⟩ := ih hks.2 (pruneOne now s k)
      have hother : ∀ v ∈ ks, (pruneOne now s k).1.lookup v = s.1.lookup v := by
        intro v hv
        have hvk : v ≠ k := fun h => hks.1 (h ▸ hv)
        rw [lookup_pruneOne, if_neg hvk]
      rw [List.foldl_cons]
      refine ⟨fun v => ?_, ?_⟩
      · rw [hl v]
        by_cases hv : v ∈ ks
        · rw [if_pos hv, if_pos (List.mem_cons_of_mem k hv), hother v hv]
        · rw [if_neg hv, lookup_pruneOne]
          by_cases hvk : v = k
          · rw [if_pos hvk, if_pos (hvk ▸ List.mem_cons_self), hvk]
          · rw [if_neg hvk, if_neg (by simp [hvk, hv])]
      · rw [hc, List.map_cons, List.sum_cons, ← add_assoc]
        refine congrArg₂ _ rfl (congrArg _ (List.map_congr_left fun u hu => ?_))
        rw [hother u hu]

/-- What `prune` leaves and how much it counts. -/
lemma prune_spec (registry : PyRegistry) (now : ℤ) :
    (∀ v, (registry.prune now).1.lookup v
        = (registry.lookup v).bind fun l => keep (live now l))
      ∧ (registry.prune now).2 = AssocMap.total (expired now) registry := by
  obtain ⟨hl, hc⟩ := foldl_pruneOne now registry.keys (AList.keys_nodup registry) (registry, 0)
  refine ⟨fun v => ?_, ?_⟩
  · rw [prune, hl v]
    cases hv : registry.lookup v with
    | none => rw [if_neg (by rw [← AList.mem_keys, ← AList.lookup_eq_none, hv]), Option.bind_none]
    | some l =>
        rw [if_pos (by rw [← AList.mem_keys, ← AList.lookup_isSome, hv]; rfl), Option.getD_some,
          Option.bind_some]
  · rw [prune, hc, zero_add]
    exact AssocMap.sum_keys (fun o => expired now (o.getD [])) registry

end PyRegistry

namespace Agrees

open PyRegistry

variable {map : Registry} {registry : PyRegistry}

lemma prune (h : Agrees map registry) (now : ℕ) :
    Agrees (map.prune now) (registry.prune now).1 := by
  intro v
  rw [(prune_spec registry now).1 v, Registry.lookup_prune, h v]
  cases map.lookup v with
  | none => rfl
  | some l =>
      rw [Option.map_some, Option.bind_some, Option.bind_some, live_map]
      exact keep_map _

/-- The difference of the two totals the Rust server takes is the count the Python server
keeps. -/
lemma pruned (h : Agrees map registry) (now : ℕ) :
    (registry.prune now).2 = (map.pruned now : ℤ) := by
  have hmap : AssocMap.total (expired now) registry
      = (map.entries.map fun e => (e.2.length : ℤ) - (Registry.live now e.2).length).sum := by
    have hperm : registry.entries.Perm (AssocMap.filterMap
        (fun _ l => some (l.map PeerRecord.toPy)) map).entries :=
      AssocMap.perm_of_lookup_eq fun u => by
        rw [h u, AssocMap.lookup_filterMap]
        cases map.lookup u <;> rfl
    rw [AssocMap.total_perm _ hperm, AssocMap.total_filterMap]
    refine congrArg List.sum (List.map_congr_left fun e _ => ?_)
    rw [Option.map_some, Option.getD_some, expired, live_map, List.length_map, List.length_map]
  have hlive : AssocMap.total List.length (map.prune now)
      = (map.entries.map fun e => (Registry.live now e.2).length).sum := by
    rw [Registry.prune, AssocMap.total_filterMap]
    refine congrArg List.sum (List.map_congr_left fun e _ => ?_)
    cases Registry.live now e.2 <;> rfl
  rw [(prune_spec registry now).2, hmap, Registry.pruned, hlive, AssocMap.total]
  induction map.entries with
  | nil => rfl
  | cons e es ih =>
      have hle : (Registry.live now e.2).length ≤ e.2.length := List.length_filter_le _ _
      have hles : (es.map fun e => (Registry.live now e.2).length).sum
          ≤ (es.map fun e => e.2.length).sum :=
        List.sum_le_sum fun e _ => List.length_filter_le _ _
      simp only [List.map_cons, List.sum_cons]
      rw [ih]
      omega

end Agrees

/-! ### Runs -/

/-- An operation on the registry with the clock it reads. -/
inductive RegOp where
  | upsert (username nodeId : String) (addrs : List String) (relayUrl : Option String)
      (now : ℕ)
  | remove (username nodeId : String)
  | prune (now : ℕ)
  | fetch (username : String) (now : ℕ)
  deriving DecidableEq, Repr

/-- What an operation answers: nothing, the records fetched, or the number pruned. -/
inductive Answer (R : Type*) where
  | done
  | fetched (peers : List R)
  | pruned (count : ℤ)
  deriving DecidableEq, Repr

/-- The answer with its records rewritten. -/
def Answer.map {R R' : Type*} (f : R → R') : Answer R → Answer R'
  | .done => .done
  | .fetched peers => .fetched (peers.map f)
  | .pruned count => .pruned count

/-- An operation on the Rust registry. -/
def rustStep (map : Registry) : RegOp → Registry × Answer PeerRecord
  | .upsert u n addrs relayUrl now => (map.register u ⟨n, addrs, relayUrl, now⟩, .done)
  | .remove u n => (map.deregister u n, .done)
  | .prune now => (map.prune now, .pruned (map.pruned now))
  | .fetch u now => (map, .fetched (map.peers u now))

/-- An operation on the Python registry. -/
def pyStep (registry : PyRegistry) : RegOp → PyRegistry × Answer PyRecord
  | .upsert u n addrs relayUrl now => (registry.upsert u n addrs relayUrl now, .done)
  | .remove u n => (registry.remove u n, .done)
  | .prune now => ((registry.prune now).1, .pruned (registry.prune now).2)
  | .fetch u now => (registry, .fetched (registry.fetch u now))

/-- The registry a run leaves and the answers it gives, in order. -/
def answers {S R : Type*} (step : S → RegOp → S × Answer R) : S → List RegOp → S × List (Answer R)
  | s, [] => (s, [])
  | s, op :: ops =>
      let rest := answers step (step s op).1 ops
      (rest.1, (step s op).2 :: rest.2)

/-- One operation keeps the registries in agreement and answers the same on both. -/
lemma Agrees.step {map : Registry} {registry : PyRegistry} (h : Agrees map registry)
    (op : RegOp) : Agrees (rustStep map op).1 (pyStep registry op).1
      ∧ (pyStep registry op).2 = (rustStep map op).2.map PeerRecord.toPy := by
  cases op with
  | upsert u n addrs relayUrl now => exact ⟨h.upsert u n addrs relayUrl now, rfl⟩
  | remove u n => exact ⟨h.remove u n, rfl⟩
  | prune now => exact ⟨h.prune now, congrArg Answer.pruned (h.pruned now)⟩
  | fetch u now => exact ⟨h, congrArg Answer.fetched (h.fetch u now)⟩

/-- A run keeps the registries in agreement and answers the same on both. -/
lemma Agrees.run {map : Registry} {registry : PyRegistry} (h : Agrees map registry)
    (ops : List RegOp) : Agrees (answers rustStep map ops).1 (answers pyStep registry ops).1
      ∧ (answers pyStep registry ops).2
        = (answers rustStep map ops).2.map (Answer.map PeerRecord.toPy) := by
  induction ops generalizing map registry with
  | nil => exact ⟨h, rfl⟩
  | cons op ops ih =>
      obtain ⟨hstep, hans⟩ := h.step op
      obtain ⟨hrest, hanss⟩ := ih hstep
      exact ⟨hrest, by rw [answers, answers, hanss, hans, List.map_cons]⟩

/-- **The two registries are equivalent.**  From the empty registries and with the same
clock readings, every run answers the same on both (the records fetched, in order, and the
number of records each prune removes), and leaves entries for the same users. -/
theorem registries_agree (ops : List RegOp) :
    (answers pyStep ∅ ops).2 = (answers rustStep ∅ ops).2.map (Answer.map PeerRecord.toPy)
      ∧ ∀ u, u ∈ (answers pyStep ∅ ops).1 ↔ u ∈ (answers rustStep ∅ ops).1 := by
  have h0 : Agrees ∅ ∅ := fun u => rfl
  obtain ⟨h, hans⟩ := h0.run ops
  refine ⟨hans, fun u => ?_⟩
  rw [← AList.lookup_isSome, ← AList.lookup_isSome, h u, Option.isSome_map]

end Rendezvous
