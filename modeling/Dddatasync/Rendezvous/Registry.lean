import Dddatasync.Library.AssocMap
import Dddatasync.Library.LastWrite

/-!
The peer registry of the rendezvous server: the registry part of `handle_register`,
`handle_peers`, `handle_deregister` and `prune_task` in `rendezvous/src/main.rs`.

* `upsert`: replace the record of a node in place or append it; `Registry.register`,
  `Registry.deregister`, `Registry.prune`, `Registry.peers`.
* `Event`, `Registry.run`: authenticated requests and prune ticks with the clock they read.
* `Refines`: what the registry keeps of the last writes of a history; `refines_run`.
* `peers_refine_lastWrite`: the answer of `GET /peers` in terms of the last writes.
-/

namespace Rendezvous

/-! ### The registry -/

/-- `PEER_TTL_SECS`. -/
def peerTtlSecs : ℕ := 300

/-- `PeerRecord`. -/
structure PeerRecord where
  nodeId : String
  addrs : List String
  relayUrl : Option String
  lastSeen : ℕ
  deriving DecidableEq, Repr

/-- `HashMap<String, Vec<PeerRecord>>`. -/
abbrev Registry := AssocMap String (List PeerRecord)

/-- What a retain leaves under a key: the list, or no entry when it is empty. -/
def keep {α : Type*} : List α → Option (List α)
  | [] => none
  | a :: l => some (a :: l)

/-- Replace the first record of the same node, or append. -/
def upsert (record : PeerRecord) : List PeerRecord → List PeerRecord
  | [] => [record]
  | p :: ps => if p.nodeId = record.nodeId then record :: ps else p :: upsert record ps

namespace Registry

/-- The registry part of `handle_register`. -/
def register (map : Registry) (username : String) (record : PeerRecord) : Registry :=
  map.insert username (upsert record ((map.lookup username).getD []))

/-- The registry part of `handle_deregister`. -/
def deregister (map : Registry) (username nodeId : String) : Registry :=
  match map.lookup username with
  | none => map
  | some peers =>
      let rest := peers.filter fun p => p.nodeId ≠ nodeId
      if rest = [] then map.erase username else map.insert username rest

/-- `now_secs().saturating_sub(PEER_TTL_SECS)`. -/
def cutoff (now : ℕ) : ℕ := now - peerTtlSecs

/-- The records that are still live. -/
def live (now : ℕ) (peers : List PeerRecord) : List PeerRecord :=
  peers.filter fun p => cutoff now ≤ p.lastSeen

/-- `handle_peers`. -/
def peers (map : Registry) (username : String) (now : ℕ) : List PeerRecord :=
  live now ((map.lookup username).getD [])

/-- The registry part of one round of `prune_task`. -/
def prune (map : Registry) (now : ℕ) : Registry :=
  AssocMap.filterMap (fun _ peers => keep (live now peers)) map

/-- How many records the round logs as pruned. -/
def pruned (map : Registry) (now : ℕ) : ℕ :=
  AssocMap.total List.length map - AssocMap.total List.length (map.prune now)

end Registry

/-- An authenticated request or a prune tick, with the clock it reads. -/
inductive Event where
  | register (username nodeId : String) (addrs : List String) (relayUrl : Option String)
      (now : ℕ)
  | deregister (username nodeId : String) (now : ℕ)
  | prune (now : ℕ)
  deriving DecidableEq

/-- The clock value of an event. -/
def Event.now : Event → ℕ
  | .register _ _ _ _ now => now
  | .deregister _ _ now => now
  | .prune now => now

namespace Registry

/-- One event on the registry. -/
def apply (map : Registry) : Event → Registry
  | .register username nodeId addrs relayUrl now =>
      map.register username ⟨nodeId, addrs, relayUrl, now⟩
  | .deregister username nodeId _ => map.deregister username nodeId
  | .prune now => map.prune now

/-- The registry after a run from the empty one. -/
def run (events : List Event) : Registry := events.foldl apply ∅

end Registry

/-! ### Lists of records -/

lemma keep_eq_none {α : Type*} {l : List α} (h : l = []) : keep l = none := by
  rw [h]
  rfl

lemma keep_eq_some {α : Type*} {l : List α} (h : l ≠ []) : keep l = some l := by
  cases l with
  | nil => exact absurd rfl h
  | cons a l => rfl

lemma keep_ne_some_nil {α : Type*} (l : List α) : keep l ≠ some [] := by
  cases l <;> simp [keep]

@[simp]
lemma getD_keep {α : Type*} (l : List α) : (keep l).getD [] = l := by
  cases l <;> rfl

lemma map_nodeId_upsert (r : PeerRecord) (l : List PeerRecord) :
    (upsert r l).map (·.nodeId)
      = if r.nodeId ∈ l.map (·.nodeId) then l.map (·.nodeId)
        else l.map (·.nodeId) ++ [r.nodeId] := by
  induction l with
  | nil => simp [upsert]
  | cons p ps ih =>
      rw [upsert]
      by_cases h : p.nodeId = r.nodeId
      · simp [h]
      · rw [if_neg h, List.map_cons, ih, List.map_cons]
        simp only [List.mem_cons, Ne.symm h, false_or]
        split_ifs <;> rfl

/-- `upsert` keeps the node ids distinct. -/
lemma nodup_upsert {r : PeerRecord} {l : List PeerRecord} (h : (l.map (·.nodeId)).Nodup) :
    ((upsert r l).map (·.nodeId)).Nodup := by
  rw [map_nodeId_upsert]
  split_ifs with hr
  · exact h
  · rw [List.nodup_append]
    refine ⟨h, List.nodup_singleton _, fun a ha b hb hab => ?_⟩
    rw [List.mem_singleton] at hb
    exact hr (hb ▸ hab ▸ ha)

/-- With distinct node ids, `upsert` drops the old record of the node and adds the new. -/
lemma mem_upsert {r x : PeerRecord} {l : List PeerRecord} (h : (l.map (·.nodeId)).Nodup) :
    x ∈ upsert r l ↔ x = r ∨ x ∈ l ∧ x.nodeId ≠ r.nodeId := by
  induction l with
  | nil => simp [upsert]
  | cons p ps ih =>
      rw [List.map_cons, List.nodup_cons] at h
      rw [upsert]
      by_cases hp : p.nodeId = r.nodeId
      · rw [if_pos hp, List.mem_cons, List.mem_cons]
        constructor
        · rintro (rfl | hx)
          · exact .inl rfl
          · refine .inr ⟨.inr hx, fun heq => h.1 ?_⟩
            rw [hp, ← heq]
            exact List.mem_map_of_mem hx
        · rintro (rfl | ⟨rfl | hx, hne⟩)
          · exact .inl rfl
          · exact absurd hp hne
          · exact .inr hx
      · rw [if_neg hp, List.mem_cons, ih h.2, List.mem_cons]
        constructor
        · rintro (rfl | rfl | ⟨hx, hne⟩)
          · exact .inr ⟨.inl rfl, hp⟩
          · exact .inl rfl
          · exact .inr ⟨.inr hx, hne⟩
        · rintro (rfl | ⟨rfl | hx, hne⟩)
          · exact .inr (.inl rfl)
          · exact .inl rfl
          · exact .inr (.inr ⟨hx, hne⟩)

lemma mem_of_mem_upsert {r x : PeerRecord} {l : List PeerRecord} (h : x ∈ upsert r l) :
    x = r ∨ x ∈ l := by
  induction l with
  | nil => exact .inl (List.mem_singleton.mp h)
  | cons p ps ih =>
      rw [upsert] at h
      split_ifs at h with hp
      · rcases List.mem_cons.mp h with rfl | h
        · exact .inl rfl
        · exact .inr (List.mem_cons_of_mem p h)
      · rcases List.mem_cons.mp h with rfl | h
        · exact .inr List.mem_cons_self
        · exact (ih h).imp_right (List.mem_cons_of_mem p)

lemma upsert_ne_nil (r : PeerRecord) (l : List PeerRecord) : upsert r l ≠ [] := by
  cases l with
  | nil => simp [upsert]
  | cons p ps =>
      rw [upsert]
      split_ifs <;> simp

/-! ### The operations in terms of lookups -/

namespace Registry

/-- The records the registry has for a user. -/
def records (map : Registry) (u : String) : List PeerRecord := (map.lookup u).getD []

variable {map : Registry} {u v n : String} {r : PeerRecord} {now : ℕ}

lemma lookup_register : (map.register u r).lookup v
    = if v = u then some (upsert r (map.records u)) else map.lookup v := by
  rw [register]
  split_ifs with h
  · rw [h, AList.lookup_insert]
    rfl
  · rw [AList.lookup_insert_ne h]

lemma lookup_deregister : (map.deregister u n).lookup v
    = if v = u then (map.lookup u).bind fun l => keep (l.filter fun p => p.nodeId ≠ n)
      else map.lookup v := by
  rw [deregister]
  cases hu : map.lookup u with
  | none =>
      split_ifs with h
      · rw [h, hu]
        rfl
      · rfl
  | some l =>
      simp only [Option.bind_some]
      split_ifs with hnil h h
      · rw [h, AList.lookup_erase, keep_eq_none hnil]
      · rw [AList.lookup_erase_ne h]
      · rw [h, AList.lookup_insert, keep_eq_some hnil]
      · rw [AList.lookup_insert_ne h]

lemma lookup_prune :
    (map.prune now).lookup v = (map.lookup v).bind fun l => keep (live now l) := by
  rw [prune, AssocMap.lookup_filterMap]

lemma records_register : (map.register u r).records v
    = if v = u then upsert r (map.records u) else map.records v := by
  rw [records, lookup_register]
  split_ifs <;> rfl

lemma records_deregister : (map.deregister u n).records v
    = if v = u then (map.records u).filter fun p => p.nodeId ≠ n else map.records v := by
  rw [records, lookup_deregister]
  split_ifs with h
  · rw [records]
    cases map.lookup u with
    | none => rfl
    | some l => rw [Option.bind_some, getD_keep, Option.getD_some]
  · rfl

lemma records_prune : (map.prune now).records v = live now (map.records v) := by
  rw [records, lookup_prune, records]
  cases map.lookup v with
  | none => rfl
  | some l => rw [Option.bind_some, getD_keep, Option.getD_some]

lemma mem_live {l : List PeerRecord} : r ∈ live now l ↔ r ∈ l ∧ cutoff now ≤ r.lastSeen := by
  rw [live, List.mem_filter, decide_eq_true_iff]

lemma nodup_filter {l : List PeerRecord} (p : PeerRecord → Bool)
    (h : (l.map (·.nodeId)).Nodup) : ((l.filter p).map (·.nodeId)).Nodup :=
  h.sublist (List.filter_sublist.map _)

end Registry

/-! ### The registry and the last writes -/

/-- The change of the map from users and nodes to records that an event makes; a prune tick
makes none. -/
def Event.change : Event → Option (Change (String × String) PeerRecord)
  | .register username nodeId addrs relayUrl now =>
      some (.put (username, nodeId) ⟨nodeId, addrs, relayUrl, now⟩)
  | .deregister username nodeId _ => some (.del (username, nodeId))
  | .prune _ => none

/-- `r` is the record of the last register of its node for `u`, and no deregister follows. -/
def LastRegister (events : List Event) (u : String) (r : PeerRecord) : Prop :=
  Change.LastWrite (events.filterMap Event.change) (u, r.nodeId) r

/-- A last register is the record of some request. -/
lemma LastRegister.mem {events : List Event} {u : String} {r : PeerRecord}
    (h : LastRegister events u r) :
    .register u r.nodeId r.addrs r.relayUrl r.lastSeen ∈ events := by
  obtain ⟨e, he, hchange⟩ := List.mem_filterMap.mp (Change.LastWrite.mem h)
  cases e with
  | register v n addrs relayUrl now =>
      simp only [Event.change, Option.some.injEq, Change.put.injEq, Prod.mk.injEq] at hchange
      obtain ⟨⟨rfl, -⟩, rfl⟩ := hchange
      exact he
  | deregister v n now => simp [Event.change] at hchange
  | prune now => simp [Event.change] at hchange

/-- What the registry keeps of a history: nothing but last registers, one for a node, none
missing that is still live, and no empty list. -/
structure Refines (map : Registry) (events : List Event) : Prop where
  nodup : ∀ u, ((map.records u).map (·.nodeId)).Nodup
  sound : ∀ u, ∀ r ∈ map.records u, LastRegister events u r
  complete : ∀ u r t, LastRegister events u r → (∀ e ∈ events, e.now ≤ t) →
    Registry.cutoff t ≤ r.lastSeen → r ∈ map.records u
  no_empty : ∀ u, map.lookup u ≠ some []

lemma refines_nil : Refines ∅ [] where
  nodup := fun u => by simp [Registry.records]
  sound := fun u r hr => by simp [Registry.records] at hr
  complete := fun u r t h _ _ => absurd h (Change.not_lastWrite_nil _ _)
  no_empty := fun u => by simp

lemma lastRegister_snoc {events : List Event} {e : Event} {u : String} {r : PeerRecord} :
    LastRegister (events ++ [e]) u r ↔
      (match e.change with
      | none => LastRegister events u r
      | some c => c = .put (u, r.nodeId) r ∨ c.key ≠ (u, r.nodeId) ∧ LastRegister events u r) := by
  rw [LastRegister, List.filterMap_append]
  cases hc : e.change with
  | none => rw [List.filterMap_cons_none hc, List.filterMap_nil, List.append_nil, LastRegister]
  | some c =>
      rw [List.filterMap_cons_some hc, List.filterMap_nil]
      exact Change.lastWrite_snoc

section OneEvent

open Registry

variable {map : Registry} {events : List Event}

lemma Refines.register (h : Refines map events) (u n : String) (addrs : List String)
    (relayUrl : Option String) (now : ℕ) :
    Refines (map.register u ⟨n, addrs, relayUrl, now⟩)
      (events ++ [.register u n addrs relayUrl now]) where
  nodup := fun v => by
    rw [records_register]
    split_ifs with hv
    · exact nodup_upsert (h.nodup u)
    · exact h.nodup v
  sound := fun v r hr => by
    rw [records_register] at hr
    rw [lastRegister_snoc]
    split_ifs at hr with hv
    · rcases (mem_upsert (h.nodup u)).mp hr with rfl | ⟨hr, hne⟩
      · exact .inl (by rw [hv])
      · refine .inr ⟨fun heq => hne (Prod.mk.inj heq).2.symm, ?_⟩
        rw [hv]
        exact h.sound u r hr
    · exact .inr ⟨fun heq => hv (Prod.mk.inj heq).1.symm, h.sound v r hr⟩
  complete := fun v r t hr ht hl => by
    rw [lastRegister_snoc] at hr
    rw [records_register]
    rcases hr with heq | ⟨hne, hr⟩
    · obtain ⟨hkey, rfl⟩ := Change.put.inj heq
      rw [if_pos (Prod.mk.inj hkey).1.symm]
      exact (mem_upsert (h.nodup u)).mpr (.inl rfl)
    · have hold := h.complete v r t hr (fun e he => ht e (List.mem_append_left _ he)) hl
      split_ifs with hv
      · rw [hv] at hold hne
        exact (mem_upsert (h.nodup u)).mpr (.inr ⟨hold, fun heq => hne (by rw [heq]; rfl)⟩)
      · exact hold
  no_empty := fun v => by
    rw [lookup_register]
    split_ifs with hv
    · simpa using upsert_ne_nil _ _
    · exact h.no_empty v

lemma Refines.deregister (h : Refines map events) (u n : String) (now : ℕ) :
    Refines (map.deregister u n) (events ++ [.deregister u n now]) where
  nodup := fun v => by
    rw [records_deregister]
    split_ifs with hv
    · exact nodup_filter _ (h.nodup u)
    · exact h.nodup v
  sound := fun v r hr => by
    rw [records_deregister] at hr
    rw [lastRegister_snoc]
    split_ifs at hr with hv
    · rw [List.mem_filter, decide_eq_true_iff] at hr
      refine .inr ⟨fun heq => hr.2 (Prod.mk.inj heq).2.symm, ?_⟩
      rw [hv]
      exact h.sound u r hr.1
    · exact .inr ⟨fun heq => hv (Prod.mk.inj heq).1.symm, h.sound v r hr⟩
  complete := fun v r t hr ht hl => by
    rw [lastRegister_snoc] at hr
    rw [records_deregister]
    rcases hr with heq | ⟨hne, hr⟩
    · cases heq
    · have hold := h.complete v r t hr (fun e he => ht e (List.mem_append_left _ he)) hl
      split_ifs with hv
      · rw [hv] at hold hne
        rw [List.mem_filter, decide_eq_true_iff]
        exact ⟨hold, fun heq => hne (by rw [heq]; rfl)⟩
      · exact hold
  no_empty := fun v => by
    rw [lookup_deregister]
    split_ifs with hv
    · cases map.lookup u with
      | none => simp
      | some l => exact keep_ne_some_nil _
    · exact h.no_empty v

/-- A prune tick only takes records that are not live at any time from then on. -/
lemma Refines.prune (h : Refines map events) (now : ℕ) :
    Refines (map.prune now) (events ++ [.prune now]) where
  nodup := fun v => by
    rw [records_prune]
    exact nodup_filter _ (h.nodup v)
  sound := fun v r hr => by
    rw [records_prune, mem_live] at hr
    rw [lastRegister_snoc]
    exact h.sound v r hr.1
  complete := fun v r t hr ht hl => by
    rw [lastRegister_snoc] at hr
    have hold := h.complete v r t hr (fun e he => ht e (List.mem_append_left _ he)) hl
    have hnow : now ≤ t := ht (.prune now) (by simp)
    rw [records_prune, mem_live]
    refine ⟨hold, le_trans ?_ hl⟩
    rw [cutoff, cutoff]
    omega
  no_empty := fun v => by
    rw [lookup_prune]
    cases map.lookup v with
    | none => simp
    | some l => exact keep_ne_some_nil _

/-- One event keeps the registry in step with the history. -/
lemma Refines.apply (h : Refines map events) (e : Event) :
    Refines (map.apply e) (events ++ [e]) := by
  cases e with
  | register u n addrs relayUrl now => exact h.register u n addrs relayUrl now
  | deregister u n now => exact h.deregister u n now
  | prune now => exact h.prune now

end OneEvent

/-- A run keeps the registry in step with its history. -/
lemma refines_run (events : List Event) : Refines (Registry.run events) events := by
  induction events using List.reverseRecOn with
  | nil => exact refines_nil
  | append_singleton events e ih =>
      rw [Registry.run, List.foldl_concat]
      exact ih.apply e

/-- The answer of `GET /peers` holds exactly the live last registers, each once. -/
lemma mem_peers_iff {events : List Event} {t : ℕ} (ht : ∀ e ∈ events, e.now ≤ t) (u : String) :
    (((Registry.run events).peers u t).map (·.nodeId)).Nodup
      ∧ ∀ r, r ∈ (Registry.run events).peers u t
        ↔ LastRegister events u r ∧ t - peerTtlSecs ≤ r.lastSeen := by
  have h := refines_run events
  refine ⟨Registry.nodup_filter _ (h.nodup u), fun r => ?_⟩
  rw [Registry.peers, Registry.mem_live]
  exact ⟨fun ⟨hr, hl⟩ => ⟨h.sound u r hr, hl⟩, fun ⟨hr, hl⟩ => ⟨h.complete u r t hr ht hl, hl⟩⟩

/-- **The registry refines the last writes.**  After any run, and for every time `t` not
before its events, the answer of `GET /peers` has no node twice and consists of exactly the
last registers that are live at `t`; runs with the same requests and other prune ticks
give the same records; and no user has an empty list. -/
theorem peers_refine_lastWrite (events : List Event) (u : String) {t : ℕ}
    (ht : ∀ e ∈ events, e.now ≤ t) :
    (((Registry.run events).peers u t).map (·.nodeId)).Nodup
      ∧ (∀ r, r ∈ (Registry.run events).peers u t
        ↔ LastRegister events u r ∧ t - peerTtlSecs ≤ r.lastSeen)
      ∧ (∀ events', (∀ e ∈ events', e.now ≤ t) →
        events'.filterMap Event.change = events.filterMap Event.change →
        ((Registry.run events').peers u t).Perm ((Registry.run events).peers u t))
      ∧ (Registry.run events).lookup u ≠ some [] := by
  obtain ⟨hnd, hmem⟩ := mem_peers_iff ht u
  refine ⟨hnd, hmem, fun events' ht' heq => ?_, (refines_run events).no_empty u⟩
  obtain ⟨hnd', hmem'⟩ := mem_peers_iff ht' u
  refine (List.perm_ext_iff_of_nodup hnd'.of_map hnd.of_map).mpr fun r => ?_
  rw [hmem', hmem, LastRegister, heq, LastRegister]

/-- A register, a prune tick, a second register and a deregister of another node. -/
def fourEvents : List Event :=
  [.register "u" "n" ["a"] none 100, .prune 350, .register "u" "n" ["b"] (some "r") 400,
    .deregister "u" "m" 450]

theorem peers_of_fourEvents :
    (((Registry.run fourEvents).peers "u" 500).map (·.nodeId)).Nodup
      ∧ (∀ r, r ∈ (Registry.run fourEvents).peers "u" 500
        ↔ LastRegister fourEvents "u" r ∧ 500 - peerTtlSecs ≤ r.lastSeen)
      ∧ (∀ events', (∀ e ∈ events', e.now ≤ 500) →
        events'.filterMap Event.change = fourEvents.filterMap Event.change →
        ((Registry.run events').peers "u" 500).Perm ((Registry.run fourEvents).peers "u" 500))
      ∧ (Registry.run fourEvents).lookup "u" ≠ some [] :=
  peers_refine_lastWrite fourEvents "u" (by simp [fourEvents, Event.now])

end Rendezvous
