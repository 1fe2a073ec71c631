import Dddatasync.Rendezvous.PyViews

/-!
The peer registry of the Python server under concurrent requests, compared with lists of records
that are never pruned.  `fetch` and `prune` read the clock before they take the lock, so an
answer may still hold a record that expired while the view waited.

* `Lawful`: what the results need of Python's `==` on the values of a body.
* `Shelf`, `shelfSpec`: for every user the records of the last registrations, with a clock.
* `put_coe`: `upsert` replaces the one record of the node; `Apart`: no two records of one node.
* `Shelved`: the registry holds what is live of the shelf, and nothing else; `Stocked.step`.
* `py_registry_linearizable`: the calls of every run are linearizable.
-/

namespace Rendezvous

open Runs Json

/-- Python's `==` is symmetric and transitive; it need not be reflexive, as NaN is not equal to
itself. -/
structure Lawful (y : PyExternals) : Prop where
  symm : ∀ a b, y.eq a b = true → y.eq b a = true
  trans : ∀ a b d, y.eq a b = true → y.eq b d = true → y.eq a d = true

/-! ### The specification -/

/-- The records that `upsert` left for every user, and the time. -/
structure Shelf where
  records : String → Multiset JsonRecord
  clock : ℕ

/-- The record that a registration asks for, and for whom, if it is made at `seen`. -/
def recordOf (body : Json) (seen : ℤ) : Option (String × JsonRecord) :=
  match body with
  | .obj m =>
      match last "username" m, last "node_id" m, last "addrs" m with
      | some (.str username), some nodeId, some addrs =>
          some (username, ⟨nodeId, addrs, (last "relay_url" m).getD .null, seen⟩)
      | _, _, _ => none
  | _ => none

/-- The node that a deregistration names, and whose it is. -/
def nodeOf (body : Json) : Option (String × Json) :=
  match body with
  | .obj m =>
      match last "username" m, last "node_id" m with
      | some (.str username), some nodeId => some (username, nodeId)
      | _, _ => none
  | _ => none

/-- The record is not expired at `now`. -/
def Fresh (now : ℕ) (r : JsonRecord) : Prop := (now : ℤ) - peerTtlSecs ≤ r.lastSeen

instance (now : ℕ) : DecidablePred (Fresh now) := fun _ => inferInstanceAs (Decidable (_ ≤ _))

/-- The records of other nodes. -/
def others (y : PyExternals) (nodeId : Json) (records : Multiset JsonRecord) :
    Multiset JsonRecord :=
  records.filter fun p => y.eq p.nodeId nodeId = false

/-- What a request that arrived at `since` may answer, and the shelf after it: `GET /peers` shows
every record that is live now and only records that were live when it arrived; a registration
puts its record in the place of the node's old one; a request that is refused changes
nothing. -/
def Shelf.Effect (y : PyExternals) (m : Shelf) (since : ℕ) :
    PyRequest → PyAnswer → Shelf → Prop
  | .api (.register _ body), .response answer, m' =>
      if answer.status = 200 then
        ∃ (seen : ℕ) (username : String) (r : JsonRecord), recordOf body seen = some (username, r)
          ∧ since ≤ seen ∧ seen ≤ m.clock
          ∧ m'.records = Function.update m.records username
              (r ::ₘ others y r.nodeId (m.records username))
      else m'.records = m.records
  | .api (.deregister _ body), .response answer, m' =>
      if answer.status = 200 then
        ∃ username nodeId, nodeOf body = some (username, nodeId)
          ∧ m'.records = Function.update m.records username
              (others y nodeId (m.records username))
      else m'.records = m.records
  | .peers username, .peers found, m' =>
      m'.records = m.records
        ∧ (m.records username).filter (Fresh m.clock) ≤ (found : Multiset JsonRecord)
        ∧ (found : Multiset JsonRecord) ≤ (m.records username).filter (Fresh since)
  | .peers _, .response _, _ => False
  | _, _, m' => m'.records = m.records

/-- A call takes effect at a time between its arrival and its answer.  Between the calls time
passes, and nothing else happens. -/
def shelfSpec (y : PyExternals) : Spec Shelf (PyRequest × ℕ) (PyAnswer × ℕ) where
  next m call answer m' :=
    call.2 ≤ m.clock ∧ m.clock ≤ answer.2 ∧ m'.clock = m.clock
      ∧ m.Effect y call.2 call.1 answer.1 m'
  tau m m' := m'.records = m.records ∧ m.clock ≤ m'.clock

/-- Nobody has registered. -/
def Shelf.empty : Shelf := ⟨fun _ => 0, 0⟩

/-! ### Lists of records -/

variable {y : PyExternals} {read : Reading} {d : PyDb}

/-- No two records of one node. -/
def Apart (y : PyExternals) (l : List JsonRecord) : Prop :=
  l.Pairwise fun p q => y.eq p.nodeId q.nodeId = false

/-- **`upsert`** replaces the one record of the node, or adds one. -/
lemma put_coe (hy : Lawful y) {r : JsonRecord} {l : List JsonRecord} (hl : Apart y l) :
    (JsonRegistry.put y r l : Multiset JsonRecord) = r ::ₘ others y r.nodeId l := by
  induction l with
  | nil => rfl
  | cons p ps ih =>
      obtain ⟨hp, hps⟩ := List.pairwise_cons.mp hl
      rw [JsonRegistry.put, ← Multiset.cons_coe p ps, others, Multiset.filter_cons]
      cases heq : y.eq p.nodeId r.nodeId with
      | true =>
          -- no other record is of the node
          have hrest : (ps : Multiset JsonRecord).filter
              (fun p => y.eq p.nodeId r.nodeId = false) = ps := by
            rw [Multiset.filter_eq_self]
            intro q hq
            rw [← Bool.not_eq_true]
            intro hqr
            have hpq := hy.trans _ _ _ heq (hy.symm _ _ hqr)
            rw [hp q hq] at hpq
            cases hpq
          simp [hrest]
      | false =>
          have htail := ih hps
          rw [others] at htail
          simp only [Bool.false_eq_true, if_false, if_true, Multiset.singleton_add]
          rw [← Multiset.cons_coe, htail, Multiset.cons_swap]

/-- Apart is a matter of the records, not of their order. -/
lemma apart_perm (hy : Lawful y) {l l' : List JsonRecord} (h : l.Perm l') :
    Apart y l ↔ Apart y l' := by
  refine h.pairwise_iff fun {a b} hab => ?_
  rw [← Bool.not_eq_true] at hab ⊢
  exact fun hba => hab (hy.symm _ _ hba)

lemma apart_put (hy : Lawful y) {r : JsonRecord} {l : List JsonRecord} (hl : Apart y l) :
    Apart y (JsonRegistry.put y r l) := by
  have hperm : (JsonRegistry.put y r l).Perm
      (r :: l.filter fun p => y.eq p.nodeId r.nodeId = false) := by
    rw [← Multiset.coe_eq_coe, put_coe hy hl, others, Multiset.filter_coe, Multiset.cons_coe]
  rw [apart_perm hy hperm, Apart, List.pairwise_cons]
  refine ⟨fun q hq => ?_, hl.sublist List.filter_sublist⟩
  rw [List.mem_filter, decide_eq_true_iff] at hq
  rw [← Bool.not_eq_true]
  intro hrq
  have hqr := hy.symm _ _ hrq
  rw [hq.2] at hqr
  cases hqr

/-! ### The registry -/

/-- The records the registry has for a user. -/
def JsonRegistry.records (registry : JsonRegistry) (u : String) : List JsonRecord :=
  (registry.lookup u).getD []

variable {registry : JsonRegistry} {u v : String}

lemma records_upsert (r : JsonRecord) :
    JsonRegistry.records (registry.upsert y u r.nodeId r.addrs r.relayUrl r.lastSeen) v
      = if v = u then JsonRegistry.put y r (JsonRegistry.records registry u)
        else JsonRegistry.records registry v := by
  rw [JsonRegistry.records, JsonRegistry.upsert]
  split_ifs with hv
  · rw [hv, AList.lookup_insert]
    rfl
  · rw [AList.lookup_insert_ne hv]
    rfl

lemma records_remove (nodeId : Json) :
    JsonRegistry.records (registry.remove y u nodeId) v
      = if v = u then (JsonRegistry.records registry u).filter fun p => !y.eq p.nodeId nodeId
        else JsonRegistry.records registry v := by
  simp only [JsonRegistry.remove, JsonRegistry.records]
  cases hu : registry.lookup u with
  | none =>
      split_ifs with hv
      · rw [hv, hu]
        rfl
      · rfl
  | some l =>
      simp only [Option.getD_some]
      split_ifs with hnil hv hv
      · rw [hv, AList.lookup_erase, List.isEmpty_iff.mp hnil]
        rfl
      · rw [AList.lookup_erase_ne hv]
      · rw [hv, AList.lookup_insert]
        rfl
      · rw [AList.lookup_insert_ne hv]

lemma json_records_prune (now : ℤ) : JsonRegistry.records (registry.prune now) v
    = JsonRegistry.live now (JsonRegistry.records registry v) := by
  rw [JsonRegistry.records, JsonRegistry.prune, AssocMap.lookup_filterMap, JsonRegistry.records]
  cases registry.lookup v with
  | none => rfl
  | some l => cases hl : JsonRegistry.live now l <;> simp [keep, hl]

/-! ### The registry and the shelf -/

/-- The registry holds records of the shelf, one of each node, and all that are live. -/
structure Shelved (y : PyExternals) (registry : JsonRegistry) (m : Shelf) : Prop where
  apart : ∀ u, Apart y (JsonRegistry.records registry u)
  sound : ∀ u, (JsonRegistry.records registry u : Multiset JsonRecord) ≤ m.records u
  complete : ∀ u, (m.records u).filter (Fresh m.clock)
    ≤ (JsonRegistry.records registry u : Multiset JsonRecord)

variable {m : Shelf}

lemma shelved_empty : Shelved y ∅ Shelf.empty where
  apart := fun _ => List.Pairwise.nil
  sound := fun _ => le_rfl
  complete := fun _ => le_rfl

/-- What is live later is live now. -/
lemma Fresh.mono {now now' : ℕ} (hle : now ≤ now') {r : JsonRecord} (h : Fresh now' r) :
    Fresh now r := by
  have hcast : (now : ℤ) ≤ now' := by exact_mod_cast hle
  rw [Fresh] at h ⊢
  omega

lemma filter_fresh_le {now now' : ℕ} (hle : now ≤ now') (records : Multiset JsonRecord) :
    records.filter (Fresh now') ≤ records.filter (Fresh now) :=
  Multiset.monotone_filter_right _ fun _ => Fresh.mono hle

/-- The records `fetch` and `prune` keep. -/
lemma live_coe (now : ℕ) (l : List JsonRecord) :
    (JsonRegistry.live now l : Multiset JsonRecord)
      = (l : Multiset JsonRecord).filter (Fresh now) := by
  rw [Multiset.filter_coe]
  rfl

/-- What is live at `t` of the shelf stays when the records are dropped that expired before. -/
lemma le_filter_fresh {now clock : ℕ} (hle : now ≤ clock) {records kept : Multiset JsonRecord}
    (h : records.filter (Fresh clock) ≤ kept) :
    records.filter (Fresh clock) ≤ kept.filter (Fresh now) := by
  have hself : (records.filter (Fresh clock)).filter (Fresh now)
      = records.filter (Fresh clock) := by
    rw [Multiset.filter_eq_self]
    intro r hr
    exact (Multiset.mem_filter.mp hr).2.mono hle
  rw [← hself]
  exact Multiset.filter_le_filter _ h

/-- Time passes. -/
lemma Shelved.later (h : Shelved y registry m) {clock : ℕ} (hle : m.clock ≤ clock) :
    Shelved y registry ⟨m.records, clock⟩ :=
  ⟨h.apart, h.sound, fun u => (filter_fresh_le hle _).trans (h.complete u)⟩

lemma Shelved.upsert (hy : Lawful y) (h : Shelved y registry m) (u : String) (r : JsonRecord) :
    Shelved y (registry.upsert y u r.nodeId r.addrs r.relayUrl r.lastSeen)
      ⟨Function.update m.records u (r ::ₘ others y r.nodeId (m.records u)), m.clock⟩ := by
  refine ⟨fun v => ?_, fun v => ?_, fun v => ?_⟩
  · rw [records_upsert]
    split_ifs
    · exact apart_put hy (h.apart u)
    · exact h.apart v
  · rw [records_upsert]
    simp only [Function.update_apply]
    split_ifs with hv
    · rw [put_coe hy (h.apart u)]
      exact Multiset.cons_le_cons _ (Multiset.filter_le_filter _ (h.sound u))
    · exact h.sound v
  · rw [records_upsert]
    simp only [Function.update_apply]
    split_ifs with hv
    · rw [put_coe hy (h.apart u), others, others, Multiset.filter_cons, Multiset.filter_comm,
        ← Multiset.singleton_add]
      refine add_le_add ?_ (Multiset.filter_le_filter _ (h.complete u))
      split_ifs
      · exact le_rfl
      · exact Multiset.zero_le _
    · exact h.complete v

lemma Shelved.remove (h : Shelved y registry m) (u : String) (nodeId : Json) :
    Shelved y (registry.remove y u nodeId)
      ⟨Function.update m.records u (others y nodeId (m.records u)), m.clock⟩ := by
  have hcoe : ((JsonRegistry.records registry u).filter fun p => !y.eq p.nodeId nodeId :
      List JsonRecord) = others y nodeId (JsonRegistry.records registry u) := by
    rw [others, Multiset.filter_coe]
    congr 2
    funext p
    cases y.eq p.nodeId nodeId <;> rfl
  refine ⟨fun v => ?_, fun v => ?_, fun v => ?_⟩
  · rw [records_remove]
    split_ifs
    · exact (h.apart u).sublist List.filter_sublist
    · exact h.apart v
  · rw [records_remove]
    simp only [Function.update_apply]
    split_ifs with hv
    · rw [hcoe]
      exact Multiset.filter_le_filter _ (h.sound u)
    · exact h.sound v
  · rw [records_remove]
    simp only [Function.update_apply]
    split_ifs with hv
    · rw [hcoe, others, others, Multiset.filter_comm]
      exact Multiset.filter_le_filter _ (h.complete u)
    · exact h.complete v

/-- A round of pruning takes no record that is live. -/
lemma Shelved.prune (h : Shelved y registry m) {now : ℕ} (hle : now ≤ m.clock) :
    Shelved y (registry.prune now) m := by
  refine ⟨fun v => ?_, fun v => ?_, fun v => ?_⟩
  · rw [json_records_prune]
    exact (h.apart v).sublist List.filter_sublist
  · rw [json_records_prune, live_coe]
    exact (Multiset.filter_le _ _).trans (h.sound v)
  · rw [json_records_prune, live_coe]
    exact le_filter_fresh hle (h.complete v)

/-- What `fetch` finds. -/
lemma Shelved.fetch (h : Shelved y registry m) {since now : ℕ} (hsince : since ≤ now)
    (hle : now ≤ m.clock) (u : String) :
    (m.records u).filter (Fresh m.clock) ≤ (registry.fetch u now : Multiset JsonRecord)
      ∧ (registry.fetch u now : Multiset JsonRecord) ≤ (m.records u).filter (Fresh since) := by
  have hfetch : (registry.fetch u now : Multiset JsonRecord)
      = (JsonRegistry.records registry u : Multiset JsonRecord).filter (Fresh now) :=
    live_coe now _
  rw [hfetch]
  exact ⟨le_filter_fresh hle (h.complete u),
    (Multiset.filter_le_filter _ (h.sound u)).trans (filter_fresh_le hsince _)⟩

/-! ### The invariant -/

/-- How far a view is as a call that began when the clock was at `since i`. -/
def viewProgress (since : ℕ → ℕ) (i : ℕ) (task : PyTask) :
    Progress (PyRequest × ℕ) (PyAnswer × ℕ) := .pending (task.request, since i)

/-- A view that waits for the lock waits with what its request asks for, at a time since it
arrived. -/
def PyTask.Waits (since clock : ℕ) (task : PyTask) : Prop :=
  match task.pc with
  | .putRecord u r => ∃ header body, ∃ seen : ℕ, task.request = .api (.register header body)
      ∧ recordOf body seen = some (u, r) ∧ since ≤ seen ∧ seen ≤ clock
  | .listRecords u now => task.request = .peers u ∧ since ≤ now ∧ now ≤ clock
  | .pruneRecords now => now ≤ clock
  | _ => True

lemma PyTask.Waits.mono {since clock clock' : ℕ} {task : PyTask} (h : task.Waits since clock)
    (hle : clock ≤ clock') : task.Waits since clock' := by
  obtain ⟨request, pc⟩ := task
  cases pc with
  | putRecord u r =>
      obtain ⟨header, body, seen, hreq, hrec, hfrom, hto⟩ := h
      exact ⟨header, body, seen, hreq, hrec, hfrom, hto.trans hle⟩
  | listRecords u now => exact ⟨h.1, h.2.1, h.2.2.trans hle⟩
  | pruneRecords now => exact Nat.le_trans h hle
  | _ => exact h

/-- The shelf and the views at work, in step with the server. -/
structure Stocked (y : PyExternals) (c : PyConfig) (since : ℕ → ℕ) (m : Shelf) : Prop where
  flight : InFlight (shelfSpec y) Shelf.empty (viewProgress since) c.tasks c.calls m
  numbered : ∀ i op, .call i op ∈ c.calls → i < c.next
  clock : m.clock = c.clock
  tasks : ∀ i task, c.tasks i = some task → since i ≤ c.clock ∧ task.Waits (since i) c.clock
  shelved : Shelved y c.db.registry m

lemma stocked_start : Stocked y PyConfig.start (fun _ => 0) Shelf.empty where
  flight := .start
  numbered := fun _ _ h => by cases h
  clock := rfl
  tasks := fun _ _ h => by cases h
  shelved := shelved_empty

variable {c c' : PyConfig} {since : ℕ → ℕ} {i : ℕ} {request : PyRequest} {pc : PyPc}
  {o : PyOutcome}

/-- A request arrives. -/
lemma Stocked.arrive (h : Stocked y c since m) (request : PyRequest) :
    Stocked y { c with
      tasks := Function.update c.tasks c.next (some ⟨request, .start⟩)
      next := c.next + 1
      calls := c.calls ++ [.call c.next (request, c.clock)] }
      (Function.update since c.next c.clock) m := by
  refine ⟨?_, fun j op hj => ?_, h.clock, fun j task hj => ?_, h.shelved⟩
  · refine h.flight.call (fun j task hj => ?_) (fun op hop => lt_irrefl _ (h.numbered _ op hop)) ?_
    · rw [viewProgress, viewProgress, Function.update_of_ne hj]
    · rw [viewProgress, Function.update_self]
  · rcases List.mem_append.mp hj with hj | hj
    · exact (h.numbered j op hj).trans (Nat.lt_succ_self _)
    · rw [(CallEvent.call.inj (List.mem_singleton.mp hj)).1]
      exact Nat.lt_succ_self _
  · have hold : Function.update c.tasks c.next (some ⟨request, .start⟩) j = some task := hj
    by_cases hji : j = c.next
    · subst hji
      rw [Function.update_self] at hold
      obtain rfl := Option.some.inj hold
      rw [Function.update_self]
      exact ⟨le_rfl, trivial⟩
    · rw [Function.update_of_ne hji] at hold ⊢
      exact h.tasks j task hold

/-- Time passes. -/
lemma Stocked.later (h : Stocked y c since m) {clock : ℕ} (hle : c.clock ≤ clock) :
    Stocked y { c with clock } since ⟨m.records, clock⟩ where
  flight := h.flight.tau ⟨rfl, h.clock.trans_le hle⟩
  numbered := h.numbered
  clock := rfl
  tasks := fun i task hi => ⟨(h.tasks i task hi).1.trans hle, (h.tasks i task hi).2.mono hle⟩
  shelved := h.shelved.later (h.clock.trans_le hle)

/-- The calls and the views at work after a segment, once the clock was read. -/
lemma Stocked.after (h : Stocked y c since m) (hclock : c.clock = read.now) {m' : Shelf}
    (hflight : InFlight (shelfSpec y) Shelf.empty (viewProgress since)
      (Function.update c.tasks i (taskAfter (PyTask.mk request) o.next))
      (c.calls ++ eventsAfter i (fun answer => (answer, c.clock)) o.next) m')
    (hm' : m'.clock = m.clock) (hshelved : Shelved y o.db.registry m')
    (htask : c.tasks i = some ⟨request, pc⟩)
    (hwaits : ∀ pc', o.next = .inl pc' → (⟨request, pc'⟩ : PyTask).Waits (since i) c.clock) :
    Stocked y (c.after i request read o) since m' where
  flight := by
    rw [hclock] at hflight
    exact hflight
  numbered := fun j op hj => by
    rcases List.mem_append.mp hj with hj | hj
    · exact h.numbered j op hj
    · cases hnext : o.next <;> simp [hnext] at hj
  clock := hm'.trans (h.clock.trans hclock)
  tasks := fun j task hj => by
    have hold : Function.update c.tasks i (taskAfter (PyTask.mk request) o.next) j = some task := hj
    have hgoal : since j ≤ c.clock ∧ task.Waits (since j) c.clock := by
      by_cases hji : j = i
      · subst hji
        rw [Function.update_self, taskAfter] at hold
        cases hnext : o.next with
        | inl pc' =>
            rw [hnext, Sum.elim_inl] at hold
            obtain rfl := Option.some.inj hold
            exact ⟨(h.tasks j _ htask).1, hwaits pc' hnext⟩
        | inr answer =>
            rw [hnext, Sum.elim_inr] at hold
            cases hold
      · rw [Function.update_of_ne hji] at hold
        exact h.tasks j task hold
    rw [hclock] at hgoal
    exact hgoal
  shelved := hshelved

/-- What is left to show of a segment: how it moves the shelf, and what its view waits with. -/
inductive ShelfMove (y : PyExternals) (c : PyConfig) (m : Shelf) (since : ℕ)
    (request : PyRequest) (o : PyOutcome) : Prop
  | wait (pc' : PyPc) (hnext : o.next = .inl pc') (hshelved : Shelved y o.db.registry m)
      (hwaits : (⟨request, pc'⟩ : PyTask).Waits since c.clock)
  | answer (answer : PyAnswer) (m' : Shelf) (hnext : o.next = .inr answer)
      (hclock : m'.clock = m.clock) (hshelved : Shelved y o.db.registry m')
      (heffect : m.Effect y since request answer m')

/-- A segment that moves the shelf keeps it in step. -/
lemma ShelfMove.stocked (hmove : ShelfMove y c m (since i) request o) (h : Stocked y c since m)
    (hclock : c.clock = read.now) (htask : c.tasks i = some ⟨request, pc⟩) :
    ∃ m, Stocked y (c.after i request read o) since m := by
  have hcall : since i ≤ m.clock := (h.tasks i _ htask).1.trans h.clock.ge
  cases hmove with
  | wait pc' hnext hshelved hwaits =>
      refine ⟨m, h.after hclock (h.flight.wait htask hnext rfl) rfl hshelved htask ?_⟩
      intro pc'' hpc''
      rw [hnext] at hpc''
      obtain rfl := Sum.inl.inj hpc''
      exact hwaits
  | answer answer m' hnext hm' hshelved heffect =>
      have hspec : (shelfSpec y).next m (request, since i) (answer, c.clock) m' :=
        ⟨hcall, h.clock.le, hm', heffect⟩
      refine ⟨m', h.after hclock (h.flight.answer_now htask hnext rfl hspec) hm' hshelved htask ?_⟩
      intro pc' hpc'
      rw [hnext] at hpc'
      cases hpc'

/-! ### Every segment -/

/-- The view does not wait for the lock of the registry. -/
def PyPc.Aside : PyPc → Prop
  | .putRecord _ _ => False
  | .listRecords _ _ => False
  | .pruneRecords _ => False
  | _ => True

/-- The segment leaves the registry alone, and its view does not wait for it. -/
def PyOutcome.Aside (d : PyDb) (o : PyOutcome) : Prop :=
  o.db.registry = d.registry ∧ ∀ pc', o.next = .inl pc' → pc'.Aside

lemma aside_answered {answer : PyDb × Response} (h : answer.1.registry = d.registry) :
    (answered answer).Aside d := ⟨h, fun pc' hpc' => by cases hpc'⟩

lemma aside_wait {pc' : PyPc} (h : pc'.Aside) : (d.wait pc').Aside d :=
  ⟨rfl, fun _ hpc => Sum.inl.inj hpc ▸ h⟩

lemma aside_findName (body : Json) : (findName y body d).Aside d := by
  unfold findName
  split
  · split
    · simp only
      split_ifs
      · exact aside_answered rfl
      · exact aside_answered rfl
      · exact aside_wait trivial
    · exact aside_answered (by rw [refuseSignup_fst])
  · exact aside_answered rfl

lemma aside_findEmail (username email : String) (password : Json) :
    (findEmail username email password d).Aside d := by
  rw [findEmail]
  split_ifs
  · exact aside_answered rfl
  · exact aside_wait trivial

lemma aside_insertUser (username email : String) (password : Json) :
    (insertUser y read username email password d).Aside d := by
  cases password with
  | str password =>
      simp only [insertUser]
      split_ifs
      · exact aside_answered rfl
      · exact aside_answered rfl
  | _ => exact aside_answered rfl

lemma aside_findAccount (username password : Json) :
    (findAccount y username password d).Aside d := by
  by_cases hlone : isLone username = true ∨ isLone password = true
  · rw [findAccount, if_pos hlone]
    exact aside_answered rfl
  rw [findAccount, if_neg hlone]
  simp only
  split
  · simp only [ite_self]
    exact aside_answered rfl
  · split_ifs
    · split
      · exact aside_answered rfl
      · exact aside_answered rfl
      · exact aside_wait trivial
    · exact aside_answered rfl

lemma aside_loginBody (body : Json) : (loginBody y body d).Aside d := by
  unfold loginBody
  split
  · split
    · exact aside_findAccount _ _
    · exact aside_answered rfl
  · exact aside_answered rfl

lemma aside_findPending (token : String) : (findPending token d).Aside d := by
  rw [findPending]
  split
  · exact aside_answered rfl
  · exact aside_wait trivial
  · exact aside_answered rfl

/-- A segment that leaves the registry alone, of a request that is not about it. -/
lemma PyOutcome.Aside.shelfMove (ho : o.Aside c.db) (h : Stocked y c since m)
    (heffect : ∀ answer, m.Effect y (since i) request answer m) :
    ShelfMove y c m (since i) request o := by
  have hshelved : Shelved y o.db.registry m := ho.1.symm ▸ h.shelved
  cases hnext : o.next with
  | inl pc' =>
      refine .wait pc' hnext hshelved ?_
      have haside := ho.2 pc' hnext
      cases pc' <;> trivial
  | inr answer => exact .answer answer m hnext rfl hshelved (heffect answer)

/-- A request to the registry that is refused. -/
lemma shelfMove_refused (h : Stocked y c since m) {r : Response} (hr : r.status ≠ 200)
    (hrequest : (∃ header body, request = .api (.register header body))
      ∨ ∃ header body, request = .api (.deregister header body)) :
    ShelfMove y c m (since i) request (answered (c.db, r)) := by
  refine .answer (.response r) m rfl rfl h.shelved ?_
  rcases hrequest with ⟨header, body, rfl⟩ | ⟨header, body, rfl⟩
  · rw [Shelf.Effect, if_neg hr]
  · rw [Shelf.Effect, if_neg hr]

/-- A registration. -/
lemma shelfMove_register (hy : Lawful y) (h : Stocked y c since m) (hclock : c.clock = read.now)
    {header : Option String} {body : Json}
    (htask : c.tasks i = some ⟨.api (.register header body), pc⟩)
    (hseg : pySegment y read c.db (.api (.register header body)) pc = some o) :
    ShelfMove y c m (since i) (.api (.register header body)) o := by
  obtain ⟨hsince, hwaits⟩ := h.tasks i _ htask
  have href : ∀ r : Response, r.status ≠ 200 →
      ShelfMove y c m (since i) (.api (.register header body)) (answered (c.db, r)) :=
    fun r hr => shelfMove_refused h hr (.inl ⟨header, body, rfl⟩)
  cases pc <;> cases hseg
  · rw [findSpeaker]
    split
    · exact href _ (by simp)
    · exact .wait _ rfl h.shelved trivial
  · rename_i user
    cases hbody : y.dict body with
    | none =>
        rw [readBody, hbody]
        exact href _ (by simp)
    | some fields =>
        obtain rfl := eq_obj_of_dict hbody
        simp only [readBody, hbody]
        split
        · rename_i name hname
          split_ifs
          · exact href _ (by simp)
          · split
            · rename_i nodeId addrs hnode haddrs
              refine .wait _ rfl h.shelved ⟨header, .obj fields, read.now, rfl, ?_, ?_, ?_⟩
              · simp only [recordOf, hname, hnode, haddrs]
              · exact hclock ▸ hsince
              · exact hclock.ge
            · exact href _ (by simp)
        · exact href _ (by simp)
  · rename_i u r
    obtain ⟨header', body', seen, hreq, hrec, hfrom, hto⟩ := hwaits
    obtain ⟨rfl, rfl⟩ := ApiRequest.register.inj (PyRequest.api.inj hreq)
    refine .answer _ ⟨Function.update m.records u (r ::ₘ others y r.nodeId (m.records u)), m.clock⟩
      rfl rfl (h.shelved.upsert hy u r) ?_
    rw [Shelf.Effect, if_pos rfl]
    exact ⟨seen, u, r, hrec, hfrom, hto.trans h.clock.ge, rfl⟩

/-- A deregistration. -/
lemma shelfMove_deregister (h : Stocked y c since m) {header : Option String} {body : Json}
    (hseg : pySegment y read c.db (.api (.deregister header body)) pc = some o) :
    ShelfMove y c m (since i) (.api (.deregister header body)) o := by
  have href : ∀ r : Response, r.status ≠ 200 →
      ShelfMove y c m (since i) (.api (.deregister header body)) (answered (c.db, r)) :=
    fun r hr => shelfMove_refused h hr (.inr ⟨header, body, rfl⟩)
  cases pc <;> cases hseg
  · rw [findSpeaker]
    split
    · exact href _ (by simp)
    · exact .wait _ rfl h.shelved trivial
  · rename_i user
    rw [dropRecord]
    cases hbody : y.dict body with
    | none =>
        rw [deregisterAs, hbody]
        exact href _ (by simp)
    | some fields =>
        obtain rfl := eq_obj_of_dict hbody
        simp only [deregisterAs, hbody]
        split
        · rename_i name hname
          split_ifs
          · exact href _ (by simp)
          · split
            · rename_i nodeId hnode
              refine .answer _ ⟨Function.update m.records name
                (others y nodeId (m.records name)), m.clock⟩ rfl rfl
                (h.shelved.remove name nodeId) ?_
              rw [Shelf.Effect, if_pos rfl]
              refine ⟨name, nodeId, ?_, rfl⟩
              simp only [nodeOf, hname, hnode]
            · exact href _ (by simp)
        · exact href _ (by simp)

/-- **A segment** moves the shelf as its request may. -/
lemma shelfMove_segment (hy : Lawful y) (h : Stocked y c since m) (hclock : c.clock = read.now)
    (htask : c.tasks i = some ⟨request, pc⟩)
    (hseg : pySegment y read c.db request pc = some o) :
    ShelfMove y c m (since i) request o := by
  obtain ⟨hsince, hwaits⟩ := h.tasks i _ htask
  cases request with
  | api request =>
      cases request with
      | signup body =>
          have heffect : ∀ answer, m.Effect y (since i) (.api (.signup body)) answer m := by
            intro answer
            cases answer <;> rfl
          cases pc <;> cases hseg
          · exact (aside_findName body).shelfMove h heffect
          · exact (aside_findEmail _ _ _).shelfMove h heffect
          · exact (aside_insertUser _ _ _).shelfMove h heffect
      | login body =>
          have heffect : ∀ answer, m.Effect y (since i) (.api (.login body)) answer m := by
            intro answer
            cases answer <;> rfl
          cases pc <;> cases hseg
          · exact (aside_loginBody body).shelfMove h heffect
          · exact PyOutcome.Aside.shelfMove (aside_answered rfl) h heffect
      | verify token =>
          have heffect : ∀ answer, m.Effect y (since i) (.api (.verify token)) answer m := by
            intro answer
            cases answer <;> rfl
          cases pc <;> cases hseg
          · exact (aside_findPending token).shelfMove h heffect
          · exact PyOutcome.Aside.shelfMove (aside_answered rfl) h heffect
      | register header body => exact shelfMove_register hy h hclock htask hseg
      | deregister header body => exact shelfMove_deregister h hseg
  | peers u =>
      cases pc <;> cases hseg
      · exact .wait _ rfl h.shelved ⟨rfl, hclock ▸ hsince, hclock.ge⟩
      · obtain ⟨hreq, hfrom, hto⟩ := hwaits
        obtain rfl := PyRequest.peers.inj hreq
        exact .answer _ m rfl rfl h.shelved ⟨rfl, h.shelved.fetch hfrom (hto.trans h.clock.ge) u⟩
  | prune =>
      cases pc <;> cases hseg
      · exact .wait _ rfl h.shelved hclock.ge
      · exact .answer _ m rfl rfl (h.shelved.prune (Nat.le_trans hwaits h.clock.ge)) rfl

/-- Every step of the server keeps the shelf in step with it. -/
lemma Stocked.step (hy : Lawful y) (h : Stocked y c since m) {a : PyAction}
    (hs : c.step y a = some c') : ∃ since m, Stocked y c' since m := by
  rcases pyStep_cases hs with ⟨request, -, rfl⟩
    | ⟨i, read, request, pc, o, -, htask, -, hle, hseg, rfl⟩ | ⟨selected, -, rfl⟩
    | ⟨selected, -, rfl⟩
  · exact ⟨_, m, h.arrive request⟩
  · have hlater := h.later hle
    obtain ⟨m', h'⟩ := (shelfMove_segment hy hlater rfl htask hseg).stocked hlater rfl htask
    exact ⟨since, m', h'⟩
  · exact ⟨since, m, h.flight, h.numbered, h.clock, h.tasks, h.shelved⟩
  · exact ⟨since, m, h.flight, h.numbered, h.clock, h.tasks, h.shelved⟩

/-- **The registry of the Python server is linearizable.**  In every run at clock readings that
never go back, however its views are mixed, the requests take effect one at a time on lists of
records that no pruning touches, each between its arrival and its answer: `GET /peers` shows
every record that is live at that moment, and nothing that had expired when it arrived. -/
theorem py_registry_linearizable (hy : Lawful y)
    (hc : Reachable (PyConfig.step y) PyConfig.start c) :
    Linearizable (shelfSpec y) Shelf.empty c.calls := by
  have hinv : ∃ since m, Stocked y c since m := by
    refine hc.invariant (I := fun c => ∃ since m, Stocked y c since m)
      ⟨_, _, stocked_start⟩ ?_
    rintro c a c' ⟨since, m, h⟩ hs
    exact h.step hy hs
  obtain ⟨since, m, h⟩ := hinv
  exact h.flight.linearizable

lemma lawful_plainPy : Lawful plainPy where
  symm := fun a b h => by
    simp only [plainPy] at h ⊢
    split at h <;> simp_all
  trans := fun a b d h h' => by
    simp only [plainPy] at h h' ⊢
    split at h <;> split at h' <;> simp_all

/-- Alice registers a device; a query waits for the lock until the record has expired. -/
def aliceExpires : List PyAction :=
  [.arrive (.api (.signup (.obj [("username", .str "alice"), ("email", .str "a@b"),
      ("password", .str "pw")]))),
    .run 0 { token := "t0" }, .run 0 { token := "t1" },
    .run 0 { token := "t2", autoApprove := true },
    .arrive (.api (.login (.obj [("username", .str "alice"), ("password", .str "pw")]))),
    .run 1 { token := "t3" }, .run 1 { token := "secret" },
    .arrive (.api (.register (some "Bearer secret") (.obj [("username", .str "alice"),
      ("node_id", .str "node"), ("addrs", .arr [])]))),
    .run 2 { token := "t4", now := 5 }, .run 2 { token := "t5", now := 5 },
    .run 2 { token := "t6", now := 9 }, .arrive (.peers "alice"),
    .run 3 { token := "t7", now := 300 }, .run 3 { token := "t8", now := 400 }]

theorem aliceExpires_linearizable :
    ∃ c, exec (PyConfig.step plainPy) PyConfig.start aliceExpires = some c
      ∧ (JsonRegistry.records c.db.registry "alice").map (·.lastSeen) = [5]
      ∧ Linearizable (shelfSpec plainPy) Shelf.empty c.calls := by
  have hrun : ((exec (PyConfig.step plainPy) PyConfig.start aliceExpires).map fun c =>
      (JsonRegistry.records c.db.registry "alice").map (·.lastSeen)) = some [5] := by decide
  obtain ⟨c, hc, hrecords⟩ := Option.map_eq_some_iff.mp hrun
  exact ⟨c, hc, hrecords, py_registry_linearizable lawful_plainPy (Reachable.init.exec hc)⟩

end Rendezvous
