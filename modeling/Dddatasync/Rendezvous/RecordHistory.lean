import Dddatasync.Rendezvous.Calls
import Dddatasync.Rendezvous.Ownership

/-!
The peer registry of the Rust server under concurrent requests, compared with a map that
registers, forgets and lists at once.

* `Records`, `recordSpec`: the map from users and nodes to their last records, with a clock.
* `RecordMove`, `record_segment`: what a segment does with the registry.
* `Recorded`: the registry holds what the map holds and is still live; `Recorded.step`.
* `registry_linearizable`: the calls of every run are linearizable.
-/

namespace Rendezvous

open Runs

/-! ### The specification -/

/-- The last record of every node of every user, and the time. -/
structure Records where
  record : String × String → Option PeerRecord
  clock : ℕ

/-- What a request that arrived at `since` may answer, and the map after it: the records that
are live, each node once; a registration puts its record in, stamped with a time between its
arrival and now; a request that is refused changes nothing. -/
def Records.Effect (m : Records) (since : ℕ) : Request → Response → Records → Prop
  | .register _ body, answer, m' =>
      if answer.status = 200 then
        ∃ req seen, body = some req ∧ since ≤ seen ∧ seen ≤ m.clock
          ∧ m'.record = Function.update m.record (req.username, req.nodeId)
              (some ⟨req.nodeId, req.addrs, req.relayUrl, seen⟩)
      else m'.record = m.record
  | .deregister _ body, answer, m' =>
      if answer.status = 200 then
        ∃ req, body = some req
          ∧ m'.record = Function.update m.record (req.username, req.nodeId) none
      else m'.record = m.record
  | .peers username, answer, m' =>
      m'.record = m.record ∧ ∃ peers, answer = ⟨200, .peers peers⟩
        ∧ (peers.map (·.nodeId)).Nodup
        ∧ ∀ r, r ∈ peers ↔ m.record (username, r.nodeId) = some r
            ∧ m.clock - peerTtlSecs ≤ r.lastSeen
  | _, _, m' => m'.record = m.record

/-- A call takes effect at a time between its arrival and its answer.  Between the calls time
passes, and nothing else happens. -/
def recordSpec : Spec Records (Request × ℕ) (Response × ℕ) where
  next m call answer m' :=
    call.2 ≤ m.clock ∧ m.clock ≤ answer.2 ∧ m'.clock = m.clock
      ∧ m.Effect call.2 call.1 answer.1 m'
  tau m m' := m'.record = m.record ∧ m.clock ≤ m'.clock

/-- Nobody has registered. -/
def Records.empty : Records := ⟨fun _ => none, 0⟩

/-! ### What a segment does with the registry -/

/-- The handler waits neither to write nor to erase a record, nor to prune the registry. -/
def Pc.Aside : Pc → Prop
  | .writeRecord _ _ => False
  | .eraseRecord _ _ => False
  | .pruneRegistry _ => False
  | _ => True

/-- What a segment does with the registry, and where its handler waits then. -/
inductive RecordMove (x : Externals) (read : Reading) (s : AppState) :
    Request → Pc → Outcome → Prop
  | wait (request : Request) (pc : Pc) (o : Outcome) (pc' : Pc) (hnext : o.next = .inl pc')
      (hreg : o.state.registry = s.registry) (haside : pc'.Aside) :
      RecordMove x read s request pc o
  | write (header : Option String) (req : RegisterRequest) (pc : Pc) (o : Outcome)
      (hnext : o.next = .inl (.writeRecord req.username
        ⟨req.nodeId, req.addrs, req.relayUrl, read.now⟩))
      (hreg : o.state.registry = s.registry) :
      RecordMove x read s (.register header (some req)) pc o
  | erase (header : Option String) (req : DeregisterRequest) (pc : Pc) (o : Outcome)
      (hnext : o.next = .inl (.eraseRecord req.username req.nodeId))
      (hreg : o.state.registry = s.registry) :
      RecordMove x read s (.deregister header (some req)) pc o
  | round (o : Outcome) (hnext : o.next = .inl (.pruneRegistry read.now))
      (hreg : o.state.registry = s.registry) : RecordMove x read s .prune .start o
  | wrote (header : Option String) (body : Option RegisterRequest) (u : String) (r : PeerRecord)
      (o : Outcome) (hnext : o.next = .inr ⟨200, .empty⟩)
      (hreg : o.state.registry = s.registry.register u r) :
      RecordMove x read s (.register header body) (.writeRecord u r) o
  | erased (header : Option String) (body : Option DeregisterRequest) (u n : String)
      (o : Outcome) (hnext : o.next = .inr ⟨200, .empty⟩)
      (hreg : o.state.registry = s.registry.deregister u n) :
      RecordMove x read s (.deregister header body) (.eraseRecord u n) o
  | listed (u : String) (o : Outcome)
      (hnext : o.next = .inr ⟨200, .peers (s.registry.peers u read.now)⟩)
      (hreg : o.state.registry = s.registry) : RecordMove x read s (.peers u) .start o
  | pruned (now : ℕ) (o : Outcome) (hnext : o.next = .inl (.pruneSessions read.now))
      (hreg : o.state.registry = s.registry.prune now) :
      RecordMove x read s .prune (.pruneRegistry now) o
  | answer (request : Request) (pc : Pc) (o : Outcome) (r : Response)
      (hnext : o.next = .inr r) (hreg : o.state.registry = s.registry)
      (hpeers : ∀ u, request ≠ .peers u)
      (hregister : ∀ header body, request = .register header body → r.status ≠ 200)
      (hderegister : ∀ header body, request = .deregister header body → r.status ≠ 200) :
      RecordMove x read s request pc o

variable {x : Externals} {read : Reading} {i : ℕ} {request : Request} {s : AppState} {pc : Pc}
  {o : Outcome}

/-- An answer other than 200 comes with nothing done. -/
lemma RecordMove.refuse (hpeers : ∀ u, request ≠ .peers u) (status : ℕ) (body : Body)
    (hstatus : status ≠ 200) : RecordMove x read s request pc (respond s status body) :=
  .answer _ _ _ _ rfl rfl hpeers (fun _ _ _ => hstatus) (fun _ _ _ => hstatus)

/-- The handlers of accounts leave the registry alone and answer no registry request. -/
lemma RecordMove.other (hreg : o.state.registry = s.registry) (hpeers : ∀ u, request ≠ .peers u)
    (hregister : ∀ header body, request ≠ .register header body)
    (hderegister : ∀ header body, request ≠ .deregister header body)
    (haside : ∀ pc', o.next = .inl pc' → pc'.Aside) : RecordMove x read s request pc o := by
  cases hnext : o.next with
  | inl pc' => exact .wait _ _ _ pc' hnext hreg (haside pc' hnext)
  | inr r =>
      exact .answer _ _ _ r hnext hreg hpeers (fun h b heq => absurd heq (hregister h b))
        (fun h b heq => absurd heq (hderegister h b))

/-- The handlers of accounts wait to touch accounts, tokens and sessions. -/
lemma aside_signupStart (req : SignupRequest) :
    ∀ pc', (signupStart x read req s).next = .inl pc' → pc'.Aside := by
  intro pc' hpc'
  simp only [signupStart] at hpc'
  split at hpc'
  · cases hpc'
  · split at hpc'
    · cases hpc'
    · cases hpc'
      trivial

lemma aside_insertAccount (account : UserAccount) (password : String) :
    ∀ pc', (insertAccount read i account password s).next = .inl pc' → pc'.Aside := by
  intro pc' hpc'
  rw [insertAccount] at hpc'
  split_ifs at hpc'
  · cases hpc'
  · cases hpc'
  · simp only at hpc'
    split at hpc' <;> cases hpc'
    trivial

lemma aside_verifyStart (token : String) :
    ∀ pc', (verifyStart token s).next = .inl pc' → pc'.Aside := by
  intro pc' hpc'
  rw [verifyStart] at hpc'
  split at hpc' <;> cases hpc'
  trivial

lemma aside_approveUser (u : String) :
    ∀ pc', (approveUser u s).next = .inl pc' → pc'.Aside := by
  intro pc' hpc'
  simp only [approveUser] at hpc'
  split at hpc'
  · cases hpc'
  · split_ifs at hpc'
    cases hpc'

lemma aside_loginStart (req : LoginRequest) :
    ∀ pc', (loginStart x read i req s).next = .inl pc' → pc'.Aside := by
  intro pc' hpc'
  rw [loginStart] at hpc'
  split at hpc'
  · split_ifs at hpc'
    · cases hpc'
    · cases hpc'
  · split_ifs at hpc'
    · split at hpc'
      · cases hpc'
      · cases hpc'
      · cases hpc'
        trivial
    · cases hpc'

lemma recordMove_findSession (hpeers : ∀ u, request ≠ .peers u) (header : Option String) :
    RecordMove x read s request .start (findSession read i header s) := by
  rw [findSession]
  split
  · exact .refuse hpeers _ _ (by decide)
  · split
    · exact .refuse hpeers _ _ (by decide)
    · split_ifs
      · exact .refuse hpeers _ _ (by decide)
      · exact .wait _ _ _ _ rfl rfl trivial

lemma recordMove_register (header : Option String) (body : Option RegisterRequest) (u : String) :
    RecordMove x read s (.register header body) (.checkUser u)
      (checkUser i u s (registerBody read u body s)) := by
  rw [checkUser]
  split
  · exact .refuse (by simp) _ _ (by decide)
  · split_ifs
    · exact .refuse (by simp) _ _ (by decide)
    · cases body with
      | none => exact .answer _ _ _ ⟨400, .empty⟩ rfl rfl (by simp) (by simp) (by simp)
      | some req =>
          by_cases hname : req.username ≠ u
          · rw [registerBody, if_pos hname]
            exact .answer _ _ _ ⟨403, .empty⟩ rfl rfl (by simp) (by simp) (by simp)
          · rw [registerBody, if_neg hname]
            exact .write header req _ _ rfl rfl

lemma recordMove_deregister (header : Option String) (body : Option DeregisterRequest)
    (u : String) :
    RecordMove x read s (.deregister header body) (.checkUser u)
      (checkUser i u s (deregisterBody u body s)) := by
  rw [checkUser]
  split
  · exact .refuse (by simp) _ _ (by decide)
  · split_ifs
    · exact .refuse (by simp) _ _ (by decide)
    · cases body with
      | none => exact .answer _ _ _ ⟨400, .empty⟩ rfl rfl (by simp) (by simp) (by simp)
      | some req =>
          by_cases hname : req.username ≠ u
          · rw [deregisterBody, if_pos hname]
            exact .answer _ _ _ ⟨403, .empty⟩ rfl rfl (by simp) (by simp) (by simp)
          · rw [deregisterBody, if_neg hname]
            exact .erase header req _ _ rfl rfl

/-- **What a segment does with the registry.** -/
theorem record_segment (hseg : segment x read i s request pc = some o) :
    RecordMove x read s request pc o := by
  unfold segment at hseg
  split at hseg <;> cases hseg
  · exact .other (congrArg _ (signupStart_state _)) (by simp) (by simp) (by simp)
      (aside_signupStart _)
  · exact .other (insertAccount_registry _ _) (by simp) (by simp) (by simp)
      (aside_insertAccount _ _)
  · exact .other rfl (by simp) (by simp) (by simp) (by simp [insertToken])
  · exact .other (verifyStart_registry _) (by simp) (by simp) (by simp) (aside_verifyStart _)
  · exact .other (approveUser_registry _) (by simp) (by simp) (by simp) (aside_approveUser _)
  · exact .other (congrArg _ (loginStart_state _)) (by simp) (by simp) (by simp)
      (aside_loginStart _)
  · exact .other rfl (by simp) (by simp) (by simp) (by simp [openSession])
  · exact recordMove_findSession (by simp) _
  · exact recordMove_register _ _ _
  · exact .wrote _ _ _ _ _ rfl rfl
  · exact recordMove_findSession (by simp) _
  · exact recordMove_deregister _ _ _
  · exact .erased _ _ _ _ _ rfl rfl
  · exact .listed _ _ rfl rfl
  · exact .round _ rfl rfl
  · exact .pruned _ _ rfl rfl
  · exact .other rfl (by simp) (by simp) (by simp) (by simp [pruneSessions])

/-! ### The invariant -/

/-- How far a request in flight is as a call that began when the clock was at `since i`. -/
def sinceProgress (since : ℕ → ℕ) (i : ℕ) (task : Task) :
    Progress (Request × ℕ) (Response × ℕ) := .pending (task.request, since i)

/-- A handler that waits to write waits with the record its request asks for, stamped since it
arrived; one that waits to erase, with the node its request names. -/
def Task.Waits (since clock : ℕ) (task : Task) : Prop :=
  match task.pc with
  | .writeRecord u r => since ≤ r.lastSeen ∧ r.lastSeen ≤ clock ∧ ∃ header req,
      task.request = .register header (some req) ∧ req.username = u
        ∧ r = ⟨req.nodeId, req.addrs, req.relayUrl, r.lastSeen⟩
  | .eraseRecord u n => ∃ header req, task.request = .deregister header (some req)
      ∧ req.username = u ∧ req.nodeId = n
  | .pruneRegistry now => now ≤ clock
  | _ => True

lemma Task.Waits.mono {since clock clock' : ℕ} {task : Task} (h : task.Waits since clock)
    (hle : clock ≤ clock') : task.Waits since clock' := by
  obtain ⟨request, pc⟩ := task
  cases pc with
  | writeRecord u r => exact ⟨h.1, h.2.1.trans hle, h.2.2⟩
  | pruneRegistry now => exact Nat.le_trans h hle
  | _ => exact h

/-- The registry holds the records of the map, up to those that have expired. -/
def Holds (registry : Registry) (m : Records) : Prop :=
  ∃ events, Refines registry events ∧ (∀ e ∈ events, e.now ≤ m.clock)
    ∧ ∀ k r, m.record k = some r ↔ Change.LastWrite (events.filterMap Event.change) k r

variable {registry : Registry} {m : Records}

lemma holds_empty : Holds ∅ Records.empty := by
  refine ⟨[], refines_nil, by simp, fun k r => ?_⟩
  constructor
  · intro h
    cases h
  · intro h
    exact absurd h (Change.not_lastWrite_nil k r)

/-- One more change of the history, on the side of the map. -/
lemma lastWrite_update {h : List (Change (String × String) PeerRecord)}
    {record : String × String → Option PeerRecord}
    (heq : ∀ k r, record k = some r ↔ Change.LastWrite h k r) (k : String × String)
    (v : Option PeerRecord) (c : Change (String × String) PeerRecord)
    (hc : c = v.elim (.del k) (.put k)) (k' : String × String) (r : PeerRecord) :
    Function.update record k v k' = some r ↔ Change.LastWrite (h ++ [c]) k' r := by
  rw [Change.lastWrite_snoc, Function.update_apply, ← heq]
  subst hc
  by_cases hk : k' = k
  · subst hk
    cases v with
    | none => simp [Change.key]
    | some w => simp [Change.key]
  · cases v with
    | none => simp [Change.key, hk, Ne.symm hk]
    | some w => simp [Change.key, hk, Ne.symm hk]

lemma Holds.register (h : Holds registry m) (u n : String) (addrs : List String)
    (relayUrl : Option String) {seen : ℕ} (hseen : seen ≤ m.clock) :
    Holds (registry.register u ⟨n, addrs, relayUrl, seen⟩)
      ⟨Function.update m.record (u, n) (some ⟨n, addrs, relayUrl, seen⟩), m.clock⟩ := by
  obtain ⟨events, href, hnow, heq⟩ := h
  refine ⟨_, href.register u n addrs relayUrl seen, fun e he => ?_, fun k r => ?_⟩
  · rcases List.mem_append.mp he with he | he
    · exact hnow e he
    · rw [List.mem_singleton.mp he]
      exact hseen
  · rw [List.filterMap_append]
    exact lastWrite_update heq (u, n) (some ⟨n, addrs, relayUrl, seen⟩) _ rfl k r

lemma Holds.deregister (h : Holds registry m) (u n : String) :
    Holds (registry.deregister u n) ⟨Function.update m.record (u, n) none, m.clock⟩ := by
  obtain ⟨events, href, hnow, heq⟩ := h
  refine ⟨_, href.deregister u n m.clock, fun e he => ?_, fun k r => ?_⟩
  · rcases List.mem_append.mp he with he | he
    · exact hnow e he
    · rw [List.mem_singleton.mp he]
      exact le_rfl
  · rw [List.filterMap_append]
    exact lastWrite_update heq (u, n) none _ rfl k r

/-- A round of pruning is not seen by the map. -/
lemma Holds.prune (h : Holds registry m) {now : ℕ} (hle : now ≤ m.clock) :
    Holds (registry.prune now) m := by
  obtain ⟨events, href, hnow, heq⟩ := h
  refine ⟨_, href.prune now, fun e he => ?_, fun k r => ?_⟩
  · rcases List.mem_append.mp he with he | he
    · exact hnow e he
    · rw [List.mem_singleton.mp he]
      exact hle
  · rw [List.filterMap_append, List.filterMap_cons_none rfl, List.filterMap_nil, List.append_nil]
    exact heq k r

/-- Time passes. -/
lemma Holds.later (h : Holds registry m) {clock : ℕ} (hle : m.clock ≤ clock) :
    Holds registry ⟨m.record, clock⟩ := by
  obtain ⟨events, href, hnow, heq⟩ := h
  exact ⟨events, href, fun e he => (hnow e he).trans hle, heq⟩

/-- The answer of `GET /peers` is what the map says. -/
lemma Holds.mem_peers (h : Holds registry m) (u : String) :
    ((registry.peers u m.clock).map (·.nodeId)).Nodup
      ∧ ∀ r, r ∈ registry.peers u m.clock
        ↔ m.record (u, r.nodeId) = some r ∧ m.clock - peerTtlSecs ≤ r.lastSeen := by
  obtain ⟨events, href, hnow, heq⟩ := h
  refine ⟨Registry.nodup_filter _ (href.nodup u), fun r => ?_⟩
  rw [Registry.peers, Registry.mem_live, heq]
  constructor
  · rintro ⟨hr, hl⟩
    exact ⟨href.sound u r hr, hl⟩
  · rintro ⟨hr, hl⟩
    exact ⟨href.complete u r m.clock hr hnow hl, hl⟩

/-- The map and the calls in flight, in step with the server. -/
structure Recorded (t : Timed) (since : ℕ → ℕ) (m : Records) : Prop where
  flight : InFlight recordSpec Records.empty (sinceProgress since) t.config.tasks t.calls m
  clock : m.clock = t.clock
  tasks : ∀ i task, t.config.tasks i = some task → since i ≤ t.clock
    ∧ task.Waits (since i) t.clock
  holds : Holds t.config.state.registry m

lemma recorded_start : Recorded Timed.start (fun _ => 0) Records.empty where
  flight := .start
  clock := rfl
  tasks := fun _ _ h => by cases h
  holds := holds_empty

variable {t : Timed} {since : ℕ → ℕ}

/-- A request arrives. -/
lemma Recorded.arrive (h : Recorded t since m) (hn : t.Numbered) (request : Request) :
    Recorded ⟨{ t.config with
        tasks := Function.update t.config.tasks t.config.next (some ⟨request, .start⟩)
        next := t.config.next + 1
        log := t.config.log ++ [.arrived t.config.next request] },
      t.clock, t.calls ++ [.call t.config.next (request, t.clock)]⟩
      (Function.update since t.config.next t.clock) m := by
  refine ⟨?_, h.clock, fun j task hj => ?_, h.holds⟩
  · refine h.flight.call (fun j task hj => ?_) (fun op hop => lt_irrefl _ (hn _ op hop)) ?_
    · rw [sinceProgress, sinceProgress, Function.update_of_ne hj]
    · rw [sinceProgress, Function.update_self]
  · by_cases hji : j = t.config.next
    · subst hji
      simp only [Function.update_self, Option.some.injEq] at hj
      subst hj
      exact ⟨by simp, trivial⟩
    · have hold : t.config.tasks j = some task := by simpa [hji] using hj
      rw [Function.update_of_ne hji]
      exact h.tasks j task hold

/-- Time passes. -/
lemma Recorded.later (h : Recorded t since m) {clock : ℕ} (hle : t.clock ≤ clock) :
    Recorded { t with clock } since ⟨m.record, clock⟩ where
  flight := h.flight.tau ⟨rfl, h.clock.trans_le hle⟩
  clock := rfl
  tasks := fun i task hi => ⟨(h.tasks i task hi).1.trans hle, (h.tasks i task hi).2.mono hle⟩
  holds := h.holds.later (h.clock.trans_le hle)

/-- The server after a segment of request `i`, when it reads the clock it had. -/
def Timed.after (t : Timed) (i : ℕ) (request : Request) (token : String) (o : Outcome) : Timed :=
  ⟨t.config.after i request token o, t.clock,
    t.calls ++ eventsAfter i (fun r => (r, t.clock)) o.next⟩

/-- A segment after which its handler still waits, and that changes nothing on the map. -/
lemma Recorded.wait (h : Recorded t since m) (htask : t.config.tasks i = some ⟨request, pc⟩)
    {pc' : Pc} (hnext : o.next = .inl pc') (hholds : Holds o.state.registry m)
    (hwaits : (⟨request, pc'⟩ : Task).Waits (since i) t.clock) (token : String) :
    Recorded (t.after i request token o) since m where
  flight := by
    rw [Timed.after, tasks_of_after]
    exact h.flight.wait htask hnext rfl
  clock := h.clock
  tasks := fun j task hj => by
    rcases tasks_after hj with ⟨-, hj⟩ | ⟨rfl, pc'', hpc'', rfl⟩
    · exact h.tasks j task hj
    · rw [hnext] at hpc''
      obtain rfl := Sum.inl.inj hpc''
      exact ⟨(h.tasks j _ htask).1, hwaits⟩
  holds := hholds

/-- A segment that answers, and takes its effect on the map with the answer. -/
lemma Recorded.answer (h : Recorded t since m)
    (htask : t.config.tasks i = some ⟨request, pc⟩) {r : Response} (hnext : o.next = .inr r)
    {m' : Records} (hm : recordSpec.next m (request, since i) (r, t.clock) m')
    (hholds : Holds o.state.registry m') (token : String) :
    Recorded (t.after i request token o) since m' where
  flight := by
    rw [Timed.after, tasks_of_after]
    exact h.flight.answer_now htask hnext rfl hm
  clock := hm.2.2.1.trans h.clock
  tasks := fun j task hj => by
    rcases tasks_after hj with ⟨-, hj⟩ | ⟨-, pc', hpc', -⟩
    · exact h.tasks j task hj
    · rw [hnext] at hpc'
      cases hpc'
  holds := hholds

/-- A segment of a request in flight, once the clock has been read. -/
lemma Recorded.run (h : Recorded t since m) {token : String}
    (htask : t.config.tasks i = some ⟨request, pc⟩) (hclock : t.clock = read.now)
    (hseg : segment x read i t.config.state request pc = some o) :
    ∃ m, Recorded (t.after i request token o) since m := by
  obtain ⟨hsince, hwaits⟩ := h.tasks i _ htask
  have hcall : since i ≤ m.clock := hsince.trans h.clock.ge
  have hquiet : ∀ pc', o.next = .inl pc' → Holds o.state.registry m →
      (⟨request, pc'⟩ : Task).Waits (since i) t.clock →
      ∃ m, Recorded (t.after i request token o) since m :=
    fun pc' hnext hholds hpc' => ⟨m, h.wait htask hnext hholds hpc' token⟩
  have hanswer : ∀ r m', o.next = .inr r → m'.clock = m.clock → Holds o.state.registry m' →
      m.Effect (since i) request r m' → ∃ m, Recorded (t.after i request token o) since m :=
    fun r m' hnext hm' hholds heffect =>
      ⟨m', h.answer htask hnext ⟨hcall, h.clock.le, hm', heffect⟩ hholds token⟩
  cases record_segment hseg with
  | wait _ _ _ pc' hnext hreg haside =>
      refine hquiet pc' hnext (hreg ▸ h.holds) ?_
      cases pc' <;> trivial
  | write header req _ _ hnext hreg =>
      refine hquiet _ hnext (hreg ▸ h.holds) ⟨?_, hclock.ge, header, req, rfl, rfl, rfl⟩
      exact hsince.trans hclock.le
  | erase header req _ _ hnext hreg =>
      exact hquiet _ hnext (hreg ▸ h.holds) ⟨header, req, rfl, rfl, rfl⟩
  | round _ hnext hreg => exact hquiet _ hnext (hreg ▸ h.holds) hclock.ge
  | pruned now _ hnext hreg =>
      refine hquiet _ hnext ?_ trivial
      rw [hreg]
      exact h.holds.prune (Nat.le_trans hwaits h.clock.ge)
  | wrote header body u r _ hnext hreg =>
      obtain ⟨hfrom, hto, header', req, hreq, rfl, hr⟩ := hwaits
      obtain ⟨rfl, rfl⟩ := Request.register.inj hreq
      rw [hr] at hreg
      have hseen : r.lastSeen ≤ m.clock := hto.trans h.clock.ge
      have hholds := h.holds.register req.username req.nodeId req.addrs req.relayUrl hseen
      rw [← hreg] at hholds
      refine hanswer _ ⟨Function.update m.record (req.username, req.nodeId)
        (some ⟨req.nodeId, req.addrs, req.relayUrl, r.lastSeen⟩), m.clock⟩ hnext rfl hholds ?_
      rw [Records.Effect, if_pos rfl]
      exact ⟨req, r.lastSeen, rfl, hfrom, hseen, rfl⟩
  | erased header body u n _ hnext hreg =>
      obtain ⟨header', req, hreq, rfl, rfl⟩ := hwaits
      obtain ⟨rfl, rfl⟩ := Request.deregister.inj hreq
      have hholds := h.holds.deregister req.username req.nodeId
      rw [← hreg] at hholds
      refine hanswer _ ⟨Function.update m.record (req.username, req.nodeId) none, m.clock⟩ hnext
        rfl hholds ?_
      rw [Records.Effect, if_pos rfl]
      exact ⟨req, rfl, rfl⟩
  | listed u _ hnext hreg =>
      obtain ⟨hnodup, hmem⟩ := h.holds.mem_peers u
      rw [h.clock, hclock] at hnodup hmem
      refine hanswer _ m hnext rfl (hreg ▸ h.holds) ⟨rfl, _, rfl, hnodup, ?_⟩
      rw [h.clock, hclock]
      exact hmem
  | answer _ _ _ r hnext hreg hpeers hregister hderegister =>
      refine hanswer r m hnext rfl (hreg ▸ h.holds) ?_
      cases request with
      | register header body => rw [Records.Effect, if_neg (hregister header body rfl)]
      | deregister header body => rw [Records.Effect, if_neg (hderegister header body rfl)]
      | peers u => exact absurd rfl (hpeers u)
      | signup req => rfl
      | verify token => rfl
      | login req => rfl
      | prune => rfl

/-- Every step of the server keeps the map in step with it. -/
lemma Recorded.step {t' : Timed} {a : Action} (h : Recorded t since m) (hn : t.Numbered)
    (hs : t.step x a = some t') : ∃ since m, Recorded t' since m := by
  rcases timed_cases hs with ⟨request, rfl⟩ | ⟨i, read, request, pc, o, hle, htask, -, hseg, rfl⟩
    | ⟨i, rfl⟩ | ⟨u, status, account, -, rfl⟩
  · exact ⟨_, _, h.arrive hn request⟩
  · exact ⟨since, (h.later hle).run htask rfl hseg⟩
  · refine ⟨since, m, h.flight.drop, h.clock, fun j task hj => ?_, h.holds⟩
    have hold : Function.update t.config.tasks i none j = some task := hj
    rw [Function.update_apply] at hold
    split_ifs at hold
    exact h.tasks j task hold
  · exact ⟨since, m, h.flight, h.clock, h.tasks, h.holds⟩

/-- **The registry is linearizable.**  In every run of the Rust server at clock readings that
never go back, whatever handlers are interleaved, dropped, pruned beside or overtaken by an
operator, the requests take effect one at a time on a map from users and nodes to their
last registered records, each between its arrival and its answer, and every answer is what
the map said then. -/
theorem registry_linearizable {t : Timed} (ht : Reachable (Timed.step x) Timed.start t) :
    Linearizable recordSpec Records.empty t.calls := by
  have hinv : t.Numbered ∧ ∃ since m, Recorded t since m := by
    refine ht.invariant (I := fun t => t.Numbered ∧ ∃ since m, Recorded t since m)
      ⟨fun _ _ h => (List.not_mem_nil h).elim, _, _, recorded_start⟩ ?_
    rintro t a t' ⟨hn, since, m, h⟩ hs
    exact ⟨hn.step hs, h.step hn hs⟩
  obtain ⟨-, since, m, h⟩ := hinv
  exact h.flight.linearizable

/-- Alice registers a device while somebody asks for her devices. -/
def aliceListed : List Action :=
  aliceRegisters.take 9 ++ [.arrive (.peers "alice"), .run 2 { token := "t6", now := 202 },
    .run 3 { token := "t7", now := 210 }]

theorem aliceListed_linearizable :
    ∃ t, exec (Timed.step plainExternals) Timed.start aliceListed = some t
      ∧ t.calls.getLast? = some (.ret 3 (⟨200, .peers [⟨"node", [], none, 201⟩]⟩, 210))
      ∧ Linearizable recordSpec Records.empty t.calls := by
  have hrun : ((exec (Timed.step plainExternals) Timed.start aliceListed).map fun t =>
      t.calls.getLast?) = some (some (.ret 3 (⟨200, .peers [⟨"node", [], none, 201⟩]⟩, 210))) := by
    decide
  obtain ⟨t, ht, hlast⟩ := Option.map_eq_some_iff.mp hrun
  exact ⟨t, ht, hlast, registry_linearizable (Reachable.init.exec ht)⟩

end Rendezvous
