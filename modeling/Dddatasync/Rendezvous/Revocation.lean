import Dddatasync.Rendezvous.Accounts
import Dddatasync.Rendezvous.Ownership

/-!
An account that the operator has blocked, under any interleaving of the handlers.

* `Barred`, `barred_step`: only the operator takes a block back.
* `Pc.ActsFor`: the handler is about to open a session or to change a record for a user;
  `waits_segment`: no segment lets it come to that for a blocked user.
* `opened_segment`, `written_segment`: a session is opened and a record written by a handler
  that waited to do so.
* `LockedOut`: the invariant while the block lasts; `lockedOut_run`.
* `refuses_segment`: how a handler that asks for a blocked user is answered.
* `blocked_user_locked_out`: only handlers that had passed their check before the block still
  open sessions or change records, and every later one is refused.
-/

namespace Rendezvous

open Runs

variable {x : Externals} {read : Reading} {i : ℕ} {request : Request} {s : AppState} {pc : Pc}
  {o : Outcome} {u : String} {c c' : Config} {a : Action}

/-! ### The block stays -/

/-- The account of `u` is blocked. -/
def Barred (s : AppState) (u : String) : Prop :=
  ∃ account, s.users.lookup u = some account ∧ account.status = .blocked

/-- No handler unblocks an account or replaces it. -/
lemma barred_segment (hseg : segment x read i s request pc = some o) (h : Barred s u) :
    Barred o.state u := by
  obtain ⟨account, hu, hstatus⟩ := h
  cases account_segment hseg with
  | inserted req new password hname hemail =>
      have hn : u ≠ new.username := by
        rintro rfl
        rw [hname] at hu
        cases hu
      exact ⟨account, by rwa [AList.lookup_insert_ne hn], hstatus⟩
  | approved token v account' hv hpending =>
      have hn : u ≠ v := by
        rintro rfl
        obtain rfl := Option.some.inj (hu.symm.trans hv)
        rw [hpending] at hstatus
        cases hstatus
      exact ⟨account, by rwa [AList.lookup_insert_ne hn], hstatus⟩
  | other _ _ _ husers => exact ⟨account, by rw [husers, hu], hstatus⟩
  | hashed | linked | taken => exact ⟨account, hu, hstatus⟩

/-- **A step** keeps the block, unless it is the operator's. -/
lemma barred_step (hs : step x c a = some c')
    (hkeep : ∀ status, a = .setStatus u status → status = .blocked) (h : Barred c.state u) :
    Barred c'.state u := by
  obtain ⟨request, -, rfl⟩ | ⟨i, read, request, pc, o, -, -, -, hseg, rfl⟩ | ⟨i, -, rfl⟩
    | ⟨v, status, account, rfl, hv, rfl⟩ := step_cases hs
  · exact h
  · exact barred_segment hseg h
  · exact h
  · by_cases hvu : u = v
    · subst hvu
      exact ⟨_, AList.lookup_insert _, hkeep status rfl⟩
    · obtain ⟨account', hu, hstatus⟩ := h
      exact ⟨account', by rwa [AList.lookup_insert_ne hvu], hstatus⟩

/-! ### What handlers wait for -/

/-- The handler waits to open a session for `u`, or to change a record of `u`. -/
def Pc.ActsFor (u : String) : Pc → Prop
  | .openSession v _ => v = u
  | .writeRecord v _ => v = u
  | .eraseRecord v _ => v = u
  | _ => False

/-- The segment does not make its handler wait to act for `u`. -/
def Outcome.Spares (u : String) (o : Outcome) : Prop :=
  ∀ pc, o.next = .inl pc → ¬ pc.ActsFor u

lemma spares_respond (status : ℕ) (body : Body) : (respond s status body).Spares u := by
  intro pc hpc
  cases hpc

lemma spares_of_next {pc : Pc} (hnext : o.next = .inl pc) (hpc : ¬ pc.ActsFor u) : o.Spares u := by
  intro pc' hpc'
  obtain rfl := Sum.inl.inj (hnext.symm.trans hpc')
  exact hpc

lemma spares_signupStart (req : SignupRequest) : (signupStart x read req s).Spares u := by
  rw [signupStart]
  simp only
  split
  · exact spares_respond _ _
  · split
    · exact spares_respond _ _
    · exact spares_of_next rfl id

lemma spares_insertAccount (account : UserAccount) (password : String) :
    (insertAccount read i account password s).Spares u := by
  rw [insertAccount]
  split_ifs
  · exact spares_respond _ _
  · exact spares_respond _ _
  · intro pc hpc
    simp only at hpc
    split at hpc
    · cases hpc
      exact id
    · cases hpc

lemma spares_verifyStart (token : String) : (verifyStart token s).Spares u := by
  rw [verifyStart]
  split
  · exact spares_respond _ _
  · exact spares_of_next rfl id

lemma spares_approveUser (v : String) : (approveUser v s).Spares u := by
  rw [approveUser]
  simp only
  split
  · exact spares_respond _ _
  · split_ifs
    · exact fun pc hpc => by cases hpc
    · exact spares_respond _ _

/-- A login gets no session for a blocked account. -/
lemma spares_loginStart (req : LoginRequest) (h : Barred s u) :
    (loginStart x read i req s).Spares u := by
  obtain ⟨account, hu, hstatus⟩ := h
  rw [loginStart]
  split
  · split_ifs <;> exact spares_respond _ _
  · rename_i account' hv
    split_ifs
    · split
      · exact spares_respond _ _
      · exact spares_respond _ _
      · rename_i happroved
        refine spares_of_next rfl fun hvu => ?_
        have hname : req.username = u := hvu
        rw [hname, hu] at hv
        obtain rfl := Option.some.inj hv
        rw [hstatus] at happroved
        cases happroved
    · exact spares_respond _ _

lemma spares_findSession (header : Option String) : (findSession read i header s).Spares u := by
  rw [findSession]
  split
  · exact spares_respond _ _
  · split
    · exact spares_respond _ _
    · split_ifs
      · exact spares_respond _ _
      · exact spares_of_next rfl id

/-- `authenticate` lets a handler go on for an approved user only. -/
lemma spares_checkUser {v : String} {k : Outcome} (h : Barred s u) (hk : v ≠ u → k.Spares u) :
    (checkUser i v s k).Spares u := by
  obtain ⟨account, hu, hstatus⟩ := h
  rw [checkUser]
  cases hv : s.users.lookup v with
  | none => exact spares_respond _ _
  | some account' =>
      simp only
      split_ifs with happroved
      · exact spares_respond _ _
      · refine hk ?_
        rintro rfl
        obtain rfl := Option.some.inj (hu.symm.trans hv)
        rw [hstatus] at happroved
        exact happroved (by decide)

lemma spares_registerBody {v : String} (body : Option RegisterRequest) (hv : v ≠ u) :
    (registerBody read v body s).Spares u := by
  cases body with
  | none => exact spares_respond _ _
  | some req =>
      rw [registerBody]
      split_ifs with hname
      · exact spares_respond _ _
      · rw [not_not.mp hname]
        exact spares_of_next rfl hv

lemma spares_deregisterBody {v : String} (body : Option DeregisterRequest) (hv : v ≠ u) :
    (deregisterBody v body s).Spares u := by
  cases body with
  | none => exact spares_respond _ _
  | some req =>
      rw [deregisterBody]
      split_ifs with hname
      · exact spares_respond _ _
      · rw [not_not.mp hname]
        exact spares_of_next rfl hv

/-- **No segment** makes its handler wait to act for a blocked user. -/
lemma waits_segment (hseg : segment x read i s request pc = some o) (h : Barred s u) :
    o.Spares u := by
  unfold segment at hseg
  split at hseg <;> cases hseg
  · exact spares_signupStart _
  · exact spares_insertAccount _ _
  · exact fun pc hpc => by cases hpc
  · exact spares_verifyStart _
  · exact spares_approveUser _
  · exact spares_loginStart _ h
  · exact fun pc hpc => by cases hpc
  · exact spares_findSession _
  · exact spares_checkUser h fun hv => spares_registerBody _ hv
  · exact fun pc hpc => by cases hpc
  · exact spares_findSession _
  · exact spares_checkUser h fun hv => spares_deregisterBody _ hv
  · exact fun pc hpc => by cases hpc
  · exact spares_respond _ _
  · exact spares_of_next rfl id
  · exact spares_of_next rfl id
  · exact fun pc hpc => by cases hpc

/-! ### Sessions -/

/-- **A session is opened** by a handler that waited to open it; the others only drop some. -/
lemma opened_segment (hseg : segment x read i s request pc = some o) {token : String}
    {session : SessionRecord} (h : o.state.sessions.lookup token = some session) :
    s.sessions.lookup token = some session ∨ pc = .openSession session.username token := by
  -- most segments do not touch the sessions
  have hkept : ∀ s' : AppState, s'.sessions = s.sessions →
      s'.sessions.lookup token = some session → s.sessions.lookup token = some session :=
    fun s' hs h => hs ▸ h
  unfold segment at hseg
  split at hseg <;> cases hseg
  · exact .inl (hkept _ (congrArg _ (signupStart_state _)) h)
  · refine .inl (hkept _ ?_ h)
    rw [insertAccount]
    split_ifs <;> rfl
  · exact .inl h
  · refine .inl (hkept _ ?_ h)
    rw [verifyStart]
    split <;> rfl
  · refine .inl (hkept _ ?_ h)
    rw [approveUser]
    simp only
    split
    · rfl
    · split_ifs <;> rfl
  · exact .inl (hkept _ (congrArg _ (loginStart_state _)) h)
  · rename_i v token'
    rcases AssocMap.lookup_insert_eq_some.mp h with ⟨rfl, rfl⟩ | ⟨-, h⟩
    · exact .inr rfl
    · exact .inl h
  · exact .inl (hkept _ (congrArg _ (findSession_state _)) h)
  · exact .inl (hkept _ (congrArg _ (checkUser_state _ (registerBody_state _ _))) h)
  · exact .inl h
  · exact .inl (hkept _ (congrArg _ (findSession_state _)) h)
  · exact .inl (hkept _ (congrArg _ (checkUser_state _ (deregisterBody_state _ _))) h)
  · exact .inl h
  · exact .inl h
  · exact .inl h
  · exact .inl h
  · rw [pruneSessions, AssocMap.lookup_filterMap] at h
    obtain ⟨session', h, hif⟩ := Option.bind_eq_some_iff.mp h
    split_ifs at hif
    exact .inl (hif ▸ h)

/-! ### Records -/

/-- **A record is written** by a handler that waited to write it. -/
lemma written_segment (hseg : segment x read i s request pc = some o) {r : PeerRecord}
    (h : r ∈ o.state.registry.records u) :
    r ∈ s.registry.records u ∨ pc = .writeRecord u r := by
  obtain heq | rfl | ⟨v, q, rfl, heq⟩ | ⟨v, n, rfl, heq⟩ := registry_segment hseg
  · exact .inl (heq ▸ h)
  · cases pc with
    | start =>
        obtain rfl := Option.some.inj hseg
        exact .inl h
    | pruneRegistry now =>
        obtain rfl := Option.some.inj hseg
        rw [pruneRegistry, Registry.records_prune, Registry.mem_live] at h
        exact .inl h.1
    | pruneSessions now =>
        obtain rfl := Option.some.inj hseg
        exact .inl h
    | _ => cases hseg
  · rw [heq, Registry.records_register] at h
    split_ifs at h with huv
    · subst huv
      rcases mem_of_mem_upsert h with rfl | h
      · exact .inr rfl
      · exact .inl h
    · exact .inl h
  · rw [heq, Registry.records_deregister] at h
    split_ifs at h with huv
    · subst huv
      exact .inl (List.mem_of_mem_filter h)
    · exact .inl h

/-! ### While the block lasts -/

/-- What holds at `c'` while the block of `u` that held at `c` lasts: what waits to act for `u`
waited at `c` already, and sessions and records of `u` are older than the block or made by
what waited. -/
structure LockedOut (c c' : Config) (u : String) : Prop where
  blocked : Barred c'.state u
  waits : ∀ i task, c'.tasks i = some task → task.pc.ActsFor u → c.tasks i = some task
  sessions : ∀ token session, c'.state.sessions.lookup token = some session →
    session.username = u → c.state.sessions.lookup token = some session
      ∨ ∃ i request, c.tasks i = some ⟨request, .openSession u token⟩
  records : ∀ r ∈ c'.state.registry.records u, r ∈ c.state.registry.records u
    ∨ ∃ i request, c.tasks i = some ⟨request, .writeRecord u r⟩

lemma lockedOut_refl (h : Barred c.state u) : LockedOut c c u :=
  ⟨h, fun _ _ htask _ => htask, fun _ _ hsession _ => .inl hsession, fun _ hr => .inl hr⟩

variable {d : Config}

/-- A segment keeps `LockedOut`. -/
lemma LockedOut.after (h : LockedOut c d u) (htask : d.tasks i = some ⟨request, pc⟩)
    (hseg : segment x read i d.state request pc = some o) {token : String} :
    LockedOut c (d.after i request token o) u where
  blocked := barred_segment hseg h.blocked
  waits := fun j task hj hacts => by
    rcases tasks_after hj with ⟨-, hj⟩ | ⟨-, pc', hnext, rfl⟩
    · exact h.waits j task hj hacts
    · exact absurd hacts (waits_segment hseg h.blocked pc' hnext)
  sessions := fun tok session hsession hu => by
    rcases opened_segment hseg hsession with hold | rfl
    · exact h.sessions tok session hold hu
    · rw [hu] at htask
      exact .inr ⟨i, request, h.waits i _ htask rfl⟩
  records := fun r hr => by
    rcases written_segment hseg hr with hold | rfl
    · exact h.records r hold
    · exact .inr ⟨i, request, h.waits i _ htask rfl⟩

/-- **A step** keeps `LockedOut`, unless the operator takes the block back. -/
lemma lockedOut_step (hs : step x d a = some c')
    (hkeep : ∀ status, a = .setStatus u status → status = .blocked) (h : LockedOut c d u) :
    LockedOut c c' u := by
  have hblocked : Barred c'.state u := barred_step hs hkeep h.blocked
  obtain ⟨request, -, rfl⟩ | ⟨i, read, request, pc, o, -, htask, -, hseg, rfl⟩ | ⟨i, -, rfl⟩
    | ⟨v, status, account, -, -, rfl⟩ := step_cases hs
  · refine ⟨hblocked, fun j task hj hacts => ?_, h.sessions, h.records⟩
    simp only [Function.update_apply] at hj
    split_ifs at hj
    · cases hj
      exact absurd hacts id
    · exact h.waits j task hj hacts
  · exact h.after htask hseg
  · refine ⟨hblocked, fun j task hj hacts => ?_, h.sessions, h.records⟩
    simp only [Function.update_apply] at hj
    split_ifs at hj
    exact h.waits j task hj hacts
  · exact ⟨hblocked, h.waits, h.sessions, h.records⟩

variable {as : List Action}

/-- **A run** keeps `LockedOut`. -/
lemma lockedOut_run (hblocked : Barred c.state u)
    (hkeep : ∀ status, .setStatus u status ∈ as → status = .blocked)
    (hrun : exec (step x) c as = some c') : LockedOut c c' u := by
  refine exec_invariant (I := fun d => LockedOut c d u) (fun d a d' ha hd hs => ?_)
    (lockedOut_refl hblocked) hrun
  exact lockedOut_step hs (fun status heq => hkeep status (heq ▸ ha)) hd

/-! ### What is refused -/

/-- The handler asks whether `u` may log in, or whether a session of `u` is still good. -/
def Task.AsksFor (u : String) (task : Task) : Prop :=
  (∃ req, task = ⟨.login req, .start⟩ ∧ req.username = u) ∨ task.pc = .checkUser u

/-- The request is refused. -/
def Outcome.Refuses (o : Outcome) : Prop :=
  ∃ r : Response, o.next = .inr r ∧ o.entries = [] ∧ (r.status = 401 ∨ r.status = 403)

lemma refuses_respond {status : ℕ} (body : Body) (h : status = 401 ∨ status = 403) :
    (respond s status body).Refuses :=
  ⟨⟨status, body⟩, rfl, rfl, h⟩

lemma refuses_loginStart {req : LoginRequest} (h : Barred s u) (hu : req.username = u) :
    (loginStart x read i req s).Refuses := by
  obtain ⟨account, haccount, hstatus⟩ := h
  rw [loginStart, hu, haccount]
  simp only [hstatus]
  split_ifs
  · exact refuses_respond _ (.inr rfl)
  · exact refuses_respond _ (.inl rfl)

lemma refuses_checkUser {k : Outcome} (h : Barred s u) : (checkUser i u s k).Refuses := by
  obtain ⟨account, haccount, hstatus⟩ := h
  rw [checkUser, haccount]
  simp only [hstatus]
  exact refuses_respond _ (.inr rfl)

/-- **A handler that asks** for a blocked user is refused. -/
lemma refuses_segment (h : Barred s u) (hasks : Task.AsksFor u ⟨request, pc⟩)
    (hseg : segment x read i s request pc = some o) : o.Refuses := by
  rcases hasks with ⟨req, heq, hu⟩ | hpc
  · cases heq
    cases hseg
    exact refuses_loginStart h hu
  · obtain rfl : pc = .checkUser u := hpc
    cases request with
    | register header body =>
        obtain rfl := Option.some.inj hseg
        exact refuses_checkUser h
    | deregister header body =>
        obtain rfl := Option.some.inj hseg
        exact refuses_checkUser h
    | _ => cases hseg

/-! ### The whole run -/

/-- What the segment of a task does is refused or does nothing to the records of `u`, unless it
prunes, or waited to act for `u` at `c`. -/
lemma LockedOut.lookup_eq (h : LockedOut c d u) (htask : d.tasks i = some ⟨request, pc⟩)
    (hseg : segment x read i d.state request pc = some o) (hprune : request ≠ .prune)
    (hwaits : pc.ActsFor u → c.tasks i ≠ some ⟨request, pc⟩) :
    o.state.registry.lookup u = d.state.registry.lookup u := by
  -- whoever acts now acts for another user
  have hother : ¬ pc.ActsFor u := fun hacts => hwaits hacts (h.waits i _ htask hacts)
  obtain heq | heq | ⟨v, r, rfl, heq⟩ | ⟨v, n, rfl, heq⟩ := registry_segment hseg
  · rw [heq]
  · exact absurd heq hprune
  · rw [heq, Registry.lookup_register, if_neg fun huv => hother huv.symm]
  · rw [heq, Registry.lookup_deregister, if_neg fun huv => hother huv.symm]

/-- A step that changes what the registry has for `u` prunes it, or runs what waited to act for
`u` at `c`. -/
lemma LockedOut.change (h : LockedOut c d u) (hs : step x d a = some c')
    (hne : c'.state.registry.lookup u ≠ d.state.registry.lookup u) :
    ∃ i read task, a = .run i read ∧ d.tasks i = some task
      ∧ (task.request = .prune ∨ task.pc.ActsFor u ∧ c.tasks i = some task) := by
  obtain ⟨request, -, rfl⟩ | ⟨i, read, request, pc, o, rfl, htask, -, hseg, rfl⟩ | ⟨i, -, rfl⟩
    | ⟨v, status, account, -, -, rfl⟩ := step_cases hs
  · exact absurd rfl hne
  · refine ⟨i, read, ⟨request, pc⟩, rfl, htask, ?_⟩
    by_contra hnot
    rw [not_or] at hnot
    exact hne (h.lookup_eq htask hseg hnot.1 fun hacts hc => hnot.2 ⟨hacts, hc⟩)
  · exact absurd rfl hne
  · exact absurd rfl hne

/-- A step of a handler that asks for a blocked user answers it. -/
lemma LockedOut.refuses (h : LockedOut c d u) {task : Task} (hs : step x d (.run i read) = some c')
    (htask : d.tasks i = some task) (hasks : task.AsksFor u) :
    ∃ r : Response, c'.log = d.log ++ [.responded i r] ∧ c'.tasks i = none
      ∧ (r.status = 401 ∨ r.status = 403) := by
  obtain ⟨request, ha, -⟩ | ⟨j, read', request, pc, o, ha, htask', -, hseg, rfl⟩ | ⟨j, ha, -⟩
    | ⟨v, status, account, ha, -, -⟩ := step_cases hs
  · cases ha
  · cases ha
    obtain rfl := Option.some.inj (htask.symm.trans htask')
    obtain ⟨r, hnext, hentries, hstatus⟩ := refuses_segment h.blocked hasks hseg
    refine ⟨r, ?_, tasks_after_answer hnext, hstatus⟩
    rw [Config.after, Outcome.history, hnext, hentries]
    rfl
  · cases ha
  · cases ha

/-- Records that were all too old at `c` are never listed again, if nothing waited to write. -/
lemma LockedOut.peers_eq_nil (h : LockedOut c d u) {now : ℕ}
    (hold : ∀ r ∈ c.state.registry.records u, r.lastSeen + peerTtlSecs < now)
    (hnone : ∀ i request r, c.tasks i ≠ some ⟨request, .writeRecord u r⟩) :
    d.state.registry.peers u now = [] := by
  rw [List.eq_nil_iff_forall_not_mem]
  intro r hr
  obtain ⟨hr, hcut⟩ := Registry.mem_live.mp hr
  rcases h.records r hr with hr | ⟨i, request, htask⟩
  · have hexpired := hold r hr
    rw [Registry.cutoff] at hcut
    omega
  · exact hnone i request r htask

/-- **A blocked user is locked out.**  Take any run from a state in which the account of `u` is
blocked, however the handlers interleave, in which the operator does not take the block back.
Then a session or a record of `u` at its end was there before, or comes from a handler that had
passed its check before the block and waited for its lock.  Every login for `u` and every
request with a session of `u` is answered 401 or 403 when it comes to its check.  Prune ticks
apart, only handlers that had passed theirs change what the registry has for `u`; and if none
waited to write, the devices of `u` are gone from every list once the TTL is over. -/
theorem blocked_user_locked_out {x : Externals} {c c' : Config} {as : List Action} {u : String}
    (hblocked : Barred c.state u)
    (hkeep : ∀ status, .setStatus u status ∈ as → status = .blocked)
    (hrun : exec (step x) c as = some c') :
    LockedOut c c' u
      ∧ (∀ t ∈ trace (step x) c as, ∀ i read task, t.2.1 = .run i read →
          t.1.tasks i = some task → task.AsksFor u →
          ∃ r : Response, t.2.2.log = t.1.log ++ [.responded i r] ∧ t.2.2.tasks i = none
            ∧ (r.status = 401 ∨ r.status = 403))
      ∧ (∀ t ∈ trace (step x) c as,
          t.2.2.state.registry.lookup u ≠ t.1.state.registry.lookup u →
          ∃ i read task, t.2.1 = .run i read ∧ t.1.tasks i = some task
            ∧ (task.request = .prune ∨ task.pc.ActsFor u ∧ c.tasks i = some task))
      ∧ ∀ now, (∀ r ∈ c.state.registry.records u, r.lastSeen + peerTtlSecs < now) →
          (∀ i request r, c.tasks i ≠ some ⟨request, .writeRecord u r⟩) →
          c'.state.registry.peers u now = [] := by
  -- the invariant holds before every transition of the run
  have hbefore : ∀ t ∈ trace (step x) c as,
      LockedOut c t.1 u ∧ step x t.1 t.2.1 = some t.2.2 := by
    intro t ht
    obtain ⟨done, rest, rfl, hdone, hs⟩ := exists_of_mem_trace ht
    refine ⟨lockedOut_run hblocked (fun status hmem => ?_) hdone, hs⟩
    exact hkeep status (List.mem_append_left _ hmem)
  have hend : LockedOut c c' u := lockedOut_run hblocked hkeep hrun
  refine ⟨hend, fun t ht i read task hrun htask hasks => ?_, fun t ht hne => ?_,
    fun now hold hnone => hend.peers_eq_nil hold hnone⟩
  · obtain ⟨h, hs⟩ := hbefore t ht
    rw [hrun] at hs
    exact h.refuses hs htask hasks
  · obtain ⟨h, hs⟩ := hbefore t ht
    exact h.change hs hne

/-- Alice has registered, and is blocked while a second register of hers waits to write. -/
def aliceIsBlocked : List Action :=
  aliceRegisters ++
    [.arrive (.register (some "Bearer secret") (some ⟨"alice", "node", [], none⟩)),
      .run 3 { token := "t7", now := 300 }, .run 3 { token := "t8", now := 301 },
      .setStatus "alice" .blocked]

/-- That register writes, a third one and a login follow. -/
def aliceGoesOn : List Action :=
  [.run 3 { token := "t9", now := 302 },
    .arrive (.register (some "Bearer secret") (some ⟨"alice", "other", [], none⟩)),
    .run 4 { token := "t10", now := 303 }, .run 4 { token := "t11", now := 304 },
    .arrive (.login ⟨"alice", "pw"⟩), .run 5 { token := "t12", now := 305 }]

theorem alice_locked_out : ∃ c c', exec (step plainExternals) start aliceIsBlocked = some c
    ∧ exec (step plainExternals) c aliceGoesOn = some c'
    ∧ c'.state.registry.records "alice" = [⟨"node", [], none, 301⟩]
    ∧ LockedOut c c' "alice" := by
  have hall : ((exec (step plainExternals) start aliceIsBlocked).map fun c =>
      ((c.state.users.lookup "alice").map (·.status),
        (exec (step plainExternals) c aliceGoesOn).map fun c' =>
          c'.state.registry.records "alice"))
      = some (some .blocked, some [⟨"node", [], none, 301⟩]) := by decide
  obtain ⟨c, hc, hall⟩ := Option.map_eq_some_iff.mp hall
  obtain ⟨hstatus, hrest⟩ := Prod.mk.inj hall
  obtain ⟨c', hc', hrec⟩ := Option.map_eq_some_iff.mp hrest
  obtain ⟨account, haccount, hblocked⟩ := Option.map_eq_some_iff.mp hstatus
  refine ⟨c, c', hc, hc', hrec, ?_⟩
  refine (blocked_user_locked_out ⟨account, haccount, hblocked⟩ (fun status hmem => ?_) hc').1
  simp [aliceGoesOn] at hmem

end Rendezvous
