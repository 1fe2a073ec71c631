import Dddatasync.Rendezvous.History

/-!
Whose records the registry holds, under any interleaving of the handlers.

* `TokenStep`, `TokensOk`: what a segment does with tokens, and to whom they were issued.
* `Inv`, `inv_reachable`: the invariant in every reachable configuration.
* `registry_segment`: which segments change the registry.
* `registry_records_owned`: every record was written by its owner, and only requests with a
  token of the owner change what the registry has for a user.
-/

namespace Rendezvous

open Runs
open scoped List

variable {x : Externals} {log log' : List Entry} {i : ℕ} {request : Request} {s : AppState}
  {read : Reading}

/-! ### Tokens -/

/-- What a segment does with tokens: it issues only the one its handler waits with, and
starts waiting only with the one just generated. -/
def TokenStep (read : Reading) (pc : Pc) (o : Outcome) : Prop :=
  (∀ j u token now, .issued j u token now ∈ o.entries → pc = .openSession u token)
    ∧ ∀ u token, o.next = .inl (.openSession u token) → token = read.token

/-- A segment that neither issues a token nor starts waiting with one. -/
lemma tokenStep_of {pc : Pc} {o : Outcome}
    (he : ∀ j u token now, .issued j u token now ∉ o.entries)
    (hn : ∀ u token, o.next ≠ .inl (.openSession u token)) : TokenStep read pc o :=
  ⟨fun j u token now h => absurd h (he j u token now), fun u token h => absurd h (hn u token)⟩

lemma tokenStep_respond (pc : Pc) (s : AppState) (status : ℕ) (body : Body) :
    TokenStep read pc (respond s status body) :=
  tokenStep_of (by simp [respond]) (by simp [respond])

lemma tokenStep_findSession (pc : Pc) (header : Option String) :
    TokenStep read pc (findSession read i header s) := by
  rw [findSession]
  split
  · exact tokenStep_respond _ _ _ _
  · split
    · exact tokenStep_respond _ _ _ _
    · split_ifs
      · exact tokenStep_respond _ _ _ _
      · exact tokenStep_of (by simp) (by simp)

lemma tokenStep_checkUser {pc : Pc} {u : String} {k : Outcome} (hk : TokenStep read pc k) :
    TokenStep read pc (checkUser i u s k) := by
  rw [checkUser]
  cases s.users.lookup u with
  | none => exact tokenStep_respond _ _ _ _
  | some account =>
      simp only
      split_ifs
      · exact tokenStep_respond _ _ _ _
      · refine ⟨fun j v token now h => ?_, hk.2⟩
        rcases List.mem_cons.mp h with h | h
        · cases h
        · exact hk.1 j v token now h

lemma tokenStep_loginStart (pc : Pc) (req : LoginRequest) :
    TokenStep read pc (loginStart x read i req s) := by
  rw [loginStart]
  split
  · split_ifs <;> exact tokenStep_respond _ _ _ _
  · split_ifs
    · split
      · exact tokenStep_respond _ _ _ _
      · exact tokenStep_respond _ _ _ _
      · refine ⟨by simp, fun u token h => ?_⟩
        cases h
        rfl
    · exact tokenStep_respond _ _ _ _

lemma tokenStep_openSession (u token : String) :
    TokenStep read (.openSession u token) (openSession read i u token s) := by
  refine ⟨fun j v tok now h => ?_, by simp [openSession]⟩
  rw [openSession, List.mem_singleton] at h
  cases h
  rfl

lemma tokenStep_segment {pc : Pc} {o : Outcome}
    (hseg : segment x read i s request pc = some o) : TokenStep read pc o := by
  unfold segment at hseg
  split at hseg <;> cases hseg
  · rw [signupStart]
    simp only
    split
    · exact tokenStep_respond _ _ _ _
    · split
      · exact tokenStep_respond _ _ _ _
      · exact tokenStep_of (by simp) (by simp)
  · rw [insertAccount]
    split_ifs
    · exact tokenStep_respond _ _ _ _
    · exact tokenStep_respond _ _ _ _
    · refine tokenStep_of (by simp) fun u token h => ?_
      simp only at h
      split at h <;> cases h
  · exact tokenStep_of (by simp [insertToken]) (by simp [insertToken])
  · rw [verifyStart]
    split
    · exact tokenStep_respond _ _ _ _
    · exact tokenStep_of (by simp) (by simp)
  · rw [approveUser]
    simp only
    split
    · exact tokenStep_respond _ _ _ _
    · split_ifs
      · exact tokenStep_of (by simp) (by simp)
      · exact tokenStep_respond _ _ _ _
  · exact tokenStep_loginStart _ _
  · exact tokenStep_openSession _ _
  · exact tokenStep_findSession _ _
  · refine tokenStep_checkUser ?_
    unfold registerBody
    split
    · exact tokenStep_respond _ _ _ _
    · split_ifs
      · exact tokenStep_respond _ _ _ _
      · exact tokenStep_of (by simp) (by simp)
  · exact tokenStep_of (by simp [writeRecord]) (by simp [writeRecord])
  · exact tokenStep_findSession _ _
  · refine tokenStep_checkUser ?_
    unfold deregisterBody
    split
    · exact tokenStep_respond _ _ _ _
    · split_ifs
      · exact tokenStep_respond _ _ _ _
      · exact tokenStep_of (by simp) (by simp)
  · exact tokenStep_of (by simp [eraseRecord]) (by simp [eraseRecord])
  · exact tokenStep_respond _ _ _ _
  · exact tokenStep_of (by simp) (by simp)
  · exact tokenStep_of (by simp [pruneRegistry]) (by simp [pruneRegistry])
  · exact tokenStep_of (by simp [pruneSessions]) (by simp [pruneSessions])

/-- The token was issued to `u`. -/
def IssuedTo (log : List Entry) (token u : String) : Prop := ∃ i now, .issued i u token now ∈ log

/-- Every token goes to one user, and only after it was generated. -/
structure TokensOk (c : Config) : Prop where
  generated : ∀ token u, IssuedTo c.log token u → token ∈ c.generated
  unique : ∀ token u v, IssuedTo c.log token u → IssuedTo c.log token v → u = v
  waiting : ∀ i request u token, c.tasks i = some ⟨request, .openSession u token⟩ →
    token ∈ c.generated ∧ ∀ v, ¬ IssuedTo c.log token v
  distinct : ∀ i j request request' u v token,
    c.tasks i = some ⟨request, .openSession u token⟩ →
    c.tasks j = some ⟨request', .openSession v token⟩ → i = j

/-- The invariant of the server. -/
structure Inv (x : Externals) (c : Config) : Prop where
  state : StateOk x c.log c.state
  tasks : ∀ i task, c.tasks i = some task →
    TaskOk x c.log i task.request task.pc ∧ .arrived i task.request ∈ c.log
  tokens : TokensOk c

lemma inv_start (x : Externals) : Inv x start where
  state :=
    { users := fun _ _ h => by cases h
      sessions := fun _ _ h => by cases h
      registry := fun _ _ h => by cases h }
  tasks := fun _ _ h => by cases h
  tokens :=
    { generated := fun _ _ ⟨_, _, h⟩ => by cases h
      unique := fun _ _ _ ⟨_, _, h⟩ => by cases h
      waiting := fun _ _ _ _ h => by cases h
      distinct := fun _ _ _ _ _ _ _ h => by cases h }

lemma mem_history {o : Outcome} {j : ℕ} {u token : String} {now : ℕ} :
    .issued j u token now ∈ o.history i ↔ .issued j u token now ∈ o.entries := by
  rw [Outcome.history]
  cases o.next <;> simp

lemma issuedTo_append {more : List Entry} {token u : String} :
    IssuedTo (log ++ more) token u ↔ IssuedTo log token u ∨ IssuedTo more token u := by
  simp only [IssuedTo, List.mem_append, exists_or]

variable {c : Config}

lemma tasks_after {o : Outcome} {token : String} {j : ℕ} {task : Task}
    (h : (c.after i request token o).tasks j = some task) :
    (j ≠ i ∧ c.tasks j = some task)
      ∨ j = i ∧ ∃ pc, o.next = .inl pc ∧ task = ⟨request, pc⟩ := by
  rw [Config.after] at h
  simp only [Function.update_apply] at h
  split_ifs at h with hj
  · split at h
    · rename_i pc hpc
      exact .inr ⟨hj, pc, hpc, (Option.some.inj h).symm⟩
    · cases h
  · exact .inl ⟨hj, h⟩

lemma tasks_after_self {o : Outcome} {token : String} {pc : Pc} (h : o.next = .inl pc) :
    (c.after i request token o).tasks i = some ⟨request, pc⟩ := by
  rw [Config.after, h]
  exact Function.update_self _ _ _

lemma tasks_after_answer {o : Outcome} {token : String} {r : Response} (h : o.next = .inr r) :
    (c.after i request token o).tasks i = none := by
  rw [Config.after, h]
  exact Function.update_self _ _ _

/-- A segment keeps every token with its one user. -/
lemma TokensOk.after (h : TokensOk c) {pc : Pc} {o : Outcome}
    (htask : c.tasks i = some ⟨request, pc⟩) (hfresh : read.token ∉ c.generated)
    (hstep : TokenStep read pc o) : TokensOk (c.after i request read.token o) := by
  -- a token the segment issues is the one its handler waited with
  have hissue : ∀ token u, IssuedTo (o.history i) token u → pc = .openSession u token := by
    rintro token u ⟨j, now, hmem⟩
    exact hstep.1 j u token now (mem_history.mp hmem)
  refine ⟨fun token u hi => ?_, fun token u v hu hv => ?_, fun j req u token hj => ?_,
    fun j k req req' u v token hj hk => ?_⟩
  · rcases issuedTo_append.mp hi with hi | hi
    · exact List.mem_cons_of_mem _ (h.generated token u hi)
    · rw [hissue token u hi] at htask
      exact List.mem_cons_of_mem _ (h.waiting i request u token htask).1
  · rcases issuedTo_append.mp hu with hu | hu <;> rcases issuedTo_append.mp hv with hv | hv
    · exact h.unique token u v hu hv
    · rw [hissue token v hv] at htask
      exact absurd hu ((h.waiting i request v token htask).2 u)
    · rw [hissue token u hu] at htask
      exact absurd hv ((h.waiting i request u token htask).2 v)
    · have heq := (hissue token u hu).symm.trans (hissue token v hv)
      exact (Pc.openSession.inj heq).1
  · rcases tasks_after hj with ⟨hji, hj⟩ | ⟨-, pc', hpc', heq⟩
    · obtain ⟨hgen, hno⟩ := h.waiting j req u token hj
      refine ⟨List.mem_cons_of_mem _ hgen, fun v hv => ?_⟩
      rcases issuedTo_append.mp hv with hv | hv
      · exact hno v hv
      · rw [hissue token v hv] at htask
        exact hji (h.distinct j i req request u v token hj htask)
    · cases heq
      obtain rfl := hstep.2 u token hpc'
      refine ⟨List.mem_cons_self, fun v hv => ?_⟩
      rcases issuedTo_append.mp hv with hv | hv
      · exact hfresh (h.generated _ v hv)
      · rw [hissue _ v hv] at htask
        exact hfresh (h.waiting i request v _ htask).1
  · rcases tasks_after hj with ⟨hji, hj⟩ | ⟨hji, pc', hpc', heq⟩
    · rcases tasks_after hk with ⟨hki, hk⟩ | ⟨hki, pc', hpc', heq⟩
      · exact h.distinct j k req req' u v token hj hk
      · cases heq
        obtain rfl := hstep.2 v token hpc'
        exact absurd (h.waiting j req u _ hj).1 hfresh
    · rcases tasks_after hk with ⟨hki, hk⟩ | ⟨hki, -⟩
      · cases heq
        obtain rfl := hstep.2 u token hpc'
        exact absurd (h.waiting k req' v _ hk).1 hfresh
      · rw [hji, hki]

/-- A segment keeps the invariant. -/
lemma Inv.after (h : Inv x c) {pc : Pc} {o : Outcome}
    (htask : c.tasks i = some ⟨request, pc⟩) (hfresh : read.token ∉ c.generated)
    (hseg : segment x read i c.state request pc = some o) :
    Inv x (c.after i request read.token o) := by
  obtain ⟨hok, harr⟩ := h.tasks i _ htask
  have hs := sound_segment h.state harr hok hseg
  refine ⟨hs.state, fun j task hj => ?_, h.tokens.after htask hfresh (tokenStep_segment hseg)⟩
  rcases tasks_after hj with ⟨-, hj⟩ | ⟨rfl, pc', hpc', rfl⟩
  · obtain ⟨hok', harr'⟩ := h.tasks j task hj
    exact ⟨hok'.mono (sublist_append _ _), List.mem_append_left _ harr'⟩
  · exact ⟨hs.next pc' hpc', List.mem_append_left _ harr⟩

/-- A request that arrives keeps the invariant. -/
lemma Inv.arrive (h : Inv x c) (request : Request) :
    Inv x { c with
      tasks := Function.update c.tasks c.next (some ⟨request, .start⟩)
      next := c.next + 1
      log := c.log ++ [.arrived c.next request] } := by
  have hold : ∀ j task, Function.update c.tasks c.next (some ⟨request, .start⟩) j = some task →
      c.tasks j = some task ∨ j = c.next ∧ task = ⟨request, .start⟩ := by
    intro j task hj
    rw [Function.update_apply] at hj
    split_ifs at hj with hn
    · exact .inr ⟨hn, (Option.some.inj hj).symm⟩
    · exact .inl hj
  have hissued : ∀ token u, IssuedTo (c.log ++ [.arrived c.next request]) token u →
      IssuedTo c.log token u := by
    intro token u hi
    rcases issuedTo_append.mp hi with hi | ⟨j, now, hi⟩
    · exact hi
    · simp at hi
  have hopen : ∀ j req u token,
      Function.update c.tasks c.next (some ⟨request, .start⟩) j
        = some ⟨req, .openSession u token⟩ → c.tasks j = some ⟨req, .openSession u token⟩ := by
    intro j req u token hj
    rcases hold j _ hj with hj | ⟨-, heq⟩
    · exact hj
    · cases heq
  refine ⟨h.state.mono (sublist_append _ _), fun j task hj => ?_,
    fun token u hi => h.tokens.generated token u (hissued token u hi),
    fun token u v hu hv => h.tokens.unique token u v (hissued token u hu) (hissued token v hv),
    fun j req u token hj => ?_, fun j k req req' u v token hj hk =>
      h.tokens.distinct j k req req' u v token (hopen j req u token hj) (hopen k req' v token hk)⟩
  · rcases hold j task hj with hj | ⟨rfl, rfl⟩
    · obtain ⟨hok, harr⟩ := h.tasks j task hj
      exact ⟨hok.mono (sublist_append _ _), List.mem_append_left _ harr⟩
    · exact ⟨True.intro, by simp⟩
  · obtain ⟨hgen, hno⟩ := h.tokens.waiting j req u token (hopen j req u token hj)
    exact ⟨hgen, fun v hv => hno v (hissued token v hv)⟩

/-- A dropped connection keeps the invariant. -/
lemma Inv.drop (h : Inv x c) (i : ℕ) :
    Inv x { c with tasks := Function.update c.tasks i none } := by
  have hold : ∀ j task, Function.update c.tasks i none j = some task →
      c.tasks j = some task := by
    intro j task hj
    rw [Function.update_apply] at hj
    split_ifs at hj
    exact hj
  exact ⟨h.state, fun j task hj => h.tasks j task (hold j task hj), h.tokens.generated,
    h.tokens.unique, fun j req u token hj => h.tokens.waiting j req u token (hold j _ hj),
    fun j k req req' u v token hj hk =>
      h.tokens.distinct j k req req' u v token (hold j _ hj) (hold k _ hk)⟩

/-- An operator who sets the status of an account keeps the invariant. -/
lemma Inv.setStatus (h : Inv x c) {u : String} {account : UserAccount}
    (hu : c.state.users.lookup u = some account) (status : AccountStatus) :
    Inv x { c with state := { c.state with
      users := c.state.users.insert u (account.withStatus status) } } where
  state :=
    { users := h.state.users.insert_same_hash hu rfl
      sessions := h.state.sessions
      registry := h.state.registry }
  tasks := h.tasks
  tokens := ⟨h.tokens.generated, h.tokens.unique, h.tokens.waiting, h.tokens.distinct⟩

/-- Every step keeps the invariant. -/
lemma inv_step (x : Externals) (c : Config) (a : Action) (c' : Config) (h : Inv x c)
    (hs : step x c a = some c') : Inv x c' := by
  rcases step_cases hs with ⟨request, -, rfl⟩
    | ⟨i, read, request, pc, o, -, htask, hfresh, ho, rfl⟩ | ⟨i, -, rfl⟩
    | ⟨u, status, account, -, hu, rfl⟩
  · exact h.arrive request
  · exact h.after htask hfresh ho
  · exact h.drop i
  · exact h.setStatus hu status

/-- The invariant holds in every reachable configuration. -/
lemma inv_reachable (h : Reachable (step x) start c) : Inv x c :=
  h.invariant (inv_start x) (inv_step x)

/-! ### Ownership -/

/-- Apart from pruning, a segment changes the registry only by writing or erasing the record
its handler waits with. -/
lemma registry_segment {pc : Pc} {o : Outcome}
    (hseg : segment x read i s request pc = some o) :
    o.state.registry = s.registry ∨ request = .prune
      ∨ (∃ u r, pc = .writeRecord u r ∧ o.state.registry = s.registry.register u r)
      ∨ ∃ u n, pc = .eraseRecord u n ∧ o.state.registry = s.registry.deregister u n := by
  unfold segment at hseg
  split at hseg <;> cases hseg
  · exact .inl (congrArg _ (signupStart_state _))
  · exact .inl (insertAccount_registry _ _)
  · exact .inl rfl
  · exact .inl (verifyStart_registry _)
  · exact .inl (approveUser_registry _)
  · exact .inl (congrArg _ (loginStart_state _))
  · exact .inl rfl
  · exact .inl (congrArg _ (findSession_state _))
  · exact .inl (congrArg _ (checkUser_state _ (registerBody_state _ _)))
  · exact .inr (.inr (.inl ⟨_, _, rfl, rfl⟩))
  · exact .inl (congrArg _ (findSession_state _))
  · exact .inl (congrArg _ (checkUser_state _ (deregisterBody_state _ _)))
  · exact .inr (.inr (.inr ⟨_, _, rfl, rfl⟩))
  · exact .inl rfl
  · exact .inr (.inl rfl)
  · exact .inr (.inl rfl)
  · exact .inr (.inl rfl)

/-- The token of an authenticated request was issued to its user. -/
lemma Use.issuedTo (w : Use x) (h : w.trail <+ log) :
    IssuedTo log w.token w.attempt.username :=
  ⟨w.loginId, w.issuedAt, h.subset (by simp [Use.trail, Found.trail, Login.trail])⟩

lemma Use.login_trail (w : Use x) (h : w.trail <+ log) : w.toLogin.trail <+ log := by
  refine List.Sublist.trans ?_ h
  rw [Use.trail, Found.trail, List.append_assoc]
  exact List.sublist_append_left _ _

/-- A step that changes what the registry has for `u` is a prune tick or a segment of an
authenticated request of `u`. -/
lemma Inv.use_of_change (h : Inv x c) {a : Action} {c' : Config} (hs : step x c a = some c')
    {u : String} (hne : c'.state.registry.lookup u ≠ c.state.registry.lookup u) :
    ∃ i read task, a = .run i read ∧ c.tasks i = some task ∧ (task.request = .prune
      ∨ ∃ w : Use x, w.request = task.request ∧ w.attempt.username = u ∧ w.trail <+ c.log) := by
  rcases step_cases hs with ⟨request, -, rfl⟩
    | ⟨i, read, request, pc, o, rfl, htask, -, ho, rfl⟩ | ⟨i, -, rfl⟩
    | ⟨v, status, account, -, -, rfl⟩
  · exact absurd rfl hne
  · have hne' : o.state.registry.lookup u ≠ c.state.registry.lookup u := hne
    have hok := (h.tasks i _ htask).1
    refine ⟨i, read, _, rfl, htask, ?_⟩
    obtain heq | heq | ⟨v, r, rfl, heq⟩ | ⟨v, n, rfl, heq⟩ := registry_segment ho
    · exact absurd (by rw [heq]) hne'
    · exact .inl heq
    · obtain ⟨w, -, hreq, hv, htrail, -⟩ := hok
      rw [heq, Registry.lookup_register] at hne'
      split_ifs at hne' with huv
      · exact .inr ⟨w, hreq, hv.trans huv.symm, htrail⟩
      · exact absurd rfl hne'
    · obtain ⟨w, -, hreq, hv, htrail⟩ := hok
      rw [heq, Registry.lookup_deregister] at hne'
      split_ifs at hne' with huv
      · exact .inr ⟨w, hreq, hv.trans huv.symm, htrail⟩
      · exact absurd rfl hne'
  · exact absurd rfl hne
  · exact absurd rfl hne

/-- **A record belongs to its owner.**  In every reachable configuration, every record of `u`
was written by a register request for `u` that `authenticate` let through with a token a
login of `u` had returned, and that login gave the password `u` signed up with.  Prune
ticks apart, a step that changes what the registry has for `u` belongs to a request that
carries such a token, and that token was issued to nobody else. -/
theorem registry_records_owned {x : Externals}
    (hx : ∀ salt password hash attempt, x.hashPassword salt password = some hash →
      x.verifyPassword attempt hash = true → attempt = password)
    {c : Config} (hc : Reachable (step x) start c) :
    (∀ u, ∀ r ∈ c.state.registry.records u, ∃ w : Use x,
        w.attempt.username = u ∧ w.attempt.password = w.password
          ∧ w.trail ++ [.wrote w.requestId u r] <+ c.log
          ∧ .arrived w.requestId w.request ∈ c.log ∧ Registers w.request u r)
      ∧ ∀ a c', step x c a = some c' → ∀ u,
        c'.state.registry.lookup u ≠ c.state.registry.lookup u →
        ∃ i read task, a = .run i read ∧ c.tasks i = some task ∧ (task.request = .prune
          ∨ ∃ l : Login x, task.request.token = some l.token ∧ l.attempt.username = u
            ∧ l.trail <+ c.log ∧ ∀ v, IssuedTo c.log l.token v → v = u) := by
  have h := inv_reachable hc
  refine ⟨fun u r hr => ?_, fun a c' hs u hne => ?_⟩
  · obtain ⟨w, hu, htrail, harr, hreg⟩ := h.state.registry u r hr
    obtain ⟨salt, hsalt⟩ := w.hashed
    exact ⟨w, hu, hx salt _ _ _ hsalt (w.hash ▸ w.verified), htrail, harr, hreg⟩
  · obtain ⟨i, read, task, ha, htask, hcase⟩ := h.use_of_change hs hne
    refine ⟨i, read, task, ha, htask, hcase.imp_right fun ⟨w, hreq, hu, htrail⟩ => ?_⟩
    refine ⟨w.toLogin, by rw [← hreq, w.carries], hu, w.login_trail htrail, fun v hv => ?_⟩
    exact hu ▸ h.tokens.unique w.token v _ hv (w.issuedTo htrail)

/-- Alice signs up, logs in and registers a device. -/
def aliceRegisters : List Action :=
  [.arrive (.signup ⟨"alice", "a@b", "pw"⟩), .run 0 { token := "t0", autoApprove := true },
    .run 0 { token := "t1" }, .arrive (.login ⟨"alice", "pw"⟩), .run 1 { token := "secret" },
    .run 1 { token := "t3", now := 100 },
    .arrive (.register (some "Bearer secret") (some ⟨"alice", "node", [], none⟩)),
    .run 2 { token := "t4", now := 200 }, .run 2 { token := "t5", now := 201 },
    .run 2 { token := "t6", now := 202 }]

theorem alice_owns_her_record : ∃ c, exec (step plainExternals) start aliceRegisters = some c
    ∧ c.state.registry.records "alice" = [⟨"node", [], none, 201⟩]
    ∧ ∃ w : Use plainExternals,
        w.attempt.username = "alice" ∧ w.attempt.password = w.password
          ∧ w.trail ++ [.wrote w.requestId "alice" ⟨"node", [], none, 201⟩] <+ c.log
          ∧ .arrived w.requestId w.request ∈ c.log
          ∧ Registers w.request "alice" ⟨"node", [], none, 201⟩ := by
  have hrun : ((exec (step plainExternals) start aliceRegisters).map fun c =>
      c.state.registry.records "alice") = some [⟨"node", [], none, 201⟩] := by decide
  obtain ⟨c, hc, hrec⟩ := Option.map_eq_some_iff.mp hrun
  refine ⟨c, hc, hrec, ?_⟩
  refine (registry_records_owned ?_ (Reachable.init.exec hc)).1 "alice" _ (by simp [hrec])
  intro salt password hash attempt hh hv
  obtain rfl := Option.some.inj hh
  exact eq_of_beq hv

end Rendezvous
