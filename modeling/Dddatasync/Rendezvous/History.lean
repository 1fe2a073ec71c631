import Dddatasync.Rendezvous.Server

/-!
What the stores of the server owe to its history.

* `LoginRead`, `Login`, `Found`, `Use`: the way from a signup to a write, each stage with
  the checks it passed, and `trail`, its entries in the history in order.
* `StateOk`, `TaskOk`: what the stores and a waiting handler owe to the history.
* `Sound`, `sound_segment`: every segment leaves them in order, with one lemma for each.
-/

namespace Rendezvous

open Runs
open scoped List

/-! ### From a signup to a write -/

/-- A login that accepted the password of an approved account, and the signup that made the
account. -/
structure LoginRead (x : Externals) where
  signupId : ℕ
  created : UserAccount
  password : String
  loginId : ℕ
  attempt : LoginRequest
  account : UserAccount
  name : created.username = attempt.username
  hash : account.passwordHash = created.passwordHash
  hashed : ∃ salt, x.hashPassword salt password = some created.passwordHash
  verified : x.verifyPassword attempt.password account.passwordHash = true
  approved : account.status = .approved

variable {x : Externals}

/-- The entries behind a login that read its account. -/
def LoginRead.trail (l : LoginRead x) : List Entry :=
  [.signedUp l.signupId l.created l.password, .loginRead l.loginId l.attempt l.account]

/-- A login that returned a token. -/
structure Login (x : Externals) extends LoginRead x where
  token : String
  issuedAt : ℕ

/-- The entries behind a token. -/
def Login.trail (l : Login x) : List Entry :=
  l.toLoginRead.trail ++ [.issued l.loginId l.attempt.username l.token l.issuedAt,
    .responded l.loginId ⟨200, .token l.token⟩]

/-- A request that carries the token and whose session was found, not expired. -/
structure Found (x : Externals) extends Login x where
  requestId : ℕ
  request : Request
  session : SessionRecord
  foundAt : ℕ
  carries : request.token = some token
  owner : session.username = attempt.username
  unexpired : foundAt ≤ session.expiresAt

/-- The entries behind a session found. -/
def Found.trail (f : Found x) : List Entry :=
  f.toLogin.trail ++ [.found f.requestId f.token f.session f.foundAt]

/-- A request that `authenticate` let through: the account behind the session is approved. -/
structure Use (x : Externals) extends Found x where
  checkedAccount : UserAccount
  still_approved : checkedAccount.status = .approved

/-- The entries behind an authenticated request. -/
def Use.trail (w : Use x) : List Entry :=
  w.toFound.trail ++ [.checked w.requestId w.attempt.username w.checkedAccount]

/-- `r` is the record that the register request has for its username. -/
def Registers (request : Request) (u : String) (r : PeerRecord) : Prop :=
  ∃ header body now, request = .register header (some body) ∧ body.username = u
    ∧ r = ⟨body.nodeId, body.addrs, body.relayUrl, now⟩

/-! ### The invariant -/

/-- Every account goes back to a signup that hashed its password. -/
def UsersOk (x : Externals) (log : List Entry) (users : AssocMap String UserAccount) : Prop :=
  ∀ u account, users.lookup u = some account → ∃ i created password,
    .signedUp i created password ∈ log ∧ created.username = u
      ∧ account.passwordHash = created.passwordHash
      ∧ ∃ salt, x.hashPassword salt password = some created.passwordHash

/-- Every session goes back to a login of its user. -/
def SessionsOk (x : Externals) (log : List Entry) (sessions : AssocMap String SessionRecord) :
    Prop :=
  ∀ token session, sessions.lookup token = some session → ∃ l : Login x,
    l.token = token ∧ l.attempt.username = session.username ∧ l.trail <+ log

/-- Every record goes back to an authenticated register request of its user. -/
def RegistryOk (x : Externals) (log : List Entry) (registry : Registry) : Prop :=
  ∀ u, ∀ r ∈ registry.records u, ∃ w : Use x, w.attempt.username = u
    ∧ w.trail ++ [.wrote w.requestId u r] <+ log ∧ .arrived w.requestId w.request ∈ log
    ∧ Registers w.request u r

/-- The stores owe everything they hold to the history. -/
structure StateOk (x : Externals) (log : List Entry) (s : AppState) : Prop where
  users : UsersOk x log s.users
  sessions : SessionsOk x log s.sessions
  registry : RegistryOk x log s.registry

/-- What the local variables of a waiting handler owe to the history. -/
def TaskOk (x : Externals) (log : List Entry) (i : ℕ) (request : Request) : Pc → Prop
  | .insertAccount account password =>
      ∃ salt, x.hashPassword salt password = some account.passwordHash
  | .openSession u _ => ∃ l : LoginRead x, l.loginId = i ∧ l.attempt.username = u
      ∧ l.trail <+ log
  | .checkUser u => ∃ f : Found x, f.requestId = i ∧ f.request = request
      ∧ f.attempt.username = u ∧ f.trail <+ log
  | .writeRecord u r => ∃ w : Use x, w.requestId = i ∧ w.request = request
      ∧ w.attempt.username = u ∧ w.trail <+ log ∧ Registers request u r
  | .eraseRecord u _ => ∃ w : Use x, w.requestId = i ∧ w.request = request
      ∧ w.attempt.username = u ∧ w.trail <+ log
  | _ => True

variable {log log' : List Entry}

lemma UsersOk.mono {users : AssocMap String UserAccount} (h : UsersOk x log users)
    (hl : log <+ log') : UsersOk x log' users := by
  intro u account hu
  obtain ⟨i, created, password, hmem, hrest⟩ := h u account hu
  exact ⟨i, created, password, hl.subset hmem, hrest⟩

lemma SessionsOk.mono {sessions : AssocMap String SessionRecord} (h : SessionsOk x log sessions)
    (hl : log <+ log') : SessionsOk x log' sessions := by
  intro token session hs
  obtain ⟨l, ht, hu, htrail⟩ := h token session hs
  exact ⟨l, ht, hu, htrail.trans hl⟩

lemma RegistryOk.mono {registry : Registry} (h : RegistryOk x log registry)
    (hl : log <+ log') : RegistryOk x log' registry := by
  intro u r hr
  obtain ⟨w, hu, htrail, harr, hreg⟩ := h u r hr
  exact ⟨w, hu, htrail.trans hl, hl.subset harr, hreg⟩

lemma StateOk.mono {s : AppState} (h : StateOk x log s) (hl : log <+ log') :
    StateOk x log' s :=
  ⟨h.users.mono hl, h.sessions.mono hl, h.registry.mono hl⟩

lemma TaskOk.mono {i : ℕ} {request : Request} {pc : Pc} (h : TaskOk x log i request pc)
    (hl : log <+ log') : TaskOk x log' i request pc := by
  cases pc with
  | openSession u token =>
      obtain ⟨l, h1, h2, htrail⟩ := h
      exact ⟨l, h1, h2, htrail.trans hl⟩
  | checkUser u =>
      obtain ⟨f, h1, h2, h3, htrail⟩ := h
      exact ⟨f, h1, h2, h3, htrail.trans hl⟩
  | writeRecord u r =>
      obtain ⟨w, h1, h2, h3, htrail, h4⟩ := h
      exact ⟨w, h1, h2, h3, htrail.trans hl, h4⟩
  | eraseRecord u n =>
      obtain ⟨w, h1, h2, h3, htrail⟩ := h
      exact ⟨w, h1, h2, h3, htrail.trans hl⟩
  | start | insertAccount | insertToken | approveUser | pruneRegistry | pruneSessions => exact h

/-! ### One lemma for each segment -/

/-- An outcome that leaves the stores and the waiting handler in order. -/
structure Sound (x : Externals) (log : List Entry) (i : ℕ) (request : Request) (o : Outcome) :
    Prop where
  state : StateOk x (log ++ o.history i) o.state
  next : ∀ pc, o.next = .inl pc → TaskOk x (log ++ o.history i) i request pc

variable {i : ℕ} {request : Request} {s : AppState} {read : Reading}

lemma sublist_append (log more : List Entry) : log <+ log ++ more := List.sublist_append_left _ _

lemma sound_respond (h : StateOk x log s) (status : ℕ) (body : Body) :
    Sound x log i request (respond s status body) where
  state := h.mono (sublist_append _ _)
  next := fun pc hpc => by cases hpc

/-- An outcome that changes no store is in order when the waiting handler is. -/
lemma sound_of_state_eq {o : Outcome} (h : StateOk x log s) (hs : o.state = s)
    (hnext : ∀ pc, o.next = .inl pc → TaskOk x (log ++ o.history i) i request pc) :
    Sound x log i request o where
  state := hs ▸ h.mono (sublist_append _ _)
  next := hnext

lemma sound_signupStart (h : StateOk x log s) (req : SignupRequest) :
    Sound x log i request (signupStart x read req s) := by
  rw [signupStart]
  simp only
  split
  · exact sound_respond h _ _
  · cases hh : x.hashPassword read.salt req.password with
    | none => exact sound_respond h _ _
    | some hash =>
        refine sound_of_state_eq h rfl fun pc hpc => ?_
        obtain rfl := Sum.inl.inj hpc
        refine ⟨read.salt, ?_⟩
        rw [hh]
        cases read.autoApprove <;> rfl

lemma sound_insertAccount (h : StateOk x log s) {account : UserAccount} {password : String}
    (ht : TaskOk x log i request (.insertAccount account password)) :
    Sound x log i request (insertAccount read i account password s) := by
  rw [insertAccount]
  split_ifs with h1 h2
  · exact sound_respond h _ _
  · exact sound_respond h _ _
  · have hmem : ∀ o : Outcome, o.entries = [.signedUp i account password] →
        .signedUp i account password ∈ log ++ o.history i := by
      intro o ho
      rw [Outcome.history, ho]
      cases o.next <;> simp
    refine ⟨⟨fun u acc hu => ?_, h.sessions.mono (sublist_append _ _),
      h.registry.mono (sublist_append _ _)⟩, fun pc hpc => ?_⟩
    · obtain ⟨hn, rfl⟩ | ⟨-, hu⟩ := AssocMap.lookup_insert_eq_some.mp hu
      · exact ⟨i, _, password, hmem _ rfl, hn.symm, rfl, ht⟩
      · exact h.users.mono (sublist_append _ _) u acc hu
    · simp only at hpc
      split at hpc
      · obtain rfl := Sum.inl.inj hpc
        exact True.intro
      · cases hpc

lemma sound_insertToken (h : StateOk x log s) (u token : String) :
    Sound x log i request (insertToken read u token s) where
  state := ⟨h.users.mono (sublist_append _ _), h.sessions.mono (sublist_append _ _),
    h.registry.mono (sublist_append _ _)⟩
  next := fun pc hpc => by cases hpc

lemma sound_verifyStart (h : StateOk x log s) (token : String) :
    Sound x log i request (verifyStart token s) := by
  rw [verifyStart]
  cases s.verifyTokens.lookup token with
  | none => exact sound_respond h _ _
  | some u =>
      refine ⟨⟨h.users.mono (sublist_append _ _), h.sessions.mono (sublist_append _ _),
        h.registry.mono (sublist_append _ _)⟩, fun pc hpc => ?_⟩
      obtain rfl := Sum.inl.inj hpc
      exact True.intro

/-- Rewriting an account with the same password hash keeps the accounts in order. -/
lemma UsersOk.insert_same_hash {users : AssocMap String UserAccount} {u : String}
    {account account' : UserAccount} (h : UsersOk x log users)
    (hu : users.lookup u = some account) (hh : account'.passwordHash = account.passwordHash) :
    UsersOk x log (users.insert u account') := by
  intro v acc hv
  obtain ⟨rfl, rfl⟩ | ⟨-, hv⟩ := AssocMap.lookup_insert_eq_some.mp hv
  · obtain ⟨j, created, password, hmem, hname, hhash, hsalt⟩ := h v account hu
    exact ⟨j, created, password, hmem, hname, hh.trans hhash, hsalt⟩
  · exact h v acc hv

lemma sound_approveUser (h : StateOk x log s) (u : String) :
    Sound x log i request (approveUser u s) := by
  rw [approveUser]
  simp only
  cases hu : s.users.lookup u with
  | none => exact sound_respond h _ _
  | some account =>
      simp only
      split_ifs with hp
      · refine ⟨⟨UsersOk.mono (h.users.insert_same_hash hu ?_) (sublist_append _ _),
          h.sessions.mono (sublist_append _ _), h.registry.mono (sublist_append _ _)⟩,
          fun pc hpc => by cases hpc⟩
        rfl
      · exact sound_respond h _ _

lemma sound_loginStart (h : StateOk x log s) (req : LoginRequest) :
    Sound x log i request (loginStart x read i req s) := by
  rw [loginStart]
  cases hu : s.users.lookup req.username with
  | none =>
      simp only
      split_ifs <;> exact sound_respond h _ _
  | some account =>
      simp only
      split_ifs with hv
      · cases hst : account.status with
        | pending => exact sound_respond h _ _
        | blocked => exact sound_respond h _ _
        | approved =>
            refine sound_of_state_eq h rfl fun pc hpc => ?_
            obtain rfl := Sum.inl.inj hpc
            obtain ⟨j, created, password, hmem, hname, hhash, hsalt⟩ :=
              h.users req.username account hu
            refine ⟨⟨j, created, password, i, req, account, hname, hhash, hsalt, hv, hst⟩, rfl, rfl,
              ?_⟩
            exact (List.singleton_sublist.mpr hmem).append (List.Sublist.refl _)
      · exact sound_respond h _ _

lemma sound_openSession (h : StateOk x log s) {u token : String}
    (ht : TaskOk x log i request (.openSession u token)) :
    Sound x log i request (openSession read i u token s) := by
  obtain ⟨l, hid, hu, htrail⟩ := ht
  refine ⟨⟨h.users.mono (sublist_append _ _), fun tok session hs => ?_,
    h.registry.mono (sublist_append _ _)⟩, fun pc hpc => by cases hpc⟩
  obtain ⟨hn, rfl⟩ | ⟨-, hs⟩ := AssocMap.lookup_insert_eq_some.mp hs
  · refine ⟨⟨l, token, read.now⟩, hn.symm, hu, ?_⟩
    refine htrail.append ?_
    rw [hid, hu]
    exact List.Sublist.refl _
  · exact h.sessions.mono (sublist_append _ _) tok session hs

lemma sound_findSession (h : StateOk x log s) {header : Option String}
    (hreq : request.token = bearer header) :
    Sound x log i request (findSession read i header s) := by
  rw [findSession]
  cases hb : bearer header with
  | none => exact sound_respond h _ _
  | some token =>
      simp only
      cases hs : s.sessions.lookup token with
      | none => exact sound_respond h _ _
      | some session =>
          simp only
          split_ifs with he
          · exact sound_respond h _ _
          · refine sound_of_state_eq h rfl fun pc hpc => ?_
            obtain rfl := Sum.inl.inj hpc
            obtain ⟨l, rfl, hu, htrail⟩ := h.sessions token session hs
            exact ⟨⟨l, i, request, session, read.now, by rw [hreq, hb], hu.symm, by omega⟩,
              rfl, rfl, hu, htrail.append (List.Sublist.refl _)⟩

/-- `authenticate` hands an authenticated request on to the rest of its handler. -/
lemma sound_checkUser (h : StateOk x log s) {u : String} {k : Outcome} (hks : k.state = s)
    (ht : TaskOk x log i request (.checkUser u))
    (hk : ∀ (w : Use x) (log' : List Entry), w.requestId = i → w.request = request →
      w.attempt.username = u → w.trail <+ log' → ∀ pc, k.next = .inl pc →
      TaskOk x log' i request pc) :
    Sound x log i request (checkUser i u s k) := by
  obtain ⟨f, hid, hreq, hu, htrail⟩ := ht
  rw [checkUser]
  cases s.users.lookup u with
  | none => exact sound_respond h _ _
  | some account =>
      simp only
      split_ifs with hst
      · exact sound_respond h _ _
      · rw [not_not] at hst
        refine sound_of_state_eq h hks fun pc hpc => ?_
        refine hk ⟨f, account, hst⟩ _ hid hreq hu ?_ pc hpc
        rw [Use.trail, hid, hu]
        refine htrail.append (List.singleton_sublist.mpr ?_)
        rw [Outcome.history]
        cases k.next <;> simp

lemma sound_register (h : StateOk x log s) {u : String} {header : Option String}
    {body : Option RegisterRequest}
    (ht : TaskOk x log i (.register header body) (.checkUser u)) :
    Sound x log i (.register header body)
      (checkUser i u s (registerBody read u body s)) := by
  refine sound_checkUser h (registerBody_state u body) ht
    fun w log' hid hreq hu htrail pc hpc => ?_
  cases body with
  | none => cases hpc
  | some req =>
      simp only [registerBody] at hpc
      split_ifs at hpc with hname
      · cases hpc
      · rw [not_not] at hname
        obtain rfl := Sum.inl.inj hpc
        exact ⟨w, hid, hreq, hu.trans hname.symm, htrail, header, req, read.now, rfl, rfl, rfl⟩

lemma sound_deregister (h : StateOk x log s) {u : String} {header : Option String}
    {body : Option DeregisterRequest}
    (ht : TaskOk x log i (.deregister header body) (.checkUser u)) :
    Sound x log i (.deregister header body)
      (checkUser i u s (deregisterBody u body s)) := by
  refine sound_checkUser h (deregisterBody_state u body) ht
    fun w log' hid hreq hu htrail pc hpc => ?_
  cases body with
  | none => cases hpc
  | some req =>
      simp only [deregisterBody] at hpc
      split_ifs at hpc with hname
      · cases hpc
      · rw [not_not] at hname
        obtain rfl := Sum.inl.inj hpc
        exact ⟨w, hid, hreq, hu.trans hname.symm, htrail⟩

lemma sound_writeRecord (h : StateOk x log s) {u : String} {r : PeerRecord}
    (harr : .arrived i request ∈ log)
    (ht : TaskOk x log i request (.writeRecord u r)) :
    Sound x log i request (writeRecord i u r s) := by
  obtain ⟨w, hid, hreq, hu, htrail, hreg⟩ := ht
  refine ⟨⟨h.users.mono (sublist_append _ _), h.sessions.mono (sublist_append _ _),
    fun v q hq => ?_⟩, fun pc hpc => by cases hpc⟩
  have hold := h.registry.mono (sublist_append log ((writeRecord i u r s).history i))
  have hnew : ∃ w : Use x, w.attempt.username = u
      ∧ w.trail ++ [.wrote w.requestId u r] <+ log ++ (writeRecord i u r s).history i
      ∧ .arrived w.requestId w.request ∈ log ++ (writeRecord i u r s).history i
      ∧ Registers w.request u r := by
    refine ⟨w, hu, htrail.append (List.singleton_sublist.mpr ?_), ?_, hreq ▸ hreg⟩
    · rw [hid]
      exact List.mem_cons_self
    · rw [hid, hreq]
      exact List.mem_append_left _ harr
  rw [writeRecord, Registry.records_register] at hq
  split_ifs at hq with hv
  · rw [hv]
    rcases mem_of_mem_upsert hq with rfl | hq
    · exact hnew
    · exact hold u q hq
  · exact hold v q hq

lemma sound_eraseRecord (h : StateOk x log s) (u n : String) :
    Sound x log i request (eraseRecord i u n s) := by
  refine ⟨⟨h.users.mono (sublist_append _ _), h.sessions.mono (sublist_append _ _),
    fun v q hq => ?_⟩, fun pc hpc => by cases hpc⟩
  refine h.registry.mono (sublist_append _ _) v q ?_
  rw [eraseRecord, Registry.records_deregister] at hq
  split_ifs at hq with hv
  · rw [hv]
    exact List.mem_of_mem_filter hq
  · exact hq

lemma sound_pruneRegistry (h : StateOk x log s) (now : ℕ) :
    Sound x log i request (pruneRegistry read now s) := by
  refine ⟨⟨h.users.mono (sublist_append _ _), h.sessions.mono (sublist_append _ _),
    fun v q hq => ?_⟩, fun pc hpc => ?_⟩
  · refine h.registry.mono (sublist_append _ _) v q ?_
    rw [pruneRegistry, Registry.records_prune, Registry.mem_live] at hq
    exact hq.1
  · obtain rfl := Sum.inl.inj hpc
    exact True.intro

lemma sound_pruneSessions (h : StateOk x log s) (now : ℕ) :
    Sound x log i request (pruneSessions now s) := by
  refine ⟨⟨h.users.mono (sublist_append _ _), fun token session hs => ?_,
    h.registry.mono (sublist_append _ _)⟩, fun pc hpc => by cases hpc⟩
  refine h.sessions.mono (sublist_append _ _) token session ?_
  rw [pruneSessions, AssocMap.lookup_filterMap, Option.bind_eq_some_iff] at hs
  obtain ⟨session', hs', hif⟩ := hs
  split_ifs at hif
  rwa [← Option.some.inj hif]

/-- Every segment leaves the stores and its handler in order. -/
lemma sound_segment (h : StateOk x log s) {pc : Pc} (harr : .arrived i request ∈ log)
    (ht : TaskOk x log i request pc) {o : Outcome}
    (hseg : segment x read i s request pc = some o) : Sound x log i request o := by
  unfold segment at hseg
  split at hseg
  · exact Option.some.inj hseg ▸ sound_signupStart h _
  · exact Option.some.inj hseg ▸ sound_insertAccount h ht
  · exact Option.some.inj hseg ▸ sound_insertToken h _ _
  · exact Option.some.inj hseg ▸ sound_verifyStart h _
  · exact Option.some.inj hseg ▸ sound_approveUser h _
  · exact Option.some.inj hseg ▸ sound_loginStart h _
  · exact Option.some.inj hseg ▸ sound_openSession h ht
  · exact Option.some.inj hseg ▸ sound_findSession h rfl
  · exact Option.some.inj hseg ▸ sound_register h ht
  · exact Option.some.inj hseg ▸ sound_writeRecord h harr ht
  · exact Option.some.inj hseg ▸ sound_findSession h rfl
  · exact Option.some.inj hseg ▸ sound_deregister h ht
  · exact Option.some.inj hseg ▸ sound_eraseRecord h _ _
  · exact Option.some.inj hseg ▸ sound_respond h _ _
  · obtain rfl := Option.some.inj hseg
    refine sound_of_state_eq h rfl fun pc hpc => ?_
    obtain rfl := Sum.inl.inj hpc
    exact True.intro
  · exact Option.some.inj hseg ▸ sound_pruneRegistry h _
  · exact Option.some.inj hseg ▸ sound_pruneSessions h _
  · cases hseg

end Rendezvous
