import Dddatasync.Rendezvous.Directory

/-!
The Rust server serving one request after another.

* `complete`: a handler that runs alone, segment by segment, to its answer, with the invariant
  rule `complete_keeps`; `rustServe`: a request as it comes over the wire.
* `rustAuthenticate`: `authenticate` with no other request between its locks;
  `change_refused`, `change_granted`: what a registration and a deregistration make of it.
* `rustOrder`: what the server reads from a request; `AppState.directory`: what its stores
  say.
* `rustServe_serves`: the server carries out the orders it reads as the directory does, up to
  a session that expires in the second of the request.
-/

namespace Rendezvous

/-! ### Serving -/

/-- The rest of a handler that runs alone, in at most so many segments. -/
def complete (x : Externals) (read : Reading) (request : Request) :
    ℕ → AppState → Pc → Option (AppState × Response)
  | 0, _, _ => none
  | n + 1, s, pc =>
      match segment x read 0 s request pc with
      | none => none
      | some o =>
          match o.next with
          | .inr response => some (o.state, response)
          | .inl pc => complete x read request n o.state pc

/-- The request as the router hands it to its handler; `none` when the `Json` extractor
refuses the body. -/
def ApiRequest.decode : ApiRequest → Option Request
  | .signup body => (SignupRequest.decode body).map .signup
  | .login body => (LoginRequest.decode body).map .login
  | .verify token => some (.verify token)
  | .register header body => some (.register header (RegisterRequest.decode body))
  | .deregister header body => some (.deregister header (DeregisterRequest.decode body))

/-- The Rust server on one request; no handler has more than three segments. -/
def rustServe (x : Externals) (read : Reading) (request : ApiRequest) (s : AppState) :
    AppState × Response :=
  match request.decode with
  | none => (s, ⟨422, .empty⟩)
  | some request =>
      match complete x read request 3 s .start with
      | some answer => answer
      | none => (s, ⟨500, .empty⟩)

/-! ### What is read and what is stored -/

/-- What the Rust server reads from a request. -/
def rustOrder (x : Externals) : ApiRequest → Option Order
  | .signup body => (SignupRequest.decode body).map fun req =>
      .signup (trim req.username) (x.toLowercase (trim req.email)) req.password
  | .login body => (LoginRequest.decode body).map fun req => .login req.username req.password
  | .verify token => some (.verify token)
  | .register header body => (RegisterRequest.decode body).map fun req =>
      .change (bearer header) req.username
  | .deregister header body => (DeregisterRequest.decode body).map fun req =>
      .change (bearer header) req.username

/-- The account as the API shows it. -/
def UserAccount.view (x : Externals) (account : UserAccount) : AccountView where
  email := account.email
  status := account.status
  opens := fun attempt => x.verifyPassword attempt account.passwordHash

/-- What the stores say. -/
def AppState.directory (x : Externals) (s : AppState) : Directory where
  account := fun u => (s.users.lookup u).map (·.view x)
  link := s.verifyTokens.lookup
  session := fun t => (s.sessions.lookup t).map fun session => (session.username, session.expiresAt)

/-- The bearer token of a request. -/
def ApiRequest.token : ApiRequest → Option String
  | .register header _ => bearer header
  | .deregister header _ => bearer header
  | _ => none

/-- The session behind the request does not expire in this very second. -/
def OffExpiry (s : AppState) (now : ℕ) (request : ApiRequest) : Prop :=
  ∀ t ∈ request.token, ∀ session ∈ s.sessions.lookup t, session.expiresAt ≠ now

variable {x : Externals} {read : Reading} {s : AppState} {generated : List String}
  {opens : String → String → Bool}

@[simp]
lemma directory_account (u : String) :
    (s.directory x).account u = (s.users.lookup u).map (·.view x) := rfl

@[simp]
lemma directory_link (t : String) : (s.directory x).link t = s.verifyTokens.lookup t := rfl

@[simp]
lemma directory_session (t : String) : (s.directory x).session t
    = (s.sessions.lookup t).map fun session => (session.username, session.expiresAt) := rfl

/-! ### Signup -/

/-- No account has the address. -/
lemma email_free {e : String} : ¬ (s.users.entries.any fun entry => entry.2.email = e) = true ↔
    ∀ v a, (s.directory x).account v = some a → a.email ≠ e := by
  rw [List.any_eq_true]
  constructor
  · rintro h v a ha rfl
    obtain ⟨account, haccount, rfl⟩ := Option.map_eq_some_iff.mp ha
    exact h ⟨⟨v, account⟩, AssocMap.mem_entries_iff.mpr haccount, by simp [UserAccount.view]⟩
  · rintro h ⟨⟨v, account⟩, hmem, he⟩
    have hlookup := AssocMap.mem_entries_iff.mp hmem
    exact h v (account.view x) (by simp [hlookup]) (by simpa [UserAccount.view] using he)

lemma map_insert {β γ : Type*} (f : β → γ) (m : AssocMap String β) (u : String) (b : β) :
    (fun v => ((m.insert u b).lookup v).map f)
      = Function.update (fun v => (m.lookup v).map f) u (some (f b)) := by
  funext v
  by_cases hv : v = u
  · rw [hv, AList.lookup_insert, Function.update_self]
    rfl
  · rw [AList.lookup_insert_ne hv, Function.update_of_ne hv]

lemma insert_eq_update {β : Type*} (m : AssocMap String β) (u : String) (b : β) :
    (m.insert u b).lookup = Function.update m.lookup u (some b) := by
  funext v
  by_cases hv : v = u
  · rw [hv, AList.lookup_insert, Function.update_self]
  · rw [AList.lookup_insert_ne hv, Function.update_of_ne hv]

lemma erase_eq_update {β : Type*} (m : AssocMap String β) (u : String) :
    (m.erase u).lookup = Function.update m.lookup u none := by
  funext v
  by_cases hv : v = u
  · rw [hv, AList.lookup_erase, Function.update_self]
  · rw [AList.lookup_erase_ne hv, Function.update_of_ne hv]

lemma accepted_created : (created read).Accepted :=
  ⟨by simp [created], by simp [created]⟩

section Complete

variable {request : Request} {n : ℕ} {pc pc' : Pc} {o : Outcome}

lemma complete_answer {r : Response} (h : segment x read 0 s request pc = some o)
    (hnext : o.next = .inr r) :
    complete x read request (n + 1) s pc = some (o.state, r) := by
  rw [complete, h]
  simp only [hnext]

lemma complete_wait (h : segment x read 0 s request pc = some o) (hnext : o.next = .inl pc') :
    complete x read request (n + 1) s pc = complete x read request n o.state pc' := by
  rw [complete, h]
  simp only [hnext]

/-- What every segment of a request keeps, knowing where the handler stands, the handler
keeps. -/
lemma complete_keeps {I : AppState → Prop} {J : Pc → Prop}
    (hseg : ∀ s pc o, I s → J pc → segment x read 0 s request pc = some o →
      I o.state ∧ ∀ pc', o.next = .inl pc' → J pc') {r : Response}
    (hs : complete x read request n s pc = some (s', r)) (hI : I s) (hJ : J pc) : I s' := by
  induction n generalizing s pc with
  | zero => cases hs
  | succ n ih =>
      cases ho : segment x read 0 s request pc with
      | none => simp [complete, ho] at hs
      | some o =>
          obtain ⟨hstate, hnext⟩ := hseg s pc o hI hJ ho
          cases hcase : o.next with
          | inl pc' =>
              rw [complete_wait ho hcase] at hs
              exact ih hs hstate (hnext pc' hcase)
          | inr r' =>
              rw [complete_answer ho hcase, Option.some.injEq, Prod.mk.injEq] at hs
              exact hs.1 ▸ hstate

end Complete

/-! ### Authentication -/

/-- The header of a client carries its token. -/
lemma bearer_append (token : String) : bearer (some ("Bearer " ++ token)) = some token := by
  have hprefix : "Bearer ".toList <+: ("Bearer " ++ token).toList := by
    rw [String.toList_append]
    exact List.prefix_append _ _
  rw [bearer, Option.bind_some, if_pos hprefix, String.toList_append]
  exact congrArg some String.ofList_toList

/-- `authenticate`: the user of the bearer token, or the status of the refusal. -/
def rustAuthenticate (now : ℕ) (header : Option String) (s : AppState) : Except ℕ String :=
  match bearer header with
  | none => .error 401
  | some token =>
      match s.sessions.lookup token with
      | none => .error 401
      | some session =>
          if session.expiresAt < now then .error 401
          else
            match s.users.lookup session.username with
            | none => .error 401
            | some account =>
                if account.status ≠ .approved then .error 403 else .ok session.username

section Authenticated

variable {request : Request} {header : Option String} {k : String → Outcome}
  (hstart : segment x read 0 s request .start = some (findSession read 0 header s))
  (hcheck : ∀ u, segment x read 0 s request (.checkUser u) = some (checkUser 0 u s (k u)))
include hstart hcheck

/-- A handler that authenticates first answers with the status of a refusal. -/
lemma change_refused {status : ℕ} (h : rustAuthenticate read.now header s = .error status) :
    complete x read request 3 s .start = some (s, ⟨status, .empty⟩) := by
  rw [rustAuthenticate] at h
  rw [findSession] at hstart
  cases hbearer : bearer header with
  | none =>
      simp only [hbearer] at h hstart
      cases h
      exact complete_answer hstart rfl
  | some token =>
      simp only [hbearer] at h hstart
      cases hsession : s.sessions.lookup token with
      | none =>
          simp only [hsession] at h hstart
          cases h
          exact complete_answer hstart rfl
      | some session =>
          simp only [hsession] at h hstart
          by_cases hexpired : session.expiresAt < read.now
          · rw [if_pos hexpired] at h hstart
            cases h
            exact complete_answer hstart rfl
          · rw [if_neg hexpired] at h hstart
            rw [complete_wait hstart rfl]
            have hseg := hcheck session.username
            rw [checkUser] at hseg
            cases haccount : s.users.lookup session.username with
            | none =>
                simp only [haccount] at h hseg
                cases h
                exact complete_answer hseg rfl
            | some account =>
                simp only [haccount] at h hseg
                by_cases hstatus : account.status ≠ .approved
                · rw [if_pos hstatus] at h hseg
                  cases h
                  exact complete_answer hseg rfl
                · rw [if_neg hstatus] at h
                  cases h

/-- For the user it found it goes on with the rest of the handler. -/
lemma change_granted {u : String} (h : rustAuthenticate read.now header s = .ok u) :
    ∃ entries, complete x read request 3 s .start = complete x read request 2 s (.checkUser u)
      ∧ segment x read 0 s request (.checkUser u) = some { k u with entries := entries } := by
  rw [rustAuthenticate] at h
  rw [findSession] at hstart
  cases hbearer : bearer header with
  | none =>
      simp only [hbearer] at h
      cases h
  | some token =>
      simp only [hbearer] at h hstart
      cases hsession : s.sessions.lookup token with
      | none =>
          simp only [hsession] at h
          cases h
      | some session =>
          simp only [hsession] at h hstart
          by_cases hexpired : session.expiresAt < read.now
          · rw [if_pos hexpired] at h
            cases h
          · rw [if_neg hexpired] at h hstart
            cases haccount : s.users.lookup session.username with
            | none =>
                simp only [haccount] at h
                cases h
            | some account =>
                simp only [haccount] at h
                by_cases hstatus : account.status ≠ .approved
                · rw [if_pos hstatus] at h
                  cases h
                · rw [if_neg hstatus] at h
                  cases h
                  refine ⟨.checked 0 session.username account :: (k session.username).entries,
                    ?_, ?_⟩
                  · rw [complete_wait hstart rfl]
                  · rw [hcheck, checkUser, haccount]
                    simp only [if_neg hstatus]

end Authenticated

/-- Whom `authenticate` lets in. -/
lemma rustAuthenticate_eq_ok {now : ℕ} {header : Option String} {u : String} :
    rustAuthenticate now header s = .ok u ↔ ∃ token session account, bearer header = some token
      ∧ s.sessions.lookup token = some session ∧ now ≤ session.expiresAt ∧ session.username = u
      ∧ s.users.lookup u = some account ∧ account.status = .approved := by
  rw [rustAuthenticate]
  constructor
  · intro h
    split at h
    · cases h
    · rename_i token hbearer
      split at h
      · cases h
      · rename_i session hsession
        split_ifs at h with hexpired
        split at h
        · cases h
        · rename_i account haccount
          split_ifs at h with hstatus
          cases h
          exact ⟨token, session, account, hbearer, hsession, not_lt.mp hexpired, rfl, haccount,
            not_not.mp hstatus⟩
  · rintro ⟨token, session, account, hbearer, hsession, hlive, rfl, haccount, hstatus⟩
    simp only [hbearer, hsession, if_neg (not_lt.mpr hlive), haccount, hstatus, ne_eq,
      not_true_eq_false, if_false]

/-- A refusal is no success. -/
lemma rustAuthenticate_error {now status : ℕ} {header : Option String}
    (h : rustAuthenticate now header s = .error status) : 300 ≤ status := by
  rw [rustAuthenticate] at h
  split at h
  · cases h
    simp
  · split at h
    · cases h
      simp
    · split_ifs at h
      · cases h
        simp
      · split at h
        · cases h
          simp
        · split_ifs at h
          cases h
          simp

/-- The account a signup makes. -/
def accountOf (read : Reading) (u e hash : String) : UserAccount :=
  if read.autoApprove then ⟨u, e, hash, .approved, none⟩
  else ⟨u, e, hash, .pending, some read.token⟩

@[simp]
lemma accountOf_username (u e hash : String) : (accountOf read u e hash).username = u := by
  rw [accountOf]
  split_ifs <;> rfl

@[simp]
lemma accountOf_email (u e hash : String) : (accountOf read u e hash).email = e := by
  rw [accountOf]
  split_ifs <;> rfl

/-- The stores after a signup. -/
def signedUp (account : UserAccount) (s : AppState) : AppState :=
  { s with
    users := s.users.insert account.username account
    verifyTokens := match account.verificationToken with
      | some token => s.verifyTokens.insert token account.username
      | none => s.verifyTokens }

/-- The rest of a signup after the lock on the accounts. -/
lemma complete_insertAccount {req : SignupRequest} {account : UserAccount}
    (hname : s.users.lookup account.username = none)
    (hemail : ¬ (s.users.entries.any fun entry => entry.2.email = account.email) = true) :
    complete x read (.signup req) 2 s (.insertAccount account req.password)
      = some (signedUp account s, created read) := by
  have hseg : segment x read 0 s (.signup req) (.insertAccount account req.password)
      = some (insertAccount read 0 account req.password s) := rfl
  rw [insertAccount, if_neg (by simp [hname]), if_neg hemail] at hseg
  cases htoken : account.verificationToken with
  | none =>
      rw [complete_answer hseg (by rw [htoken]), signedUp, htoken]
  | some token =>
      rw [complete_wait hseg (by rw [htoken]), complete_answer rfl rfl, signedUp, htoken]
      rfl

/-- A name or an address that is taken already. -/
lemma complete_insertAccount_taken {req : SignupRequest} {account : UserAccount}
    (h : s.users.lookup account.username ≠ none
      ∨ (s.users.entries.any fun entry => entry.2.email = account.email) = true) :
    ∃ text, complete x read (.signup req) 2 s (.insertAccount account req.password)
      = some (s, ⟨409, .error text⟩) := by
  have hseg : segment x read 0 s (.signup req) (.insertAccount account req.password)
      = some (insertAccount read 0 account req.password s) := rfl
  rw [insertAccount] at hseg
  by_cases hname : s.users.lookup account.username = none
  · rw [if_neg (by simp [hname]), if_pos (h.resolve_left fun hne => hne hname)] at hseg
    exact ⟨_, complete_answer hseg rfl⟩
  · rw [if_pos (Option.isSome_iff_ne_none.mpr hname)] at hseg
    exact ⟨_, complete_answer hseg rfl⟩

/-- What the stores say after a signup. -/
lemma directory_signedUp {u e p hash : String}
    (hopens : ∀ attempt, x.verifyPassword attempt hash = opens p attempt) :
    (signedUp (accountOf read u e hash) s).directory x
      = (s.directory x).next read opens (.signup u e p) := by
  have hview : (accountOf read u e hash).view x
      = ⟨e, if read.autoApprove then .approved else .pending, opens p⟩ := by
    rw [UserAccount.view, accountOf_email, accountOf]
    congr
    · split_ifs <;> rfl
    · funext attempt
      rw [← hopens]
      split_ifs <;> rfl
  rw [AppState.directory, Directory.next, signedUp, map_insert, hview, accountOf_username]
  congr
  by_cases hauto : read.autoApprove = true
  · simp only [accountOf, hauto, if_true]
    rfl
  · simp only [accountOf, hauto, Bool.false_eq_true, if_false, insert_eq_update]
    rfl

/-- **Signup** does what the directory does. -/
lemma complete_signup {req : SignupRequest} {hash : String}
    (hhash : x.hashPassword read.salt req.password = some hash)
    (hopens : ∀ attempt, x.verifyPassword attempt hash = opens req.password attempt) :
    ∃ s' r, complete x read (.signup req) 3 s .start = some (s', r)
      ∧ (s.directory x).Serves read opens
        (some (.signup (trim req.username) (x.toLowercase (trim req.email)) req.password))
        r.Accepted (s'.directory x) := by
  have hseg : segment x read 0 s (.signup req) .start = some (signupStart x read req s) := rfl
  simp only [signupStart, hhash] at hseg
  generalize trim req.username = u at *
  generalize x.toLowercase (trim req.email) = e at *
  by_cases hempty : u = "" ∨ e = "" ∨ req.password = ""
  · rw [if_pos hempty] at hseg
    refine ⟨s, _, complete_answer hseg rfl, .refused (not_accepted (by simp)) ?_⟩
    rintro ⟨⟨hu, he, hp⟩, -⟩
    rcases hempty with h | h | h
    · exact hu h
    · exact he h
    · exact hp h
  · rw [if_neg hempty] at hseg
    rw [complete_wait hseg rfl]
    have hnew : (if read.autoApprove then UserAccount.mk u e hash .approved none
        else ⟨u, e, hash, .pending, some read.token⟩) = accountOf read u e hash := rfl
    rw [hnew]
    by_cases htaken : s.users.lookup (accountOf read u e hash).username ≠ none
        ∨ (s.users.entries.any fun entry => entry.2.email = (accountOf read u e hash).email) = true
    · obtain ⟨text, hdone⟩ : ∃ text, complete x read (.signup req) 2 s
          (.insertAccount (accountOf read u e hash) req.password)
            = some (s, ⟨409, .error text⟩) := complete_insertAccount_taken htaken
      refine ⟨s, _, hdone, .refused (not_accepted (by simp)) ?_⟩
      rintro ⟨-, hnone, hfree⟩
      rw [accountOf_username, accountOf_email] at htaken
      rcases htaken with hname | hemail
      · exact hname (by simpa using hnone)
      · exact absurd hemail (email_free.mpr hfree)
    · rw [not_or, ne_eq, not_not, accountOf_username, accountOf_email] at htaken
      obtain ⟨hname, hemail⟩ := htaken
      refine ⟨_, _, complete_insertAccount (by rw [accountOf_username, hname])
        (by rw [accountOf_email]; exact hemail), ?_⟩
      have hdone : ((signedUp (accountOf read u e hash) s).directory x)
          = (s.directory x).next read opens (.signup u e req.password) :=
        directory_signedUp hopens
      rw [hdone]
      refine .done accepted_created ⟨?_, by simpa using hname, email_free.mp hemail⟩
      simpa only [not_or] using hempty

/-! ### Verification and login -/

/-- **Verification** does what the directory does. -/
lemma complete_verify (hs : (s.directory x).Sound generated) (t : String) :
    ∃ s' r, complete x read (.verify t) 3 s .start = some (s', r)
      ∧ (s.directory x).Serves read opens (some (.verify t)) r.Accepted (s'.directory x) := by
  have hseg : segment x read 0 s (.verify t) .start = some (verifyStart t s) := rfl
  cases hlink : s.verifyTokens.lookup t with
  | none =>
      rw [verifyStart, hlink] at hseg
      refine ⟨s, _, complete_answer hseg rfl, .refused (not_accepted (by simp)) ?_⟩
      rintro ⟨u, hu⟩
      rw [directory_link, hlink] at hu
      cases hu
  | some u =>
      obtain ⟨a, ha, hpending⟩ := hs.pending t u hlink
      obtain ⟨account, haccount, rfl⟩ := Option.map_eq_some_iff.mp ha
      have hstatus : account.status = .pending := hpending
      rw [verifyStart, hlink] at hseg
      rw [complete_wait hseg rfl]
      have hseg : segment x read 0 { s with verifyTokens := s.verifyTokens.erase t } (.verify t)
          (.approveUser u) = some (approveUser u _) := rfl
      simp only [approveUser, haccount, hstatus, if_true] at hseg
      refine ⟨_, _, complete_answer hseg rfl, ?_⟩
      have hdone : ∀ s', s' = { s with
            users := s.users.insert u
              { account with status := .approved, verificationToken := none }
            verifyTokens := s.verifyTokens.erase t } →
          s'.directory x = (s.directory x).next read opens (.verify t) := by
        rintro s' rfl
        rw [AppState.directory, Directory.next, directory_link, hlink]
        simp only [map_insert, erase_eq_update, directory_account, haccount]
        rfl
      rw [hdone _ rfl]
      exact .done accepted_ok ⟨u, hlink⟩

/-- What the stores say after a login. -/
lemma directory_openSession (x : Externals) (read : Reading) (opens : String → String → Bool)
    (i : ℕ) (s : AppState) (req : LoginRequest) :
    (openSession read i req.username read.token s).state.directory x
      = (s.directory x).next read opens (.login req.username req.password) := by
  simp only [openSession, AppState.directory, Directory.next, map_insert]

/-- **Login** does what the directory does. -/
lemma complete_login (req : LoginRequest) :
    ∃ s' r, complete x read (.login req) 3 s .start = some (s', r)
      ∧ (s.directory x).Serves read opens (some (.login req.username req.password)) r.Accepted
        (s'.directory x) := by
  have hseg : segment x read 0 s (.login req) .start = some (loginStart x read 0 req s) := rfl
  simp only [loginStart] at hseg
  have hrefused : ∀ {status : ℕ} {body : Body}, 300 ≤ status →
      segment x read 0 s (.login req) .start = some (respond s status body) →
      ¬ (s.directory x).Accepts read.now (.login req.username req.password) →
      ∃ s' r, complete x read (.login req) 3 s .start = some (s', r)
        ∧ (s.directory x).Serves read opens (some (.login req.username req.password)) r.Accepted
          (s'.directory x) :=
    fun h hseg hno => ⟨s, _, complete_answer hseg rfl, .refused (not_accepted h) hno⟩
  cases hu : s.users.lookup req.username with
  | none =>
      rw [hu] at hseg
      simp only [ite_self] at hseg
      refine hrefused (by simp) hseg ?_
      rintro ⟨a, ha, -⟩
      rw [directory_account, hu] at ha
      cases ha
  | some account =>
      have haccepts : (s.directory x).Accepts read.now (.login req.username req.password) ↔
          x.verifyPassword req.password account.passwordHash = true
            ∧ account.status = .approved := by
        simp [Directory.Accepts, hu, UserAccount.view]
      rw [hu] at hseg
      by_cases hpassword : x.verifyPassword req.password account.passwordHash = true
      · simp only [hpassword, if_true] at hseg
        cases hstatus : account.status with
        | approved =>
            rw [hstatus] at hseg
            rw [complete_wait hseg rfl]
            have hdone := directory_openSession x read opens 0 s req
            refine ⟨_, _, complete_answer rfl rfl, ?_⟩
            simp only [hdone]
            exact .done accepted_ok (haccepts.mpr ⟨hpassword, hstatus⟩)
        | pending =>
            rw [hstatus] at hseg
            exact hrefused (by simp) hseg (by simp [haccepts, hstatus])
        | blocked =>
            rw [hstatus] at hseg
            exact hrefused (by simp) hseg (by simp [haccepts, hstatus])
      · simp only [hpassword, Bool.false_eq_true, if_false] at hseg
        exact hrefused (by simp) hseg (by simp [haccepts, hpassword])

/-! ### Registration and deregistration -/

section Change

variable {request : Request} {header : Option String} {k : String → Outcome}
  {asked : Option String}

/-- No user that is asked for speaks with the token. -/
lemma serves_unauthorized {token : Option String} {status : ℕ} {body : Body} (h : 300 ≤ status)
    (hno : ∀ u, asked = some u → ¬ (s.directory x).Speaks read.now token u) :
    (s.directory x).Serves read opens (asked.map (.change token))
      (⟨status, body⟩ : Response).Accepted (s.directory x) := by
  refine .inr ⟨not_accepted h, fun o ho => ?_, rfl⟩
  obtain ⟨u, hu, rfl⟩ := Option.map_eq_some_iff.mp ho
  exact hno u hu

/-- Whoever speaks with the token is let in, unless its session expires in this second. -/
lemma speaks_iff {now : ℕ} {u : String}
    (hoff : ∀ t ∈ bearer header, ∀ session ∈ s.sessions.lookup t, session.expiresAt ≠ now) :
    (s.directory x).Speaks now (bearer header) u ↔ rustAuthenticate now header s = .ok u := by
  rw [rustAuthenticate_eq_ok]
  constructor
  · rintro ⟨t, e, a, ht, hse, hlt, ha, hstatus⟩
    obtain ⟨session, hsession, heq⟩ := Option.map_eq_some_iff.mp hse
    obtain ⟨rfl, rfl⟩ := Prod.mk.inj heq
    obtain ⟨account, haccount, rfl⟩ := Option.map_eq_some_iff.mp ha
    exact ⟨t, session, account, ht, hsession, hlt.le, rfl, haccount, hstatus⟩
  · rintro ⟨t, session, account, ht, hsession, hle, rfl, haccount, hstatus⟩
    have hne : session.expiresAt ≠ now := hoff t ht session hsession
    refine ⟨t, session.expiresAt, account.view x, ht, ?_, by omega, ?_, hstatus⟩
    · rw [directory_session, hsession]
      rfl
    · rw [directory_account, haccount]
      rfl

/-- A handler that authenticates first: it goes on for the user it is asked for, who speaks
with the token, and refuses everyone else. -/
lemma complete_change
    (hstart : segment x read 0 s request .start = some (findSession read 0 header s))
    (hcheck : ∀ u, segment x read 0 s request (.checkUser u) = some (checkUser 0 u s (k u)))
    (hgo : ∀ u, asked = some u → ∃ pc s', (k u).state = s ∧ (k u).next = .inl pc
      ∧ complete x read request 1 s pc = some (s', ⟨200, .empty⟩)
      ∧ s'.directory x = s.directory x)
    (hrefuse : ∀ u, asked ≠ some u → ∃ status body, 300 ≤ status ∧ k u = respond s status body)
    (hoff : ∀ t ∈ bearer header, ∀ session ∈ s.sessions.lookup t, session.expiresAt ≠ read.now) :
    ∃ s' r, complete x read request 3 s .start = some (s', r)
      ∧ (s.directory x).Serves read opens (asked.map (.change (bearer header))) r.Accepted
        (s'.directory x) := by
  cases hauth : rustAuthenticate read.now header s with
  | error status =>
      refine ⟨s, _, change_refused hstart hcheck hauth,
        serves_unauthorized (rustAuthenticate_error hauth) fun u _ hu => ?_⟩
      rw [speaks_iff hoff, hauth] at hu
      cases hu
  | ok u =>
      obtain ⟨entries, hrun, hseg⟩ := change_granted hstart hcheck hauth
      rw [hrun]
      by_cases hasked : asked = some u
      · obtain ⟨pc, s', hstate, hnext, hdone, hdir⟩ := hgo u hasked
        rw [complete_wait hseg hnext]
        refine ⟨s', _, hstate.symm ▸ hdone, ?_⟩
        rw [hasked, Option.map_some, hdir]
        exact .done accepted_ok ((speaks_iff hoff).mpr hauth)
      · obtain ⟨status, body, hle, hk⟩ := hrefuse u hasked
        rw [hk] at hseg
        refine ⟨s, _, complete_answer hseg rfl, serves_unauthorized hle fun v hv hspeaks => ?_⟩
        rw [speaks_iff hoff, hauth] at hspeaks
        exact hasked (by rw [hv, Except.ok.inj hspeaks])

end Change

/-- **Registration** does what the directory does. -/
lemma complete_register {header : Option String} {body : Option RegisterRequest}
    (hoff : ∀ t ∈ bearer header, ∀ session ∈ s.sessions.lookup t, session.expiresAt ≠ read.now) :
    ∃ s' r, complete x read (.register header body) 3 s .start = some (s', r)
      ∧ (s.directory x).Serves read opens
        (body.map fun req => .change (bearer header) req.username) r.Accepted (s'.directory x) := by
  have hasked : (body.map fun req => Order.change (bearer header) req.username)
      = (body.map (·.username)).map (.change (bearer header)) := by
    rw [Option.map_map]
    rfl
  rw [hasked]
  refine complete_change (k := fun u => registerBody read u body s) rfl (fun u => rfl) ?_ ?_ hoff
  · intro u hu
    obtain ⟨req, rfl, rfl⟩ := Option.map_eq_some_iff.mp hu
    have hbody : registerBody read req.username (some req) s = ⟨s, .inl (.writeRecord req.username
        ⟨req.nodeId, req.addrs, req.relayUrl, read.now⟩), []⟩ := if_neg (not_not.mpr rfl)
    rw [hbody]
    exact ⟨_, _, rfl, rfl, complete_answer rfl rfl, rfl⟩
  · intro u hu
    cases body with
    | none => exact ⟨400, .empty, by simp, rfl⟩
    | some req =>
        have hne : req.username ≠ u := by simpa using hu
        exact ⟨403, .empty, by simp, by rw [registerBody, if_pos hne]⟩

/-- **Deregistration** does what the directory does. -/
lemma complete_deregister {header : Option String} {body : Option DeregisterRequest}
    (hoff : ∀ t ∈ bearer header, ∀ session ∈ s.sessions.lookup t, session.expiresAt ≠ read.now) :
    ∃ s' r, complete x read (.deregister header body) 3 s .start = some (s', r)
      ∧ (s.directory x).Serves read opens
        (body.map fun req => .change (bearer header) req.username) r.Accepted (s'.directory x) := by
  have hasked : (body.map fun req => Order.change (bearer header) req.username)
      = (body.map (·.username)).map (.change (bearer header)) := by
    rw [Option.map_map]
    rfl
  rw [hasked]
  refine complete_change (k := fun u => deregisterBody u body s) rfl (fun u => rfl) ?_ ?_ hoff
  · intro u hu
    obtain ⟨req, rfl, rfl⟩ := Option.map_eq_some_iff.mp hu
    have hbody : deregisterBody req.username (some req) s
        = ⟨s, .inl (.eraseRecord req.username req.nodeId), []⟩ := if_neg (not_not.mpr rfl)
    rw [hbody]
    exact ⟨_, _, rfl, rfl, complete_answer rfl rfl, rfl⟩
  · intro u hu
    cases body with
    | none => exact ⟨400, .empty, by simp, rfl⟩
    | some req =>
        have hne : req.username ≠ u := by simpa using hu
        exact ⟨403, .empty, by simp, by rw [deregisterBody, if_pos hne]⟩

/-- **The Rust server** carries out the orders it reads as the directory does, unless a
session expires in the second of the request. -/
theorem rustServe_serves (read : Reading) (opens : String → String → Bool)
    (hs : (s.directory x).Sound generated) {request : ApiRequest}
    (hhash : ∀ u e p, rustOrder x request = some (.signup u e p) →
      ∃ hash, x.hashPassword read.salt p = some hash
        ∧ ∀ attempt, x.verifyPassword attempt hash = opens p attempt)
    (hoff : OffExpiry s read.now request) :
    (s.directory x).Serves read opens (rustOrder x request) (rustServe x read request s).2.Accepted
      ((rustServe x read request s).1.directory x) := by
  have hanswered : ∀ {r : Request} {order : Option Order}, request.decode = some r →
      (∃ s' response, complete x read r 3 s .start = some (s', response)
        ∧ (s.directory x).Serves read opens order response.Accepted (s'.directory x)) →
      (s.directory x).Serves read opens order (rustServe x read request s).2.Accepted
        ((rustServe x read request s).1.directory x) := by
    rintro r order hdecode ⟨s', response, hcomplete, hserves⟩
    rw [rustServe, hdecode]
    simp only [hcomplete]
    exact hserves
  have hunread : request.decode = none → (s.directory x).Serves read opens none
      (rustServe x read request s).2.Accepted ((rustServe x read request s).1.directory x) := by
    intro hdecode
    rw [rustServe, hdecode]
    exact .unread (not_accepted (by simp))
  cases request with
  | signup body =>
      cases hbody : SignupRequest.decode body with
      | none =>
          rw [rustOrder, hbody]
          exact hunread (by rw [ApiRequest.decode, hbody]; rfl)
      | some req =>
          rw [rustOrder, hbody] at hhash ⊢
          obtain ⟨hash, hhash, hopens⟩ := hhash _ _ _ rfl
          exact hanswered (by rw [ApiRequest.decode, hbody]; rfl) (complete_signup hhash hopens)
  | login body =>
      cases hbody : LoginRequest.decode body with
      | none =>
          rw [rustOrder, hbody]
          exact hunread (by rw [ApiRequest.decode, hbody]; rfl)
      | some req =>
          rw [rustOrder, hbody]
          exact hanswered (by rw [ApiRequest.decode, hbody]; rfl) (complete_login req)
  | verify token => exact hanswered rfl (complete_verify hs token)
  | register header body => exact hanswered rfl (complete_register hoff)
  | deregister header body => exact hanswered rfl (complete_deregister hoff)

end Rendezvous
