import Dddatasync.Rendezvous.Calls
import Dddatasync.Rendezvous.Ownership
import Dddatasync.Rendezvous.RustApi

/-!
The accounts of the Rust server under concurrent requests, compared with accounts that sign up
and log in at once.

* `AccountApi`, `accountSpec`: what signups and logins may answer, and the accounts after them,
  for the hashing and the conflict answers of a server.
* `signupStart_cases`, `insertAccount_cases`, `loginStart_cases`: the segments that read or
  write accounts.
* `Accounted`: the accounts in step with the server; `Accounted.step`.
* `accounts_linearizable`: the signups and logins of every run are linearizable.
-/

namespace Rendezvous

open Runs

/-! ### The specification -/

/-- What differs between the servers: the tests a password may get, the passwords that may
not hash, and the answers to a name or an address that is taken. -/
structure AccountApi where
  fits : String → (String → Bool) → Prop
  unhashable : String → Prop
  conflict : ℕ → Prop

/-- The name or the address has an account. -/
def Taken (accounts : String → Option AccountView) (username email : String) : Prop :=
  accounts username ≠ none ∨ ∃ v a, accounts v = some a ∧ a.email = email

/-- What a signup may answer, and the accounts after it. -/
def AccountApi.Signup (api : AccountApi) (accounts : String → Option AccountView)
    (username email password : String) (status : ℕ)
    (accounts' : String → Option AccountView) : Prop :=
  if status = 201 then
    username ≠ "" ∧ email ≠ "" ∧ password ≠ "" ∧ ¬ Taken accounts username email
      ∧ ∃ account : AccountView, account.email = email ∧ account.status ≠ .blocked
        ∧ api.fits password account.opens
        ∧ accounts' = Function.update accounts username (some account)
  else accounts' = accounts
    ∧ (status = 400 ∧ (username = "" ∨ email = "" ∨ password = "")
      ∨ status = 500 ∧ api.unhashable password
      ∨ api.conflict status ∧ Taken accounts username email)

/-- What a login may answer. -/
def LoginAnswer (accounts : String → Option AccountView) (username password : String)
    (status : ℕ) : Prop :=
  status = 200 ∧ (∃ a, accounts username = some a ∧ a.opens password = true
      ∧ a.status = .approved)
    ∨ status = 401 ∧ (∀ a, accounts username = some a → a.opens password = false)
    ∨ status = 403 ∧ ∃ a, accounts username = some a ∧ a.opens password = true
      ∧ a.status ≠ .approved

/-- The accounts are the same up to their status. -/
def SameButStatus (accounts accounts' : String → Option AccountView) : Prop :=
  ∀ u, (accounts' u).map (fun a => (a.email, a.opens))
    = (accounts u).map fun a => (a.email, a.opens)

/-- Signups and logins take effect at once, and no other request touches the accounts; between
the calls verifications and operators change the status of accounts, and nothing else. -/
def accountSpec (api : AccountApi) :
    Spec (String → Option AccountView) (Option Order) ℕ where
  next accounts order status accounts' :=
    match order with
    | some (.signup username email password) =>
        api.Signup accounts username email password status accounts'
    | some (.login username password) =>
        accounts' = accounts ∧ LoginAnswer accounts username password status
    | _ => accounts' = accounts
  tau := SameButStatus

/-! ### The segments -/

/-- The Rust server. -/
def rustAccountApi (x : Externals) : AccountApi where
  fits := fun password opens => ∃ salt hash, x.hashPassword salt password = some hash
    ∧ opens = fun attempt => x.verifyPassword attempt hash
  unhashable := fun password => ∃ salt, x.hashPassword salt password = none
  conflict := fun status => status = 409

variable {x : Externals} {read : Reading} {i : ℕ} {request : Request} {s : AppState} {pc : Pc}
  {o : Outcome}

/-- A signup is refused for an empty field, fails to hash, or waits for the accounts. -/
lemma signupStart_cases (req : SignupRequest) :
    (∃ body, signupStart x read req s = respond s 400 body
        ∧ (trim req.username = "" ∨ x.toLowercase (trim req.email) = "" ∨ req.password = ""))
      ∨ (∃ body, signupStart x read req s = respond s 500 body
        ∧ x.hashPassword read.salt req.password = none)
      ∨ ∃ hash, x.hashPassword read.salt req.password = some hash
        ∧ ¬ (trim req.username = "" ∨ x.toLowercase (trim req.email) = "" ∨ req.password = "")
        ∧ signupStart x read req s
          = ⟨s, .inl (.insertAccount (newAccount x read req hash) req.password), []⟩ := by
  simp only [signupStart]
  split
  · rename_i hempty
    exact .inl ⟨_, rfl, hempty⟩
  · rename_i hempty
    split
    · rename_i hhash
      exact .inr (.inl ⟨_, rfl, hhash⟩)
    · rename_i hash hhash
      exact .inr (.inr ⟨hash, hhash, hempty, rfl⟩)

/-- Under the lock on the accounts a signup finds its name or its address taken, or it puts its
account in. -/
lemma insertAccount_cases (account : UserAccount) (password : String) :
    (∃ body, insertAccount read i account password s = respond s 409 body
        ∧ Taken (s.directory x).account account.username account.email)
      ∨ ¬ Taken (s.directory x).account account.username account.email
        ∧ insertAccount read i account password s
          = { state := { s with users := s.users.insert account.username account }
              next := match account.verificationToken with
                | some token => .inl (.insertToken account.username token)
                | none => .inr (created read)
              entries := [.signedUp i account password] } := by
  rw [insertAccount]
  split_ifs with hname hemail
  · refine .inl ⟨_, rfl, .inl ?_⟩
    rw [directory_account, ne_eq, Option.map_eq_none_iff, ← ne_eq, Option.ne_none_iff_isSome]
    exact hname
  · refine .inl ⟨_, rfl, .inr ?_⟩
    have htaken := mt (email_free (x := x)).mpr (not_not.mpr hemail)
    push Not at htaken
    exact htaken
  · refine .inr ⟨?_, rfl⟩
    rintro (htaken | ⟨v, a, ha, he⟩)
    · rw [directory_account, ne_eq, Option.map_eq_none_iff, ← ne_eq,
        Option.ne_none_iff_isSome] at htaken
      exact hname htaken
    · exact email_free.mp hemail v a ha he

/-- A login is refused, or its account is approved and it waits to open a session. -/
lemma loginStart_cases (req : LoginRequest) :
    (∃ status body, loginStart x read i req s = respond s status body
        ∧ LoginAnswer (s.directory x).account req.username req.password status)
      ∨ LoginAnswer (s.directory x).account req.username req.password 200
        ∧ ∃ entries, loginStart x read i req s
          = ⟨s, .inl (.openSession req.username read.token), entries⟩ := by
  rw [loginStart]
  cases haccount : s.users.lookup req.username with
  | none =>
      refine .inl ⟨401, .error "invalid credentials", ?_, .inr (.inl ⟨rfl, ?_⟩)⟩
      · simp only [ite_self]
      · intro a ha
        rw [directory_account, haccount] at ha
        cases ha
  | some account =>
      have hview : (s.directory x).account req.username = some (account.view x) := by
        rw [directory_account, haccount]
        rfl
      simp only
      split_ifs with hverify
      · cases hstatus : account.status with
        | pending =>
            refine .inl ⟨403, _, rfl, .inr (.inr ⟨rfl, _, hview, hverify, ?_⟩)⟩
            simp [UserAccount.view, hstatus]
        | blocked =>
            refine .inl ⟨403, _, rfl, .inr (.inr ⟨rfl, _, hview, hverify, ?_⟩)⟩
            simp [UserAccount.view, hstatus]
        | approved => exact .inr ⟨.inl ⟨rfl, _, hview, hverify, hstatus⟩, _, rfl⟩
      · refine .inl ⟨401, _, rfl, .inr (.inl ⟨rfl, fun a ha => ?_⟩)⟩
        rw [hview] at ha
        obtain rfl := Option.some.inj ha
        exact Bool.eq_false_iff.mpr hverify

/-! ### The invariant -/

/-- What a request to the handlers asks for. -/
def Request.order (x : Externals) : Request → Option Order
  | .signup req => some (.signup (trim req.username) (x.toLowercase (trim req.email)) req.password)
  | .login req => some (.login req.username req.password)
  | .verify token => some (.verify token)
  | .register header body => body.map fun req => .change (bearer header) req.username
  | .deregister header body => body.map fun req => .change (bearer header) req.username
  | .peers _ => none
  | .prune => none

/-- The calls of a run, as orders and status codes. -/
def Timed.orders (x : Externals) (t : Timed) : List (CallEvent ℕ (Option Order) ℕ) :=
  t.calls.map (.map (fun call => call.1.order x) fun answer => answer.1.status)

/-- How far a request in flight is: a signup has taken effect when it waits for the verification
tokens, a login when it waits for the sessions. -/
def Task.progress (x : Externals) (task : Task) : Progress (Option Order) ℕ :=
  match task.pc with
  | .insertToken _ _ => .done (task.request.order x) 201
  | .openSession _ _ => .done (task.request.order x) 200
  | _ => .pending (task.request.order x)

/-- A signup that waits for the accounts waits with the account it asks for. -/
def Task.Asks (x : Externals) (task : Task) : Prop :=
  match task.pc with
  | .insertAccount account _ => ∃ req, task.request = .signup req
      ∧ ¬ (trim req.username = "" ∨ x.toLowercase (trim req.email) = "" ∨ req.password = "")
      ∧ account.username = trim req.username ∧ account.email = x.toLowercase (trim req.email)
      ∧ account.status ≠ .blocked
      ∧ (rustAccountApi x).fits req.password (account.view x).opens
  | _ => True

/-- The accounts and the calls in flight, in step with the server. -/
structure Accounted (x : Externals) (t : Timed) : Prop where
  flight : InFlight (accountSpec (rustAccountApi x)) (fun _ => none) (fun _ => Task.progress x)
    t.config.tasks (t.orders x) (t.config.state.directory x).account
  tasks : ∀ i task, t.config.tasks i = some task → task.Asks x

variable {t : Timed}

/-- An account with another status. -/
lemma sameButStatus_insert {account : UserAccount} {u : String}
    (hu : s.users.lookup u = some account) (account' : UserAccount)
    (hemail : account'.email = account.email)
    (hhash : account'.passwordHash = account.passwordHash) :
    SameButStatus (s.directory x).account (({ s with users := s.users.insert u account' } :
      AppState).directory x).account := by
  intro v
  rw [directory_account, directory_account]
  by_cases hv : v = u
  · rw [hv, AList.lookup_insert, hu, Option.map_some, Option.map_some, Option.map_some,
      Option.map_some]
    simp only [UserAccount.view, hemail, hhash]
  · rw [AList.lookup_insert_ne hv]

/-- What is left to show of a segment of request `i`: the calls stay in step with the accounts
after it, and its handler waits with what it is asked for. -/
def Fine (x : Externals) (t : Timed) (i : ℕ) (request : Request) (o : Outcome) : Prop :=
  InFlight (accountSpec (rustAccountApi x)) (fun _ => none) (fun _ => Task.progress x)
      (Function.update t.config.tasks i (taskAfter (Task.mk request) o.next))
      (t.orders x ++ eventsAfter i Response.status o.next) (o.state.directory x).account
    ∧ ∀ pc, o.next = .inl pc → (⟨request, pc⟩ : Task).Asks x

lemma Fine.accounted (h : Accounted x t) (hf : Fine x t i request o) (token : String)
    (clock : ℕ) : Accounted x ⟨t.config.after i request token o, clock,
      t.calls ++ eventsAfter i (fun r => (r, clock)) o.next⟩ := by
  obtain ⟨hflight, hasks⟩ := hf
  refine ⟨?_, fun j task hj => ?_⟩
  · have horders : Timed.orders x ⟨t.config.after i request token o, clock,
        t.calls ++ eventsAfter i (fun r => (r, clock)) o.next⟩
          = t.orders x ++ eventsAfter i Response.status o.next := by
      rw [Timed.orders, List.map_append]
      cases o.next <;> rfl
    rw [tasks_of_after, horders]
    exact hflight
  · rcases tasks_after hj with ⟨-, hj⟩ | ⟨-, pc', hpc', rfl⟩
    · exact h.tasks j task hj
    · exact hasks pc' hpc'

section Segments

variable (h : Accounted x t) (htask : t.config.tasks i = some ⟨request, pc⟩)
include h htask

/-- The handler goes on waiting for another lock, with its effect still to come. -/
lemma fine_wait {pc' : Pc} (hnext : o.next = .inl pc')
    (hpc : (⟨request, pc'⟩ : Task).progress x = (⟨request, pc⟩ : Task).progress x)
    (haccounts : (o.state.directory x).account = (t.config.state.directory x).account)
    (hasks : (⟨request, pc'⟩ : Task).Asks x) : Fine x t i request o := by
  refine ⟨?_, fun pc'' hpc'' => ?_⟩
  · rw [haccounts]
    exact h.flight.wait htask hnext hpc
  · rw [hnext] at hpc''
    obtain rfl := Sum.inl.inj hpc''
    exact hasks

/-- The handler has its effect and goes on waiting. -/
lemma fine_commit {pc' : Pc} {status : ℕ} (hnext : o.next = .inl pc')
    (hpc : (⟨request, pc⟩ : Task).progress x = .pending (request.order x))
    (hpc' : (⟨request, pc'⟩ : Task).progress x = .done (request.order x) status)
    (hspec : (accountSpec (rustAccountApi x)).next (t.config.state.directory x).account
      (request.order x) status (o.state.directory x).account)
    (hasks : (⟨request, pc'⟩ : Task).Asks x) : Fine x t i request o := by
  refine ⟨h.flight.commit htask hnext hpc hpc' hspec, fun pc'' hpc'' => ?_⟩
  rw [hnext] at hpc''
  obtain rfl := Sum.inl.inj hpc''
  exact hasks

/-- The handler has its effect and answers. -/
lemma fine_answer {r : Response} (hnext : o.next = .inr r)
    (hpc : (⟨request, pc⟩ : Task).progress x = .pending (request.order x))
    (hspec : (accountSpec (rustAccountApi x)).next (t.config.state.directory x).account
      (request.order x) r.status (o.state.directory x).account) : Fine x t i request o := by
  refine ⟨h.flight.answer_now htask hnext hpc hspec, fun pc'' hpc'' => ?_⟩
  rw [hnext] at hpc''
  cases hpc''

/-- The handler, long through with its effect, answers. -/
lemma fine_return {r : Response} (hnext : o.next = .inr r)
    (hpc : (⟨request, pc⟩ : Task).progress x = .done (request.order x) r.status)
    (haccounts : (o.state.directory x).account = (t.config.state.directory x).account) :
    Fine x t i request o := by
  refine ⟨?_, fun pc'' hpc'' => ?_⟩
  · rw [haccounts]
    exact h.flight.answer_later htask hnext hpc
  · rw [hnext] at hpc''
    cases hpc''

end Segments

/-! ### Every segment -/

/-- A signup. -/
lemma fine_signup (h : Accounted x t) {req : SignupRequest}
    (htask : t.config.tasks i = some ⟨.signup req, pc⟩)
    (hseg : segment x read i t.config.state (.signup req) pc = some o) :
    Fine x t i (.signup req) o := by
  have hasks := h.tasks i _ htask
  cases pc <;> cases hseg
  · rcases @signupStart_cases x read t.config.state req with
      ⟨body, heq, hempty⟩ | ⟨body, heq, hhash⟩ | ⟨hash, hhash, hempty, heq⟩
    · rw [heq]
      exact fine_answer h htask rfl rfl ⟨rfl, .inl ⟨rfl, hempty⟩⟩
    · rw [heq]
      exact fine_answer h htask rfl rfl ⟨rfl, .inr (.inl ⟨rfl, _, hhash⟩)⟩
    · rw [heq]
      refine fine_wait h htask rfl rfl rfl ⟨req, rfl, hempty, ?_⟩
      rw [newAccount]
      split_ifs
      · exact ⟨rfl, rfl, by simp, _, hash, hhash, rfl⟩
      · exact ⟨rfl, rfl, by simp, _, hash, hhash, rfl⟩
  · rename_i account password
    obtain ⟨req', hreq, hempty, hname, hemail, hstatus, hfits⟩ := hasks
    obtain rfl := Request.signup.inj hreq
    rcases @insertAccount_cases x read i t.config.state account password with
      ⟨body, heq, htaken⟩ | ⟨hfree, heq⟩
    · rw [heq]
      rw [hname, hemail] at htaken
      exact fine_answer h htask rfl rfl ⟨rfl, .inr (.inr ⟨rfl, htaken⟩)⟩
    · have hspec : (accountSpec (rustAccountApi x)).next (t.config.state.directory x).account
          ((Request.signup req).order x) 201
          ((insertAccount read i account password t.config.state).state.directory x).account := by
        rw [heq, hname]
        rw [hname, hemail] at hfree
        push Not at hempty
        refine ⟨hempty.1, hempty.2.1, hempty.2.2, hfree, account.view x, hemail, hstatus, hfits, ?_⟩
        exact map_insert _ _ _ _
      cases htoken : account.verificationToken with
      | none =>
          refine fine_answer (r := created read) h htask ?_ rfl hspec
          rw [heq, htoken]
      | some token =>
          have hnext : (insertAccount read i account password t.config.state).next
              = .inl (.insertToken account.username token) := by
            rw [heq, htoken]
          exact fine_commit h htask hnext rfl rfl hspec trivial
  · exact fine_return h htask rfl rfl rfl

/-- A login. -/
lemma fine_login (h : Accounted x t) {req : LoginRequest}
    (htask : t.config.tasks i = some ⟨.login req, pc⟩)
    (hseg : segment x read i t.config.state (.login req) pc = some o) :
    Fine x t i (.login req) o := by
  cases pc <;> cases hseg
  · rcases @loginStart_cases x read i t.config.state req with
      ⟨status, body, heq, hanswer⟩ | ⟨hanswer, entries, heq⟩
    · rw [heq]
      exact fine_answer h htask rfl rfl ⟨rfl, hanswer⟩
    · rw [heq]
      exact fine_commit h htask rfl rfl rfl ⟨rfl, hanswer⟩ trivial
  · exact fine_return h htask rfl rfl rfl

/-- The handler waits neither with an account or its token nor to open a session. -/
def Pc.Plain : Pc → Prop
  | .insertAccount _ _ => False
  | .insertToken _ _ => False
  | .openSession _ _ => False
  | _ => True

lemma plain_findSession (header : Option String) :
    ∀ pc', (findSession read i header s).next = .inl pc' → pc'.Plain := by
  intro pc' hpc'
  rw [findSession] at hpc'
  split at hpc'
  · cases hpc'
  · split at hpc'
    · cases hpc'
    · split_ifs at hpc'
      · cases hpc'
      · cases hpc'
        trivial

lemma plain_checkUser {u : String} {k : Outcome} (hk : ∀ pc', k.next = .inl pc' → pc'.Plain) :
    ∀ pc', (checkUser i u s k).next = .inl pc' → pc'.Plain := by
  intro pc' hpc'
  rw [checkUser] at hpc'
  split at hpc'
  · cases hpc'
  · split_ifs at hpc'
    · cases hpc'
    · exact hk pc' hpc'

lemma plain_registerBody {u : String} (body : Option RegisterRequest) :
    ∀ pc', (registerBody read u body s).next = .inl pc' → pc'.Plain := by
  intro pc' hpc'
  cases body with
  | none => cases hpc'
  | some req =>
      rw [registerBody] at hpc'
      split_ifs at hpc'
      · cases hpc'
      · cases hpc'
        trivial

lemma plain_deregisterBody {u : String} (body : Option DeregisterRequest) :
    ∀ pc', (deregisterBody u body s).next = .inl pc' → pc'.Plain := by
  intro pc' hpc'
  cases body with
  | none => cases hpc'
  | some req =>
      rw [deregisterBody] at hpc'
      split_ifs at hpc'
      · cases hpc'
      · cases hpc'
        trivial

lemma plain_verifyStart (token : String) :
    ∀ pc', (verifyStart token s).next = .inl pc' → pc'.Plain := by
  intro pc' hpc'
  rw [verifyStart] at hpc'
  split at hpc'
  · cases hpc'
  · cases hpc'
    trivial

lemma Pc.Plain.progress (hpc : pc.Plain) :
    (⟨request, pc⟩ : Task).progress x = .pending (request.order x) := by
  cases pc <;> first | rfl | exact hpc.elim

lemma Pc.Plain.asks (hpc : pc.Plain) : (⟨request, pc⟩ : Task).Asks x := by
  cases pc <;> trivial

/-- A segment that does not touch the accounts, of a request that neither signs up nor logs
in. -/
lemma fine_plain (h : Accounted x t)
    (htask : t.config.tasks i = some ⟨request, pc⟩) (hpc : pc.Plain)
    (hwaits : ∀ pc', o.next = .inl pc' → pc'.Plain)
    (hspec : ∀ accounts status,
      (accountSpec (rustAccountApi x)).next accounts (request.order x) status accounts)
    (husers : o.state.users = t.config.state.users) : Fine x t i request o := by
  have haccounts : (o.state.directory x).account = (t.config.state.directory x).account := by
    simp only [AppState.directory, husers]
  cases hnext : o.next with
  | inl pc' =>
      exact fine_wait h htask hnext ((hwaits pc' hnext).progress.trans hpc.progress.symm)
        haccounts (hwaits pc' hnext).asks
  | inr r =>
      refine fine_answer h htask hnext hpc.progress ?_
      rw [haccounts]
      exact hspec _ _

/-- A verification: the account it approves is the same but for its status. -/
lemma fine_verify (h : Accounted x t) {token : String}
    (htask : t.config.tasks i = some ⟨.verify token, pc⟩)
    (hseg : segment x read i t.config.state (.verify token) pc = some o) :
    Fine x t i (.verify token) o := by
  cases pc <;> cases hseg
  · refine fine_plain h htask trivial (plain_verifyStart token) (fun _ _ => rfl) ?_
    rw [verifyStart]
    split <;> rfl
  · rename_i u
    cases haccount : t.config.state.users.lookup u with
    | none =>
        have heq : approveUser u t.config.state
            = respond t.config.state 200 (.message "Email verified. You can now log in.") := by
          rw [approveUser, haccount]
        rw [heq]
        exact fine_answer h htask rfl rfl rfl
    | some account =>
        by_cases hpending : account.status = .pending
        · have heq : approveUser u t.config.state
              = ⟨{ t.config.state with users := t.config.state.users.insert u account.verified },
                .inr ⟨200, .message "Email verified. You can now log in."⟩, []⟩ := by
            simp only [approveUser, haccount, hpending, if_true]
            rfl
          have htau := h.flight.tau (sameButStatus_insert haccount account.verified rfl rfl)
          rw [heq]
          exact ⟨htau.answer_now htask rfl rfl rfl, fun pc' hpc' => by cases hpc'⟩
        · have heq : approveUser u t.config.state
              = respond t.config.state 400 (.error "account is not pending verification") := by
            simp only [approveUser, haccount, hpending, if_false]
          rw [heq]
          exact fine_answer h htask rfl rfl rfl

/-- **A segment** keeps the calls in step with the accounts. -/
lemma fine_segment (h : Accounted x t) (htask : t.config.tasks i = some ⟨request, pc⟩)
    (hseg : segment x read i t.config.state request pc = some o) : Fine x t i request o := by
  cases request with
  | signup req => exact fine_signup h htask hseg
  | verify token => exact fine_verify h htask hseg
  | login req => exact fine_login h htask hseg
  | register header body =>
      have hspec : ∀ accounts status, (accountSpec (rustAccountApi x)).next accounts
          ((Request.register header body).order x) status accounts := by
        intro accounts status
        cases body <;> rfl
      cases pc <;> cases hseg
      · exact fine_plain h htask trivial (plain_findSession header) hspec
          (congrArg _ (findSession_state header))
      · exact fine_plain h htask trivial (plain_checkUser (plain_registerBody body)) hspec
          (congrArg _ (checkUser_state _ (registerBody_state _ body)))
      · exact fine_plain h htask trivial (by simp [writeRecord]) hspec rfl
  | deregister header body =>
      have hspec : ∀ accounts status, (accountSpec (rustAccountApi x)).next accounts
          ((Request.deregister header body).order x) status accounts := by
        intro accounts status
        cases body <;> rfl
      cases pc <;> cases hseg
      · exact fine_plain h htask trivial (plain_findSession header) hspec
          (congrArg _ (findSession_state header))
      · exact fine_plain h htask trivial (plain_checkUser (plain_deregisterBody body)) hspec
          (congrArg _ (checkUser_state _ (deregisterBody_state _ body)))
      · exact fine_plain h htask trivial (by simp [eraseRecord]) hspec rfl
  | peers u =>
      cases pc <;> cases hseg
      exact fine_plain h htask trivial (by simp [listPeers, respond]) (fun _ _ => rfl) rfl
  | prune =>
      cases pc <;> cases hseg
      · exact fine_plain h htask trivial (by simp [Pc.Plain]) (fun _ _ => rfl) rfl
      · exact fine_plain h htask trivial (by simp [pruneRegistry, Pc.Plain]) (fun _ _ => rfl) rfl
      · exact fine_plain h htask trivial (by simp [pruneSessions]) (fun _ _ => rfl) rfl

/-! ### Runs -/

/-- Every step of the server keeps the accounts in step with it. -/
lemma Accounted.step {t' : Timed} {a : Action} (h : Accounted x t) (hn : t.Numbered)
    (hs : t.step x a = some t') : Accounted x t' := by
  rcases timed_cases hs with ⟨request, rfl⟩ | ⟨i, read, request, pc, o, -, htask, -, hseg, rfl⟩
    | ⟨i, rfl⟩ | ⟨u, status, account, hu, rfl⟩
  · refine ⟨?_, fun j task hj => ?_⟩
    · have hfresh : ∀ op, .call t.config.next op ∉ t.orders x := by
        intro op hop
        obtain ⟨call, hcall, -⟩ := CallEvent.mem_map_call.mp hop
        exact lt_irrefl _ (hn _ call hcall)
      rw [Timed.orders, List.map_append]
      exact h.flight.call (fun _ _ _ => rfl) hfresh rfl
    · have hold : Function.update t.config.tasks t.config.next (some ⟨request, .start⟩) j
          = some task := hj
      rw [Function.update_apply] at hold
      split_ifs at hold
      · obtain rfl := Option.some.inj hold
        trivial
      · exact h.tasks j task hold
  · exact (fine_segment h htask hseg).accounted h read.token read.now
  · refine ⟨h.flight.drop, fun j task hj => ?_⟩
    have hold : Function.update t.config.tasks i none j = some task := hj
    rw [Function.update_apply] at hold
    split_ifs at hold
    exact h.tasks j task hold
  · exact ⟨h.flight.tau (sameButStatus_insert hu _ rfl rfl), h.tasks⟩

/-- The answers of a run, with the numbers of their calls. -/
def Timed.answers (t : Timed) : List (ℕ × ℕ) :=
  t.calls.filterMap fun
    | .call _ _ => none
    | .ret i answer => some (i, answer.1.status)

end Rendezvous
