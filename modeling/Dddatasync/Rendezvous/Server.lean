import Dddatasync.Library.Runs
import Dddatasync.Rendezvous.Registry

/-!
The rendezvous server of `rendezvous/src/main.rs` at lock granularity: one step is what a
handler does while it holds one lock, together with the code up to its next `await`.

* `AppState`: the four stores; `Request`, `Response`: what comes in and goes out.
* One definition for each segment of a handler: `signupStart`, `insertAccount`,
  `insertToken`; `verifyStart`, `approveUser`; `loginStart`, `openSession`;
  `findSession` and `checkUser` (`authenticate`); `writeRecord`; `eraseRecord`;
  `listPeers`; `pruneRegistry`, `pruneSessions`.
* `Config`, `step`: any number of requests in flight, dropped connections and an operator
  who changes account states; `Entry` is the history the results speak about, which no
  handler reads.
* `findSession_state`, `insertAccount_registry` and their companions: the stores a segment
  does not touch; `step_cases`: the four kinds of step.
-/

namespace Rendezvous

/-! ### Data -/

/-- `SESSION_TTL_SECS`. -/
def sessionTtlSecs : ℕ := 86400

/-- `AccountStatus`. -/
inductive AccountStatus where
  | pending
  | approved
  | blocked
  deriving DecidableEq, Repr

/-- `UserAccount`. -/
structure UserAccount where
  username : String
  email : String
  passwordHash : String
  status : AccountStatus
  verificationToken : Option String
  deriving DecidableEq, Repr

/-- `SessionRecord`. -/
structure SessionRecord where
  username : String
  expiresAt : ℕ
  deriving DecidableEq, Repr

/-- `AppState`: the registry, the accounts, the sessions by token, and the usernames by
verification token. -/
structure AppState where
  registry : Registry
  users : AssocMap String UserAccount
  sessions : AssocMap String SessionRecord
  verifyTokens : AssocMap String String

/-- `SignupRequest`. -/
structure SignupRequest where
  username : String
  email : String
  password : String
  deriving DecidableEq, Repr

/-- `LoginRequest`. -/
structure LoginRequest where
  username : String
  password : String
  deriving DecidableEq, Repr

/-- `RegisterRequest`. -/
structure RegisterRequest where
  username : String
  nodeId : String
  addrs : List String
  relayUrl : Option String
  deriving DecidableEq, Repr

/-- `DeregisterRequest`. -/
structure DeregisterRequest where
  username : String
  nodeId : String
  deriving DecidableEq, Repr

/-- A request as its handler gets it: a `header` is the text of the authorization header, a
body is `none` when it does not decode.  `prune` is one round of `prune_task`. -/
inductive Request where
  | signup (req : SignupRequest)
  | verify (token : String)
  | login (req : LoginRequest)
  | register (header : Option String) (body : Option RegisterRequest)
  | deregister (header : Option String) (body : Option DeregisterRequest)
  | peers (username : String)
  | prune
  deriving DecidableEq, Repr

/-- The body of an answer. -/
inductive Body where
  | empty
  | error (text : String)
  | message (text : String)
  | token (token : String)
  | peers (peers : List PeerRecord)
  deriving DecidableEq, Repr

/-- A status code and a body. -/
structure Response where
  status : ℕ
  body : Body
  deriving DecidableEq, Repr

/-- What the server calls outside its own code: Argon2 with the salt made explicit, the
hash verified for unknown users, and `str::to_lowercase`. -/
structure Externals where
  hashPassword : String → String → Option String
  verifyPassword : String → String → Bool
  dummyHash : String
  toLowercase : String → String

/-- What one step reads from outside: the clock, a random token, a random salt and
`AUTO_APPROVE_USERS`. -/
structure Reading where
  now : ℕ := 0
  token : String
  salt : String := ""
  autoApprove : Bool := false

/-! ### Handlers -/

/-- Where a handler waits for a lock, with its local variables. -/
inductive Pc where
  | start
  | insertAccount (account : UserAccount) (password : String)
  | insertToken (username token : String)
  | approveUser (username : String)
  | openSession (username token : String)
  | checkUser (username : String)
  | writeRecord (username : String) (record : PeerRecord)
  | eraseRecord (username nodeId : String)
  | pruneRegistry (now : ℕ)
  | pruneSessions (now : ℕ)
  deriving DecidableEq, Repr

/-- An entry of the history: request `i` arrived, signed an account up with a password,
read an account at login, issued a token, found a session, checked the account behind it,
wrote or erased a record, or was answered. -/
inductive Entry where
  | arrived (i : ℕ) (request : Request)
  | signedUp (i : ℕ) (account : UserAccount) (password : String)
  | loginRead (i : ℕ) (attempt : LoginRequest) (account : UserAccount)
  | issued (i : ℕ) (username token : String) (now : ℕ)
  | found (i : ℕ) (token : String) (session : SessionRecord) (now : ℕ)
  | checked (i : ℕ) (username : String) (account : UserAccount)
  | wrote (i : ℕ) (username : String) (record : PeerRecord)
  | erased (i : ℕ) (username nodeId : String)
  | responded (i : ℕ) (response : Response)
  deriving DecidableEq, Repr

/-- What a segment does: the stores after it, where the handler waits next or its answer,
and the entries for the history. -/
structure Outcome where
  state : AppState
  next : Pc ⊕ Response
  entries : List Entry := []

/-- The entries a segment of request `i` adds to the history. -/
def Outcome.history (i : ℕ) (o : Outcome) : List Entry :=
  match o.next with
  | .inl _ => o.entries
  | .inr response => o.entries ++ [.responded i response]

/-- The handler answers and the stores stay as they are. -/
def respond (s : AppState) (status : ℕ) (body : Body) : Outcome := ⟨s, .inr ⟨status, body⟩, []⟩

/-- The characters `str::trim` takes off. -/
def isWhitespace (c : Char) : Bool :=
  [0x9, 0xA, 0xB, 0xC, 0xD, 0x20, 0x85, 0xA0, 0x1680, 0x2000, 0x2001, 0x2002, 0x2003, 0x2004,
    0x2005, 0x2006, 0x2007, 0x2008, 0x2009, 0x200A, 0x2028, 0x2029, 0x202F, 0x205F,
    0x3000].contains c.toNat

/-- `str::trim`. -/
def trim (s : String) : String :=
  String.ofList (((s.toList.dropWhile isWhitespace).reverse.dropWhile isWhitespace).reverse)

/-- `handle_signup` up to the lock on the accounts. -/
def signupStart (x : Externals) (read : Reading) (req : SignupRequest) (s : AppState) :
    Outcome :=
  let username := trim req.username
  let email := x.toLowercase (trim req.email)
  if username = "" ∨ email = "" ∨ req.password = "" then
    respond s 400 (.error "username, email, and password must be non-empty")
  else
    match x.hashPassword read.salt req.password with
    | none => respond s 500 (.error "internal error")
    | some hash =>
        let account : UserAccount :=
          if read.autoApprove then ⟨username, email, hash, .approved, none⟩
          else ⟨username, email, hash, .pending, some read.token⟩
        { state := s, next := .inl (.insertAccount account req.password) }

/-- The answer of a successful signup. -/
def created (read : Reading) : Response :=
  ⟨201, .message (if read.autoApprove then "Account created. You can now log in."
    else "Account created. Please check your email to verify your address.")⟩

/-- `handle_signup` under the lock on the accounts. -/
def insertAccount (read : Reading) (i : ℕ) (account : UserAccount) (password : String)
    (s : AppState) : Outcome :=
  if (s.users.lookup account.username).isSome then
    respond s 409 (.error "username already taken")
  else if (s.users.entries.any fun e => e.2.email = account.email) then
    respond s 409 (.error "email already registered")
  else
    { state := { s with users := s.users.insert account.username account }
      next := match account.verificationToken with
        | some token => .inl (.insertToken account.username token)
        | none => .inr (created read)
      entries := [.signedUp i account password] }

/-- `handle_signup` under the lock on the verification tokens. -/
def insertToken (read : Reading) (username token : String) (s : AppState) : Outcome :=
  { state := { s with verifyTokens := s.verifyTokens.insert token username }
    next := .inr (created read) }

/-- `handle_verify` under the lock on the verification tokens. -/
def verifyStart (token : String) (s : AppState) : Outcome :=
  match s.verifyTokens.lookup token with
  | none => respond s 404 (.error "invalid or expired verification token")
  | some username =>
      { state := { s with verifyTokens := s.verifyTokens.erase token }
        next := .inl (.approveUser username) }

/-- `handle_verify` under the lock on the accounts. -/
def approveUser (username : String) (s : AppState) : Outcome :=
  let verified : Body := .message "Email verified. You can now log in."
  match s.users.lookup username with
  | none => respond s 200 verified
  | some account =>
      if account.status = .pending then
        let account' := { account with status := .approved, verificationToken := none }
        { state := { s with users := s.users.insert username account' }
          next := .inr ⟨200, verified⟩ }
      else respond s 400 (.error "account is not pending verification")

/-- `handle_login` up to the lock on the sessions. -/
def loginStart (x : Externals) (read : Reading) (i : ℕ) (req : LoginRequest) (s : AppState) :
    Outcome :=
  let invalid := respond s 401 (.error "invalid credentials")
  match s.users.lookup req.username with
  -- Argon2 runs on the dummy hash, whatever it says the login fails
  | none => if x.verifyPassword req.password x.dummyHash then invalid else invalid
  | some account =>
      if x.verifyPassword req.password account.passwordHash then
        match account.status with
        | .pending =>
            respond s 403 (.error "account pending email verification — check your inbox")
        | .blocked => respond s 403 (.error "account blocked")
        | .approved =>
            { state := s
              next := .inl (.openSession req.username read.token)
              entries := [.loginRead i req account] }
      else invalid

/-- `handle_login` under the lock on the sessions. -/
def openSession (read : Reading) (i : ℕ) (username token : String) (s : AppState) : Outcome :=
  { state := { s with sessions :=
      s.sessions.insert token ⟨username, read.now + sessionTtlSecs⟩ }
    next := .inr ⟨200, .token token⟩
    entries := [.issued i username token read.now] }

/-- `strip_prefix("Bearer ")`. -/
def bearer (header : Option String) : Option String :=
  header.bind fun v =>
    if "Bearer ".toList <+: v.toList then some (String.ofList (v.toList.drop 7)) else none

/-- `authenticate` under the lock on the sessions. -/
def findSession (read : Reading) (i : ℕ) (header : Option String) (s : AppState) : Outcome :=
  match bearer header with
  | none => respond s 401 .empty
  | some token =>
      match s.sessions.lookup token with
      | none => respond s 401 .empty
      | some session =>
          if session.expiresAt < read.now then respond s 401 .empty
          else
            { state := s
              next := .inl (.checkUser session.username)
              entries := [.found i token session read.now] }

/-- `authenticate` under the lock on the accounts; `k` is what the handler does with the
username. -/
def checkUser (i : ℕ) (username : String) (s : AppState) (k : Outcome) : Outcome :=
  match s.users.lookup username with
  | none => respond s 401 .empty
  | some account =>
      if account.status ≠ .approved then respond s 403 .empty
      else { k with entries := .checked i username account :: k.entries }

/-- `handle_register` between `authenticate` and the lock on the registry. -/
def registerBody (read : Reading) (username : String) (body : Option RegisterRequest)
    (s : AppState) : Outcome :=
  match body with
  | none => respond s 400 .empty
  | some req =>
      if req.username ≠ username then respond s 403 .empty
      else
        { state := s
          next := .inl (.writeRecord req.username
            ⟨req.nodeId, req.addrs, req.relayUrl, read.now⟩) }

/-- `handle_register` under the lock on the registry. -/
def writeRecord (i : ℕ) (username : String) (record : PeerRecord) (s : AppState) : Outcome :=
  { state := { s with registry := s.registry.register username record }
    next := .inr ⟨200, .empty⟩
    entries := [.wrote i username record] }

/-- `handle_deregister` between `authenticate` and the lock on the registry. -/
def deregisterBody (username : String) (body : Option DeregisterRequest) (s : AppState) :
    Outcome :=
  match body with
  | none => respond s 400 .empty
  | some req =>
      if req.username ≠ username then respond s 403 .empty
      else { state := s, next := .inl (.eraseRecord req.username req.nodeId) }

/-- `handle_deregister` under the lock on the registry. -/
def eraseRecord (i : ℕ) (username nodeId : String) (s : AppState) : Outcome :=
  { state := { s with registry := s.registry.deregister username nodeId }
    next := .inr ⟨200, .empty⟩
    entries := [.erased i username nodeId] }

/-- `handle_peers`. -/
def listPeers (read : Reading) (username : String) (s : AppState) : Outcome :=
  respond s 200 (.peers (s.registry.peers username read.now))

/-- `prune_task` under the lock on the registry; it reads the clock before and after. -/
def pruneRegistry (read : Reading) (now : ℕ) (s : AppState) : Outcome :=
  { state := { s with registry := s.registry.prune now }
    next := .inl (.pruneSessions read.now) }

/-- `prune_task` under the lock on the sessions. -/
def pruneSessions (now : ℕ) (s : AppState) : Outcome :=
  let retained := AssocMap.filterMap
    (fun _ session => if now < session.expiresAt then some session else none) s.sessions
  { state := { s with sessions := retained }
    next := .inr ⟨200, .empty⟩ }

/-! ### The server -/

/-- A request in flight. -/
structure Task where
  request : Request
  pc : Pc
  deriving DecidableEq, Repr

/-- The bearer token a request carries. -/
def Request.token : Request → Option String
  | .register header _ => bearer header
  | .deregister header _ => bearer header
  | _ => none

/-- The next segment of a request in flight. -/
def segment (x : Externals) (read : Reading) (i : ℕ) (s : AppState) : Request → Pc → Option Outcome
  | .signup req, .start => some (signupStart x read req s)
  | .signup _, .insertAccount account password => some (insertAccount read i account password s)
  | .signup _, .insertToken username token => some (insertToken read username token s)
  | .verify token, .start => some (verifyStart token s)
  | .verify _, .approveUser username => some (approveUser username s)
  | .login req, .start => some (loginStart x read i req s)
  | .login _, .openSession username token => some (openSession read i username token s)
  | .register header _, .start => some (findSession read i header s)
  | .register _ body, .checkUser username =>
      some (checkUser i username s (registerBody read username body s))
  | .register _ _, .writeRecord username record => some (writeRecord i username record s)
  | .deregister header _, .start => some (findSession read i header s)
  | .deregister _ body, .checkUser username =>
      some (checkUser i username s (deregisterBody username body s))
  | .deregister _ _, .eraseRecord username nodeId => some (eraseRecord i username nodeId s)
  | .peers username, .start => some (listPeers read username s)
  | .prune, .start => some { state := s, next := .inl (.pruneRegistry read.now) }
  | .prune, .pruneRegistry now => some (pruneRegistry read now s)
  | .prune, .pruneSessions now => some (pruneSessions now s)
  | _, _ => none

/-- The server with its requests in flight, the tokens generated so far and the history. -/
structure Config where
  state : AppState
  tasks : ℕ → Option Task
  next : ℕ
  generated : List String
  log : List Entry

/-- An action of the outside world: a request arrives, the scheduler lets a handler run, a
connection is dropped, an operator sets the status of an account. -/
inductive Action where
  | arrive (request : Request)
  | run (i : ℕ) (read : Reading)
  | drop (i : ℕ)
  | setStatus (username : String) (status : AccountStatus)

/-- The account with another status. -/
def UserAccount.withStatus (account : UserAccount) (status : AccountStatus) : UserAccount :=
  { account with status }

/-- The server after a segment of request `i`. -/
def Config.after (c : Config) (i : ℕ) (request : Request) (token : String) (o : Outcome) :
    Config where
  state := o.state
  tasks := Function.update c.tasks i (match o.next with
    | .inl pc => some ⟨request, pc⟩
    | .inr _ => none)
  next := c.next
  generated := token :: c.generated
  log := c.log ++ o.history i

/-- One step; `generate_token` never returns a token twice. -/
def step (x : Externals) (c : Config) : Action → Option Config
  | .arrive request => some { c with
      tasks := Function.update c.tasks c.next (some ⟨request, .start⟩)
      next := c.next + 1
      log := c.log ++ [.arrived c.next request] }
  | .run i read =>
      match c.tasks i with
      | none => none
      | some task =>
          if read.token ∈ c.generated then none
          else (segment x read i c.state task.request task.pc).map
            (c.after i task.request read.token)
  | .drop i => some { c with tasks := Function.update c.tasks i none }
  | .setStatus username status =>
      match c.state.users.lookup username with
      | none => none
      | some account => some { c with state := { c.state with
          users := c.state.users.insert username (account.withStatus status) } }

/-- `make_state`, with nothing in flight. -/
def start : Config := ⟨⟨∅, ∅, ∅, ∅⟩, fun _ => none, 0, [], []⟩

/-! ### What the segments leave alone -/

variable {x : Externals} {read : Reading} {i : ℕ} {s : AppState}

/-- Up to the first lock on a store a signup changes nothing. -/
@[simp]
lemma signupStart_state (req : SignupRequest) : (signupStart x read req s).state = s := by
  simp only [signupStart]
  split
  · rfl
  · split <;> rfl

@[simp]
lemma loginStart_state (req : LoginRequest) : (loginStart x read i req s).state = s := by
  rw [loginStart]
  split
  · split_ifs <;> rfl
  · split_ifs
    · split <;> rfl
    · rfl

/-- Looking up a token changes nothing. -/
@[simp]
lemma findSession_state (header : Option String) : (findSession read i header s).state = s := by
  rw [findSession]
  split
  · rfl
  · split
    · rfl
    · split_ifs <;> rfl

/-- `authenticate` changes nothing the rest of the handler does not change. -/
lemma checkUser_state {k : Outcome} (u : String) (hk : k.state = s) :
    (checkUser i u s k).state = s := by
  rw [checkUser]
  split
  · rfl
  · split_ifs
    · rfl
    · exact hk

@[simp]
lemma registerBody_state (u : String) (body : Option RegisterRequest) :
    (registerBody read u body s).state = s := by
  cases body with
  | none => rfl
  | some req =>
      rw [registerBody]
      split_ifs <;> rfl

@[simp]
lemma deregisterBody_state (u : String) (body : Option DeregisterRequest) :
    (deregisterBody u body s).state = s := by
  cases body with
  | none => rfl
  | some req =>
      rw [deregisterBody]
      split_ifs <;> rfl

/-- The account handlers leave the registry alone. -/
lemma insertAccount_registry (account : UserAccount) (password : String) :
    (insertAccount read i account password s).state.registry = s.registry := by
  rw [insertAccount]
  split_ifs <;> rfl

lemma verifyStart_registry (token : String) :
    (verifyStart token s).state.registry = s.registry := by
  rw [verifyStart]
  split <;> rfl

lemma approveUser_registry (u : String) :
    (approveUser u s).state.registry = s.registry := by
  simp only [approveUser]
  split
  · rfl
  · split_ifs <;> rfl

/-- What a step is: a request arrives, a segment of one in flight runs, one is dropped, or
an operator sets a status. -/
lemma step_cases {c c' : Config} {a : Action} (hs : step x c a = some c') :
    (∃ request, a = .arrive request ∧ c' = { c with
        tasks := Function.update c.tasks c.next (some ⟨request, .start⟩)
        next := c.next + 1
        log := c.log ++ [.arrived c.next request] })
      ∨ (∃ i read request pc o, a = .run i read ∧ c.tasks i = some ⟨request, pc⟩
          ∧ read.token ∉ c.generated ∧ segment x read i c.state request pc = some o
          ∧ c' = c.after i request read.token o)
      ∨ (∃ i, a = .drop i ∧ c' = { c with tasks := Function.update c.tasks i none })
      ∨ ∃ u status account, a = .setStatus u status ∧ c.state.users.lookup u = some account
          ∧ c' = { c with state := { c.state with
              users := c.state.users.insert u (account.withStatus status) } } := by
  cases a with
  | arrive request => exact .inl ⟨request, rfl, (Option.some.inj hs).symm⟩
  | run i read =>
      simp only [step] at hs
      split at hs
      · cases hs
      · rename_i task htask
        split_ifs at hs with hfresh
        obtain ⟨o, ho, rfl⟩ := Option.map_eq_some_iff.mp hs
        exact .inr (.inl ⟨i, read, task.request, task.pc, o, rfl, htask, hfresh, ho, rfl⟩)
  | drop i => exact .inr (.inr (.inl ⟨i, rfl, (Option.some.inj hs).symm⟩))
  | setStatus u status =>
      simp only [step] at hs
      split at hs
      · cases hs
      · rename_i account hu
        exact .inr (.inr (.inr ⟨u, status, account, rfl, hu, (Option.some.inj hs).symm⟩))

/-- A password hash that keeps the password, for runs on fixed inputs. -/
def plainExternals : Externals where
  hashPassword := fun _ password => some password
  verifyPassword := fun attempt hash => attempt == hash
  dummyHash := "_dummy_"
  toLowercase := id

end Rendezvous
