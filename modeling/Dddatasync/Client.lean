import Dddatasync.Enrolment
import Dddatasync.Rendezvous.Attribution
import Dddatasync.Rendezvous.Ownership
import Dddatasync.Rendezvous.PeerAnswers
import Dddatasync.Rendezvous.PyCredentials
import Dddatasync.Rendezvous.PyRecordHistory
import Dddatasync.Rendezvous.SameApi

/-!
The rendezvous client of `src/rendezvous_client.rs` over either server.

* `decode_signupJson` and its companions: what the Rust server reads in the bodies of the client.
* `RestServer`: what a client sees of a server; `rustServer`, `pyServer`.
* `signup`, `tokenLogin`, `register`, `fetchRecords`, `deregister`: the calls of a client, in the
  namespace `RendezvousClient`; `ClientCall.run`: one of them.
* `rust_change`, `rust_register`, `rust_deregister`, `py_register`, `py_deregister`: what a
  registration and a deregistration of the client leave behind.
* `rust_login`, `py_login`: what the client gets for a login.
* `rust_registry`, `py_registry`: the other requests leave the registry alone.
* `decodePeers_records`: the client reads a list of records as it was written.
-/

namespace Rendezvous

open Json

/-! ### Bodies -/

/-- The members in the body of a deregistration. -/
def DeregisterRequest.fields (req : DeregisterRequest) : List (Key × Json) :=
  [("username", .str req.username), ("node_id", .str req.nodeId)]

/-- The body of a deregistration. -/
def DeregisterRequest.toJson (req : DeregisterRequest) : Json := .obj req.fields

@[simp]
lemma dict_deregisterJson {y : PyExternals} (req : DeregisterRequest) :
    y.dict req.toJson = some req.fields := by
  refine dict_of_flat fun p hp depth => ?_
  simp only [DeregisterRequest.fields, List.mem_cons, List.not_mem_nil, or_false] at hp
  rcases hp with rfl | rfl <;> exact within_str _

@[simp]
lemma decode_signupJson (req : SignupRequest) : SignupRequest.decode req.toJson = some req := by
  simp [SignupRequest.decode, SignupRequest.toJson, SignupRequest.fields, named, requiredText, only,
    occurrences, text]

@[simp]
lemma decode_loginJson (req : LoginRequest) : LoginRequest.decode req.toJson = some req := by
  simp [LoginRequest.decode, LoginRequest.toJson, LoginRequest.fields, named, requiredText, only,
    occurrences, text]

@[simp]
lemma decode_registerJson (req : RegisterRequest) :
    RegisterRequest.decode req.toJson = some req := by
  obtain ⟨username, nodeId, addrs, relayUrl⟩ := req
  have haddrs : (Json.arr (addrs.map .str)).texts = some addrs := mapM_text addrs
  cases relayUrl with
  | none =>
      simp [RegisterRequest.decode, RegisterRequest.toJson, RegisterRequest.fields, named,
        requiredText, requiredTexts, optionalText, only, occurrences, text, textOrNull, haddrs]
  | some url =>
      simp [RegisterRequest.decode, RegisterRequest.toJson, RegisterRequest.fields, named,
        requiredText, requiredTexts, optionalText, only, occurrences, text, textOrNull, haddrs]

@[simp]
lemma decode_deregisterJson (req : DeregisterRequest) :
    DeregisterRequest.decode req.toJson = some req := by
  simp [DeregisterRequest.decode, DeregisterRequest.toJson, DeregisterRequest.fields, named,
    requiredText, only, occurrences, text]

end Rendezvous

namespace Dddatasync

open Rendezvous Json

/-! ### The client -/

/-- `RendezvousClient`, less its URL and its connections. -/
structure RendezvousClient where
  token : Option String

/-- Why a call of the client fails. -/
inductive ClientError where
  | notLoggedIn
  | returned (endpoint : String) (status : ℕ) (body : Body)
  | login (e : ServerLoginError)
  | undecodable
  deriving DecidableEq, Repr

/-- What a client sees of a server: its answers to the requests of the API, and the body of
`GET /peers`. -/
structure RestServer (S : Type*) where
  serve : Reading → ApiRequest → S → S × Response
  peers : String → ℕ → S → Json

/-- The Rust server. -/
def rustServer (x : Externals) : RestServer AppState where
  serve := rustServe x
  peers := rustAnswer

/-- The Python server. -/
def pyServer (y : PyExternals) : RestServer PyDb where
  serve := pyServe y
  peers := peersView

/-- An answer that is only good for its status. -/
def expectSuccess (endpoint : String) (r : Response) : Except ClientError Unit :=
  if r.Accepted then .ok () else .error (.returned endpoint r.status r.body)

namespace RendezvousClient

variable {S : Type*} (server : RestServer S) (read : Reading)

/-- `bearer`. -/
def bearer (client : RendezvousClient) : Except ClientError String :=
  match client.token with
  | some t => .ok ("Bearer " ++ t)
  | none => .error .notLoggedIn

/-- `signup`. -/
def signup (username email password : String) (s : S) : Except ClientError Unit × S :=
  let answer := server.serve read (.signup (SignupRequest.mk username email password).toJson) s
  (expectSuccess "POST /auth/signup" answer.2, answer.1)

/-- `server_login`. -/
def tokenLogin (username password : String) (s : S) : Except ClientError String × S :=
  let answer := server.serve read (.login (LoginRequest.mk username password).toJson) s
  ((serverLogin answer.2).mapError .login, answer.1)

/-- `register`. -/
def register (client : RendezvousClient) (req : RegisterRequest) (s : S) :
    Except ClientError Unit × S :=
  match client.bearer with
  | .error e => (.error e, s)
  | .ok auth =>
      let answer := server.serve read (.register (some auth) req.toJson) s
      (expectSuccess "POST /register" answer.2, answer.1)

/-- `fetch_peers`; both servers answer 200. -/
def fetchRecords (username : String) (ownNodeId : Option String) (s : S) :
    Except ClientError (List PeerRecord) :=
  match decodePeers (server.peers username read.now s) with
  | none => .error .undecodable
  | some peers => .ok (clientPeers peers ownNodeId)

/-- `deregister`, which reports nothing. -/
def deregister (client : RendezvousClient) (username nodeId : String) (s : S) : S :=
  match client.bearer with
  | .error _ => s
  | .ok auth =>
      let req := DeregisterRequest.mk username nodeId
      (server.serve read (.deregister (some auth) req.toJson) s).1

end RendezvousClient

/-- A call of a client; `openLink` is a user who opens the link of the verification mail. -/
inductive ClientCall where
  | signup (username email password : String)
  | openLink (link : String)
  | serverLogin (username password : String)
  | register (client : RendezvousClient) (req : RegisterRequest)
  | fetchPeers (username : String) (ownNodeId : Option String)
  | deregister (client : RendezvousClient) (username nodeId : String)

/-- What a call returns when it does not fail. -/
inductive ClientValue where
  | done
  | token (token : String)
  | peers (peers : List PeerRecord)
  deriving DecidableEq, Repr

/-- A call over a server. -/
def ClientCall.run {S : Type*} (server : RestServer S) (read : Reading) (s : S) :
    ClientCall → Except ClientError ClientValue × S
  | .signup username email password =>
      let out := RendezvousClient.signup server read username email password s
      (out.1.map fun _ => .done, out.2)
  | .openLink link =>
      let answer := server.serve read (.verify link) s
      ((expectSuccess "GET /auth/verify" answer.2).map fun _ => .done, answer.1)
  | .serverLogin username password =>
      let out := RendezvousClient.tokenLogin server read username password s
      (out.1.map .token, out.2)
  | .register client req =>
      let out := client.register server read req s
      (out.1.map fun _ => .done, out.2)
  | .fetchPeers username ownNodeId =>
      ((RendezvousClient.fetchRecords server read username ownNodeId s).map .peers, s)
  | .deregister client username nodeId =>
      (.ok .done, client.deregister server read username nodeId s)

/-! ### The Rust server -/

section Rust

variable {x : Externals} {read : Reading} {s : AppState}

/-- A handler that authenticates first carries out what it is asked for `u`, or refuses and leaves
the stores alone. -/
lemma rust_change (request : Request) {header : Option String} {k : String → Outcome} {u : String}
    {pc : Rendezvous.Pc} {after : AppState}
    (hstart : segment x read 0 s request .start = some (findSession read 0 header s))
    (hcheck : ∀ v, segment x read 0 s request (.checkUser v) = some (checkUser 0 v s (k v)))
    (hgo : (k u).state = s ∧ (k u).next = .inl pc)
    (hdone : complete x read request 1 s pc = some (after, ⟨200, .empty⟩))
    (hrefuse : ∀ v, v ≠ u → k v = respond s 403 .empty) :
    ∃ r, complete x read request 3 s .start = some (after, r) ∧ r.Accepted
      ∨ complete x read request 3 s .start = some (s, r) ∧ ¬ r.Accepted := by
  cases hauth : rustAuthenticate read.now header s with
  | error status =>
      exact ⟨_, .inr ⟨change_refused hstart hcheck hauth,
        not_accepted (rustAuthenticate_error hauth)⟩⟩
  | ok v =>
      obtain ⟨entries, hrun, hseg⟩ := change_granted hstart hcheck hauth
      rw [hrun]
      by_cases hv : v = u
      · subst hv
        rw [complete_wait hseg hgo.2]
        exact ⟨_, .inl ⟨hgo.1.symm ▸ hdone, accepted_ok⟩⟩
      · rw [hrefuse v hv] at hseg
        exact ⟨_, .inr ⟨complete_answer hseg rfl, not_accepted (by simp)⟩⟩

/-- What the Rust server answers to a request that runs to its end. -/
lemma rustServe_of_complete {request : ApiRequest} {r : Request} {answer : AppState × Response}
    (hdecode : request.decode = some r) (hrun : complete x read r 3 s .start = some answer) :
    rustServe x read request s = answer := by
  rw [rustServe, hdecode]
  simp only [hrun]

/-- **A registration** of the client puts its record in, or changes nothing. -/
lemma rust_register (header : Option String) (req : RegisterRequest) :
    ∃ r, rustServe x read (.register header req.toJson) s
          = ({ s with registry := s.registry.register req.username (recordAt req read.now) }, r)
            ∧ r.Accepted
      ∨ rustServe x read (.register header req.toJson) s = (s, r) ∧ ¬ r.Accepted := by
  have hdecode : ApiRequest.decode (.register header req.toJson)
      = some (.register header (some req)) := by
    rw [ApiRequest.decode, decode_registerJson]
  have hbody : registerBody read req.username (some req) s
      = ⟨s, .inl (.writeRecord req.username (recordAt req read.now)), []⟩ :=
    if_neg (not_not.mpr rfl)
  obtain ⟨r, ⟨hrun, hr⟩ | ⟨hrun, hr⟩⟩ := rust_change (x := x) (s := s)
    (k := fun v => registerBody read v (some req) s) (u := req.username)
    (.register header (some req)) rfl (fun _ => rfl) (by rw [hbody]; exact ⟨rfl, rfl⟩)
    (complete_answer rfl rfl) fun v hv => if_pos (Ne.symm hv)
  · exact ⟨r, .inl ⟨rustServe_of_complete hdecode hrun, hr⟩⟩
  · exact ⟨r, .inr ⟨rustServe_of_complete hdecode hrun, hr⟩⟩

/-- **A deregistration** of the client takes the record out, or changes nothing. -/
lemma rust_deregister (header : Option String) (req : DeregisterRequest) :
    ∃ r, rustServe x read (.deregister header req.toJson) s
          = ({ s with registry := s.registry.deregister req.username req.nodeId }, r) ∧ r.Accepted
      ∨ rustServe x read (.deregister header req.toJson) s = (s, r) ∧ ¬ r.Accepted := by
  have hdecode : ApiRequest.decode (.deregister header req.toJson)
      = some (.deregister header (some req)) := by
    rw [ApiRequest.decode, decode_deregisterJson]
  have hbody : deregisterBody req.username (some req) s
      = ⟨s, .inl (.eraseRecord req.username req.nodeId), []⟩ := if_neg (not_not.mpr rfl)
  obtain ⟨r, ⟨hrun, hr⟩ | ⟨hrun, hr⟩⟩ := rust_change (x := x) (s := s)
    (k := fun v => deregisterBody v (some req) s) (u := req.username)
    (.deregister header (some req)) rfl (fun _ => rfl) (by rw [hbody]; exact ⟨rfl, rfl⟩)
    (complete_answer rfl rfl) fun v hv => if_pos (Ne.symm hv)
  · exact ⟨r, .inl ⟨rustServe_of_complete hdecode hrun, hr⟩⟩
  · exact ⟨r, .inr ⟨rustServe_of_complete hdecode hrun, hr⟩⟩

end Rust

/-- The answer to a login is the token, or a refusal. -/
def TokenAnswer (token : String) (r : Response) : Prop := r = ⟨200, .token token⟩ ∨ ¬ r.Accepted

/-- What the client makes of it. -/
lemma serverLogin_of_answer {token : String} {r : Response} (h : TokenAnswer token r) :
    r.Accepted ∧ serverLogin r = .ok token ∨ ¬ r.Accepted ∧ ∃ e, serverLogin r = .error e := by
  rcases h with rfl | h
  · exact .inl ⟨accepted_ok, rfl⟩
  · refine .inr ⟨h, ?_⟩
    rw [serverLogin]
    split_ifs with hforbidden hok
    · exact ⟨_, rfl⟩
    · exact absurd hok h
    · exact ⟨_, rfl⟩

section Rust

variable {x : Externals} {read : Reading} {s : AppState}

/-- A login that is answered at once is refused. -/
lemma loginStart_refused {req : LoginRequest} {r : Response}
    (h : (loginStart x read 0 req s).next = .inr r) : ¬ r.Accepted := by
  rw [loginStart] at h
  split at h
  · split_ifs at h
    all_goals
      cases h
      exact not_accepted (by simp)
  · split_ifs at h
    · split at h <;> cases h
      · exact not_accepted (by simp)
      · exact not_accepted (by simp)
    · cases h
      exact not_accepted (by simp)

/-- **A login** of the client. -/
lemma rust_login (username password : String) : TokenAnswer read.token
    (rustServe x read (.login (LoginRequest.mk username password).toJson) s).2 := by
  have hdecode : ApiRequest.decode (.login (LoginRequest.mk username password).toJson)
      = some (.login ⟨username, password⟩) := by
    rw [ApiRequest.decode, decode_loginJson]
    rfl
  have hseg : segment x read 0 s (.login ⟨username, password⟩) .start
      = some (loginStart x read 0 ⟨username, password⟩ s) := rfl
  cases hnext : (loginStart x read 0 ⟨username, password⟩ s).next with
  | inr r =>
      rw [rustServe_of_complete hdecode (complete_answer hseg hnext)]
      exact .inr (loginStart_refused hnext)
  | inl pc =>
      obtain rfl := loginStart_next hnext
      have hrun : complete x read (.login ⟨username, password⟩) 3 s .start
          = some ((openSession read 0 username read.token
              (loginStart x read 0 ⟨username, password⟩ s).state).state,
            ⟨200, .token read.token⟩) := by
        rw [complete_wait hseg hnext]
        exact complete_answer rfl rfl
      rw [rustServe_of_complete hdecode hrun]
      exact .inl rfl

/-- **The account requests** leave the registry alone. -/
lemma rust_registry {request : ApiRequest}
    (haccount : ∀ r, request.decode = some r → r.account = true) :
    (rustServe x read request s).1.registry = s.registry := by
  cases hdecode : request.decode with
  | none => simp only [rustServe, hdecode]
  | some r =>
      obtain ⟨opened, hopened⟩ := complete_beside (x := x) (haccount r hdecode) 3 s .start
      have hbeside : complete x read r 3 s .start = (complete x read r 3 s .start).map fun a =>
          (a.1.beside (openedIn read s.sessions opened) s.registry, a.2) :=
        hopened s.sessions s.registry
      cases hrun : complete x read r 3 s .start with
      | none => simp only [rustServe, hdecode, hrun]
      | some answer =>
          rw [hrun, Option.map_some, Option.some.injEq] at hbeside
          rw [rustServe_of_complete hdecode hrun, hbeside]
          rfl

end Rust

/-! ### The Python server -/

/-- The record as the Python server keeps it. -/
def jsonRecord (r : PeerRecord) : JsonRecord where
  nodeId := .str r.nodeId
  addrs := .arr (r.addrs.map .str)
  relayUrl := match r.relayUrl with
    | some url => .str url
    | none => .null
  lastSeen := r.lastSeen

@[simp]
lemma jsonRecord_nodeId (r : PeerRecord) : (jsonRecord r).nodeId = .str r.nodeId := rfl

@[simp]
lemma jsonRecord_lastSeen (r : PeerRecord) : (jsonRecord r).lastSeen = r.lastSeen := rfl

/-- `upsert` of a whole record. -/
def upsertRecord (y : PyExternals) (registry : JsonRegistry) (u : String) (r : JsonRecord) :
    JsonRegistry :=
  registry.upsert y u r.nodeId r.addrs r.relayUrl r.lastSeen

lemma jsonRecord_toJson (r : PeerRecord) : (jsonRecord r).toJson = r.toJson := by
  obtain ⟨nodeId, addrs, relayUrl, lastSeen⟩ := r
  cases relayUrl <;> rfl

section Python

variable {y : PyExternals} {read : Reading} {d : PyDb}

/-- **A registration** of the client puts its record in, or changes nothing. -/
lemma py_register (header : Option String) (req : RegisterRequest) :
    ∃ r, pyServe y read (.register header req.toJson) d
          = ({ d with registry :=
                upsertRecord y d.registry req.username (jsonRecord (recordAt req read.now)) }, r)
            ∧ r.Accepted
      ∨ pyServe y read (.register header req.toJson) d = (d, r) ∧ ¬ r.Accepted := by
  show ∃ r, registerView y read.now header req.toJson d = _ ∧ _
    ∨ registerView y read.now header req.toJson d = _ ∧ _
  rw [registerView]
  cases authenticate read.now header d with
  | none => exact ⟨_, .inr ⟨rfl, not_accepted (by simp)⟩⟩
  | some user =>
      by_cases hname : req.username = user.username
      · refine ⟨⟨200, .empty⟩, .inl ⟨?_, accepted_ok⟩⟩
        cases hurl : req.relayUrl <;>
          simp [registerAs, RegisterRequest.fields, last, occurrences, hname, hurl, upsertRecord,
            jsonRecord, recordAt]
      · refine ⟨⟨403, .error "forbidden"⟩, .inr ⟨?_, not_accepted (by simp)⟩⟩
        simp [registerAs, RegisterRequest.fields, last, occurrences, hname, refuse]

/-- **A deregistration** of the client takes the record out, or changes nothing. -/
lemma py_deregister (header : Option String) (req : DeregisterRequest) :
    ∃ r, pyServe y read (.deregister header req.toJson) d
          = ({ d with registry := d.registry.remove y req.username (.str req.nodeId) }, r)
            ∧ r.Accepted
      ∨ pyServe y read (.deregister header req.toJson) d = (d, r) ∧ ¬ r.Accepted := by
  show ∃ r, deregisterView y read.now header req.toJson d = _ ∧ _
    ∨ deregisterView y read.now header req.toJson d = _ ∧ _
  rw [deregisterView]
  cases authenticate read.now header d with
  | none => exact ⟨_, .inr ⟨rfl, not_accepted (by simp)⟩⟩
  | some user =>
      by_cases hname : req.username = user.username
      · refine ⟨⟨200, .empty⟩, .inl ⟨?_, accepted_ok⟩⟩
        simp [deregisterAs, DeregisterRequest.fields, last, occurrences, hname]
      · refine ⟨⟨403, .error "forbidden"⟩, .inr ⟨?_, not_accepted (by simp)⟩⟩
        simp [deregisterAs, DeregisterRequest.fields, last, occurrences, hname, refuse]

lemma tokenAnswer_checkLogin (username password : Json) :
    TokenAnswer read.token (checkLogin y read username password d).2 := by
  by_cases hlone : isLone username = true ∨ isLone password = true
  · rw [checkLogin, if_pos hlone]
    exact .inr (not_accepted (by simp))
  rw [checkLogin, if_neg hlone]
  simp only
  split
  · simp only [ite_self]
    exact .inr (not_accepted (by simp))
  · split_ifs
    · split
      · exact .inr (not_accepted (by simp))
      · exact .inr (not_accepted (by simp))
      · exact .inl rfl
    · exact .inr (not_accepted (by simp))

/-- **A login** of the client. -/
lemma py_login (username password : String) : TokenAnswer read.token
    (pyServe y read (.login (LoginRequest.mk username password).toJson) d).2 := by
  show TokenAnswer read.token (loginView y read (LoginRequest.mk username password).toJson d).2
  rw [py_login_eq]
  exact tokenAnswer_checkLogin _ _

/-- **The account requests** leave the registry alone. -/
lemma py_registry {request : ApiRequest}
    (hregister : ∀ header body, request ≠ .register header body)
    (hderegister : ∀ header body, request ≠ .deregister header body) :
    (pyServe y read request d).1.registry = d.registry := by
  cases request with
  | signup body =>
      simp only [pyServe, signupView]
      split
      · split
        · rename_i password _ _ _
          simp only [createAccount]
          split_ifs
          · rfl
          · rfl
          · rfl
          · cases password <;> rfl
        · rw [refuseSignup_fst]
      · rfl
  | login body =>
      simp only [pyServe, loginView]
      split
      · split
        · rename_i username password _ _
          by_cases hlone : isLone username = true ∨ isLone password = true
          · rw [checkLogin, if_pos hlone]
            rfl
          rw [checkLogin, if_neg hlone]
          simp only
          split
          · split_ifs <;> rfl
          · split_ifs
            · split <;> rfl
            · rfl
        · rfl
      · rfl
  | verify token =>
      simp only [pyServe, verifyView]
      split <;> rfl
  | register header body => exact absurd rfl (hregister header body)
  | deregister header body => exact absurd rfl (hderegister header body)

end Python

/-! ### What the client reads -/

/-- **The client reads** a list of records as either server writes it. -/
lemma decodePeers_records {l : List PeerRecord} (h : ∀ r ∈ l, r.lastSeen < 2 ^ 64) :
    decodePeers (peersJson (l.map PeerRecord.toJson)) = some l := by
  show (l.map PeerRecord.toJson).mapM PeerRecord.decode = some l
  induction l with
  | nil => rfl
  | cons r l ih =>
      obtain ⟨hr, hl⟩ := List.forall_mem_cons.mp h
      rw [List.map_cons, List.mapM_cons, decode_toJson hr, ih hl]
      rfl

end Dddatasync
