import Dddatasync.Rendezvous.Wire

/-!
The Python server, `rendezvous-py/rendezvous/views.py`: its tables and its views.

* `PyExternals`, `PyExternals.dict`: what Python and Django bring along; a body that `json.loads`
  reads as a dictionary.
* `UserRow`, `SessionRow`, `PyDb`: the tables and the registry in memory, whose records keep
  the values of a request body as they came.
* `JsonRegistry.upsert`, `remove`, `prune`, `fetch`: `registry.py` on such records.
* `signupView`, `verifyView`, `loginView`, `registerView`, `deregisterView`, `peersView`: one
  definition for each view, by request method.
* `getPending`, `saveApproved`, `blockAccounts`, `approveAccounts`: the database statements
  of `verify_view` and of the admin actions.
-/

namespace Rendezvous

open Json

/-! ### Tables -/

/-- A row of `UserAccount`. -/
structure UserRow where
  id : ℕ
  username : String
  email : String
  passwordHash : String
  status : AccountStatus
  verificationToken : String
  deriving DecidableEq, Repr

/-- A row of `SessionToken`. -/
structure SessionRow where
  userId : ℕ
  token : String
  expiresAt : ℕ
  deriving DecidableEq, Repr

/-- A record of the registry: a `dict` with the values of the request body. -/
structure JsonRecord where
  nodeId : Json
  addrs : Json
  relayUrl : Json
  lastSeen : ℤ

/-- `dict[str, list[dict]]`. -/
abbrev JsonRegistry := AssocMap String (List JsonRecord)

/-- The database and the registry. -/
structure PyDb where
  users : List UserRow
  sessions : List SessionRow
  registry : JsonRegistry

/-- The digits of an integer that `int` reads at most. -/
def maxStrDigits : ℕ := 4300

/-- What the views call outside their own code: Django's password hashing with the salt made
explicit, `str.lower`, and on the values of a body `str(v)` (`none` for `None`, and for a text
that has no UTF-8), `bool(v)` and `==`; and how deep lists and objects nest before `json.loads`
exceeds the interpreter's limit on recursion. -/
structure PyExternals where
  makePassword : String → String → String
  checkPassword : String → String → Bool
  dummyHash : String
  lower : String → String
  toStr : Json → Option String
  toStr_str : ∀ s, toStr (.str s) = some s
  toStr_lone : ∀ l, toStr (.lone l) = none
  truthy : Json → Bool
  truthy_str : ∀ s, truthy (.str s) = decide (s ≠ "")
  truthy_lone : ∀ l, truthy (.lone l) = true
  eq : Json → Json → Bool
  maxDepth : ℕ
  deep : 100 ≤ maxDepth

/-- `json.loads(request.body)`, if it reads a dictionary; on anything else the views raise. -/
def PyExternals.dict (x : PyExternals) : Json → Option (List (Key × Json))
  | .obj m => if within maxStrDigits x.maxDepth (.obj m) then some m else none
  | _ => none

/-! ### The registry -/

namespace JsonRegistry

/-- Replace the first record of the node, or append: the `for` loop of `upsert`. -/
def put (x : PyExternals) (record : JsonRecord) : List JsonRecord → List JsonRecord
  | [] => [record]
  | p :: ps => if x.eq p.nodeId record.nodeId then record :: ps else p :: put x record ps

/-- `upsert`. -/
def upsert (x : PyExternals) (registry : JsonRegistry) (username : String) (nodeId addrs : Json)
    (relayUrl : Json) (now : ℤ) : JsonRegistry :=
  registry.insert username
    (put x ⟨nodeId, addrs, relayUrl, now⟩ ((registry.lookup username).getD []))

/-- The records that are not expired. -/
def live (now : ℤ) (peers : List JsonRecord) : List JsonRecord :=
  peers.filter fun p => p.lastSeen ≥ now - peerTtlSecs

/-- `fetch`. -/
def fetch (registry : JsonRegistry) (username : String) (now : ℤ) : List JsonRecord :=
  live now ((registry.lookup username).getD [])

/-- `remove`. -/
def remove (x : PyExternals) (registry : JsonRegistry) (username : String) (nodeId : Json) :
    JsonRegistry :=
  match registry.lookup username with
  | none => registry
  | some peers =>
      let rest := peers.filter fun p => !x.eq p.nodeId nodeId
      if rest.isEmpty then registry.erase username else registry.insert username rest

/-- `prune`. -/
def prune (registry : JsonRegistry) (now : ℤ) : JsonRegistry :=
  AssocMap.filterMap (fun _ peers => keep (live now peers)) registry

end JsonRegistry

/-! ### Accounts -/

/-- The characters `str.strip` takes off. -/
def isPySpace (c : Char) : Bool :=
  isWhitespace c || [0x1C, 0x1D, 0x1E, 0x1F].contains c.toNat

/-- `str.strip`. -/
def strip (s : String) : String :=
  String.ofList (((s.toList.dropWhile isPySpace).reverse.dropWhile isPySpace).reverse)

/-- The primary key of the next row. -/
def nextId (users : List UserRow) : ℕ := (users.map (·.id)).foldr max 0 + 1

/-- A response without a change. -/
def refuse (d : PyDb) (status : ℕ) (text : String) : PyDb × Response :=
  (d, ⟨status, .error text⟩)

/-- An exception that the view does not catch. -/
def raised (d : PyDb) : PyDb × Response := (d, ⟨500, .empty⟩)

/-- The account that `signup_view` creates. -/
def newRow (x : PyExternals) (read : Reading) (d : PyDb) (username email password : String) :
    UserRow where
  id := nextId d.users
  username := username
  email := email
  passwordHash := x.makePassword read.salt password
  status := if read.autoApprove then .approved else .pending
  verificationToken := if read.autoApprove then "" else read.token

/-- `signup_view` after the body was read. -/
def createAccount (x : PyExternals) (read : Reading) (username email : String) (password : Json)
    (d : PyDb) : PyDb × Response :=
  if username = "" ∨ email = "" ∨ x.truthy password = false then
    refuse d 400 "username, email, and password must be non-empty"
  else if d.users.any fun row => row.username = username then
    refuse d 409 "username already taken"
  else if d.users.any fun row => row.email = email then refuse d 409 "email already registered"
  else
    match password with
    | .str password =>
        ({ d with users := d.users ++ [newRow x read d username email password] },
          ⟨201, .message "Account created. Please check your email to verify your address."⟩)
    -- `make_password` takes a text that has a UTF-8, or bytes
    | _ => raised d

/-- A text after a method of `str`, `none` for one that has no UTF-8; other values have no such
method. -/
def method (f : String → String) : Json → Option (Option String)
  | .str s => some (some (f s))
  | .lone _ => some none
  | _ => none

/-- `signup_view` with a member that is missing or no text, or with a username or an address that
has no UTF-8: the query for that one raises. -/
def refuseSignup (x : PyExternals) (m : List (Key × Json)) (d : PyDb) : PyDb × Response :=
  match (last "username" m).bind (method strip),
    (last "email" m).bind (method fun email => x.lower (strip email)), last "password" m with
  | some username, some email, some password =>
      if username = some "" ∨ email = some "" ∨ x.truthy password = false then
        refuse d 400 "username, email, and password must be non-empty"
      else if d.users.any fun row => some row.username = username then
        refuse d 409 "username already taken"
      else raised d
  | _, _, _ => refuse d 400 "username, email, and password are required"

/-- `signup_view`. -/
def signupView (x : PyExternals) (read : Reading) (body : Json) (d : PyDb) : PyDb × Response :=
  match x.dict body with
  | some m =>
      match last "username" m, last "email" m, last "password" m with
      | some (.str username), some (.str email), some password =>
          createAccount x read (strip username) (x.lower (strip email)) password d
      | _, _, _ => refuseSignup x m d
  | none => raised d

/-- `UserAccount.objects.get(verification_token=token, status=PENDING)`: the rows found. -/
def getPending (users : List UserRow) (token : String) : List UserRow :=
  users.filter fun row => row.verificationToken = token ∧ row.status = .pending

/-- The row as `verify_view` saves it. -/
def UserRow.approved (row : UserRow) : UserRow :=
  { row with status := .approved, verificationToken := "" }

/-- `account.save(update_fields=["status", "verification_token"])`. -/
def saveApproved (users : List UserRow) (id : ℕ) : List UserRow :=
  users.map fun row => if row.id = id then row.approved else row

/-- `verify_view`. -/
def verifyView (token : String) (d : PyDb) : PyDb × Response :=
  match getPending d.users token with
  | [] => refuse d 404 "invalid or expired verification token"
  | [account] =>
      ({ d with users := saveApproved d.users account.id },
        ⟨200, .message "Email verified. You can now log in."⟩)
  -- `MultipleObjectsReturned`
  | _ => raised d

/-- `SESSION_TOKEN_TTL_SECS`. -/
def sessionTokenTtlSecs : ℕ := 86400

/-- `_create_session_token`. -/
def createSessionToken (read : Reading) (user : UserRow) (d : PyDb) : PyDb :=
  { d with sessions := d.sessions ++ [⟨user.id, read.token, read.now + sessionTokenTtlSecs⟩] }

/-- `check_password`, which is false for `None`. -/
def checkPassword (x : PyExternals) (password : Json) (hash : String) : Bool :=
  match x.toStr password with
  | none => false
  | some password => x.checkPassword password hash

/-- A text that has no UTF-8. -/
def isLone : Json → Bool
  | .lone _ => true
  | _ => false

/-- `login_view` after the body was read. -/
def checkLogin (x : PyExternals) (read : Reading) (username password : Json) (d : PyDb) :
    PyDb × Response :=
  -- the query encodes the one and the hasher the other
  if isLone username ∨ isLone password then raised d
  else
    let account := (x.toStr username).bind fun name => d.users.find? fun row => row.username = name
    match account with
    | none =>
        -- the dummy hash is checked, whatever it says the login fails
        if checkPassword x password x.dummyHash then refuse d 401 "invalid credentials"
        else refuse d 401 "invalid credentials"
    | some row =>
        if checkPassword x password row.passwordHash then
          match row.status with
          | .pending => refuse d 403 "account pending email verification — check your inbox"
          | .blocked => refuse d 403 "account blocked"
          | .approved => (createSessionToken read row d, ⟨200, .token read.token⟩)
        else refuse d 401 "invalid credentials"

/-- `login_view`. -/
def loginView (x : PyExternals) (read : Reading) (body : Json) (d : PyDb) : PyDb × Response :=
  match x.dict body with
  | some m =>
      match last "username" m, last "password" m with
      | some username, some password => checkLogin x read username password d
      | _, _ => refuse d 400 "username and password are required"
  | none => raised d

section Bodies

variable {y : PyExternals} {d : PyDb} {body : Json} {m : List (Key × Json)}

lemma eq_obj_of_dict (h : y.dict body = some m) : body = .obj m := by
  cases body with
  | obj members =>
      rw [PyExternals.dict] at h
      split_ifs at h
      exact congrArg Json.obj (Option.some.inj h)
  | null | bool | int | float | str | lone | arr => cases h

/-- A body that nests no deeper than a list in a dictionary, and has no numbers, is read. -/
lemma dict_of_flat (h : ∀ p ∈ m, ∀ depth, within maxStrDigits (depth + 1) p.2 = true) :
    y.dict (.obj m) = some m := by
  obtain ⟨depth, hdepth⟩ : ∃ depth, y.maxDepth = depth + 2 :=
    ⟨y.maxDepth - 2, by have := y.deep; omega⟩
  rw [PyExternals.dict, if_pos]
  rw [hdepth, within_obj]
  exact fun p hp => h p hp depth

/-- A signup that is refused changes nothing. -/
lemma refuseSignup_refuses : ∃ r : Response, refuseSignup y m d = (d, r)
    ∧ (r.status = 400 ∨ r.status = 409 ∨ r.status = 500) := by
  rw [refuseSignup]
  split
  · split_ifs
    · exact ⟨_, rfl, .inl rfl⟩
    · exact ⟨_, rfl, .inr (.inl rfl)⟩
    · exact ⟨_, rfl, .inr (.inr rfl)⟩
  · exact ⟨_, rfl, .inl rfl⟩

lemma refuseSignup_fst : (refuseSignup y m d).1 = d := by
  obtain ⟨r, heq, -⟩ := refuseSignup_refuses (y := y) (m := m) (d := d)
  rw [heq]

end Bodies

/-! ### The registry views -/

/-- The approved user of a session row. -/
def sessionUser (d : PyDb) (session : SessionRow) : Option UserRow :=
  (d.users.find? fun row => row.id = session.userId).filter fun row => row.status = .approved

/-- `_authenticate`. -/
def authenticate (now : ℕ) (header : Option String) (d : PyDb) : Option UserRow :=
  (bearer header).bind fun token =>
    ((d.sessions.filter fun session => session.token = token ∧ session.expiresAt > now).filterMap
      (sessionUser d)).head?

/-- `register_view` for `POST`, after authentication. -/
def registerAs (x : PyExternals) (now : ℕ) (username : String) (body : Json) (d : PyDb) :
    PyDb × Response :=
  match x.dict body with
  | some m =>
      match last "username" m with
      | some (.str name) =>
          if name ≠ username then refuse d 403 "forbidden"
          else
            match last "node_id" m, last "addrs" m with
            | some nodeId, some addrs =>
                let relayUrl := (last "relay_url" m).getD .null
                ({ d with registry := d.registry.upsert x name nodeId addrs relayUrl now },
                  ⟨200, .empty⟩)
            | _, _ => raised d
      | _ => refuse d 403 "forbidden"
  | none => raised d

/-- `register_view` for `DELETE`, after authentication. -/
def deregisterAs (x : PyExternals) (username : String) (body : Json) (d : PyDb) :
    PyDb × Response :=
  match x.dict body with
  | some m =>
      match last "username" m with
      | some (.str name) =>
          if name ≠ username then refuse d 403 "forbidden"
          else
            match last "node_id" m with
            | some nodeId =>
                ({ d with registry := d.registry.remove x name nodeId }, ⟨200, .empty⟩)
            | none => raised d
      | _ => refuse d 403 "forbidden"
  | none => raised d

/-- `register_view` for `POST`. -/
def registerView (x : PyExternals) (now : ℕ) (header : Option String) (body : Json) (d : PyDb) :
    PyDb × Response :=
  match authenticate now header d with
  | none => refuse d 401 "unauthorized"
  | some user => registerAs x now user.username body d

/-- `register_view` for `DELETE`. -/
def deregisterView (x : PyExternals) (now : ℕ) (header : Option String) (body : Json)
    (d : PyDb) : PyDb × Response :=
  match authenticate now header d with
  | none => refuse d 401 "unauthorized"
  | some user => deregisterAs x user.username body d

/-- A record as `JsonResponse` writes it. -/
def JsonRecord.toJson (r : JsonRecord) : Json :=
  .obj [("node_id", r.nodeId), ("addrs", r.addrs), ("relay_url", r.relayUrl),
    ("last_seen", .int r.lastSeen)]

/-- `peers_view`. -/
def peersView (username : String) (now : ℕ) (d : PyDb) : Json :=
  peersJson ((d.registry.fetch username now).map JsonRecord.toJson)

/-! ### The admin actions -/

/-- `block_accounts`: one `UPDATE` over the selected rows. -/
def blockAccounts (users : List UserRow) (selected : List ℕ) : List UserRow :=
  users.map fun row => if row.id ∈ selected then { row with status := .blocked } else row

/-- `approve_accounts`. -/
def approveAccounts (users : List UserRow) (selected : List ℕ) : List UserRow :=
  users.map fun row => if row.id ∈ selected then row.approved else row

/-- Passwords that are their own hashes, and Python's `str`, `bool` and `==` on the values of
runs on fixed inputs. -/
def plainPy : PyExternals where
  makePassword := fun _ password => password
  checkPassword := fun attempt hash => attempt == hash
  dummyHash := "_dummy_"
  lower := id
  toStr
    | .str s => some s
    | .int n => some (toString n)
    | .bool b => some (if b then "True" else "False")
    | .null => none
    | .lone _ => none
    | _ => some ""
  toStr_str := fun _ => rfl
  toStr_lone := fun _ => rfl
  truthy
    | .str s => decide (s ≠ "")
    | .lone _ => true
    | .int n => decide (n ≠ 0)
    | .float m _ => decide (m ≠ 0)
    | .bool b => b
    | .null => false
    | .arr items => !items.isEmpty
    | .obj members => !members.isEmpty
  truthy_str := fun _ => rfl
  truthy_lone := fun _ => rfl
  eq
    | .str s, .str t => s == t
    | .int m, .int n => m == n
    | _, _ => false
  maxDepth := 990
  deep := by decide

end Rendezvous
