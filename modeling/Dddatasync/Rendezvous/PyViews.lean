import Dddatasync.Library.Linearizable
import Dddatasync.Rendezvous.PyApi

/-!
The Python server under concurrent requests: one step is one database statement, or what a view
does under the lock of the registry, together with the code up to the next of either.

* `PyRequest`, `PyAnswer`, `PyPc`: what comes in, what goes out, and where a view stands.
* One definition for each segment of a view: `findName`, `findEmail`, `insertUser`;
  `findPending`, `saveUser`; `findAccount`, `insertSession`; `findSpeaker`, `readBody`,
  `putRecord`; `dropRecord`; `listRecords`; `pruneRecords`.
* `PyConfig`, `PyConfig.step`: any number of views at once, on several threads of one process,
  and the admin actions, with the history of the calls, which no view reads.
* `pyStep_cases`: the four kinds of step.
* `runView_eq`: a view that nothing comes between does what `pyServe` says.
-/

namespace Rendezvous

open Json

/-! ### Data -/

/-- A request to a view; `prune` is one round of the pruning thread. -/
inductive PyRequest where
  | api (request : ApiRequest)
  | peers (username : String)
  | prune

/-- What a view answers: a status and a text, or the records of `GET /peers`. -/
inductive PyAnswer where
  | response (r : Response)
  | peers (records : List JsonRecord)

/-- Where a view stands between two statements, with its local variables. -/
inductive PyPc where
  | start
  | findEmail (username email : String) (password : Json)
  | insertUser (username email : String) (password : Json)
  | saveUser (id : ℕ)
  | insertSession (user : UserRow)
  | readBody (user : UserRow)
  | putRecord (username : String) (record : JsonRecord)
  | dropRecord (user : UserRow)
  | listRecords (username : String) (now : ℕ)
  | pruneRecords (now : ℕ)

/-- What a segment does: the tables after it, and where the view stands next or its answer. -/
structure PyOutcome where
  db : PyDb
  next : PyPc ⊕ PyAnswer

/-- The view goes on to another statement. -/
def PyDb.wait (d : PyDb) (pc : PyPc) : PyOutcome := ⟨d, .inl pc⟩

/-- The view answers. -/
def answered (answer : PyDb × Response) : PyOutcome := ⟨answer.1, .inr (.response answer.2)⟩

/-! ### Views -/

/-- `signup_view` up to the query for the username. -/
def findName (y : PyExternals) (body : Json) (d : PyDb) : PyOutcome :=
  match y.dict body with
  | some m =>
      match last "username" m, last "email" m, last "password" m with
      | some (.str username), some (.str email), some password =>
          let username := strip username
          let email := y.lower (strip email)
          if username = "" ∨ email = "" ∨ y.truthy password = false then
            answered (refuse d 400 "username, email, and password must be non-empty")
          else if d.users.any fun row => row.username = username then
            answered (refuse d 409 "username already taken")
          else d.wait (.findEmail username email password)
      | _, _, _ => answered (refuseSignup y m d)
  | none => answered (raised d)

/-- `signup_view`: the query for the address. -/
def findEmail (username email : String) (password : Json) (d : PyDb) : PyOutcome :=
  if d.users.any fun row => row.email = email then
    answered (refuse d 409 "email already registered")
  else d.wait (.insertUser username email password)

/-- `signup_view`: the `INSERT`; usernames and addresses are unique in the table. -/
def insertUser (y : PyExternals) (read : Reading) (username email : String) (password : Json)
    (d : PyDb) : PyOutcome :=
  match password with
  | .str password =>
      -- `IntegrityError`
      if d.users.any fun row => row.username = username ∨ row.email = email then
        answered (raised d)
      else answered ({ d with users := d.users ++ [newRow y read d username email password] },
        ⟨201, .message "Account created. Please check your email to verify your address."⟩)
  -- `make_password` takes a text that has a UTF-8, or bytes
  | _ => answered (raised d)

/-- `verify_view`: the query for the pending account. -/
def findPending (token : String) (d : PyDb) : PyOutcome :=
  match getPending d.users token with
  | [] => answered (refuse d 404 "invalid or expired verification token")
  | [account] => d.wait (.saveUser account.id)
  -- `MultipleObjectsReturned`
  | _ => answered (raised d)

/-- `verify_view`: the `UPDATE`. -/
def saveUser (id : ℕ) (d : PyDb) : PyOutcome :=
  answered ({ d with users := saveApproved d.users id },
    ⟨200, .message "Email verified. You can now log in."⟩)

/-- `login_view` up to the `INSERT` of the session. -/
def findAccount (y : PyExternals) (username password : Json) (d : PyDb) : PyOutcome :=
  -- the query encodes the one and the hasher the other
  if isLone username ∨ isLone password then answered (raised d)
  else
    let account := (y.toStr username).bind fun name => d.users.find? fun row => row.username = name
    match account with
    | none =>
        -- the dummy hash is checked, whatever it says the login fails
        if checkPassword y password y.dummyHash then answered (refuse d 401 "invalid credentials")
        else answered (refuse d 401 "invalid credentials")
    | some row =>
        if checkPassword y password row.passwordHash then
          match row.status with
          | .pending =>
              answered (refuse d 403 "account pending email verification — check your inbox")
          | .blocked => answered (refuse d 403 "account blocked")
          | .approved => d.wait (.insertSession row)
        else answered (refuse d 401 "invalid credentials")

/-- `login_view` up to the query for the account, once the body was read. -/
def loginBody (y : PyExternals) (body : Json) (d : PyDb) : PyOutcome :=
  match y.dict body with
  | some m =>
      match last "username" m, last "password" m with
      | some username, some password => findAccount y username password d
      | _, _ => answered (refuse d 400 "username and password are required")
  | none => answered (raised d)

/-- `_create_session_token`: the `INSERT`. -/
def insertSession (read : Reading) (user : UserRow) (d : PyDb) : PyOutcome :=
  answered (createSessionToken read user d, ⟨200, .token read.token⟩)

/-- `_authenticate`, and what the view does for the user it finds. -/
def findSpeaker (now : ℕ) (header : Option String) (d : PyDb) (next : UserRow → PyPc) :
    PyOutcome :=
  match authenticate now header d with
  | none => answered (refuse d 401 "unauthorized")
  | some user => d.wait (next user)

/-- `register_view` for `POST` between `_authenticate` and the lock of the registry. -/
def readBody (y : PyExternals) (now : ℕ) (user : UserRow) (body : Json) (d : PyDb) : PyOutcome :=
  match y.dict body with
  | some m =>
      match last "username" m with
      | some (.str name) =>
          if name ≠ user.username then answered (refuse d 403 "forbidden")
          else
            match last "node_id" m, last "addrs" m with
            | some nodeId, some addrs =>
                d.wait (.putRecord name ⟨nodeId, addrs, (last "relay_url" m).getD .null, now⟩)
            | _, _ => answered (raised d)
      | _ => answered (refuse d 403 "forbidden")
  | none => answered (raised d)

/-- `upsert` under the lock of the registry. -/
def putRecord (y : PyExternals) (username : String) (record : JsonRecord) (d : PyDb) :
    PyOutcome :=
  let registry := d.registry.upsert y username record.nodeId record.addrs record.relayUrl
    record.lastSeen
  answered ({ d with registry }, ⟨200, .empty⟩)

/-- `register_view` for `DELETE` after `_authenticate`, with `remove` under the lock. -/
def dropRecord (y : PyExternals) (user : UserRow) (body : Json) (d : PyDb) : PyOutcome :=
  answered (deregisterAs y user.username body d)

/-- `fetch` under the lock of the registry; the clock was read before. -/
def listRecords (username : String) (now : ℕ) (d : PyDb) : PyOutcome :=
  ⟨d, .inr (.peers (d.registry.fetch username now))⟩

/-- `prune` under the lock of the registry; the clock was read before. -/
def pruneRecords (now : ℕ) (d : PyDb) : PyOutcome :=
  answered ({ d with registry := d.registry.prune now }, ⟨200, .empty⟩)

/-- The next segment of a view. -/
def pySegment (y : PyExternals) (read : Reading) (d : PyDb) :
    PyRequest → PyPc → Option PyOutcome
  | .api (.signup body), .start => some (findName y body d)
  | .api (.signup _), .findEmail username email password =>
      some (findEmail username email password d)
  | .api (.signup _), .insertUser username email password =>
      some (insertUser y read username email password d)
  | .api (.verify token), .start => some (findPending token d)
  | .api (.verify _), .saveUser id => some (saveUser id d)
  | .api (.login body), .start => some (loginBody y body d)
  | .api (.login _), .insertSession user => some (insertSession read user d)
  | .api (.register header _), .start => some (findSpeaker read.now header d .readBody)
  | .api (.register _ body), .readBody user => some (readBody y read.now user body d)
  | .api (.register _ _), .putRecord username record => some (putRecord y username record d)
  | .api (.deregister header _), .start => some (findSpeaker read.now header d .dropRecord)
  | .api (.deregister _ body), .dropRecord user => some (dropRecord y user body d)
  | .peers username, .start => some (d.wait (.listRecords username read.now))
  | .peers _, .listRecords username now => some (listRecords username now d)
  | .prune, .start => some (d.wait (.pruneRecords read.now))
  | .prune, .pruneRecords now => some (pruneRecords now d)
  | _, _ => none

/-! ### The server -/

/-- A view at work. -/
structure PyTask where
  request : PyRequest
  pc : PyPc

/-- The server with its views at work, the tokens generated so far, the clock it read last and
the calls so far. -/
structure PyConfig where
  db : PyDb
  tasks : ℕ → Option PyTask
  next : ℕ
  generated : List String
  clock : ℕ
  calls : List (CallEvent ℕ (PyRequest × ℕ) (PyAnswer × ℕ))

/-- An action of the outside world: a request arrives, a thread runs, an admin blocks or approves
the selected accounts. -/
inductive PyAction where
  | arrive (request : PyRequest)
  | run (i : ℕ) (read : Reading)
  | block (selected : List ℕ)
  | approve (selected : List ℕ)

/-- The server after a segment of view `i`. -/
def PyConfig.after (c : PyConfig) (i : ℕ) (request : PyRequest) (read : Reading)
    (o : PyOutcome) : PyConfig where
  db := o.db
  tasks := Function.update c.tasks i (o.next.elim (fun pc => some ⟨request, pc⟩) fun _ => none)
  next := c.next
  generated := read.token :: c.generated
  clock := read.now
  calls := c.calls ++ o.next.elim (fun _ => []) fun answer => [.ret i (answer, read.now)]

/-- One step; `secrets.token_hex` never returns a token twice, and the clock never goes back. -/
def PyConfig.step (y : PyExternals) (c : PyConfig) : PyAction → Option PyConfig
  | .arrive request => some { c with
      tasks := Function.update c.tasks c.next (some ⟨request, .start⟩)
      next := c.next + 1
      calls := c.calls ++ [.call c.next (request, c.clock)] }
  | .run i read =>
      match c.tasks i with
      | none => none
      | some task =>
          if read.token ∈ c.generated ∨ read.now < c.clock then none
          else (pySegment y read c.db task.request task.pc).map (c.after i task.request read)
  | .block selected => some { c with db := { c.db with
      users := blockAccounts c.db.users selected } }
  | .approve selected => some { c with db := { c.db with
      users := approveAccounts c.db.users selected } }

/-- Empty tables, and no view at work. -/
def PyConfig.start : PyConfig := ⟨⟨[], [], ∅⟩, fun _ => none, 0, [], 0, []⟩

/-- What a step is: a request arrives, a segment of a view runs, or an admin blocks or approves
accounts. -/
lemma pyStep_cases {y : PyExternals} {c c' : PyConfig} {a : PyAction}
    (hs : c.step y a = some c') :
    (∃ request, a = .arrive request ∧ c' = { c with
        tasks := Function.update c.tasks c.next (some ⟨request, .start⟩)
        next := c.next + 1
        calls := c.calls ++ [.call c.next (request, c.clock)] })
      ∨ (∃ i read request pc o, a = .run i read ∧ c.tasks i = some ⟨request, pc⟩
          ∧ read.token ∉ c.generated ∧ c.clock ≤ read.now
          ∧ pySegment y read c.db request pc = some o ∧ c' = c.after i request read o)
      ∨ (∃ selected, a = .block selected ∧ c' = { c with db := { c.db with
          users := blockAccounts c.db.users selected } })
      ∨ ∃ selected, a = .approve selected ∧ c' = { c with db := { c.db with
          users := approveAccounts c.db.users selected } } := by
  cases a with
  | arrive request => exact .inl ⟨request, rfl, (Option.some.inj hs).symm⟩
  | run i read =>
      simp only [PyConfig.step] at hs
      split at hs
      · cases hs
      · rename_i task htask
        split_ifs at hs with hguard
        obtain ⟨hfresh, hclock⟩ := not_or.mp hguard
        obtain ⟨o, ho, rfl⟩ := Option.map_eq_some_iff.mp hs
        exact .inr (.inl ⟨i, read, task.request, task.pc, o, rfl, htask, hfresh,
          not_lt.mp hclock, ho, rfl⟩)
  | block selected =>
      exact .inr (.inr (.inl ⟨selected, rfl, (Option.some.inj hs).symm⟩))
  | approve selected =>
      exact .inr (.inr (.inr ⟨selected, rfl, (Option.some.inj hs).symm⟩))

/-! ### A view that nothing comes between -/

/-- The rest of a view that runs alone, in at most so many segments. -/
def runView (y : PyExternals) (read : Reading) (request : PyRequest) :
    ℕ → PyDb → PyPc → Option (PyDb × PyAnswer)
  | 0, _, _ => none
  | n + 1, d, pc =>
      match pySegment y read d request pc with
      | none => none
      | some o =>
          match o.next with
          | .inl pc' => runView y read request n o.db pc'
          | .inr answer => some (o.db, answer)

variable {y : PyExternals} {read : Reading} {d : PyDb}

lemma runView_wait {request : PyRequest} {n : ℕ} {pc pc' : PyPc} {d' : PyDb}
    (h : pySegment y read d request pc = some (d'.wait pc')) :
    runView y read request (n + 1) d pc = runView y read request n d' pc' := by
  rw [runView, h]
  rfl

lemma runView_answer {request : PyRequest} {n : ℕ} {pc : PyPc} {answer : PyDb × Response}
    (h : pySegment y read d request pc = some (answered answer)) :
    runView y read request (n + 1) d pc = some (answer.1, .response answer.2) := by
  rw [runView, h]
  rfl

/-- What `pyServe` answers. -/
def served (answer : PyDb × Response) : Option (PyDb × PyAnswer) :=
  some (answer.1, .response answer.2)

/-- The `INSERT` of an account whose name and address no row has. -/
lemma insertUser_free {username email : String} (password : Json)
    (hname : ¬ (d.users.any fun row => row.username = username) = true)
    (hemail : ¬ (d.users.any fun row => row.email = email) = true) :
    insertUser y read username email password d = answered (match password with
      | .str password => ({ d with users := d.users ++ [newRow y read d username email password] },
          ⟨201, .message "Account created. Please check your email to verify your address."⟩)
      | _ => raised d) := by
  cases password with
  | str password =>
      refine if_neg fun hclash => ?_
      obtain ⟨row, hrow, hor⟩ := List.any_eq_true.mp hclash
      rcases of_decide_eq_true hor with h | h
      · exact hname (List.any_eq_true.mpr ⟨row, hrow, decide_eq_true h⟩)
      · exact hemail (List.any_eq_true.mpr ⟨row, hrow, decide_eq_true h⟩)
  | _ => rfl

/-- The rest of a signup alone, once its body was read. -/
lemma runView_createAccount {body : Json} {username email : String} {password : Json}
    (hstart : pySegment y read d (.api (.signup body)) .start = some (
      if username = "" ∨ email = "" ∨ y.truthy password = false then
        answered (refuse d 400 "username, email, and password must be non-empty")
      else if d.users.any fun row => row.username = username then
        answered (refuse d 409 "username already taken")
      else d.wait (.findEmail username email password))) :
    runView y read (.api (.signup body)) 3 d .start
      = served (createAccount y read username email password d) := by
  unfold createAccount
  split_ifs at hstart ⊢ with hempty hname hemail
  · exact runView_answer hstart
  · exact runView_answer hstart
  · rw [runView_wait hstart]
    refine runView_answer ?_
    rw [pySegment, findEmail, if_pos hemail]
  · have hsecond : pySegment y read d (.api (.signup body)) (.findEmail username email password)
        = some (d.wait (.insertUser username email password)) := by
      rw [pySegment, findEmail, if_neg hemail]
    rw [runView_wait hstart, runView_wait hsecond]
    refine runView_answer ((congrArg some (insertUser_free password hname hemail)).trans ?_)
    cases password <;> rfl

/-- A signup alone: no row comes between its queries and its `INSERT`. -/
lemma runView_signup (body : Json) : runView y read (.api (.signup body)) 3 d .start
    = served (signupView y read body d) := by
  have hstart : pySegment y read d (.api (.signup body)) .start = some (findName y body d) := rfl
  cases hbody : y.dict body with
  | none =>
      rw [findName, hbody] at hstart
      rw [signupView, hbody]
      exact runView_answer hstart
  | some m =>
      simp only [signupView, hbody]
      split
      · rename_i hu he hp
        refine runView_createAccount (hstart.trans (congrArg some ?_))
        simp only [findName, hbody, hu, he, hp]
      · rename_i hno
        refine runView_answer (hstart.trans (congrArg some ?_))
        simp only [findName, hbody]

/-- The rest of a login alone, once its body was read. -/
lemma runView_checkLogin {body username password : Json}
    (hstart : pySegment y read d (.api (.login body)) .start
      = some (findAccount y username password d)) :
    runView y read (.api (.login body)) 3 d .start
      = served (checkLogin y read username password d) := by
  unfold findAccount at hstart
  unfold checkLogin
  by_cases hlone : isLone username = true ∨ isLone password = true
  · rw [if_pos hlone] at hstart
    rw [if_pos hlone]
    exact runView_answer hstart
  rw [if_neg hlone] at hstart
  rw [if_neg hlone]
  generalize ((y.toStr username).bind fun name => d.users.find? fun row => row.username = name)
    = account at hstart ⊢
  cases account with
  | none =>
      simp only [ite_self] at hstart ⊢
      exact runView_answer hstart
  | some row =>
      simp only at hstart ⊢
      split_ifs at hstart ⊢
      · cases hstatus : row.status with
        | pending =>
            rw [hstatus] at hstart
            exact runView_answer hstart
        | blocked =>
            rw [hstatus] at hstart
            exact runView_answer hstart
        | approved =>
            rw [hstatus] at hstart
            rw [runView_wait hstart]
            exact runView_answer rfl
      · exact runView_answer hstart

/-- A login alone. -/
lemma runView_login (body : Json) : runView y read (.api (.login body)) 3 d .start
    = served (loginView y read body d) := by
  have hstart : pySegment y read d (.api (.login body)) .start = some (loginBody y body d) := rfl
  cases hbody : y.dict body with
  | none =>
      rw [loginBody, hbody] at hstart
      rw [loginView, hbody]
      exact runView_answer hstart
  | some m =>
      simp only [loginView, hbody]
      split
      · rename_i hu hp
        refine runView_checkLogin (hstart.trans (congrArg some ?_))
        simp only [loginBody, hbody, hu, hp]
      · rename_i hno
        refine runView_answer (hstart.trans (congrArg some ?_))
        simp only [loginBody, hbody]

/-- A verification alone: it saves the account it found. -/
lemma runView_verify (token : String) : runView y read (.api (.verify token)) 3 d .start
    = served (verifyView token d) := by
  have hstart : pySegment y read d (.api (.verify token)) .start
      = some (findPending token d) := rfl
  cases hfound : getPending d.users token with
  | nil =>
      rw [verifyView, hfound]
      rw [findPending, hfound] at hstart
      exact runView_answer hstart
  | cons account accounts =>
      cases accounts with
      | nil =>
          rw [verifyView, hfound]
          rw [findPending, hfound] at hstart
          rw [runView_wait hstart]
          exact runView_answer rfl
      | cons =>
          rw [verifyView, hfound]
          rw [findPending, hfound] at hstart
          exact runView_answer hstart

/-- The rest of a registration alone, once its user was found. -/
lemma runView_readBody {header : Option String} {n : ℕ} (user : UserRow) (body : Json) :
    runView y read (.api (.register header body)) (n + 2) d (.readBody user)
      = served (registerAs y read.now user.username body d) := by
  have hread : pySegment y read d (.api (.register header body)) (.readBody user)
      = some (readBody y read.now user body d) := rfl
  cases hbody : y.dict body with
  | none =>
      rw [readBody, hbody] at hread
      rw [registerAs, hbody]
      exact runView_answer hread
  | some m =>
      simp only [registerAs, hbody]
      split
      · rename_i name hu
        by_cases hname : name = user.username
        · rw [if_neg (not_not.mpr hname)]
          cases hnode : last "node_id" m with
          | none =>
              refine runView_answer (hread.trans (congrArg some ?_))
              simp only [readBody, hbody, hu, if_neg (not_not.mpr hname), hnode]
          | some nodeId =>
              cases haddrs : last "addrs" m with
              | none =>
                  refine runView_answer (hread.trans (congrArg some ?_))
                  simp only [readBody, hbody, hu, if_neg (not_not.mpr hname), hnode, haddrs]
              | some addrs =>
                  simp only [readBody, hbody, hu, if_neg (not_not.mpr hname), hnode, haddrs]
                    at hread
                  rw [runView_wait hread]
                  exact runView_answer rfl
        · rw [if_pos hname]
          refine runView_answer (hread.trans (congrArg some ?_))
          simp only [readBody, hbody, hu, if_pos hname]
      · rename_i hno
        refine runView_answer (hread.trans (congrArg some ?_))
        simp only [readBody, hbody]

/-- A registration alone. -/
lemma runView_register (header : Option String) (body : Json) :
    runView y read (.api (.register header body)) 3 d .start
      = served (registerView y read.now header body d) := by
  have hstart : pySegment y read d (.api (.register header body)) .start
      = some (findSpeaker read.now header d .readBody) := rfl
  simp only [findSpeaker] at hstart
  simp only [registerView]
  cases hspeaker : authenticate read.now header d with
  | none =>
      rw [hspeaker] at hstart
      exact runView_answer hstart
  | some user =>
      rw [hspeaker] at hstart
      rw [runView_wait hstart]
      exact runView_readBody user body

/-- A deregistration alone. -/
lemma runView_deregister (header : Option String) (body : Json) :
    runView y read (.api (.deregister header body)) 3 d .start
      = served (deregisterView y read.now header body d) := by
  have hstart : pySegment y read d (.api (.deregister header body)) .start
      = some (findSpeaker read.now header d .dropRecord) := rfl
  simp only [findSpeaker] at hstart
  simp only [deregisterView]
  cases hspeaker : authenticate read.now header d with
  | none =>
      rw [hspeaker] at hstart
      exact runView_answer hstart
  | some user =>
      rw [hspeaker] at hstart
      rw [runView_wait hstart]
      exact runView_answer rfl

/-- **A view that nothing comes between** changes the tables and answers as the view does that
is carried out at once. -/
theorem runView_eq (request : ApiRequest) :
    runView y read (.api request) 3 d .start = served (pyServe y read request d) := by
  cases request with
  | signup body => exact runView_signup body
  | login body => exact runView_login body
  | verify token => exact runView_verify token
  | register header body => exact runView_register header body
  | deregister header body => exact runView_deregister header body

end Rendezvous
