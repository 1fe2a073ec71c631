import Dddatasync.Rendezvous.PyApi
import Dddatasync.Rendezvous.RustCredentials

/-!
The way of an account through the Python server, and through both.

* `PyTurn`, `pyService`: the views of `rendezvous-py/rendezvous/views.py` and the admin actions
  as a `Service`; `SignupRequest.toJson` and its companions: the bodies a client sends.
* `PyMove`: what a turn does to the tables, `pyServe_move`.
* `pyLaws`: the Python server keeps the laws.
* `credentials_work_iff`: on both servers credentials that signed up work exactly if the
  username has no blanks around it.
-/

namespace Rendezvous

open Json

/-! ### The server -/

/-- The members in the body of a signup. -/
def SignupRequest.fields (req : SignupRequest) : List (Key × Json) :=
  [("username", .str req.username), ("email", .str req.email), ("password", .str req.password)]

/-- The body of a signup. -/
def SignupRequest.toJson (req : SignupRequest) : Json := .obj req.fields

/-- The members in the body of a login. -/
def LoginRequest.fields (req : LoginRequest) : List (Key × Json) :=
  [("username", .str req.username), ("password", .str req.password)]

/-- The body of a login. -/
def LoginRequest.toJson (req : LoginRequest) : Json := .obj req.fields

/-- The members in the body of a registration. -/
def RegisterRequest.fields (req : RegisterRequest) : List (Key × Json) :=
  [("username", .str req.username), ("node_id", .str req.nodeId),
    ("addrs", .arr (req.addrs.map .str)), ("relay_url", match req.relayUrl with
      | some url => .str url
      | none => .null)]

/-- The body of a registration. -/
def RegisterRequest.toJson (req : RegisterRequest) : Json := .obj req.fields

section Bodies

variable {y : PyExternals}

@[simp]
lemma dict_signupJson (req : SignupRequest) : y.dict req.toJson = some req.fields := by
  refine dict_of_flat fun p hp depth => ?_
  simp only [SignupRequest.fields, List.mem_cons, List.not_mem_nil, or_false] at hp
  rcases hp with rfl | rfl | rfl <;> exact within_str _

@[simp]
lemma dict_loginJson (req : LoginRequest) : y.dict req.toJson = some req.fields := by
  refine dict_of_flat fun p hp depth => ?_
  simp only [LoginRequest.fields, List.mem_cons, List.not_mem_nil, or_false] at hp
  rcases hp with rfl | rfl <;> exact within_str _

@[simp]
lemma dict_registerJson (req : RegisterRequest) : y.dict req.toJson = some req.fields := by
  refine dict_of_flat fun p hp depth => ?_
  simp only [RegisterRequest.fields, List.mem_cons, List.not_mem_nil, or_false] at hp
  rcases hp with rfl | rfl | rfl | rfl
  · exact within_str _
  · exact within_str _
  · exact within_texts _
  · cases req.relayUrl with
    | none => exact within_null
    | some url => exact within_str url

end Bodies

/-- What happens to the Python server: a request, a round of pruning, an admin action on the
selected rows. -/
inductive PyTurn where
  | serve (request : ApiRequest) (read : Reading)
  | prune (now : ℕ)
  | block (selected : List ℕ)
  | approve (selected : List ℕ)

/-- The tables after a turn. -/
def PyTurn.next (y : PyExternals) (d : PyDb) : PyTurn → PyDb
  | .serve request read => (pyServe y read request d).1
  | .prune now => { d with registry := d.registry.prune now }
  | .block selected => { d with users := blockAccounts d.users selected }
  | .approve selected => { d with users := approveAccounts d.users selected }

/-- The clock of a turn that reads it. -/
def PyTurn.clock : PyTurn → Option ℕ
  | .serve _ read => some read.now
  | .prune now => some now
  | _ => none

/-- The token that a login in this turn would issue. -/
def PyTurn.opens : PyTurn → Option String
  | .serve (.login _) read => some read.token
  | _ => none

/-- The row of a username. -/
def PyDb.user (d : PyDb) (v : String) : Option UserRow :=
  d.users.find? fun row => row.username = v

/-- The Python server with its admin. -/
def pyService (y : PyExternals) : Service PyDb PyTurn where
  init := ⟨[], [], ∅⟩
  next := PyTurn.next y
  signup := fun read req d => signupView y read req.toJson d
  login := fun read req d => loginView y read req.toJson d
  register := fun read token req d =>
    registerView y read.now (some ("Bearer " ++ token)) req.toJson d
  name := strip
  approved := fun d v => ∃ row, d.user v = some row ∧ row.status = .approved
  blocks := fun d turn v => ∃ selected row, turn = .block selected ∧ d.user v = some row
    ∧ row.id ∈ selected
  clock := PyTurn.clock
  opens := PyTurn.opens

@[simp]
lemma pyService_signup (y : PyExternals) (read : Reading) (req : SignupRequest) (d : PyDb) :
    (pyService y).signup read req d = signupView y read req.toJson d := by
  simp only [pyService]

@[simp]
lemma pyService_login (y : PyExternals) (read : Reading) (req : LoginRequest) (d : PyDb) :
    (pyService y).login read req d = loginView y read req.toJson d := by
  simp only [pyService]

lemma strip_strip (s : String) : strip (strip s) = strip s := by
  have hstrip : ∀ t : String, (strip t).toList = Text.strip isPySpace t.toList := fun t => by
    rw [strip, String.toList_ofList]
    rfl
  refine String.toList_injective ?_
  rw [hstrip, hstrip, Text.strip_strip]

variable {y : PyExternals} {read : Reading} {d d' : PyDb}

/-! ### What a turn does to the tables -/

/-- The same account: only its address, its status and its link may differ. -/
structure UserRow.Keeps (row row' : UserRow) : Prop where
  id : row'.id = row.id
  username : row'.username = row.username
  passwordHash : row'.passwordHash = row.passwordHash

/-- What a turn does to the tables: nothing, it appends an account, it rewrites the rows, or it
appends a session. -/
inductive PyMove (d : PyDb) (token : Option String) : PyDb → Prop
  | same (registry : JsonRegistry) : PyMove d token { d with registry := registry }
  | created (row : UserRow) (hname : strip row.username = row.username)
      (hid : row.id = nextId d.users) (hfree : ∀ r ∈ d.users, r.username ≠ row.username) :
      PyMove d token (d.withUser row)
  | saved (f : UserRow → UserRow) (hf : ∀ row : UserRow, row.Keeps (f row))
      (happroved : ∀ row : UserRow, row.status = .approved → (f row).status = .approved) :
      PyMove d token { d with users := d.users.map f }
  | opened (session : SessionRow) (htoken : token = some session.token) :
      PyMove d token { d with sessions := d.sessions ++ [session] }

lemma createAccount_move (u e : String) (p : Json) (token : Option String) :
    PyMove d token (createAccount y read (strip u) e p d).1 := by
  cases p with
  | str p =>
      simp only [createAccount]
      split_ifs with hempty hname hemail
      · exact .same _
      · exact .same _
      · exact .same _
      · refine .created (newRow y read d (strip u) e p) (strip_strip u) rfl fun r hr hru => ?_
        exact hname (List.any_eq_true.mpr ⟨r, hr, decide_eq_true hru⟩)
  | _ =>
      simp only [createAccount]
      split_ifs <;> exact .same _

lemma signupView_move (body : Json) (token : Option String) :
    PyMove d token (signupView y read body d).1 := by
  rw [signupView]
  split
  · split
    · exact createAccount_move _ _ _ token
    · rw [refuseSignup_fst]
      exact .same _
  · exact .same _

lemma verifyView_move (t : String) (token : Option String) :
    PyMove d token (verifyView t d).1 := by
  rw [verifyView]
  split
  · exact .same _
  · refine .saved _ (fun row => ?_) fun row hrow => ?_
    · split_ifs <;> exact ⟨rfl, rfl, rfl⟩
    · split_ifs
      · rfl
      · exact hrow
  · exact .same _

lemma loginView_move (body : Json) : PyMove d (some read.token) (loginView y read body d).1 := by
  rw [loginView]
  split
  · split
    · rename_i username password _ _
      by_cases hlone : isLone username = true ∨ isLone password = true
      · rw [checkLogin, if_pos hlone]
        exact .same _
      rw [checkLogin, if_neg hlone]
      simp only
      split
      · split_ifs <;> exact .same _
      · split_ifs
        · split
          · exact .same _
          · exact .same _
          · exact .opened _ rfl
        · exact .same _
    · exact .same _
  · exact .same _

/-- A view that only looks at the tables. -/
lemma registerView_move (header : Option String) (now : ℕ) (body : Json) (token : Option String) :
    PyMove d token (registerView y now header body d).1 := by
  rw [registerView]
  split
  · exact .same _
  · rw [registerAs]
    split
    · split
      · split_ifs
        · exact .same _
        · split <;> exact .same _
      · exact .same _
    · exact .same _

lemma deregisterView_move (header : Option String) (now : ℕ) (body : Json)
    (token : Option String) : PyMove d token (deregisterView y now header body d).1 := by
  rw [deregisterView]
  split
  · exact .same _
  · rw [deregisterAs]
    split
    · split
      · split_ifs
        · exact .same _
        · split <;> exact .same _
      · exact .same _
    · exact .same _

/-- **What a turn does to the tables**, unless the admin blocks accounts. -/
lemma next_move {turn : PyTurn} (hturn : ∀ selected, turn ≠ .block selected) :
    PyMove d turn.opens (turn.next y d) := by
  cases turn with
  | serve request read =>
      cases request with
      | signup body => exact signupView_move body _
      | login body => exact loginView_move body
      | verify token => exact verifyView_move token _
      | register header body => exact registerView_move header _ body _
      | deregister header body => exact deregisterView_move header _ body _
  | prune now => exact .same _
  | block selected => exact absurd rfl (hturn selected)
  | approve selected =>
      refine .saved _ (fun row => ?_) fun row hrow => ?_
      · split_ifs <;> exact ⟨rfl, rfl, rfl⟩
      · split_ifs
        · rfl
        · exact hrow

/-! ### Accounts -/

/-- Rows have their own keys and stripped usernames. -/
structure PyDb.Stripped (d : PyDb) : Prop where
  ids : (d.users.map (·.id)).Nodup
  names : ∀ row ∈ d.users, strip row.username = row.username

/-- The sessions of a token. -/
def PyDb.sessionsOf (d : PyDb) (token : String) : List SessionRow :=
  d.sessions.filter fun session => session.token = token

lemma user_eq_some {v : String} {row : UserRow} (h : d.user v = some row) :
    row ∈ d.users ∧ row.username = v := by
  rw [PyDb.user] at h
  exact ⟨List.mem_of_find?_eq_some h, by simpa using List.find?_some h⟩

/-- Rewriting the rows rewrites the row of a user. -/
lemma user_map {f : UserRow → UserRow} (hf : ∀ row : UserRow, row.Keeps (f row)) (v : String) :
    PyDb.user { d with users := d.users.map f } v = (d.user v).map f := by
  rw [PyDb.user, PyDb.user, List.find?_map]
  refine congrArg (Option.map f) (congrArg (List.find? · d.users) (funext fun row => ?_))
  simp [(hf row).username]

lemma stripped_map {f : UserRow → UserRow} (hf : ∀ row : UserRow, row.Keeps (f row))
    (h : d.Stripped) : PyDb.Stripped { d with users := d.users.map f } := by
  refine ⟨?_, fun row hrow => ?_⟩
  · have hids : (d.users.map f).map (·.id) = d.users.map (·.id) := by
      rw [List.map_map]
      exact List.map_congr_left fun row _ => (hf row).id
    rw [hids]
    exact h.ids
  · obtain ⟨old, hold, rfl⟩ := List.mem_map.mp hrow
    rw [(hf old).username]
    exact h.names old hold

lemma stripped_move {token : Option String} (h : d.Stripped) (hmove : PyMove d token d') :
    d'.Stripped := by
  cases hmove with
  | same | opened => exact ⟨h.ids, h.names⟩
  | saved f hf => exact stripped_map hf h
  | created row hname hid hfree =>
      refine ⟨?_, fun r hr => ?_⟩
      · rw [PyDb.withUser, List.map_append, List.nodup_append]
        refine ⟨h.ids, List.nodup_singleton _, ?_⟩
        rintro i hi j hj rfl
        obtain ⟨r, hr, rfl⟩ := List.mem_map.mp hi
        exact nextId_ne r hr ((List.mem_singleton.mp hj).trans hid)
      · rcases List.mem_append.mp hr with hr | hr
        · exact h.names r hr
        · rw [List.mem_singleton.mp hr]
          exact hname

/-- A turn keeps the row of a user, and its approval. -/
lemma user_move {token : Option String} {v : String} {row : UserRow} (hmove : PyMove d token d')
    (h : d.user v = some row) : ∃ row', d'.user v = some row' ∧ row.Keeps row'
      ∧ (row.status = .approved → row'.status = .approved) := by
  cases hmove with
  | same | opened => exact ⟨row, h, ⟨rfl, rfl, rfl⟩, id⟩
  | saved f hf happroved =>
      exact ⟨f row, by rw [user_map hf, h, Option.map_some], hf row, happroved row⟩
  | created new =>
      refine ⟨row, ?_, ⟨rfl, rfl, rfl⟩, id⟩
      rw [PyDb.user] at h
      rw [PyDb.user, PyDb.withUser, List.find?_append, h, Option.some_or]

/-- Blocking keeps the row of a user, and its approval if it is not selected. -/
lemma user_block {selected : List ℕ} {v : String} {row : UserRow} (h : d.user v = some row) :
    ∃ row', ((PyTurn.block selected).next y d).user v = some row' ∧ row.Keeps row'
      ∧ (row.id ∉ selected → row' = row) := by
  have hf : ∀ row : UserRow, row.Keeps
      (if row.id ∈ selected then { row with status := .blocked } else row) := fun row => by
    split_ifs <;> exact ⟨rfl, rfl, rfl⟩
  refine ⟨_, (user_map hf v).trans (by rw [h, Option.map_some]), hf row, fun hrow => if_neg hrow⟩

/-- A turn that issues no such token. -/
lemma sessionsOf_move {token : String} {issued : Option String} (hmove : PyMove d issued d')
    (hissued : issued ≠ some token) : d'.sessionsOf token = d.sessionsOf token := by
  cases hmove with
  | same | created | saved => rfl
  | opened session htoken =>
      have hne : session.token ≠ token := fun heq => hissued (htoken.trans (congrArg some heq))
      rw [PyDb.sessionsOf, List.filter_append, List.filter_singleton, decide_eq_false hne]
      exact List.append_nil _

/-- What any turn does, blocking included. -/
lemma turn_cases (turn : PyTurn) :
    (∃ selected, turn = .block selected) ∨ PyMove d turn.opens (turn.next y d) := by
  by_cases h : ∃ selected, turn = .block selected
  · exact .inl h
  · exact .inr (next_move fun selected hturn => h ⟨selected, hturn⟩)

/-! ### The requests of a trip -/

/-- A signup may append an account. -/
lemma py_signup_move (req : SignupRequest) (d : PyDb) :
    PyMove d none ((pyService y).signup read req d).1 := by
  rw [pyService_signup]
  exact signupView_move req.toJson none

/-- A login may append a session. -/
lemma py_login_move (req : LoginRequest) (d : PyDb) :
    PyMove d (some read.token) ((pyService y).login read req d).1 := by
  rw [pyService_login]
  exact loginView_move req.toJson

/-- What a signup that is answered 201 stores. -/
lemma py_signup_created {req : SignupRequest}
    (h : (signupView y read req.toJson d).2.status = 201) :
    ∃ row, PyDb.user (signupView y read req.toJson d).1 (strip req.username) = some row
      ∧ row.passwordHash = y.makePassword read.salt req.password := by
  have hview : signupView y read req.toJson d = createAccount y read (strip req.username)
      (y.lower (strip req.email)) (.str req.password) d := by
    rw [signupView, dict_signupJson]
    rfl
  rw [hview] at h ⊢
  simp only [createAccount] at h ⊢
  split_ifs at h ⊢ with hempty hname hemail
  · cases h
  · cases h
  · cases h
  · refine ⟨newRow y read d (strip req.username) (y.lower (strip req.email)) req.password, ?_, rfl⟩
    have hnone : d.user (strip req.username) = none := by
      rw [PyDb.user, List.find?_eq_none]
      intro row hrow hu
      exact hname (List.any_eq_true.mpr ⟨row, hrow, hu⟩)
    rw [PyDb.user] at hnone
    rw [PyDb.user, List.find?_append, hnone, Option.none_or, List.find?_singleton]
    exact if_pos (decide_eq_true rfl)

lemma py_login_eq (req : LoginRequest) :
    loginView y read req.toJson d
      = checkLogin y read (.str req.username) (.str req.password) d := by
  rw [loginView, dict_loginJson]
  rfl

lemma isLone_str (s t : String) : ¬ (isLone (.str s) = true ∨ isLone (.str t) = true) := by
  rintro (h | h) <;> cases h

lemma py_login_unknown {req : LoginRequest} (h : d.user req.username = none) :
    (loginView y read req.toJson d).2.status = 401 := by
  rw [PyDb.user] at h
  rw [py_login_eq, checkLogin, if_neg (isLone_str _ _), y.toStr_str, Option.bind_some, h]
  simp only [ite_self]
  rfl

lemma py_login_known {req : LoginRequest} {row : UserRow} (h : d.user req.username = some row)
    (hpassword : y.checkPassword req.password row.passwordHash = true)
    (hstatus : row.status = .approved) :
    loginView y read req.toJson d = (createSessionToken read row d, ⟨200, .token read.token⟩) := by
  have hcheck : checkPassword y (.str req.password) row.passwordHash = true := by
    rw [checkPassword, y.toStr_str]
    exact hpassword
  rw [PyDb.user] at h
  rw [py_login_eq, checkLogin, if_neg (isLone_str _ _), y.toStr_str, Option.bind_some, h]
  simp only [hcheck, hstatus, if_true]

/-- Whom a token speaks for while it is not expired. -/
lemma py_authenticate {token v : String} {row : UserRow} {now e : ℕ} (hd : d.Stripped)
    (hrow : d.user v = some row) (hstatus : row.status = .approved)
    (hsession : d.sessionsOf token = [⟨row.id, token, e⟩]) (hlive : now < e) :
    authenticate now (some ("Bearer " ++ token)) d = some row := by
  have hfilter : (d.sessions.filter fun session => session.token = token ∧ session.expiresAt > now)
      = [⟨row.id, token, e⟩] := by
    have hand : (d.sessions.filter fun session => session.token = token ∧ session.expiresAt > now)
        = (d.sessionsOf token).filter fun session => session.expiresAt > now := by
      rw [PyDb.sessionsOf, List.filter_filter]
      refine List.filter_congr fun session _ => ?_
      rw [Bool.and_comm, Bool.decide_and]
    rw [hand, hsession, List.filter_singleton, decide_eq_true hlive]
    rfl
  have huser : sessionUser d ⟨row.id, token, e⟩ = some row := by
    have hfind : (d.users.find? fun r => r.id = row.id) = some row := by
      rw [find?_eq_some_of_unique (unique_of_nodup hd.ids row.id)]
      exact ⟨(user_eq_some hrow).1, decide_eq_true rfl⟩
    rw [sessionUser, hfind, Option.filter_some, decide_eq_true hstatus]
    rfl
  rw [authenticate, bearer_append, Option.bind_some, hfilter]
  simp only [List.filterMap_cons, huser, List.filterMap_nil, List.head?_cons]

lemma py_register_ok {now : ℕ} (req : RegisterRequest) :
    (registerAs y now req.username req.toJson d).2.status = 200 := by
  have hname : last "username" req.fields = some (.str req.username) := rfl
  simp only [registerAs, dict_registerJson, hname, ne_eq, not_true_eq_false, if_false]
  rfl

/-- **The Python server keeps the laws**, where a password verifies against its own hash. -/
def pyLaws (hy : ∀ salt password, y.checkPassword password (y.makePassword salt password) = true) :
    Laws (pyService y) where
  inv := PyDb.Stripped
  fits := fun d v q => ∃ row, d.user v = some row ∧ y.checkPassword q row.passwordHash = true
  unissued := fun d token => d.sessionsOf token = []
  session := fun d token v e => ∃ row, d.user v = some row
    ∧ d.sessionsOf token = [⟨row.id, token, e⟩]
  inv_init := ⟨List.nodup_nil, fun _ h => by cases h⟩
  inv_next := fun {d turn} h => by
    rcases turn_cases turn with ⟨selected, rfl⟩ | hmove
    · exact stripped_map (fun row => by split_ifs <;> exact ⟨rfl, rfl, rfl⟩) h
    · exact stripped_move h hmove
  inv_signup := fun h => stripped_move h (py_signup_move _ _)
  inv_login := fun h => stripped_move h (py_login_move _ _)
  fits_signup := fun _ h => by
    rw [pyService_signup] at h ⊢
    obtain ⟨row, hrow, hhash⟩ := py_signup_created h
    exact ⟨row, hrow, hhash ▸ hy _ _⟩
  fits_next := fun {d turn v q} _ ⟨row, hrow, hfits⟩ => by
    rcases turn_cases turn with ⟨selected, rfl⟩ | hmove
    · obtain ⟨row', hrow', hkeeps, -⟩ := user_block (y := y) hrow
      exact ⟨row', hrow', hkeeps.passwordHash ▸ hfits⟩
    · obtain ⟨row', hrow', hkeeps, -⟩ := user_move hmove hrow
      exact ⟨row', hrow', hkeeps.passwordHash ▸ hfits⟩
  approved_next := fun {d turn v} _ ⟨row, hrow, hstatus⟩ hblocks => by
    rcases turn_cases turn with ⟨selected, rfl⟩ | hmove
    · obtain ⟨row', hrow', -, hsame⟩ := user_block (y := y) hrow
      obtain rfl := hsame fun hid => hblocks ⟨selected, row, rfl, hrow, hid⟩
      exact ⟨_, hrow', hstatus⟩
    · obtain ⟨row', hrow', -, hkept⟩ := user_move hmove hrow
      exact ⟨row', hrow', hkept hstatus⟩
  unissued_init := rfl
  unissued_next := fun {d turn token} h hopens => by
    rcases turn_cases turn with ⟨selected, rfl⟩ | hmove
    · exact h
    · exact (sessionsOf_move hmove hopens).trans h
  unissued_signup := fun h => (sessionsOf_move (py_signup_move _ _) (by simp)).trans h
  login_unknown := fun {d read req} h hname => py_login_unknown <|
    Option.eq_none_iff_forall_ne_some.mpr fun row hrow => by
      obtain ⟨hmem, hu⟩ := user_eq_some hrow
      exact hname (hu ▸ h.names row hmem)
  login_known := fun {d read req} _ hunissued ⟨row, hrow, hfits⟩ ⟨row', hrow', hstatus⟩ => by
    obtain rfl := Option.some.inj (hrow.symm.trans hrow')
    have hlogin : (pyService y).login read req d
        = (createSessionToken read row d, ⟨200, .token read.token⟩) :=
      py_login_known hrow hfits hstatus
    rw [hlogin]
    refine ⟨rfl, ⟨row, hrow, ?_⟩, row, hrow, hstatus⟩
    rw [PyDb.sessionsOf] at hunissued
    rw [PyDb.sessionsOf, createSessionToken, List.filter_append, hunissued,
      List.filter_singleton, decide_eq_true rfl]
    rfl
  session_next := fun {d turn token v e} _ ⟨row, hrow, hsession⟩ hopens _ => by
    rcases turn_cases turn with ⟨selected, rfl⟩ | hmove
    · obtain ⟨row', hrow', hkeeps, -⟩ := user_block (y := y) hrow
      exact ⟨row', hrow', hkeeps.id ▸ hsession⟩
    · obtain ⟨row', hrow', hkeeps, -⟩ := user_move hmove hrow
      refine ⟨row', hrow', (sessionsOf_move hmove hopens).trans ?_⟩
      rw [hsession, hkeeps.id]
  register_ok := fun {d read token req e} h ⟨row, hrow, hsession⟩ ⟨row', hrow', hstatus⟩ hlive => by
    obtain rfl := Option.some.inj (hrow.symm.trans hrow')
    show (registerView y read.now (some ("Bearer " ++ token)) req.toJson d).2.status = 200
    rw [registerView, py_authenticate h hrow hstatus hsession hlive]
    simp only [(user_eq_some hrow).2]
    exact py_register_ok req

/-! ### Both servers -/

/-- **Credentials that signed up.**  On both servers, after any signup that was answered 201 and
the approval of its account, the login with the same username and password returns a token
with which devices can be registered for the username, exactly if the server does not take
anything off the username. -/
theorem credentials_work_iff {x : Externals} {y : PyExternals}
    (hx : ∀ salt password hash, x.hashPassword salt password = some hash →
      x.verifyPassword password hash = true)
    (hy : ∀ salt password, y.checkPassword password (y.makePassword salt password) = true)
    (username email password : String) :
    (∀ t : Trip (rustService x) username email password, t.Works ↔ trim username = username)
      ∧ ∀ t : Trip (pyService y) username email password, t.Works ↔ strip username = username :=
  ⟨fun t => (rustLaws hx).works_iff t, fun t => (pyLaws hy).works_iff t⟩

/-- A signup that is approved at once, and a login after it, on the Rust server. -/
def rustTrip (username : String)
    (hcreated : (rustReply plainExternals ⟨0, "first", "", true⟩
      (.signup ⟨username, "a@b", "pw"⟩) start.state).2.status = 201)
    (happroved : ((rustReply plainExternals ⟨0, "first", "", true⟩
      (.signup ⟨username, "a@b", "pw"⟩) start.state).1.users.lookup (trim username)).map (·.status)
        = some .approved) :
    Trip (rustService plainExternals) username "a@b" "pw" where
  before := []
  signup := ⟨0, "first", "", true⟩
  middle := []
  login := ⟨1, "second", "", true⟩
  created := hcreated
  approved := Option.map_eq_some_iff.mp happroved
  fresh := by simp

/-- The same on the Python server. -/
def pyTrip (username : String)
    (hcreated : (signupView plainPy ⟨0, "first", "", true⟩
      (SignupRequest.toJson ⟨username, "a@b", "pw"⟩) ⟨[], [], ∅⟩).2.status = 201)
    (happroved : (PyDb.user (signupView plainPy ⟨0, "first", "", true⟩
      (SignupRequest.toJson ⟨username, "a@b", "pw"⟩) ⟨[], [], ∅⟩).1 (strip username)).map (·.status)
        = some .approved) :
    Trip (pyService plainPy) username "a@b" "pw" where
  before := []
  signup := ⟨0, "first", "", true⟩
  middle := []
  login := ⟨1, "second", "", true⟩
  created := hcreated
  approved := Option.map_eq_some_iff.mp happroved
  fresh := by simp

/-- A username with a blank before it signs up and cannot log in. -/
theorem blank_locked_out : ¬ (rustTrip " alice" (by decide) (by decide)).Works
    ∧ ¬ (pyTrip " alice" (by decide) (by decide)).Works :=
  ⟨fun h => absurd h.login (by decide), fun h => absurd h.login (by decide)⟩

theorem alice_works : (rustTrip "alice" (by decide) (by decide)).Works
    ∧ (pyTrip "alice" (by decide) (by decide)).Works := by
  obtain ⟨hrust, hpy⟩ := credentials_work_iff (x := plainExternals) (y := plainPy)
    (fun _ _ _ h => by cases h; exact beq_self_eq_true _) (fun _ _ => beq_self_eq_true _)
    "alice" "a@b" "pw"
  exact ⟨(hrust _).mpr (by decide), (hpy _).mpr (by decide)⟩

end Rendezvous
