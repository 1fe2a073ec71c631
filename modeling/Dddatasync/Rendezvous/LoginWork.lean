import Dddatasync.Rendezvous.Server

/-!
What a login costs: `handle_login` of `rendezvous/src/main.rs` with the Argon2 evaluations it
makes, and `DUMMY_HASH`, which is computed at its first use.

* `PasswordHashing`: the hashing crates; `hashPassword`, `verifyPassword`, `dummyHash`,
  `countedLogin`: the code with a count; `countedLogin_refines`: the answer and the stores are
  those of the server.
* `Indistinguishable`: two states answer a login with the same text and the same work.
* `SameWork`, `failed_login_iff`: exactly when a failed login does not tell whether the name
  exists; `sameWork_of_made`: what this comes to for hashes that the server made.
-/

namespace Rendezvous

/-! ### Hashing -/

/-- The `argon2` and `password-hash` crates: hashing with an explicit salt, parsing a hash, and
the check of a password against it, which can be refused before Argon2 runs.  A hash that was
made parses, and every password that Argon2 takes is then evaluated. -/
structure PasswordHashing (Parsed : Type*) where
  hash : String → String → Option String
  parse : String → Option Parsed
  verify : String → Parsed → Option Bool
  takes : String → Prop
  parse_empty : parse "" = none
  takes_of_verify : ∀ password parsed ok, verify password parsed = some ok → takes password
  verify_of_hash : ∀ salt password h, hash salt password = some h →
    ∃ parsed, parse h = some parsed ∧
      ∀ attempt, takes attempt → (verify attempt parsed).isSome = true

/-- A result with the number of Argon2 evaluations behind it. -/
structure Counted (α : Type*) where
  value : α
  evaluations : ℕ

variable {Parsed : Type*} (x : PasswordHashing Parsed)

/-- `hash_password`; it fails before Argon2 runs or not at all. -/
def hashPassword (salt password : String) : Counted (Option String) :=
  match x.hash salt password with
  | none => ⟨none, 0⟩
  | some hash => ⟨some hash, 1⟩

/-- `verify_password`. -/
def verifyPassword (password hash : String) : Counted Bool :=
  match x.parse hash with
  | none => ⟨false, 0⟩
  | some parsed =>
      match x.verify password parsed with
      | none => ⟨false, 0⟩
      | some ok => ⟨ok, 1⟩

/-- `DUMMY_HASH`: its text if it has been used before, else what its initialiser computes. -/
def dummyHash (salt : String) : Option String → Counted String
  | some text => ⟨text, 0⟩
  | none =>
      let hashed := hashPassword x salt "_dummy_"
      ⟨hashed.value.getD "", hashed.evaluations⟩

/-! ### The handler -/

/-- How a login ends: the answer, the stores, the dummy hash and the evaluations. -/
structure LoginRun where
  response : Response
  state : AppState
  dummy : Option String
  evaluations : ℕ

/-- The answer of `err_invalid`. -/
def invalidCredentials : Response := ⟨401, .error "invalid credentials"⟩

/-- `handle_login`. -/
def countedLogin (read : Reading) (req : LoginRequest) (dummy : Option String) (s : AppState) :
    LoginRun :=
  match s.users.lookup req.username with
  | none =>
      -- the password is checked against the dummy hash, and the result is not looked at
      let hash := dummyHash x read.salt dummy
      let ok := verifyPassword x req.password hash.value
      ⟨invalidCredentials, s, some hash.value, hash.evaluations + ok.evaluations⟩
  | some account =>
      let ok := verifyPassword x req.password account.passwordHash
      if ok.value then
        match account.status with
        | .pending =>
            ⟨⟨403, .error "account pending email verification — check your inbox"⟩, s, dummy,
              ok.evaluations⟩
        | .blocked => ⟨⟨403, .error "account blocked"⟩, s, dummy, ok.evaluations⟩
        | .approved =>
            ⟨⟨200, .token read.token⟩,
              { s with sessions :=
                s.sessions.insert read.token ⟨req.username, read.now + sessionTtlSecs⟩ },
              dummy, ok.evaluations⟩
      else ⟨invalidCredentials, s, dummy, ok.evaluations⟩

/-- The hashing without the count, as the server's steps take it. -/
def PasswordHashing.externals (dummy : String) (toLowercase : String → String) : Externals where
  hashPassword := fun salt password => (hashPassword x salt password).value
  verifyPassword := fun password hash => (verifyPassword x password hash).value
  dummyHash := dummy
  toLowercase := toLowercase

/-- A login that nothing interrupts between its two locks. -/
def completed (read : Reading) (i : ℕ) (o : Outcome) : Option (AppState × Response) :=
  match o.next with
  | .inr response => some (o.state, response)
  | .inl (.openSession username token) =>
      let opened := openSession read i username token o.state
      match opened.next with
      | .inr response => some (opened.state, response)
      | .inl _ => none
  | .inl _ => none

/-- The count is beside the answer and the stores: these are the server's. -/
theorem countedLogin_refines (read : Reading) (i : ℕ) (req : LoginRequest) (dummy : Option String)
    (text : String) (toLowercase : String → String) (s : AppState) :
    completed read i (loginStart (x.externals text toLowercase) read i req s) =
      some ((countedLogin x read req dummy s).state,
        (countedLogin x read req dummy s).response) := by
  rw [loginStart, countedLogin]
  cases s.users.lookup req.username with
  | none => simp only [ite_self, respond, completed, invalidCredentials]
  | some account =>
      have hext : (x.externals text toLowercase).verifyPassword req.password account.passwordHash
          = (verifyPassword x req.password account.passwordHash).value := rfl
      cases hok : (verifyPassword x req.password account.passwordHash).value with
      | false =>
          simp only [hext, hok, Bool.false_eq_true, if_false]
          rfl
      | true =>
          simp only [hext, hok, if_true]
          cases account.status <;> rfl

/-! ### Two states -/

/-- The two states differ at most in the account under one name. -/
structure SameButFor (username : String) (s s' : AppState) : Prop where
  registry : s.registry = s'.registry
  sessions : s.sessions = s'.sessions
  verifyTokens : s.verifyTokens = s'.verifyTokens
  users : ∀ v, v ≠ username → s.users.lookup v = s'.users.lookup v

/-- The password is not that of the account, if there is one. -/
def Fails (req : LoginRequest) (s : AppState) : Prop :=
  ∀ account, s.users.lookup req.username = some account →
    (verifyPassword x req.password account.passwordHash).value = false

/-- Nothing tells the login in one state from that in the other. -/
structure Indistinguishable (read : Reading) (req : LoginRequest) (dummy : Option String)
    (s s' : AppState) : Prop where
  response :
    (countedLogin x read req dummy s).response = (countedLogin x read req dummy s').response
  sessions : (countedLogin x read req dummy s).state.sessions = s.sessions
  sessions' : (countedLogin x read req dummy s').state.sessions = s'.sessions
  evaluations :
    (countedLogin x read req dummy s).evaluations = (countedLogin x read req dummy s').evaluations

/-- Argon2 runs when the password is checked against the hash. -/
def Evaluates (password hash : String) : Prop :=
  ∃ parsed ok, x.parse hash = some parsed ∧ x.verify password parsed = some ok

/-- When the work does not depend on the hash stored for the name: it is the same for both
hashes, and an unknown name costs what the known one does only if the dummy hash is there, or
cannot be had. -/
def SameWork (salt password : String) (dummy : Option String) :
    Option String → Option String → Prop
  | none, none => True
  | some h, some h' => (Evaluates x password h ↔ Evaluates x password h')
  | none, some h | some h, none =>
      match dummy with
      | some text => (Evaluates x password text ↔ Evaluates x password h)
      | none => x.hash salt "_dummy_" = none ∧ ¬ Evaluates x password h

variable {x} {read : Reading} {req : LoginRequest} {dummy : Option String} {s s' : AppState}

/-! ### The work -/

lemma evaluations_eq_one {password hash : String} (h : Evaluates x password hash) :
    (verifyPassword x password hash).evaluations = 1 := by
  obtain ⟨parsed, ok, hparsed, hok⟩ := h
  simp only [verifyPassword, hparsed, hok]

lemma evaluations_eq_zero {password hash : String} (h : ¬ Evaluates x password hash) :
    (verifyPassword x password hash).evaluations = 0 := by
  rw [verifyPassword]
  cases hparsed : x.parse hash with
  | none => rfl
  | some parsed =>
      simp only
      cases hok : x.verify password parsed with
      | none => rfl
      | some ok => exact absurd ⟨parsed, ok, hparsed, hok⟩ h

lemma evaluations_eq_iff {password hash hash' : String} :
    (verifyPassword x password hash).evaluations = (verifyPassword x password hash').evaluations ↔
      (Evaluates x password hash ↔ Evaluates x password hash') := by
  by_cases h : Evaluates x password hash <;> by_cases h' : Evaluates x password hash'
  · simp [evaluations_eq_one h, evaluations_eq_one h', h, h']
  · simp [evaluations_eq_one h, evaluations_eq_zero h', h, h']
  · simp [evaluations_eq_zero h, evaluations_eq_one h', h, h']
  · simp [evaluations_eq_zero h, evaluations_eq_zero h', h, h']

lemma not_evaluates_empty {password : String} : ¬ Evaluates x password "" := by
  rintro ⟨parsed, ok, hparsed, -⟩
  rw [x.parse_empty] at hparsed
  cases hparsed

/-- A hash that was made is evaluated on every password that Argon2 takes. -/
lemma evaluates_made_iff {salt made password hash : String} (h : x.hash salt made = some hash) :
    Evaluates x password hash ↔ x.takes password := by
  obtain ⟨parsed, hparsed, hverify⟩ := x.verify_of_hash salt made hash h
  constructor
  · rintro ⟨parsed', ok, -, hok⟩
    exact x.takes_of_verify password parsed' ok hok
  · intro htakes
    obtain ⟨ok, hok⟩ := Option.isSome_iff_exists.mp (hverify password htakes)
    exact ⟨parsed, ok, hparsed, hok⟩

/-- The work for an unknown name. -/
def unknownWork (x : PasswordHashing Parsed) (salt password : String) (dummy : Option String) :
    ℕ :=
  (dummyHash x salt dummy).evaluations +
    (verifyPassword x password (dummyHash x salt dummy).value).evaluations

/-- An unknown name costs what a known one does only if the dummy hash is there already, or
cannot be had: the first use takes one evaluation more than any check. -/
lemma unknownWork_eq_iff {salt password hash : String} :
    unknownWork x salt password dummy = (verifyPassword x password hash).evaluations ↔
      SameWork x salt password dummy none (some hash) := by
  cases dummy with
  | some text =>
      simp only [unknownWork, dummyHash, Nat.zero_add]
      exact evaluations_eq_iff
  | none =>
      simp only [unknownWork, dummyHash, hashPassword, SameWork]
      cases hmade : x.hash salt "_dummy_" with
      | none =>
          simp only [Option.getD_none, Nat.zero_add, true_and]
          rw [evaluations_eq_iff]
          simp only [not_evaluates_empty, false_iff]
      | some text =>
          simp only [Option.getD_some, reduceCtorEq, false_and, iff_false]
          by_cases htakes : x.takes password
          · rw [evaluations_eq_one ((evaluates_made_iff hmade).mpr htakes)]
            by_cases hhash : Evaluates x password hash
            · rw [evaluations_eq_one hhash]
              decide
            · rw [evaluations_eq_zero hhash]
              decide
          · have hhash : ¬ Evaluates x password hash := by
              rintro ⟨parsed, ok, -, hok⟩
              exact htakes (x.takes_of_verify password parsed ok hok)
            rw [evaluations_eq_zero hhash]
            omega

/-! ### Failed logins -/

/-- The hash stored for a name. -/
def storedHash (s : AppState) (username : String) : Option String :=
  (s.users.lookup username).map (·.passwordHash)

/-- A failed login: the answer is always the same, no store changes, and the work depends on
the hash that is stored. -/
lemma countedLogin_of_fails (read : Reading) (dummy : Option String) (h : Fails x req s) :
    (countedLogin x read req dummy s).response = invalidCredentials
      ∧ (countedLogin x read req dummy s).state = s
      ∧ (countedLogin x read req dummy s).evaluations =
        match storedHash s req.username with
        | none => unknownWork x read.salt req.password dummy
        | some hash => (verifyPassword x req.password hash).evaluations := by
  rw [countedLogin, storedHash]
  cases hs : s.users.lookup req.username with
  | none => exact ⟨rfl, rfl, rfl⟩
  | some account =>
      simp only [h account hs, Bool.false_eq_true, if_false]
      exact ⟨trivial, trivial, rfl⟩

/-- **A failed login.**  For a password that fails in both states, the answers are the same and
the sessions stay as they are; so the login tells nothing exactly when its work is the same
for the two stored hashes. -/
theorem failed_login_iff (x : PasswordHashing Parsed) (read : Reading) (req : LoginRequest)
    (dummy : Option String) {s s' : AppState} (hs : Fails x req s) (hs' : Fails x req s') :
    Indistinguishable x read req dummy s s' ↔
      SameWork x read.salt req.password dummy (storedHash s req.username)
        (storedHash s' req.username) := by
  obtain ⟨hresponse, hstate, hwork⟩ := countedLogin_of_fails read dummy hs
  obtain ⟨hresponse', hstate', hwork'⟩ := countedLogin_of_fails read dummy hs'
  have hiff : Indistinguishable x read req dummy s s' ↔
      (countedLogin x read req dummy s).evaluations
        = (countedLogin x read req dummy s').evaluations :=
    ⟨fun h => h.evaluations, fun h => ⟨hresponse.trans hresponse'.symm, by rw [hstate],
      by rw [hstate'], h⟩⟩
  rw [hiff, hwork, hwork']
  cases storedHash s req.username with
  | none =>
      cases storedHash s' req.username with
      | none => exact iff_of_true rfl trivial
      | some hash' => exact unknownWork_eq_iff
  | some hash =>
      cases storedHash s' req.username with
      | none => exact eq_comm.trans unknownWork_eq_iff
      | some hash' => exact evaluations_eq_iff

lemma sameWork_unknown_iff {salt password hash : String} (hhash : Evaluates x password hash)
    (hdummy : ∀ text ∈ dummy, Evaluates x password text) :
    SameWork x salt password dummy none (some hash) ↔ dummy.isSome = true := by
  cases dummy with
  | none => simp [SameWork, hhash]
  | some text => simp [SameWork, hhash, hdummy text rfl]

/-- Where all hashes were made by the server and Argon2 takes the password, the work is the same
unless the name is known in one state only and the dummy hash has not been used. -/
theorem sameWork_of_made {salt password : String} {hash hash' : Option String}
    (htakes : x.takes password)
    (hdummy : ∀ text ∈ dummy, ∃ salt, x.hash salt "_dummy_" = some text)
    (hmade : ∀ h ∈ hash, ∃ salt password, x.hash salt password = some h)
    (hmade' : ∀ h ∈ hash', ∃ salt password, x.hash salt password = some h) :
    SameWork x salt password dummy hash hash' ↔
      (hash.isSome = hash'.isSome ∨ dummy.isSome = true) := by
  have heval : ∀ h, (∃ salt password, x.hash salt password = some h) →
      Evaluates x password h := by
    rintro h ⟨salt, made, hh⟩
    exact (evaluates_made_iff hh).mpr htakes
  have hready : ∀ text ∈ dummy, Evaluates x password text := by
    intro text htext
    obtain ⟨salt, hsalt⟩ := hdummy text htext
    exact heval text ⟨salt, _, hsalt⟩
  cases hash with
  | none =>
      cases hash' with
      | none => simp [SameWork]
      | some h' =>
          rw [sameWork_unknown_iff (heval h' (hmade' h' rfl)) hready]
          simp
  | some h =>
      have hknown := heval h (hmade h rfl)
      cases hash' with
      | none =>
          have hcomm : SameWork x salt password dummy (some h) none ↔ dummy.isSome = true :=
            sameWork_unknown_iff hknown hready
          rw [hcomm]
          simp
      | some h' => simp [SameWork, hknown, heval h' (hmade' h' rfl)]

/-- Hashes that keep the password behind a sign, for runs on fixed inputs. -/
def plainHashing : PasswordHashing String where
  hash := fun _ password => some ("$" ++ password)
  parse := fun h => if h = "" then none else some h
  verify := fun password parsed => some ("$" ++ password == parsed)
  takes := fun _ => True
  parse_empty := rfl
  takes_of_verify := fun _ _ _ _ => trivial
  verify_of_hash := by
    rintro salt password h hh
    obtain rfl := Option.some.inj hh
    exact ⟨"$" ++ password, if_neg (by simp), fun _ _ => rfl⟩

/-- A server without accounts, and one with the account of alice. -/
def nobody : AppState := ⟨∅, ∅, ∅, ∅⟩

def onlyAlice : AppState :=
  ⟨∅, AList.insert "alice" ⟨"alice", "a@b", "$pw", .approved, none⟩ ∅, ∅, ∅⟩

lemma fails_nobody : Fails plainHashing ⟨"alice", "guess"⟩ nobody := by
  intro account h
  cases h

lemma fails_onlyAlice : Fails plainHashing ⟨"alice", "guess"⟩ onlyAlice := by
  intro account h
  obtain rfl := Option.some.inj h
  decide

/-- Once the dummy hash has been used, a guess at alice's password costs the same whether she
has an account or not. -/
theorem failed_login_iff_alice :
    Indistinguishable plainHashing { token := "t" } ⟨"alice", "guess"⟩ (some "$_dummy_") nobody
      onlyAlice :=
  (failed_login_iff plainHashing { token := "t" } ⟨"alice", "guess"⟩ (some "$_dummy_") fails_nobody
    fails_onlyAlice).mpr ⟨fun _ => ⟨_, _, rfl, rfl⟩, fun _ => ⟨_, _, rfl, rfl⟩⟩

/-- The first guess at an unknown name takes two evaluations, the guess at a known one takes
one. -/
theorem first_guess_tells :
    SameButFor "alice" nobody onlyAlice
      ∧ Fails plainHashing ⟨"alice", "guess"⟩ nobody
      ∧ Fails plainHashing ⟨"alice", "guess"⟩ onlyAlice
      ∧ (countedLogin plainHashing { token := "t" } ⟨"alice", "guess"⟩ none nobody).evaluations = 2
      ∧ (countedLogin plainHashing { token := "t" } ⟨"alice", "guess"⟩ none onlyAlice).evaluations
        = 1
      ∧ ¬ Indistinguishable plainHashing { token := "t" } ⟨"alice", "guess"⟩ none nobody
        onlyAlice := by
  have hsame : SameButFor "alice" nobody onlyAlice :=
    ⟨rfl, rfl, rfl, fun v hv => (AList.lookup_insert_ne hv).symm⟩
  refine ⟨hsame, fails_nobody, fails_onlyAlice, by decide, by decide, fun h => ?_⟩
  exact absurd h.evaluations (by decide)

end Rendezvous
