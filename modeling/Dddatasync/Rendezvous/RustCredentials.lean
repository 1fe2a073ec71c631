import Dddatasync.Rendezvous.AccountMoves
import Dddatasync.Rendezvous.Accounts
import Dddatasync.Rendezvous.Credentials
import Dddatasync.Rendezvous.Presence

/-!
The way of an account through the Rust server.

* `rustReply`, `rustService`: the handlers of `rendezvous/src/main.rs` and its operator as a
  `Service`.
* `rustReply_keeps`: the invariant rule for a request that is served alone; `Trimmed`,
  `AccountKept`, `SessionKept`: what it is used for.
* `rustLaws`: the Rust server keeps the laws.
-/

namespace Rendezvous

open Runs

variable {x : Externals} {read : Reading} {s s' : AppState} {request : Request}

/-! ### The server -/

/-- The Rust server on one request, served alone. -/
def rustReply (x : Externals) (read : Reading) (request : Request) (s : AppState) :
    AppState × Response :=
  (complete x read request 3 s .start).getD (s, ⟨500, .empty⟩)

/-- The token that a login in this turn would issue. -/
def Turn.opens : Turn → Option String
  | .serve (.login _) read => some read.token
  | _ => none

/-- The Rust server with its operator. -/
def rustService (x : Externals) : Service AppState Turn where
  init := start.state
  next := Turn.next x
  signup := fun read req s => rustReply x read (.signup req) s
  login := fun read req s => rustReply x read (.login req) s
  register := fun read token req s =>
    rustReply x read (.register (some ("Bearer " ++ token)) (some req)) s
  name := trim
  approved := fun s v => ∃ account, s.users.lookup v = some account ∧ account.status = .approved
  blocks := fun _ turn v => ∃ status, turn = .setStatus v status ∧ status ≠ .approved
  clock := Turn.clock
  opens := Turn.opens

/-! ### Handlers that run alone -/

/-- What every segment of a request keeps, the server keeps that serves it. -/
lemma rustReply_keeps {I : AppState → Prop} {J : Pc → Prop}
    (hseg : ∀ s pc o, I s → J pc → segment x read 0 s request pc = some o →
      I o.state ∧ ∀ pc', o.next = .inl pc' → J pc')
    (hI : I s) (hJ : J .start) : I (rustReply x read request s).1 := by
  rw [rustReply]
  cases hs : complete x read request 3 s .start with
  | none => exact hI
  | some a => exact complete_keeps hseg hs hI hJ

lemma next_serve : (Turn.serve request read).next x s = (rustReply x read request s).1 := by
  rw [Turn.next, rustReply]
  cases complete x read request 3 s .start <;> rfl

/-! ### Accounts -/

/-- Accounts are stored under trimmed names. -/
def Trimmed (s : AppState) : Prop := ∀ v account, s.users.lookup v = some account → trim v = v

/-- The account a signup is about to store has a trimmed name. -/
def Pc.Trimmed : Pc → Prop
  | .insertAccount account _ => trim account.username = account.username
  | _ => True

lemma trimmed_segment {pc : Pc} {o : Outcome} (h : Trimmed s) (hpc : pc.Trimmed)
    (hs : segment x read 0 s request pc = some o) :
    Trimmed o.state ∧ ∀ pc', o.next = .inl pc' → pc'.Trimmed := by
  cases account_segment hs with
  | hashed req hash hname hemail =>
      refine ⟨h, fun pc' hpc' => ?_⟩
      cases hpc'
      have hnew : (newAccount x read req hash).username = trim req.username := by
        rw [newAccount]
        split_ifs <;> rfl
      show trim (newAccount x read req hash).username = _
      rw [hnew, trim_trim]
  | inserted req account password hname hemail =>
      refine ⟨fun v a hv => ?_, fun pc' hpc' => ?_⟩
      · by_cases hvn : v = account.username
        · exact hvn ▸ hpc
        · exact h v a (by rwa [AList.lookup_insert_ne hvn] at hv)
      · cases htoken : account.verificationToken with
        | none => simp [htoken] at hpc'
        | some token =>
            simp only [htoken, Sum.inl.injEq] at hpc'
            exact hpc' ▸ trivial
  | linked req v token => exact ⟨h, fun pc' hpc' => by cases hpc'⟩
  | taken token v hv => exact ⟨h, fun pc' hpc' => by cases hpc'; trivial⟩
  | approved token v account hv hpending =>
      refine ⟨fun w a hw => ?_, fun pc' hpc' => by cases hpc'⟩
      by_cases hwv : w = v
      · exact hwv ▸ h v account hv
      · exact h w a (by rwa [AList.lookup_insert_ne hwv] at hw)
  | other _ _ _ husers htokens hentries hnext =>
      refine ⟨fun v a hv => h v a (husers ▸ hv), fun pc' hpc' => ?_⟩
      cases pc' with
      | insertAccount account password => exact (hnext _ hpc').elim
      | _ => trivial

/-- An account with this hash is there, and approved if it is to be. -/
def AccountKept (v hash : String) (approved : Bool) (s : AppState) : Prop :=
  ∃ account, s.users.lookup v = some account ∧ account.passwordHash = hash
    ∧ (approved = true → account.status = .approved)

lemma accountKept_segment {v hash : String} {approved : Bool} {pc : Pc} {o : Outcome}
    (h : AccountKept v hash approved s) (hs : segment x read 0 s request pc = some o) :
    AccountKept v hash approved o.state := by
  obtain ⟨account, hv, hhash, hstatus⟩ := h
  cases account_segment hs with
  | hashed | linked | taken => exact ⟨account, hv, hhash, hstatus⟩
  | inserted req new password hname hemail =>
      have hne : v ≠ new.username := by
        rintro rfl
        rw [hname] at hv
        cases hv
      exact ⟨account, by rwa [AList.lookup_insert_ne hne], hhash, hstatus⟩
  | approved token w account' hw hpending =>
      by_cases hvw : v = w
      · subst hvw
        obtain rfl := Option.some.inj (hv.symm.trans hw)
        exact ⟨account.verified, AList.lookup_insert _, hhash, fun _ => rfl⟩
      · exact ⟨account, by rwa [AList.lookup_insert_ne hvw], hhash, hstatus⟩
  | other _ _ _ husers => exact ⟨account, husers ▸ hv, hhash, hstatus⟩

/-- A turn keeps it too, unless the operator takes the approval away. -/
lemma accountKept_next {v hash : String} {approved : Bool} {turn : Turn}
    (h : AccountKept v hash approved s)
    (hblocks : approved = true → ∀ status, turn = .setStatus v status → status = .approved) :
    AccountKept v hash approved (turn.next x s) := by
  cases turn with
  | serve request read =>
      rw [next_serve]
      exact rustReply_keeps (J := fun _ => True)
        (fun _ _ _ h _ hs => ⟨accountKept_segment h hs, fun _ _ => trivial⟩) h trivial
  | setStatus w status =>
      obtain ⟨account, hv, hhash, hstatus⟩ := h
      rw [Turn.next]
      cases hw : s.users.lookup w with
      | none => exact ⟨account, hv, hhash, hstatus⟩
      | some account' =>
          by_cases hvw : v = w
          · subst hvw
            obtain rfl := Option.some.inj (hv.symm.trans hw)
            exact ⟨account.withStatus status, AList.lookup_insert _, hhash,
              fun happroved => hblocks happroved status rfl⟩
          · exact ⟨account, by rwa [AList.lookup_insert_ne hvw], hhash, hstatus⟩

lemma trimmed_next {turn : Turn} (h : Trimmed s) : Trimmed (turn.next x s) := by
  cases turn with
  | serve request read =>
      rw [next_serve]
      exact rustReply_keeps (fun _ _ _ h hpc hs => trimmed_segment h hpc hs) h trivial
  | setStatus w status =>
      rw [Turn.next]
      cases hw : s.users.lookup w with
      | none => exact h
      | some account =>
          intro v a hv
          by_cases hvw : v = w
          · exact hvw ▸ h w account hw
          · exact h v a (by rwa [AList.lookup_insert_ne hvw] at hv)

/-! ### Sessions -/

/-- The handler opens the session of another token, and takes away only sessions that end
before `e`. -/
def Request.Spares (token : String) (e : ℕ) : Request → Pc → Prop
  | .login _, .openSession _ t => t ≠ token
  | .prune, .pruneSessions now => now < e
  | _, _ => True

/-- The session of a token. -/
def SessionKept (token v : String) (e : ℕ) (s : AppState) : Prop :=
  s.sessions.lookup token = some ⟨v, e⟩

section Sessions

variable {token v : String} {e i : ℕ} {pc : Pc} {o : Outcome}

/-- The sessions after a segment of signup, verification or login. -/
lemma sessions_of_segment (haccount : request.account = true)
    (hs : segment x read i s request pc = some o) :
    o.state.sessions = openedIn read s.sessions pc.opens := by
  have hbeside : segment x read i (s.beside s.sessions s.registry) request pc
      = (segment x read i s request pc).map fun o =>
          { o with state := o.state.beside (openedIn read s.sessions pc.opens) s.registry } :=
    segment_beside haccount pc s.sessions s.registry
  rw [show s.beside s.sessions s.registry = s from rfl, hs, Option.map_some,
    Option.some.injEq] at hbeside
  exact congrArg (·.state.sessions) hbeside

lemma loginStart_next {req : LoginRequest} (h : (loginStart x read i req s).next = .inl pc) :
    pc = .openSession req.username read.token := by
  rw [loginStart] at h
  split at h
  · split_ifs at h <;> cases h
  · split_ifs at h
    · split at h <;> cases h
      rfl
    · cases h

lemma sessionKept_segment (h : SessionKept token v e s) (hpc : request.Spares token e pc)
    (htoken : ∀ req, request = .login req → read.token ≠ token) (hnow : read.now < e)
    (hs : segment x read 0 s request pc = some o) :
    SessionKept token v e o.state ∧ ∀ pc', o.next = .inl pc' → request.Spares token e pc' := by
  cases request with
  | signup req =>
      have hopens : pc.opens = none := by cases pc <;> first | rfl | cases hs
      refine ⟨?_, fun pc' _ => trivial⟩
      rw [SessionKept, sessions_of_segment rfl hs, hopens]
      exact h
  | verify t =>
      have hopens : pc.opens = none := by cases pc <;> first | rfl | cases hs
      refine ⟨?_, fun pc' _ => trivial⟩
      rw [SessionKept, sessions_of_segment rfl hs, hopens]
      exact h
  | login req =>
      cases pc <;> cases hs
      · refine ⟨by rwa [SessionKept, loginStart_state], fun pc' hpc' => ?_⟩
        rw [loginStart_next hpc']
        exact htoken req rfl
      · refine ⟨?_, fun pc' hpc' => by cases hpc'⟩
        exact (AList.lookup_insert_ne (Ne.symm hpc)).trans h
  | register header body =>
      obtain ⟨g, hstate⟩ := segment_records rfl (by simp) hs
      exact ⟨hstate ▸ h, fun pc' _ => trivial⟩
  | deregister header body =>
      obtain ⟨g, hstate⟩ := segment_records rfl (by simp) hs
      exact ⟨hstate ▸ h, fun pc' _ => trivial⟩
  | peers u =>
      obtain ⟨g, hstate⟩ := segment_records rfl (by simp) hs
      exact ⟨hstate ▸ h, fun pc' _ => trivial⟩
  | prune =>
      cases pc <;> cases hs
      · exact ⟨h, fun pc' hpc' => by cases hpc'; trivial⟩
      · exact ⟨h, fun pc' hpc' => by cases hpc'; exact hnow⟩
      · rename_i now
        refine ⟨?_, fun pc' hpc' => by cases hpc'⟩
        have hlookup : s.sessions.lookup token = some ⟨v, e⟩ := h
        rw [SessionKept, pruneSessions, AssocMap.lookup_filterMap, hlookup]
        exact if_pos hpc

/-- A turn in which no login issues the token, before the end of the session. -/
lemma sessionKept_next {turn : Turn} (h : SessionKept token v e s)
    (hopens : turn.opens ≠ some token) (hnow : ∀ now ∈ turn.clock, now < e) :
    SessionKept token v e (turn.next x s) := by
  cases turn with
  | serve request read =>
      have htoken : ∀ req, request = .login req → read.token ≠ token := by
        rintro req rfl heq
        exact hopens (congrArg some heq)
      have hstart : request.Spares token e .start := by cases request <;> trivial
      rw [next_serve]
      exact rustReply_keeps
        (fun _ _ _ h hpc hs => sessionKept_segment h hpc htoken (hnow read.now rfl) hs) h hstart
  | setStatus w status =>
      rw [Turn.next]
      cases s.users.lookup w <;> exact h

end Sessions

/-! ### The requests of a trip -/

/-- What a signup that is answered 201 stores. -/
lemma signup_created {req : SignupRequest}
    (h : (rustReply x read (.signup req) s).2.status = 201) :
    ∃ hash, x.hashPassword read.salt req.password = some hash
      ∧ AccountKept (trim req.username) hash false (rustReply x read (.signup req) s).1 := by
  have hseg : segment x read 0 s (.signup req) .start = some (signupStart x read req s) := rfl
  rw [rustReply] at h ⊢
  simp only [signupStart] at hseg
  generalize trim req.username = u at *
  generalize x.toLowercase (trim req.email) = e at *
  by_cases hempty : u = "" ∨ e = "" ∨ req.password = ""
  · rw [if_pos hempty] at hseg
    rw [complete_answer hseg rfl] at h
    cases h
  · rw [if_neg hempty] at hseg
    cases hhash : x.hashPassword read.salt req.password with
    | none =>
        simp only [hhash] at hseg
        rw [complete_answer hseg rfl] at h
        cases h
    | some hash =>
        simp only [hhash] at hseg
        have hnew : (if read.autoApprove then UserAccount.mk u e hash .approved none
            else ⟨u, e, hash, .pending, some read.token⟩) = accountOf read u e hash := rfl
        rw [complete_wait hseg rfl, hnew] at h ⊢
        refine ⟨hash, rfl, ?_⟩
        by_cases htaken : s.users.lookup (accountOf read u e hash).username ≠ none
            ∨ (s.users.entries.any fun entry =>
              entry.2.email = (accountOf read u e hash).email) = true
        · obtain ⟨text, hdone⟩ : ∃ text, complete x read (.signup req) 2 s
              (.insertAccount (accountOf read u e hash) req.password)
                = some (s, ⟨409, .error text⟩) := complete_insertAccount_taken htaken
          rw [hdone] at h
          cases h
        · rw [not_or, ne_eq, not_not] at htaken
          rw [complete_insertAccount htaken.1 htaken.2]
          refine ⟨accountOf read u e hash, ?_, ?_, by simp⟩
          · rw [Option.getD_some, signedUp, accountOf_username]
            exact AList.lookup_insert _
          · rw [accountOf]
            split_ifs <;> rfl

lemma login_unknown {req : LoginRequest} (h : s.users.lookup req.username = none) :
    (rustReply x read (.login req) s).2.status = 401 := by
  have hseg : segment x read 0 s (.login req) .start = some (loginStart x read 0 req s) := rfl
  simp only [loginStart, h, ite_self] at hseg
  rw [rustReply, complete_answer hseg rfl]
  rfl

lemma login_known {req : LoginRequest} {account : UserAccount}
    (h : s.users.lookup req.username = some account)
    (hpassword : x.verifyPassword req.password account.passwordHash = true)
    (hstatus : account.status = .approved) :
    rustReply x read (.login req) s
      = ((openSession read 0 req.username read.token s).state, ⟨200, .token read.token⟩) := by
  have hseg : segment x read 0 s (.login req) .start = some (loginStart x read 0 req s) := rfl
  simp only [loginStart, h, hpassword, hstatus, if_true] at hseg
  rw [rustReply, complete_wait hseg rfl, complete_answer rfl rfl]
  rfl

/-- **The Rust server keeps the laws**, where a password verifies against its own hash. -/
def rustLaws (hx : ∀ salt password hash, x.hashPassword salt password = some hash →
    x.verifyPassword password hash = true) : Laws (rustService x) where
  inv := Trimmed
  fits := fun s v q => ∃ hash, AccountKept v hash false s ∧ x.verifyPassword q hash = true
  unissued := fun _ _ => True
  session := fun s token v e => SessionKept token v e s
  inv_init := fun _ _ h => by cases h
  inv_next := trimmed_next
  inv_signup := fun h => rustReply_keeps (fun _ _ _ h hpc hs => trimmed_segment h hpc hs) h trivial
  inv_login := fun h => rustReply_keeps (fun _ _ _ h hpc hs => trimmed_segment h hpc hs) h trivial
  fits_signup := fun _ h => by
    obtain ⟨hash, hhash, hkept⟩ := signup_created h
    exact ⟨hash, hkept, hx _ _ _ hhash⟩
  fits_next := fun _ ⟨hash, hkept, hverify⟩ =>
    ⟨hash, accountKept_next hkept (by simp), hverify⟩
  approved_next := fun {s t v} _ ⟨account, hv, hstatus⟩ hblocks => by
    have hkept : AccountKept v account.passwordHash true s := ⟨account, hv, rfl, fun _ => hstatus⟩
    obtain ⟨account', hv', -, hstatus'⟩ := accountKept_next hkept fun _ status hturn =>
      by_contra fun hne => hblocks ⟨status, hturn, hne⟩
    exact ⟨account', hv', hstatus' rfl⟩
  unissued_init := trivial
  unissued_next := fun _ _ => trivial
  unissued_signup := fun _ => trivial
  login_unknown := fun {s read req} h hname =>
    login_unknown (Option.eq_none_iff_forall_ne_some.mpr fun account hv => hname (h _ account hv))
  login_known := fun {s read req} _ _ hfits ⟨account', hv', hstatus⟩ => by
    obtain ⟨hash, ⟨account, hv, hhash, -⟩, hverify⟩ := hfits
    obtain rfl := Option.some.inj (hv.symm.trans hv')
    have hlogin : (rustService x).login read req s
        = ((openSession read 0 req.username read.token s).state, ⟨200, .token read.token⟩) :=
      login_known hv (hhash ▸ hverify) hstatus
    rw [hlogin]
    exact ⟨rfl, AList.lookup_insert _, account, hv, hstatus⟩
  session_next := fun _ => sessionKept_next
  register_ok := fun {s read token req e} _ hsession ⟨account, hv, hstatus⟩ hlive => by
    have hspeaker : Speaker s read.now token req.username :=
      ⟨⟨req.username, e⟩, account, hsession, hlive.le, rfl, hv, hstatus⟩
    show (rustReply x read (.register (some ("Bearer " ++ token)) (some req)) s).2.status = 200
    rw [rustReply, complete_register_speaker (bearer_append token) hspeaker]
    rfl

end Rendezvous
