import Dddatasync.Rendezvous.Server

/-!
What the segments of the handlers do to the accounts and the verification tokens.

* `AccountMove`: one constructor for each segment that does anything to them, and `other`.
* `account_segment`: every segment is one of these moves.
-/

namespace Rendezvous

variable {x : Externals} {read : Reading} {i : ℕ} {request : Request} {s : AppState}
  {pc : Pc} {o : Outcome}

/-! ### What a segment does to the accounts -/

/-- The account a signup asks for. -/
def newAccount (x : Externals) (read : Reading) (req : SignupRequest) (hash : String) :
    UserAccount :=
  if read.autoApprove then
    ⟨trim req.username, x.toLowercase (trim req.email), hash, .approved, none⟩
  else ⟨trim req.username, x.toLowercase (trim req.email), hash, .pending, some read.token⟩

/-- The account after its verification. -/
def UserAccount.verified (account : UserAccount) : UserAccount :=
  { account with status := .approved, verificationToken := none }

/-- The handler neither waits to touch the accounts nor the verification tokens. -/
def Pc.Elsewhere : Pc → Prop
  | .insertAccount _ _ => False
  | .insertToken _ _ => False
  | .approveUser _ => False
  | _ => True

/-- The entry is no signup, no arrival and no answer. -/
def Entry.Elsewhere : Entry → Prop
  | .signedUp _ _ _ => False
  | .arrived _ _ => False
  | .responded _ _ => False
  | _ => True

/-- What a segment does to the accounts and the verification tokens. -/
inductive AccountMove (x : Externals) (read : Reading) (i : ℕ) (s : AppState) :
    Request → Pc → Outcome → Prop
  | hashed (req : SignupRequest) (hash : String) (hname : trim req.username ≠ "")
      (hemail : x.toLowercase (trim req.email) ≠ "") :
      AccountMove x read i s (.signup req) .start
        { state := s, next := .inl (.insertAccount (newAccount x read req hash) req.password) }
  | inserted (req : SignupRequest) (account : UserAccount) (password : String)
      (hname : s.users.lookup account.username = none)
      (hemail : ∀ u a, s.users.lookup u = some a → a.email ≠ account.email) :
      AccountMove x read i s (.signup req) (.insertAccount account password)
        { state := { s with users := s.users.insert account.username account }
          next := match account.verificationToken with
            | some token => .inl (.insertToken account.username token)
            | none => .inr (created read)
          entries := [.signedUp i account password] }
  | linked (req : SignupRequest) (u token : String) :
      AccountMove x read i s (.signup req) (.insertToken u token) (insertToken read u token s)
  | taken (token u : String) (hu : s.verifyTokens.lookup token = some u) :
      AccountMove x read i s (.verify token) .start
        { state := { s with verifyTokens := s.verifyTokens.erase token }
          next := .inl (.approveUser u) }
  | approved (token u : String) (account : UserAccount) (hu : s.users.lookup u = some account)
      (hpending : account.status = .pending) :
      AccountMove x read i s (.verify token) (.approveUser u)
        { state := { s with users := s.users.insert u account.verified }
          next := .inr ⟨200, .message "Email verified. You can now log in."⟩ }
  | other (request : Request) (pc : Pc) (o : Outcome) (husers : o.state.users = s.users)
      (htokens : o.state.verifyTokens = s.verifyTokens)
      (hentries : ∀ e ∈ o.entries, e.Elsewhere)
      (hnext : ∀ pc', o.next = .inl pc' → pc'.Elsewhere)
      (hpc : ∀ u token, pc ≠ .insertToken u token)
      (hcreated : ∀ r, o.next = .inr r → r.status ≠ 201)
      (hverified : ∀ token r, request = .verify token → o.next = .inr r → r.status = 200 →
        ∃ u, pc = .approveUser u ∧ s.users.lookup u = none)
      (happrove : ∀ u a, pc = .approveUser u → s.users.lookup u = some a →
        a.status ≠ .pending) :
      AccountMove x read i s request pc o

/-- A segment that does nothing to either store. -/
lemma AccountMove.idle (husers : o.state.users = s.users)
    (htokens : o.state.verifyTokens = s.verifyTokens)
    (hentries : ∀ e ∈ o.entries, e.Elsewhere)
    (hnext : ∀ pc', o.next = .inl pc' → pc'.Elsewhere)
    (hcreated : ∀ r, o.next = .inr r → r.status ≠ 201)
    (hpc : ∀ u token, pc ≠ .insertToken u token) (happrove : ∀ u, pc ≠ .approveUser u)
    (hverified : ∀ token r, request = .verify token → o.next = .inr r → r.status ≠ 200) :
    AccountMove x read i s request pc o :=
  .other _ _ _ husers htokens hentries hnext hpc hcreated
    (fun token r hreq hr h200 => absurd h200 (hverified token r hreq hr))
    (fun u _ hpc' => absurd hpc' (happrove u))

lemma AccountMove.refuse (hpc : ∀ u token, pc ≠ .insertToken u token)
    (happrove : ∀ u, pc ≠ .approveUser u) (status : ℕ) (body : Body) (h201 : status ≠ 201)
    (hverified : ∀ token, request = .verify token → status ≠ 200) :
    AccountMove x read i s request pc (respond s status body) :=
  .idle rfl rfl (by simp [respond]) (by simp [respond])
    (by rintro r hr; cases hr; exact h201) hpc happrove
    (by rintro token r hreq hr; cases hr; exact hverified token hreq)

lemma accountMove_findSession (header : Option String) :
    AccountMove x read i s request .start (findSession read i header s) := by
  have href : AccountMove x read i s request .start (respond s 401 .empty) :=
    .refuse (by simp) (by simp) _ _ (by decide) (by simp)
  rw [findSession]
  split
  · exact href
  · split
    · exact href
    · split_ifs
      · exact href
      · refine .idle rfl rfl (by simp [Entry.Elsewhere]) ?_ (by simp) (by simp) (by simp) (by simp)
        rintro pc' hpc'
        cases hpc'
        trivial

lemma accountMove_checkUser (u : String) {k : Outcome}
    (hk : AccountMove x read i s request (.checkUser u) k) :
    AccountMove x read i s request (.checkUser u) (checkUser i u s k) := by
  rw [checkUser]
  split
  · exact .refuse (by simp) (by simp) _ _ (by decide) (by simp)
  · split_ifs
    · exact .refuse (by simp) (by simp) _ _ (by decide) (by simp)
    · cases hk with
      | other _ _ _ husers htokens hentries hnext hpc hcreated hverified happrove =>
          refine .other _ _ _ husers htokens ?_ hnext hpc hcreated hverified happrove
          intro e he
          rcases List.mem_cons.mp he with rfl | he
          · exact True.intro
          · exact hentries e he

lemma accountMove_signupStart (req : SignupRequest) :
    AccountMove x read i s (.signup req) .start (signupStart x read req s) := by
  have href : ∀ status body, status ≠ 201 →
      AccountMove x read i s (.signup req) .start (respond s status body) :=
    fun status body h => .refuse (by simp) (by simp) _ _ h (by simp)
  simp only [signupStart]
  split
  · exact href 400 _ (by decide)
  · rename_i hne
    split
    · exact href 500 _ (by decide)
    · rename_i hash _
      exact .hashed req hash (fun h => hne (.inl h)) fun h => hne (.inr (.inl h))

lemma accountMove_insertAccount (req : SignupRequest) (account : UserAccount)
    (password : String) :
    AccountMove x read i s (.signup req) (.insertAccount account password)
      (insertAccount read i account password s) := by
  rw [insertAccount]
  split_ifs with hname hemail
  · exact .refuse (by simp) (by simp) _ _ (by decide) (by simp)
  · exact .refuse (by simp) (by simp) _ _ (by decide) (by simp)
  · rw [Bool.not_eq_true, Option.isSome_eq_false_iff, Option.isNone_iff_eq_none] at hname
    refine .inserted req account password hname fun u a hu heq => hemail ?_
    rw [List.any_eq_true]
    exact ⟨⟨u, a⟩, AssocMap.mem_entries_iff.mpr hu, by simpa using heq⟩

lemma accountMove_verifyStart (token : String) :
    AccountMove x read i s (.verify token) .start (verifyStart token s) := by
  rw [verifyStart]
  split
  · exact .refuse (by simp) (by simp) _ _ (by decide) (by simp)
  · rename_i u hu
    exact .taken token u hu

lemma accountMove_approveUser (token u : String) :
    AccountMove x read i s (.verify token) (.approveUser u) (approveUser u s) := by
  simp only [approveUser]
  split
  · rename_i hu
    refine .other _ _ _ rfl rfl (by simp [respond]) (by simp [respond]) (by simp) ?_ ?_ ?_
    · rintro r hr
      cases hr
      decide
    · rintro _ r _ hr _
      exact ⟨u, rfl, hu⟩
    · rintro u' a hpc ha
      cases hpc
      rw [hu] at ha
      cases ha
  · rename_i account hu
    split_ifs with hpending
    · exact .approved token u account hu hpending
    · refine .other _ _ _ rfl rfl (by simp [respond]) (by simp [respond]) (by simp) ?_ ?_ ?_
      · rintro r hr
        cases hr
        decide
      · rintro _ r _ hr h200
        cases hr
        cases h200
      · rintro u' a hpc ha
        cases hpc
        rw [hu] at ha
        cases ha
        exact hpending

lemma accountMove_loginStart (req : LoginRequest) :
    AccountMove x read i s (.login req) .start (loginStart x read i req s) := by
  have href : ∀ status body, status ≠ 201 →
      AccountMove x read i s (.login req) .start (respond s status body) :=
    fun status body h => .refuse (by simp) (by simp) _ _ h (by simp)
  rw [loginStart]
  split
  · split_ifs <;> exact href 401 _ (by decide)
  · split_ifs
    · split
      · exact href 403 _ (by decide)
      · exact href 403 _ (by decide)
      · refine .idle rfl rfl (by simp [Entry.Elsewhere]) ?_ (by simp) (by simp) (by simp) (by simp)
        rintro pc' hpc'
        cases hpc'
        trivial
    · exact href 401 _ (by decide)

/-- **What a segment does to the accounts.** -/
theorem account_segment (hseg : segment x read i s request pc = some o) :
    AccountMove x read i s request pc o := by
  -- a segment of the other handlers touches neither store
  have hplain : ∀ (request : Request) (pc : Pc) (o : Outcome), o.state.users = s.users →
      o.state.verifyTokens = s.verifyTokens → (∀ e ∈ o.entries, e.Elsewhere) →
      (∀ pc', o.next = .inl pc' → pc'.Elsewhere) → (∀ r, o.next = .inr r → r.status = 200) →
      (∀ token, request ≠ .verify token) → (∀ u token, pc ≠ .insertToken u token) →
      (∀ u, pc ≠ .approveUser u) → AccountMove x read i s request pc o := by
    intro request pc o hu ht he hn hr hreq hlink happrove
    refine .idle hu ht he hn (fun r h => ?_) hlink happrove fun token r h => absurd h (hreq token)
    rw [hr r h]
    decide
  unfold segment at hseg
  split at hseg <;> cases hseg
  · exact accountMove_signupStart _
  · exact accountMove_insertAccount _ _ _
  · exact .linked _ _ _
  · exact accountMove_verifyStart _
  · exact accountMove_approveUser _ _
  · exact accountMove_loginStart _
  · exact hplain _ _ _ rfl rfl (by simp [openSession, Entry.Elsewhere]) (by simp [openSession])
      (by simp [openSession]) (by simp) (by simp) (by simp)
  · exact accountMove_findSession _
  · refine accountMove_checkUser _ ?_
    rename_i body u
    cases body with
    | none => exact .refuse (by simp) (by simp) _ _ (by decide) (by simp)
    | some req =>
        rw [registerBody]
        split_ifs
        · exact .refuse (by simp) (by simp) _ _ (by decide) (by simp)
        · exact hplain _ _ _ rfl rfl (by simp) (by simp [Pc.Elsewhere]) (by simp) (by simp)
            (by simp) (by simp)
  · exact hplain _ _ _ rfl rfl (by simp [writeRecord, Entry.Elsewhere]) (by simp [writeRecord])
      (by simp [writeRecord]) (by simp) (by simp) (by simp)
  · exact accountMove_findSession _
  · refine accountMove_checkUser _ ?_
    rename_i body u
    cases body with
    | none => exact .refuse (by simp) (by simp) _ _ (by decide) (by simp)
    | some req =>
        rw [deregisterBody]
        split_ifs
        · exact .refuse (by simp) (by simp) _ _ (by decide) (by simp)
        · exact hplain _ _ _ rfl rfl (by simp) (by simp [Pc.Elsewhere]) (by simp) (by simp)
            (by simp) (by simp)
  · exact hplain _ _ _ rfl rfl (by simp [eraseRecord, Entry.Elsewhere]) (by simp [eraseRecord])
      (by simp [eraseRecord]) (by simp) (by simp) (by simp)
  · exact hplain _ _ _ rfl rfl (by simp [listPeers, respond]) (by simp [listPeers, respond])
      (by simp [listPeers, respond]) (by simp) (by simp) (by simp)
  · exact hplain _ _ _ rfl rfl (by simp) (by simp [Pc.Elsewhere]) (by simp) (by simp)
      (by simp) (by simp)
  · exact hplain _ _ _ rfl rfl (by simp [pruneRegistry]) (by simp [pruneRegistry, Pc.Elsewhere])
      (by simp [pruneRegistry]) (by simp) (by simp) (by simp)
  · exact hplain _ _ _ rfl rfl (by simp [pruneSessions]) (by simp [pruneSessions])
      (by simp [pruneSessions]) (by simp) (by simp) (by simp)

end Rendezvous
