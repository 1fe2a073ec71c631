import Dddatasync.Rendezvous.RustApi

/-!
Runs of the Rust server in which one request is served after another.

* `Turn`: a request with what its handler reads, a status that an operator sets; `Turn.next`.
* `complete_beside`: signup, verification and login do not look at the sessions and the
  registry, so they do the same whatever is in these; `next_records`: the requests about
  records change the registry only.
-/

namespace Rendezvous

/-! ### Turns -/

/-- What happens to the server: a request is served, `prune_task` among them, or an operator sets
the status of an account. -/
inductive Turn where
  | serve (request : Request) (read : Reading)
  | setStatus (username : String) (status : AccountStatus)

/-- The stores after a turn. -/
def Turn.next (x : Externals) (s : AppState) : Turn → AppState
  | .serve request read =>
      match complete x read request 3 s .start with
      | some (s', _) => s'
      | none => s
  | .setStatus username status =>
      match s.users.lookup username with
      | none => s
      | some account =>
          { s with users := s.users.insert username (account.withStatus status) }

/-- The clock of a turn that reads it. -/
def Turn.clock : Turn → Option ℕ
  | .serve _ read => some read.now
  | .setStatus _ _ => none

/-- The clock is never set back. -/
def Ordered (turns : List Turn) : Prop := (turns.filterMap Turn.clock).Pairwise (· ≤ ·)

instance (turns : List Turn) : Decidable (Ordered turns) :=
  inferInstanceAs (Decidable ((turns.filterMap Turn.clock).Pairwise (· ≤ ·)))

lemma ordered_cons {turn : Turn} {turns : List Turn} : Ordered (turn :: turns) ↔
    (∀ c ∈ turn.clock, ∀ turn' ∈ turns, ∀ now ∈ turn'.clock, c ≤ now) ∧ Ordered turns := by
  rw [Ordered, Ordered, List.filterMap_cons]
  cases hclock : turn.clock with
  | none => simp
  | some c =>
      rw [List.pairwise_cons]
      refine and_congr_left fun _ => ?_
      simp only [List.mem_filterMap, Option.mem_def, Option.some.injEq, forall_eq']
      constructor
      · exact fun h turn' hmem now hnow => h now ⟨turn', hmem, hnow⟩
      · rintro h now ⟨turn', hmem, hnow⟩
        exact h turn' hmem now hnow

variable {x : Externals} {read : Reading} {s : AppState} {request : Request}

/-! ### What signup, verification and login look at -/

/-- The same accounts and links beside other sessions and another registry. -/
def AppState.beside (s : AppState) (sessions : AssocMap String SessionRecord)
    (registry : Registry) : AppState :=
  { s with sessions := sessions, registry := registry }

/-- Requests that neither authenticate nor read the registry. -/
def Request.account : Request → Bool
  | .signup _ | .verify _ | .login _ => true
  | _ => false

/-- The token and the user of the session that a handler is about to open. -/
def Pc.opens : Pc → Option (String × String)
  | .openSession username token => some (token, username)
  | _ => none

/-- The sessions when one more is opened, or none. -/
def openedIn (read : Reading) (sessions : AssocMap String SessionRecord) :
    Option (String × String) → AssocMap String SessionRecord
  | none => sessions
  | some (token, username) => sessions.insert token ⟨username, read.now + sessionTtlSecs⟩

lemma signupStart_beside (req : SignupRequest) (m : AssocMap String SessionRecord) (g : Registry) :
    signupStart x read req (s.beside m g)
      = { signupStart x read req s with
          state := (signupStart x read req s).state.beside m g } := by
  rw [signupStart_state]
  simp only [signupStart]
  split
  · rfl
  · cases x.hashPassword read.salt req.password <;> rfl

lemma insertAccount_beside {i : ℕ} (account : UserAccount) (password : String)
    (m : AssocMap String SessionRecord) (g : Registry) :
    insertAccount read i account password (s.beside m g)
      = { insertAccount read i account password s with
          state := (insertAccount read i account password s).state.beside m g } := by
  by_cases hname : (s.users.lookup account.username).isSome = true
  · have h : ∀ s' : AppState, s'.users = s.users → insertAccount read i account password s'
        = respond s' 409 (.error "username already taken") :=
      fun s' hs' => if_pos (by rwa [hs'])
    rw [h (s.beside m g) rfl, h s rfl]
    rfl
  · by_cases hemail : (s.users.entries.any fun e => e.2.email = account.email) = true
    · have h : ∀ s' : AppState, s'.users = s.users → insertAccount read i account password s'
          = respond s' 409 (.error "email already registered") :=
        fun s' hs' => (if_neg (by rwa [hs'])).trans (if_pos (by rwa [hs']))
      rw [h (s.beside m g) rfl, h s rfl]
      rfl
    · rw [insertAccount, insertAccount, if_neg hname, if_neg hemail]
      exact (if_neg hname).trans (if_neg hemail)

lemma verifyStart_beside (token : String) (m : AssocMap String SessionRecord) (g : Registry) :
    verifyStart token (s.beside m g)
      = { verifyStart token s with state := (verifyStart token s).state.beside m g } := by
  simp only [verifyStart, AppState.beside]
  cases s.verifyTokens.lookup token <;> rfl

lemma approveUser_beside (u : String) (m : AssocMap String SessionRecord) (g : Registry) :
    approveUser u (s.beside m g)
      = { approveUser u s with state := (approveUser u s).state.beside m g } := by
  simp only [approveUser, AppState.beside]
  cases s.users.lookup u with
  | none => rfl
  | some account =>
      simp only
      split_ifs <;> rfl

lemma loginStart_beside {i : ℕ} (req : LoginRequest) (m : AssocMap String SessionRecord)
    (g : Registry) :
    loginStart x read i req (s.beside m g)
      = { loginStart x read i req s with
          state := (loginStart x read i req s).state.beside m g } := by
  rw [loginStart_state]
  simp only [loginStart, AppState.beside]
  cases s.users.lookup req.username with
  | none =>
      simp only [ite_self]
      rfl
  | some account =>
      simp only
      split_ifs
      · cases account.status <;> rfl
      · rfl

/-- **A segment** of such a request does the same whatever the sessions and the registry are. -/
lemma segment_beside {i : ℕ} (haccount : request.account = true) (pc : Pc)
    (m : AssocMap String SessionRecord) (g : Registry) :
    segment x read i (s.beside m g) request pc
      = (segment x read i s request pc).map fun o =>
          { o with state := o.state.beside (openedIn read m pc.opens) g } := by
  cases request with
  | signup req =>
      cases pc with
      | start => exact congrArg some (signupStart_beside req m g)
      | insertAccount account password => exact congrArg some (insertAccount_beside _ _ m g)
      | _ => rfl
  | verify token =>
      cases pc with
      | start => exact congrArg some (verifyStart_beside token m g)
      | approveUser username => exact congrArg some (approveUser_beside _ m g)
      | _ => rfl
  | login req =>
      cases pc with
      | start => exact congrArg some (loginStart_beside req m g)
      | _ => rfl
  | register header body => cases haccount
  | deregister header body => cases haccount
  | peers u => cases haccount
  | prune => cases haccount

/-- A handler that opens a session is at its end. -/
lemma opens_eq_none {i : ℕ} {pc pc' : Pc} {o : Outcome}
    (h : segment x read i s request pc = some o) (hnext : o.next = .inl pc') :
    pc.opens = none := by
  cases pc with
  | openSession username token =>
      cases request <;> cases h
      cases hnext
  | _ => rfl

/-- **A handler** of such a request opens at most one session, and does the same whatever the
sessions and the registry are. -/
lemma complete_beside (haccount : request.account = true) (n : ℕ) (s : AppState) (pc : Pc) :
    ∃ opened, ∀ (m : AssocMap String SessionRecord) (g : Registry),
      complete x read request n (s.beside m g) pc
        = (complete x read request n s pc).map fun a =>
            (a.1.beside (openedIn read m opened) g, a.2) := by
  induction n generalizing s pc with
  | zero => exact ⟨none, fun m g => rfl⟩
  | succ n ih =>
      cases hseg : segment x read 0 s request pc with
      | none =>
          refine ⟨none, fun m g => ?_⟩
          rw [complete, complete, segment_beside haccount, hseg]
          rfl
      | some o =>
          cases hnext : o.next with
          | inr response =>
              refine ⟨pc.opens, fun m g => ?_⟩
              rw [complete, complete, segment_beside haccount, hseg]
              simp only [Option.map_some, hnext]
          | inl pc' =>
              obtain ⟨opened, hopened⟩ := ih o.state pc'
              refine ⟨opened, fun m g => ?_⟩
              rw [complete, complete, segment_beside haccount, hseg]
              simp only [Option.map_some, hnext, opens_eq_none hseg hnext, openedIn, hopened]

/-! ### What the other requests change -/

/-- A segment of a request about records changes the registry only. -/
lemma segment_records {i : ℕ} {pc : Pc} {o : Outcome} (haccount : request.account = false)
    (hprune : request ≠ .prune) (h : segment x read i s request pc = some o) :
    ∃ registry, o.state = s.beside s.sessions registry := by
  have hkept : o.state = s → ∃ registry, o.state = s.beside s.sessions registry :=
    fun h => ⟨s.registry, h⟩
  cases request with
  | signup req => cases haccount
  | verify token => cases haccount
  | login req => cases haccount
  | register header body =>
      cases pc <;> cases h
      · exact hkept (findSession_state header)
      · exact hkept (checkUser_state _ (registerBody_state _ body))
      · exact ⟨_, rfl⟩
  | deregister header body =>
      cases pc <;> cases h
      · exact hkept (findSession_state header)
      · exact hkept (checkUser_state _ (deregisterBody_state _ body))
      · exact ⟨_, rfl⟩
  | peers username =>
      cases pc <;> cases h
      exact hkept rfl
  | prune => exact absurd rfl hprune

lemma complete_records {n : ℕ} {pc : Pc} {s' : AppState} {response : Response}
    (haccount : request.account = false) (hprune : request ≠ .prune)
    (h : complete x read request n s pc = some (s', response)) :
    ∃ registry, s' = s.beside s.sessions registry := by
  refine complete_keeps (I := fun t => ∃ registry, t = s.beside s.sessions registry)
    (J := fun _ => True) ?_ h ⟨s.registry, rfl⟩ trivial
  rintro _ pc o ⟨registry, rfl⟩ - hseg
  obtain ⟨registry', hstate⟩ := segment_records haccount hprune hseg
  exact ⟨⟨registry', hstate⟩, fun _ _ => trivial⟩

/-- A turn of such a request changes the registry only. -/
lemma next_records (haccount : request.account = false) (hprune : request ≠ .prune)
    (read : Reading) (s : AppState) :
    ∃ registry, (Turn.serve request read).next x s = s.beside s.sessions registry := by
  rw [Turn.next]
  cases h : complete x read request 3 s .start with
  | none => exact ⟨s.registry, rfl⟩
  | some a => exact complete_records haccount hprune h

end Rendezvous
