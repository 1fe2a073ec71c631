import Dddatasync.Rendezvous.Presence
import Dddatasync.Rendezvous.RecordHistory
import Dddatasync.Rendezvous.RustCredentials

/-!
Where the sessions and the records of the Rust server come from.

* `serverAfter`: the server after the requests it was sent.
* `SignedIn`, `Enrolled`: a token that a login with the account's password was answered with, and a
  record that was registered with such a token.
* `sessions_login`, `records_registration`: what one request adds to the sessions and to the
  records; `sessions_other`, `records_other`: no other turn adds any.
* `sessions_signedIn`, `records_enrolled`: every session and every record is of that kind.
-/

namespace Rendezvous

open Runs

/-! ### Where things come from -/

/-- The Rust server after these turns. -/
def serverAfter (x : Externals) (turns : List Turn) : AppState :=
  turns.foldl (Turn.next x) start.state

/-- A login for `u` with the password of its approved account was answered with the token. -/
def SignedIn (x : Externals) (turns : List Turn) (token u : String) : Prop :=
  ∃ done password read account, done ++ [.serve (.login ⟨u, password⟩) read] <+: turns
    ∧ read.token = token ∧ (serverAfter x done).users.lookup u = some account
    ∧ x.verifyPassword password account.passwordHash = true ∧ account.status = .approved

/-- The record of a registration at this time. -/
def recordAt (req : RegisterRequest) (now : ℕ) : PeerRecord :=
  ⟨req.nodeId, req.addrs, req.relayUrl, now⟩

/-- The record was registered for `u` with the token of such a login. -/
def Enrolled (x : Externals) (turns : List Turn) (u : String) (r : PeerRecord) : Prop :=
  ∃ done header req read token, done ++ [.serve (.register header (some req)) read] <+: turns
    ∧ bearer header = some token ∧ SignedIn x done token u ∧ req.username = u
    ∧ r = recordAt req read.now

section Attribution

variable {x : Externals} {read : Reading} {s : AppState} {turns more : List Turn} {turn : Turn}
  {token u : String} {r : PeerRecord} {session : SessionRecord}

lemma serverAfter_snoc (x : Externals) (turns : List Turn) (turn : Turn) :
    serverAfter x (turns ++ [turn]) = turn.next x (serverAfter x turns) := by
  rw [serverAfter, List.foldl_append]
  rfl

lemma SignedIn.mono (h : SignedIn x turns token u) (hpre : turns <+: more) :
    SignedIn x more token u := by
  obtain ⟨done, password, read, account, hdone, hrest⟩ := h
  exact ⟨done, password, read, account, hdone.trans hpre, hrest⟩

lemma Enrolled.mono (h : Enrolled x turns u r) (hpre : turns <+: more) : Enrolled x more u r := by
  obtain ⟨done, header, req, read, token, hdone, hrest⟩ := h
  exact ⟨done, header, req, read, token, hdone.trans hpre, hrest⟩

/-! ### Sessions -/

/-- A login that goes on to open a session has verified the password. -/
lemma loginStart_verified {req : LoginRequest} {pc : Pc}
    (h : (loginStart x read 0 req s).next = .inl pc) :
    ∃ account, s.users.lookup req.username = some account
      ∧ x.verifyPassword req.password account.passwordHash = true ∧ account.status = .approved := by
  rw [loginStart] at h
  split at h
  · split_ifs at h <;> cases h
  · rename_i account haccount
    split_ifs at h with hverify
    · split at h <;> cases h
      rename_i hstatus
      exact ⟨account, haccount, hverify, hstatus⟩
    · cases h

/-- Only a login changes what a token opens, and it opens one session. -/
lemma sessions_login (req : LoginRequest)
    (h : (rustReply x read (.login req) s).1.sessions.lookup token = some session) :
    s.sessions.lookup token = some session
      ∨ read.token = token ∧ session.username = req.username
        ∧ ∃ account, s.users.lookup req.username = some account
          ∧ x.verifyPassword req.password account.passwordHash = true
          ∧ account.status = .approved := by
  have hseg : segment x read 0 s (.login req) .start = some (loginStart x read 0 req s) := rfl
  rw [rustReply] at h
  cases hnext : (loginStart x read 0 req s).next with
  | inr response =>
      rw [complete_answer hseg hnext, loginStart_state] at h
      exact .inl h
  | inl pc =>
      obtain rfl := loginStart_next hnext
      have hopen : complete x read (.login req) 2 s (.openSession req.username read.token)
          = some ((openSession read 0 req.username read.token s).state,
            ⟨200, .token read.token⟩) := complete_answer rfl rfl
      rw [complete_wait hseg hnext, loginStart_state, hopen] at h
      by_cases htoken : read.token = token
      · subst htoken
        have hsession : session = ⟨req.username, read.now + sessionTtlSecs⟩ :=
          Option.some.inj (h.symm.trans (AList.lookup_insert _))
        exact .inr ⟨rfl, congrArg SessionRecord.username hsession, loginStart_verified hnext⟩
      · exact .inl ((AList.lookup_insert_ne (Ne.symm htoken)).symm.trans h)

/-- A signup and a verification leave the sessions alone. -/
lemma sessions_account {request : Request} (haccount : request.account = true)
    (hlogin : ∀ req, request ≠ .login req) :
    (rustReply x read request s).1.sessions = s.sessions := by
  refine rustReply_keeps (I := fun t => t.sessions = s.sessions) (J := fun _ => True)
    (fun t pc o ht _ hs => ⟨?_, fun _ _ => trivial⟩) rfl trivial
  have hopens : pc.opens = none := by
    cases request with
    | login req => exact absurd rfl (hlogin req)
    | _ => cases pc <;> first | rfl | cases hs
  rw [sessions_of_segment haccount hs, hopens]
  exact ht

/-- A request on the registry leaves the sessions alone. -/
lemma sessions_records {request : Request} (haccount : request.account = false)
    (hprune : request ≠ .prune) : ((Turn.serve request read).next x s).sessions = s.sessions := by
  obtain ⟨registry, hnext⟩ := next_records (x := x) haccount hprune read s
  rw [hnext]
  rfl

/-- No other turn opens a session. -/
lemma sessions_other (hlogin : ∀ req read, turn ≠ .serve (.login req) read)
    (h : (turn.next x s).sessions.lookup token = some session) :
    s.sessions.lookup token = some session := by
  cases turn with
  | setStatus v status =>
      rw [Turn.next] at h
      cases hv : s.users.lookup v with
      | none => rwa [hv] at h
      | some account => rwa [hv] at h
  | serve request read =>
      cases request with
      | login req => exact absurd rfl (hlogin req read)
      | signup req => rwa [next_serve, sessions_account rfl (by simp)] at h
      | verify t => rwa [next_serve, sessions_account rfl (by simp)] at h
      | register header body => rwa [sessions_records rfl (by simp)] at h
      | deregister header body => rwa [sessions_records rfl (by simp)] at h
      | peers v => rwa [sessions_records rfl (by simp)] at h
      | prune =>
          have hnext : ((Turn.serve .prune read).next x s).sessions = AssocMap.filterMap
              (fun _ session => if read.now < session.expiresAt then some session else none)
              s.sessions := rfl
          rw [hnext, AssocMap.lookup_filterMap] at h
          obtain ⟨session', hsession, hkept⟩ := Option.bind_eq_some_iff.mp h
          split_ifs at hkept
          exact hsession.trans hkept

/-- **Every session** was opened by a login with the account's password. -/
lemma sessions_signedIn (h : (serverAfter x turns).sessions.lookup token = some session) :
    SignedIn x turns token session.username := by
  induction turns using List.reverseRecOn generalizing session with
  | nil => cases h
  | append_singleton turns turn ih =>
      rw [serverAfter_snoc] at h
      by_cases hlogin : ∃ req read, turn = .serve (.login req) read
      · obtain ⟨req, read, rfl⟩ := hlogin
        rw [next_serve] at h
        rcases sessions_login req h with h | ⟨htoken, hname, account, haccount, hverify, hstatus⟩
        · exact (ih h).mono (List.prefix_append _ _)
        · rw [hname]
          exact ⟨turns, req.password, read, account, List.prefix_rfl, htoken, haccount, hverify,
            hstatus⟩
      · refine (ih (sessions_other (fun req read heq => hlogin ⟨req, read, heq⟩) h)).mono ?_
        exact List.prefix_append _ _

/-! ### Records -/

/-- A registration adds its record at most, and only with a token of the account. -/
lemma records_registration (header : Option String) (req : RegisterRequest)
    (h : r ∈ (rustReply x read (.register header (some req)) s).1.registry.records u) :
    r ∈ s.registry.records u
      ∨ req.username = u ∧ r = recordAt req read.now ∧ ∃ token session,
        bearer header = some token ∧ s.sessions.lookup token = some session
          ∧ session.username = u := by
  rw [rustReply] at h
  cases hbearer : bearer header with
  | none =>
      have hauth : rustAuthenticate read.now header s = .error 401 := by
        rw [rustAuthenticate, hbearer]
      have hstart : segment x read 0 s (.register header (some req)) .start
          = some (findSession read 0 header s) := rfl
      rw [change_refused hstart (k := fun v => registerBody read v (some req) s) (fun _ => rfl)
        hauth] at h
      exact .inl h
  | some token =>
      by_cases hspeaker : Speaker s read.now token req.username
      · rw [complete_register_speaker hbearer hspeaker] at h
        obtain ⟨session, account, hsession, -, hname, -⟩ := hspeaker
        replace h : r ∈ (s.registry.register req.username (recordAt req read.now)).records u := h
        rw [Registry.records_register] at h
        split_ifs at h with hu
        · subst hu
          rcases mem_of_mem_upsert h with hr | hr
          · exact .inr ⟨rfl, hr, token, session, rfl, hsession, hname⟩
          · exact .inl hr
        · exact .inl h
      · obtain ⟨response, hrefused, -⟩ := complete_register_refused (x := x) hbearer hspeaker
        rw [hrefused] at h
        exact .inl h

/-- A segment that writes no record adds none, and waits to write none. -/
lemma added_segment {request : Request} {pc : Pc} {o : Outcome}
    (hregister : ∀ header req, request ≠ .register header (some req))
    (hpc : ∀ v p, pc ≠ .writeRecord v p) (hs : segment x read 0 s request pc = some o) :
    (∀ u, ∀ r ∈ o.state.registry.records u, r ∈ s.registry.records u)
      ∧ ∀ pc', o.next = .inl pc' → ∀ v p, pc' ≠ .writeRecord v p := by
  cases record_segment hs with
  | wait _ _ _ pc' hnext hreg haside =>
      refine ⟨fun u r hr => hreg ▸ hr, fun pc'' hpc'' v p heq => ?_⟩
      rw [hnext, Sum.inl.injEq] at hpc''
      rw [hpc'', heq] at haside
      exact haside
  | write header req => exact absurd rfl (hregister header req)
  | erase header req _ _ hnext hreg =>
      refine ⟨fun u r hr => hreg ▸ hr, fun pc'' hpc'' v p => ?_⟩
      rw [hnext, Sum.inl.injEq] at hpc''
      simp [← hpc'']
  | round _ hnext hreg =>
      refine ⟨fun u r hr => hreg ▸ hr, fun pc'' hpc'' v p => ?_⟩
      rw [hnext, Sum.inl.injEq] at hpc''
      simp [← hpc'']
  | wrote _ _ v p => exact absurd rfl (hpc v p)
  | erased _ _ v n _ hnext hreg =>
      refine ⟨fun u r hr => ?_, fun pc'' hpc'' => by simp [hnext] at hpc''⟩
      rw [hreg, Registry.records_deregister] at hr
      split_ifs at hr with hu
      · exact hu ▸ List.mem_of_mem_filter hr
      · exact hr
  | listed _ _ hnext hreg =>
      exact ⟨fun u r hr => hreg ▸ hr, fun pc'' hpc'' => by simp [hnext] at hpc''⟩
  | pruned now _ hnext hreg =>
      refine ⟨fun u r hr => ?_, fun pc'' hpc'' v p => ?_⟩
      · rw [hreg, Registry.records_prune] at hr
        exact List.mem_of_mem_filter hr
      · rw [hnext, Sum.inl.injEq] at hpc''
        simp [← hpc'']
  | answer _ _ _ _ hnext hreg =>
      exact ⟨fun u r hr => hreg ▸ hr, fun pc'' hpc'' => by simp [hnext] at hpc''⟩

/-- No other turn adds a record. -/
lemma records_other
    (hregister : ∀ header req read, turn ≠ .serve (.register header (some req)) read)
    (h : r ∈ (turn.next x s).registry.records u) : r ∈ s.registry.records u := by
  cases turn with
  | setStatus v status =>
      rw [Turn.next] at h
      cases hv : s.users.lookup v with
      | none => rwa [hv] at h
      | some account => rwa [hv] at h
  | serve request read =>
      rw [next_serve] at h
      have hkept : ∀ v, ∀ p ∈ (rustReply x read request s).1.registry.records v,
          p ∈ s.registry.records v := by
        refine rustReply_keeps (I := fun t => ∀ v, ∀ p ∈ t.registry.records v,
          p ∈ s.registry.records v) (J := fun pc => ∀ v p, pc ≠ .writeRecord v p)
          (fun t pc o ht hpc hs => ?_) (fun v p hp => hp) (by simp)
        obtain ⟨hfewer, hnext⟩ := added_segment
          (fun header req heq => hregister header req read (by rw [heq])) hpc hs
        exact ⟨fun v p hp => ht v p (hfewer v p hp), hnext⟩
      exact hkept u r h

/-- **Every record** was registered with a token of its account. -/
lemma records_enrolled (h : r ∈ (serverAfter x turns).registry.records u) :
    Enrolled x turns u r := by
  induction turns using List.reverseRecOn with
  | nil => cases h
  | append_singleton turns turn ih =>
      rw [serverAfter_snoc] at h
      by_cases hregister : ∃ header req read, turn = .serve (.register header (some req)) read
      · obtain ⟨header, req, read, rfl⟩ := hregister
        rw [next_serve] at h
        rcases records_registration header req h with h | ⟨hname, hr, token, session, hbearer,
          hsession, huser⟩
        · exact (ih h).mono (List.prefix_append _ _)
        · exact ⟨turns, header, req, read, token, List.prefix_rfl, hbearer,
            huser ▸ sessions_signedIn hsession, hname, hr⟩
      · refine (ih (records_other (fun header req read heq => hregister ⟨header, req, read, heq⟩)
          h)).mono ?_
        exact List.prefix_append _ _

end Attribution

end Rendezvous
