import Dddatasync.Rendezvous.RustApi

/-!
A node on the rendezvous server: what `POST /register` does for it, and what the requests of
others leave of it.

* `Speaker`: who may register with a token; `complete_register_speaker` and
  `complete_register_refused`, the two answers of `handle_register`.
* `Presence`: the account is approved, the token is its token, and the node has a record that
  was seen lately; `Presence.of_register`, `Presence.mem_peers`.
* `Tame`: the requests that take nothing from the node; `segment_tame`, one case for each
  segment of a handler, and `complete_presence` for a whole request.
-/

namespace Rendezvous

variable {x : Externals} {read : Reading} {s : AppState} {request : Request}

/-! ### Registering -/

/-- The user of a live session may register: the session is there and not expired, its account
is there and approved. -/
def Speaker (s : AppState) (now : ℕ) (token username : String) : Prop :=
  ∃ session account, s.sessions.lookup token = some session ∧ now ≤ session.expiresAt
    ∧ session.username = username ∧ s.users.lookup username = some account
    ∧ account.status = .approved

/-- The stores after a registration. -/
def registered (read : Reading) (req : RegisterRequest) (s : AppState) : AppState :=
  { s with registry :=
      s.registry.register req.username ⟨req.nodeId, req.addrs, req.relayUrl, read.now⟩ }

/-- A speaker is whom `authenticate` lets in. -/
lemma speaker_iff {header : Option String} {token username : String} {now : ℕ}
    (hbearer : bearer header = some token) :
    Speaker s now token username ↔ rustAuthenticate now header s = .ok username := by
  rw [rustAuthenticate_eq_ok, hbearer]
  constructor
  · rintro ⟨session, account, hspeaker⟩
    exact ⟨token, session, account, rfl, hspeaker⟩
  · rintro ⟨t, session, account, ht, hspeaker⟩
    rw [← Option.some.inj ht] at hspeaker
    exact ⟨session, account, hspeaker⟩

/-- `handle_register` for a speaker: the record is written. -/
lemma complete_register_speaker {header : Option String} {token : String}
    {req : RegisterRequest} (hbearer : bearer header = some token)
    (h : Speaker s read.now token req.username) :
    complete x read (.register header (some req)) 3 s .start
      = some (registered read req s, ⟨200, .empty⟩) := by
  have hstart : segment x read 0 s (.register header (some req)) .start
      = some (findSession read 0 header s) := rfl
  have hcheck : ∀ u, segment x read 0 s (.register header (some req)) (.checkUser u)
      = some (checkUser 0 u s (registerBody read u (some req) s)) := fun u => rfl
  obtain ⟨entries, hrun, hseg⟩ :=
    change_granted hstart hcheck ((speaker_iff hbearer).mp h)
  have hbody : registerBody read req.username (some req) s = ⟨s, .inl (.writeRecord req.username
      ⟨req.nodeId, req.addrs, req.relayUrl, read.now⟩), []⟩ := if_neg (not_not.mpr rfl)
  have hwrite : segment x read 0 s (.register header (some req))
      (.writeRecord req.username ⟨req.nodeId, req.addrs, req.relayUrl, read.now⟩)
        = some (writeRecord 0 req.username ⟨req.nodeId, req.addrs, req.relayUrl, read.now⟩ s) :=
    rfl
  rw [hbody] at hseg
  rw [hrun, complete_wait hseg rfl]
  exact complete_answer hwrite rfl

/-- `handle_register` for anybody else: nothing changes. -/
lemma complete_register_refused {header : Option String} {token : String}
    {req : RegisterRequest} (hbearer : bearer header = some token)
    (h : ¬ Speaker s read.now token req.username) :
    ∃ r : Response, complete x read (.register header (some req)) 3 s .start = some (s, r)
      ∧ ¬ r.Accepted := by
  have hstart : segment x read 0 s (.register header (some req)) .start
      = some (findSession read 0 header s) := rfl
  have hcheck : ∀ u, segment x read 0 s (.register header (some req)) (.checkUser u)
      = some (checkUser 0 u s (registerBody read u (some req) s)) := fun u => rfl
  rw [speaker_iff hbearer] at h
  cases hauth : rustAuthenticate read.now header s with
  | error status =>
      exact ⟨_, change_refused hstart hcheck hauth, not_accepted (rustAuthenticate_error hauth)⟩
  | ok u =>
      have hname : req.username ≠ u := by
        rintro rfl
        exact h hauth
      obtain ⟨entries, hrun, hseg⟩ := change_granted hstart hcheck hauth
      have hbody : registerBody read u (some req) s = respond s 403 .empty := by
        rw [registerBody, if_pos hname]
      rw [hbody] at hseg
      rw [hrun]
      exact ⟨⟨403, .empty⟩, complete_answer hseg rfl, not_accepted (by simp)⟩

/-! ### Being there -/

/-- The account of a node is approved, every session of its token is a session of the account,
and the node has a record that was seen at `since` or later. -/
structure Presence (username nodeId token : String) (since : ℕ) (s : AppState) : Prop where
  account : ∃ account, s.users.lookup username = some account ∧ account.status = .approved
  session : ∀ session, s.sessions.lookup token = some session → session.username = username
  record : ∃ r ∈ s.registry.records username, r.nodeId = nodeId ∧ since ≤ r.lastSeen

variable {username nodeId token : String} {since : ℕ}

lemma mem_upsert_self (r : PeerRecord) (l : List PeerRecord) : r ∈ upsert r l := by
  induction l with
  | nil => exact List.mem_singleton.mpr rfl
  | cons p ps ih =>
      rw [upsert]
      split_ifs
      · exact List.mem_cons_self
      · exact List.mem_cons_of_mem p ih

/-- The records of other nodes stay. -/
lemma mem_upsert_of_ne {r p : PeerRecord} {l : List PeerRecord} (hp : p ∈ l)
    (hne : p.nodeId ≠ r.nodeId) : p ∈ upsert r l := by
  induction l with
  | nil => cases hp
  | cons q qs ih =>
      rw [upsert]
      rcases List.mem_cons.mp hp with rfl | hp
      · rw [if_neg hne]
        exact List.mem_cons_self
      · split_ifs
        · exact List.mem_cons_of_mem _ hp
        · exact List.mem_cons_of_mem q (ih hp)

/-- After its registration a node is there. -/
lemma Presence.of_register {req : RegisterRequest}
    (h : Speaker s read.now token req.username) :
    Presence req.username req.nodeId token read.now (registered read req s) := by
  obtain ⟨session, account, hsession, -, hname, haccount, hstatus⟩ := h
  refine ⟨⟨account, haccount, hstatus⟩, fun session' hsession' => ?_, ?_⟩
  · rw [registered, hsession] at hsession'
    rw [← Option.some.inj hsession', hname]
  · refine ⟨⟨req.nodeId, req.addrs, req.relayUrl, read.now⟩, ?_, rfl, le_rfl⟩
    rw [registered, Registry.records_register, if_pos rfl]
    exact mem_upsert_self _ _

/-- The node with a live session may register again. -/
lemma Presence.speaker (h : Presence username nodeId token since s) {session : SessionRecord}
    (hsession : s.sessions.lookup token = some session) {now : ℕ}
    (hlive : now ≤ session.expiresAt) : Speaker s now token username := by
  obtain ⟨account, haccount, hstatus⟩ := h.account
  exact ⟨session, account, hsession, hlive, h.session session hsession, haccount, hstatus⟩

/-- A node that was seen lately is in the answer of `GET /peers`. -/
lemma Presence.mem_peers (h : Presence username nodeId token since s) {now : ℕ}
    (hnow : now ≤ since + peerTtlSecs) :
    nodeId ∈ (s.registry.peers username now).map (·.nodeId) := by
  obtain ⟨r, hr, rfl, hseen⟩ := h.record
  refine List.mem_map_of_mem ?_
  rw [Registry.peers, Registry.mem_live]
  refine ⟨hr, ?_⟩
  rw [Registry.cutoff]
  omega

/-! ### The requests of others -/

/-- Where a handler can stand that takes nothing from the node: it writes no older record of it,
erases no record of it, opens no session under its token and prunes no record as new. -/
def Pc.Tame (username nodeId token : String) (since : ℕ) : Pc → Prop
  | .writeRecord u r => u = username → r.nodeId = nodeId → since ≤ r.lastSeen
  | .eraseRecord u n => ¬ (u = username ∧ n = nodeId)
  | .openSession _ t => t ≠ token
  | .pruneRegistry now => now ≤ since + peerTtlSecs
  | _ => True

/-- Any request but one that deregisters the node. -/
def Request.Tame (username nodeId : String) : Request → Prop
  | .deregister _ (some req) => ¬ (req.username = username ∧ req.nodeId = nodeId)
  | _ => True

instance : ∀ request : Request, Decidable (request.Tame username nodeId)
  | .deregister _ (some _) => inferInstanceAs (Decidable (¬ _))
  | .deregister _ none => isTrue trivial
  | .signup _ => isTrue trivial
  | .verify _ => isTrue trivial
  | .login _ => isTrue trivial
  | .register _ _ => isTrue trivial
  | .peers _ => isTrue trivial
  | .prune => isTrue trivial

/-- A segment after which the node is still there, and so after what follows. -/
def Outcome.Tame (username nodeId token : String) (since : ℕ) (o : Outcome) : Prop :=
  Presence username nodeId token since o.state
    ∧ ∀ pc, o.next = .inl pc → pc.Tame username nodeId token since

section Segments

variable (h : Presence username nodeId token since s)
include h

lemma Presence.respond (status : ℕ) (body : Body) :
    (respond s status body).Tame username nodeId token since :=
  ⟨h, fun _ hpc => by cases hpc⟩

lemma signupStart_tame (req : SignupRequest) :
    (signupStart x read req s).Tame username nodeId token since := by
  simp only [signupStart]
  split
  · exact h.respond _ _
  · cases x.hashPassword read.salt req.password with
    | none => exact h.respond _ _
    | some hash => exact ⟨h, fun pc hpc => by cases hpc; trivial⟩

/-- A signup never replaces an account. -/
lemma insertAccount_tame {i : ℕ} (account : UserAccount) (password : String) :
    (insertAccount read i account password s).Tame username nodeId token since := by
  rw [insertAccount]
  split_ifs with hname
  · exact h.respond _ _
  · exact h.respond _ _
  · refine ⟨⟨?_, h.session, h.record⟩, fun pc hpc => ?_⟩
    · obtain ⟨own, hown, hstatus⟩ := h.account
      have hne : username ≠ account.username := by
        rintro rfl
        exact hname (Option.isSome_iff_exists.mpr ⟨own, hown⟩)
      exact ⟨own, (AList.lookup_insert_ne hne).trans hown, hstatus⟩
    · cases htoken : account.verificationToken with
      | none => simp [htoken] at hpc
      | some t =>
          simp only [htoken, Sum.inl.injEq] at hpc
          subst hpc
          trivial

lemma verifyStart_tame (t : String) :
    (verifyStart t s).Tame username nodeId token since := by
  rw [verifyStart]
  cases s.verifyTokens.lookup t with
  | none => exact h.respond _ _
  | some u => exact ⟨⟨h.account, h.session, h.record⟩, fun pc hpc => by cases hpc; trivial⟩

/-- A verification approves an account and takes no approval back. -/
lemma approveUser_tame (u : String) :
    (approveUser u s).Tame username nodeId token since := by
  simp only [approveUser]
  cases haccount : s.users.lookup u with
  | none => exact h.respond _ _
  | some account =>
      simp only
      split_ifs
      · refine ⟨⟨?_, h.session, h.record⟩, fun pc hpc => by cases hpc⟩
        by_cases hu : username = u
        · rw [hu]
          exact ⟨_, AList.lookup_insert _, rfl⟩
        · obtain ⟨own, hown, hstatus⟩ := h.account
          exact ⟨own, (AList.lookup_insert_ne hu).trans hown, hstatus⟩
      · exact h.respond _ _

lemma loginStart_tame {i : ℕ} (htoken : read.token ≠ token) (req : LoginRequest) :
    (loginStart x read i req s).Tame username nodeId token since := by
  simp only [loginStart]
  cases s.users.lookup req.username with
  | none =>
      simp only [ite_self]
      exact h.respond _ _
  | some account =>
      simp only
      split_ifs
      · cases account.status with
        | pending => exact h.respond _ _
        | blocked => exact h.respond _ _
        | approved => exact ⟨h, fun pc hpc => by cases hpc; exact htoken⟩
      · exact h.respond _ _

lemma openSession_tame {i : ℕ} {u t : String} (ht : t ≠ token) :
    (openSession read i u t s).Tame username nodeId token since := by
  refine ⟨⟨h.account, fun session hsession => h.session session ?_, h.record⟩,
    fun pc hpc => by cases hpc⟩
  exact (AList.lookup_insert_ne ht.symm).symm.trans hsession

lemma findSession_tame {i : ℕ} (header : Option String) :
    (findSession read i header s).Tame username nodeId token since := by
  rw [findSession]
  cases bearer header with
  | none => exact h.respond _ _
  | some t =>
      simp only
      cases s.sessions.lookup t with
      | none => exact h.respond _ _
      | some session =>
          simp only
          split_ifs
          · exact h.respond _ _
          · exact ⟨h, fun pc hpc => by cases hpc; trivial⟩

lemma checkUser_tame {i : ℕ} {u : String} {k : Outcome}
    (hk : k.Tame username nodeId token since) :
    (checkUser i u s k).Tame username nodeId token since := by
  rw [checkUser]
  cases s.users.lookup u with
  | none => exact h.respond _ _
  | some account =>
      simp only
      split_ifs
      · exact h.respond _ _
      · exact hk

/-- A new record is as new as the clock. -/
lemma registerBody_tame (hnow : since ≤ read.now) (u : String) (body : Option RegisterRequest) :
    (registerBody read u body s).Tame username nodeId token since := by
  cases body with
  | none => exact h.respond _ _
  | some req =>
      rw [registerBody]
      split_ifs
      · exact h.respond _ _
      · exact ⟨h, fun pc hpc => by cases hpc; exact fun _ _ => hnow⟩

lemma deregisterBody_tame {header : Option String} {body : Option DeregisterRequest}
    (htame : (Request.deregister header body).Tame username nodeId) (u : String) :
    (deregisterBody u body s).Tame username nodeId token since := by
  cases body with
  | none => exact h.respond _ _
  | some req =>
      rw [deregisterBody]
      split_ifs
      · exact h.respond _ _
      · exact ⟨h, fun pc hpc => by cases hpc; exact htame⟩

/-- A write takes away the old record of its node, for a newer one. -/
lemma writeRecord_tame {i : ℕ} {u : String} {r : PeerRecord}
    (hr : u = username → r.nodeId = nodeId → since ≤ r.lastSeen) :
    (writeRecord i u r s).Tame username nodeId token since := by
  refine ⟨⟨h.account, h.session, ?_⟩, fun pc hpc => by cases hpc⟩
  obtain ⟨own, hown, hid, hseen⟩ := h.record
  simp only [writeRecord, Registry.records_register]
  split_ifs with hu
  · by_cases hn : r.nodeId = nodeId
    · exact ⟨r, mem_upsert_self _ _, hn, hr hu.symm hn⟩
    · have hne : own.nodeId ≠ r.nodeId := fun heq => hn (heq.symm.trans hid)
      exact ⟨own, mem_upsert_of_ne (hu ▸ hown) hne, hid, hseen⟩
  · exact ⟨own, hown, hid, hseen⟩

lemma eraseRecord_tame {i : ℕ} {u n : String} (hne : ¬ (u = username ∧ n = nodeId)) :
    (eraseRecord i u n s).Tame username nodeId token since := by
  refine ⟨⟨h.account, h.session, ?_⟩, fun pc hpc => by cases hpc⟩
  obtain ⟨own, hown, hid, hseen⟩ := h.record
  refine ⟨own, ?_, hid, hseen⟩
  simp only [eraseRecord, Registry.records_deregister]
  split_ifs with hu
  · rw [List.mem_filter, decide_eq_true_iff]
    exact ⟨hu ▸ hown, fun heq => hne ⟨hu.symm, heq.symm.trans hid⟩⟩
  · exact hown

/-- A round of pruning leaves what is still live. -/
lemma pruneRegistry_tame {now : ℕ} (hnow : now ≤ since + peerTtlSecs) :
    (pruneRegistry read now s).Tame username nodeId token since := by
  refine ⟨⟨h.account, h.session, ?_⟩, fun pc hpc => by cases hpc; trivial⟩
  obtain ⟨own, hown, hid, hseen⟩ := h.record
  refine ⟨own, ?_, hid, hseen⟩
  simp only [pruneRegistry, Registry.records_prune, Registry.mem_live, Registry.cutoff]
  exact ⟨hown, by omega⟩

lemma pruneSessions_tame (now : ℕ) :
    (pruneSessions now s).Tame username nodeId token since := by
  refine ⟨⟨h.account, fun session hsession => ?_, h.record⟩, fun pc hpc => by cases hpc⟩
  simp only [pruneSessions, AssocMap.lookup_filterMap] at hsession
  obtain ⟨old, hold, hkept⟩ := Option.bind_eq_some_iff.mp hsession
  split_ifs at hkept
  rw [← Option.some.inj hkept]
  exact h.session old hold

/-- **A segment** of a tame request leaves the node in its place. -/
lemma segment_tame {i : ℕ} (hnow : since ≤ read.now) (hlate : read.now ≤ since + peerTtlSecs)
    (htoken : read.token ≠ token) (htame : request.Tame username nodeId) {pc : Pc}
    (hpc : pc.Tame username nodeId token since) {o : Outcome}
    (hs : segment x read i s request pc = some o) : o.Tame username nodeId token since := by
  cases request with
  | signup req =>
      cases pc <;> cases hs
      · exact signupStart_tame h req
      · exact insertAccount_tame h _ _
      · exact ⟨⟨h.account, h.session, h.record⟩, fun pc hpc => by cases hpc⟩
  | verify t =>
      cases pc <;> cases hs
      · exact verifyStart_tame h t
      · exact approveUser_tame h _
  | login req =>
      cases pc <;> cases hs
      · exact loginStart_tame h htoken req
      · exact openSession_tame h hpc
  | register header body =>
      cases pc <;> cases hs
      · exact findSession_tame h header
      · exact checkUser_tame h (registerBody_tame h hnow _ body)
      · exact writeRecord_tame h hpc
  | deregister header body =>
      cases pc <;> cases hs
      · exact findSession_tame h header
      · exact checkUser_tame h (deregisterBody_tame h htame _)
      · exact eraseRecord_tame h hpc
  | peers u =>
      cases pc <;> cases hs
      exact h.respond _ _
  | prune =>
      cases pc <;> cases hs
      · exact ⟨h, fun pc hpc => by cases hpc; exact hlate⟩
      · exact pruneRegistry_tame h hpc
      · exact pruneSessions_tame h _

end Segments

/-- **A tame request** that is served at once leaves the node in its place. -/
lemma complete_presence (hnow : since ≤ read.now) (hlate : read.now ≤ since + peerTtlSecs)
    (htoken : read.token ≠ token) (htame : request.Tame username nodeId) {n : ℕ} {pc : Pc}
    (hpc : pc.Tame username nodeId token since) (h : Presence username nodeId token since s)
    {s' : AppState} {r : Response} (hs : complete x read request n s pc = some (s', r)) :
    Presence username nodeId token since s' := by
  refine complete_keeps (I := Presence username nodeId token since)
    (J := Pc.Tame username nodeId token since) ?_ hs h hpc
  intro s pc o h hpc hseg
  exact segment_tame h hnow hlate htoken htame hpc hseg

end Rendezvous
