import Dddatasync.Rendezvous.Ownership

/-!
What a refused request leaves behind.

* `Answered`: a request comes in and its handler runs alone to its answer.
* `Midway`, `Settled`: what a handler that runs alone has done to the stores, while it waits
  and when it answers; `midway_segment` is one segment, `settled_of_run` the whole handler.
* `refused_changes_nothing_iff`: a refused request changes nothing, except for a verification
  link of an account that is not pending, which is used up.
-/

namespace Rendezvous

open Runs

variable {x : Externals} {read : Reading} {i : ℕ} {request : Request} {s s₀ : AppState}
  {pc : Pc} {o : Outcome} {r : Response} {c c' : Config}

/-- `request` comes to `c` and its handler runs alone, with what it reads in `reads`, to its
answer `r`; then the server is at `c'`. -/
structure Answered (x : Externals) (c : Config) (request : Request) (reads : List Reading)
    (r : Response) (c' : Config) : Prop where
  run : exec (step x) c (.arrive request :: reads.map (.run c.next)) = some c'
  left : c'.tasks c.next = none
  answer : c'.log.getLast? = some (.responded c.next r)

/-- The request is a verification link whose account is not pending. -/
def StaleLink (s : AppState) (request : Request) : Prop :=
  ∃ token u account, request = .verify token ∧ s.verifyTokens.lookup token = some u
    ∧ s.users.lookup u = some account ∧ account.status ≠ .pending

/-- The last segment of a handler, which refuses nothing. -/
def Pc.Sure : Pc → Prop
  | .insertToken _ _ => True
  | .openSession _ _ => True
  | .writeRecord _ _ => True
  | .eraseRecord _ _ => True
  | .pruneRegistry _ => True
  | .pruneSessions _ => True
  | _ => False

/-- The stores while a handler that started on `s₀` waits at `pc`. -/
inductive Midway (s₀ : AppState) (request : Request) : AppState → Pc → Prop
  | unchanged (pc : Pc) (hpc : ∀ u, pc ≠ .approveUser u)
      (hverify : ∀ token, request = .verify token → pc = .start) : Midway s₀ request s₀ pc
  | sure (s : AppState) (pc : Pc) (hpc : pc.Sure) (hverify : ∀ token, request ≠ .verify token) :
      Midway s₀ request s pc
  | taken (token u : String) (hreq : request = .verify token)
      (hu : s₀.verifyTokens.lookup token = some u) :
      Midway s₀ request { s₀ with verifyTokens := s₀.verifyTokens.erase token } (.approveUser u)

/-- The stores when a handler that started on `s₀` answers. -/
inductive Settled (s₀ : AppState) (request : Request) : AppState → Response → Prop
  | served (s : AppState) (r : Response) (hr : r.status < 400) (hlink : ¬ StaleLink s₀ request) :
      Settled s₀ request s r
  | refused (r : Response) (hlink : ¬ StaleLink s₀ request) : Settled s₀ request s₀ r
  | used (s : AppState) (r : Response) (hr : r.status = 400) (hlink : StaleLink s₀ request)
      (hne : s ≠ s₀) : Settled s₀ request s r

/-- What an outcome has done to the stores. -/
structure Follows (s₀ : AppState) (request : Request) (o : Outcome) : Prop where
  next : ∀ pc', o.next = .inl pc' → Midway s₀ request o.state pc'
  answer : ∀ r, o.next = .inr r → Settled s₀ request o.state r

lemma not_staleLink (h : ∀ token, request ≠ .verify token) : ¬ StaleLink s₀ request := by
  rintro ⟨token, -, -, hreq, -⟩
  exact h token hreq

lemma follows_respond (hlink : ¬ StaleLink s₀ request) (status : ℕ) (body : Body) :
    Follows s₀ request (respond s₀ status body) where
  next := fun _ h => by cases h
  answer := by
    rintro r h
    cases h
    exact .refused _ hlink

lemma follows_wait (pc : Pc) (hpc : ∀ u, pc ≠ .approveUser u)
    (hverify : ∀ token, request ≠ .verify token) (entries : List Entry) :
    Follows s₀ request ⟨s₀, .inl pc, entries⟩ where
  next := by
    rintro pc' h
    cases h
    exact .unchanged pc hpc fun token hreq => absurd hreq (hverify token)
  answer := fun _ h => by cases h

lemma follows_served (s : AppState) (hr : r.status < 400)
    (hverify : ∀ token, request ≠ .verify token) (entries : List Entry) :
    Follows s₀ request ⟨s, .inr r, entries⟩ where
  next := fun _ h => by cases h
  answer := by
    rintro r' h
    cases h
    exact .served _ _ hr (not_staleLink hverify)

lemma follows_sure (s : AppState) (pc : Pc) (hpc : pc.Sure)
    (hverify : ∀ token, request ≠ .verify token) (entries : List Entry) :
    Follows s₀ request ⟨s, .inl pc, entries⟩ where
  next := by
    rintro pc' h
    cases h
    exact .sure _ _ hpc hverify
  answer := fun _ h => by cases h

lemma follows_findSession (header : Option String) (hverify : ∀ token, request ≠ .verify token) :
    Follows s₀ request (findSession read i header s₀) := by
  have hlink : ¬ StaleLink s₀ request := not_staleLink hverify
  rw [findSession]
  split
  · exact follows_respond hlink _ _
  · split
    · exact follows_respond hlink _ _
    · split_ifs
      · exact follows_respond hlink _ _
      · exact follows_wait _ (by simp) hverify _

lemma follows_checkUser (u : String) {k : Outcome} (hk : Follows s₀ request k)
    (hverify : ∀ token, request ≠ .verify token) :
    Follows s₀ request (checkUser i u s₀ k) := by
  have hlink : ¬ StaleLink s₀ request := not_staleLink hverify
  rw [checkUser]
  split
  · exact follows_respond hlink _ _
  · split_ifs
    · exact follows_respond hlink _ _
    · exact ⟨hk.next, hk.answer⟩

/-- The first segments, and the others that may refuse. -/
lemma follows_unchanged (hpc : ∀ u, pc ≠ .approveUser u)
    (hseg : segment x read i s₀ request pc = some o) : Follows s₀ request o := by
  unfold segment at hseg
  split at hseg <;> cases hseg
  · rename_i req
    have hlink : ¬ StaleLink s₀ (.signup req) := not_staleLink (by simp)
    simp only [signupStart]
    split
    · exact follows_respond hlink _ _
    · split
      · exact follows_respond hlink _ _
      · exact follows_wait _ (by simp) (by simp) _
  · rename_i req account password
    have hlink : ¬ StaleLink s₀ (.signup req) := not_staleLink (by simp)
    rw [insertAccount]
    split_ifs
    · exact follows_respond hlink _ _
    · exact follows_respond hlink _ _
    · split
      · exact follows_sure _ (.insertToken _ _) True.intro (by simp) _
      · exact follows_served _ (by simp [created]) (by simp) _
  · exact follows_served _ (by simp [created]) (by simp) _
  · rename_i token
    rw [verifyStart]
    split
    · rename_i hnone
      refine follows_respond ?_ _ _
      rintro ⟨token', u, account, hreq, hu, -⟩
      cases hreq
      rw [hnone] at hu
      cases hu
    · rename_i u hu
      refine ⟨?_, fun r h => by cases h⟩
      rintro pc' h
      cases h
      exact .taken token u rfl hu
  · exact absurd rfl (hpc _)
  · rename_i req
    have hlink : ¬ StaleLink s₀ (.login req) := not_staleLink (by simp)
    rw [loginStart]
    split
    · split_ifs <;> exact follows_respond hlink _ _
    · split_ifs
      · split
        · exact follows_respond hlink _ _
        · exact follows_respond hlink _ _
        · exact follows_wait _ (by simp) (by simp) _
      · exact follows_respond hlink _ _
  · exact follows_served _ (by simp) (by simp) _
  · exact follows_findSession _ (by simp)
  · refine follows_checkUser _ ?_ (by simp)
    rename_i body u
    cases body with
    | none => exact follows_respond (not_staleLink (by simp)) _ _
    | some req =>
        rw [registerBody]
        split_ifs
        · exact follows_respond (not_staleLink (by simp)) _ _
        · exact follows_wait _ (by simp) (by simp) _
  · exact follows_served _ (by simp) (by simp) _
  · exact follows_findSession _ (by simp)
  · refine follows_checkUser _ ?_ (by simp)
    rename_i body u
    cases body with
    | none => exact follows_respond (not_staleLink (by simp)) _ _
    | some req =>
        rw [deregisterBody]
        split_ifs
        · exact follows_respond (not_staleLink (by simp)) _ _
        · exact follows_wait _ (by simp) (by simp) _
  · exact follows_served _ (by simp) (by simp) _
  · exact follows_respond (not_staleLink (by simp)) _ _
  · exact follows_wait _ (by simp) (by simp) _
  · exact follows_sure _ (.pruneSessions _) True.intro (by simp) _
  · exact follows_served _ (by simp) (by simp) _

/-- The last segments refuse nothing. -/
lemma follows_of_sure (hpc : pc.Sure) (hseg : segment x read i s request pc = some o)
    (hverify : ∀ token, request ≠ .verify token) : Follows s₀ request o := by
  unfold segment at hseg
  split at hseg <;> cases hseg <;> try exact absurd hpc id
  · exact follows_served _ (by simp [created]) (by simp) _
  · exact follows_served _ (by simp) (by simp) _
  · exact follows_served _ (by simp) (by simp) _
  · exact follows_served _ (by simp) (by simp) _
  · exact follows_sure _ (.pruneSessions _) True.intro (by simp) _
  · exact follows_served _ (by simp) (by simp) _

/-- A token that was taken out is missed. -/
lemma erase_ne {token u : String} (hu : s₀.verifyTokens.lookup token = some u) :
    { s₀ with verifyTokens := s₀.verifyTokens.erase token } ≠ s₀ := by
  intro h
  have hlookup := congrArg (fun s => s.verifyTokens.lookup token) h
  simp [hu] at hlookup

/-- The answer to a verification link. -/
lemma follows_approveUser {token u : String} (hu : s₀.verifyTokens.lookup token = some u) :
    Follows s₀ (.verify token)
      (approveUser u { s₀ with verifyTokens := s₀.verifyTokens.erase token }) := by
  have hfresh : ∀ account, StaleLink s₀ (.verify token) → s₀.users.lookup u = some account →
      account.status ≠ .pending := by
    rintro account ⟨token', u', account', hreq, hu', haccount, hne⟩ ha
    cases hreq
    rw [hu] at hu'
    obtain rfl := Option.some.inj hu'
    rw [haccount] at ha
    obtain rfl := Option.some.inj ha
    exact hne
  simp only [approveUser]
  split
  · rename_i hnone
    refine ⟨fun _ h => (by cases h), ?_⟩
    rintro r h
    cases h
    refine .served _ _ (by decide) ?_
    rintro ⟨token', u', account, hreq, hu', haccount, -⟩
    cases hreq
    rw [hu] at hu'
    obtain rfl := Option.some.inj hu'
    exact absurd (haccount.symm.trans hnone) (by simp)
  · rename_i account haccount
    split_ifs with hpending
    · refine ⟨fun _ h => (by cases h), ?_⟩
      rintro r h
      cases h
      exact .served _ _ (by decide) fun hstale => hfresh account hstale haccount hpending
    · refine ⟨fun _ h => (by cases h), ?_⟩
      rintro r h
      cases h
      exact .used _ _ rfl ⟨token, u, account, rfl, hu, haccount, hpending⟩ (erase_ne hu)

/-- One segment of a handler that runs alone. -/
lemma midway_segment (h : Midway s₀ request s pc)
    (hseg : segment x read i s request pc = some o) : Follows s₀ request o := by
  cases h with
  | unchanged _ hpc hverify => exact follows_unchanged hpc hseg
  | sure _ _ hpc hverify => exact follows_of_sure hpc hseg hverify
  | taken token u hreq hu =>
      cases hreq
      obtain rfl := Option.some.inj hseg
      exact follows_approveUser hu

/-- **A handler that runs alone.**  When it has answered, it has done one of three things. -/
theorem settled_of_run {reads : List Reading} (htask : c.tasks i = some ⟨request, pc⟩)
    (h : Midway s₀ request c.state pc)
    (hrun : exec (step x) c (reads.map (.run i)) = some c') (hleft : c'.tasks i = none)
    (hanswer : c'.log.getLast? = some (.responded i r)) : Settled s₀ request c'.state r := by
  induction reads generalizing c pc with
  | nil =>
      obtain rfl := Option.some.inj hrun
      rw [htask] at hleft
      cases hleft
  | cons read reads ih =>
      rw [List.map_cons] at hrun
      obtain ⟨d, hd, hrun⟩ := Option.bind_eq_some_iff.mp hrun
      obtain ⟨request', hact, -⟩ | ⟨j, read', request', pc', o, hact, htask', -, hseg, rfl⟩
        | ⟨j, hact, -⟩ | ⟨u, status, account, hact, -⟩ := step_cases hd
      · cases hact
      · cases hact
        rw [htask] at htask'
        cases htask'
        have hfollows := midway_segment h hseg
        cases hnext : o.next with
        | inl pc' =>
            exact ih (tasks_after_self hnext) (hfollows.next pc' hnext) hrun
        | inr r' =>
            -- the request has left, so nothing else ran
            have hgone : (c.after i request read.token o).tasks i = none :=
              tasks_after_answer hnext
            cases reads with
            | nil =>
                obtain rfl := Option.some.inj hrun
                have hlast : (c.after i request read.token o).log.getLast?
                    = some (.responded i r') := by
                  rw [Config.after, Outcome.history, hnext]
                  simp
                rw [hlast] at hanswer
                cases hanswer
                exact hfollows.answer _ hnext
            | cons read' reads =>
                obtain ⟨e, he, -⟩ := Option.bind_eq_some_iff.mp hrun
                simp only [step, hgone] at he
                cases he
      · cases hact
      · cases hact

/-- **A refused request changes nothing**, exactly unless it is a verification link of an
account that is not pending: that link is refused with 400 and used up all the same. -/
theorem refused_changes_nothing_iff {x : Externals} {c c' : Config} {request : Request}
    {reads : List Reading} {r : Response} (h : Answered x c request reads r c') :
    (400 ≤ r.status → c'.state = c.state) ↔ ¬ StaleLink c.state request := by
  obtain ⟨d, hd, hrun⟩ := Option.bind_eq_some_iff.mp h.run
  obtain rfl := Option.some.inj hd
  have hmid : Midway c.state request c.state .start :=
    .unchanged .start (by simp) fun _ _ => rfl
  have hsettled := settled_of_run (c := { c with
      tasks := Function.update c.tasks c.next (some ⟨request, .start⟩)
      next := c.next + 1
      log := c.log ++ [.arrived c.next request] })
    (Function.update_self _ _ _) hmid hrun h.left h.answer
  generalize c'.state = s' at hsettled ⊢
  cases hsettled with
  | served _ _ hr hlink => exact ⟨fun _ => hlink, fun _ h400 => absurd h400 (by omega)⟩
  | refused _ hlink => exact ⟨fun _ => hlink, fun _ _ => rfl⟩
  | used _ _ hr hlink hne =>
      constructor
      · intro hsame
        exact absurd (hsame (by omega)) hne
      · intro hfresh
        exact absurd hlink hfresh

/-- Alice signs up, an operator blocks her account, then her verification link comes in. -/
def blockedBeforeVerify : List Action :=
  [.arrive (.signup ⟨"alice", "a@b", "pw"⟩), .run 0 { token := "link" }, .run 0 { token := "t1" },
    .run 0 { token := "t2" }, .setStatus "alice" .blocked]

/-- The answer of a request that is handled alone after `as`, with the username its token
stands for before and after. -/
def answerAfter (as : List Action) (request : Request) (token : String) :
    Option (ℕ × Bool × Option Entry × Option String × Option String) :=
  (exec (step plainExternals) start as).bind fun c =>
    (exec (step plainExternals) c (.arrive request ::
      [{ token := "t3" }, { token := "t4" }].map (.run c.next))).map fun c' =>
    (c.next, (c'.tasks c.next).isNone, c'.log.getLast?, c.state.verifyTokens.lookup token,
      c'.state.verifyTokens.lookup token)

/-- What `answerAfter` computes is a request handled alone. -/
lemma answered_of_answerAfter {as : List Action} {request : Request} {token : String} {n : ℕ}
    {r : Response} {before after : Option String}
    (h : answerAfter as request token = some (n, true, some (.responded n r), before, after)) :
    ∃ c c', exec (step plainExternals) start as = some c
      ∧ Answered plainExternals c request [{ token := "t3" }, { token := "t4" }] r c'
      ∧ c.state.verifyTokens.lookup token = before
      ∧ c'.state.verifyTokens.lookup token = after := by
  obtain ⟨c, hc, hrest⟩ := Option.bind_eq_some_iff.mp h
  obtain ⟨c', hc', heq⟩ := Option.map_eq_some_iff.mp hrest
  simp only [Prod.mk.injEq] at heq
  obtain ⟨rfl, hgone, hlast, hbefore, hafter⟩ := heq
  exact ⟨c, c', hc, ⟨hc', Option.isNone_iff_eq_none.mp hgone, hlast⟩, hbefore, hafter⟩

/-- The link of a blocked account is refused and used up. -/
theorem stale_link_used_up : ∃ c c', exec (step plainExternals) start blockedBeforeVerify = some c
    ∧ Answered plainExternals c (.verify "link") [{ token := "t3" }, { token := "t4" }]
        ⟨400, .error "account is not pending verification"⟩ c'
    ∧ c'.state ≠ c.state := by
  have hrun : answerAfter blockedBeforeVerify (.verify "link") "link"
      = some (1, true, some (.responded 1 ⟨400, .error "account is not pending verification"⟩),
        some "alice", none) := by decide
  obtain ⟨c, c', hc, h, hbefore, hafter⟩ := answered_of_answerAfter hrun
  refine ⟨c, c', hc, h, fun hsame => ?_⟩
  rw [hsame, hbefore] at hafter
  cases hafter

/-- A second signup for a name is refused and changes nothing. -/
theorem second_signup_changes_nothing : ∃ c c',
    exec (step plainExternals) start blockedBeforeVerify = some c
    ∧ Answered plainExternals c (.signup ⟨"alice", "c@d", "pw"⟩)
        [{ token := "t3" }, { token := "t4" }] ⟨409, .error "username already taken"⟩ c'
    ∧ c'.state = c.state := by
  have hrun : answerAfter blockedBeforeVerify (.signup ⟨"alice", "c@d", "pw"⟩) "link"
      = some (1, true, some (.responded 1 ⟨409, .error "username already taken"⟩),
        some "alice", some "alice") := by decide
  obtain ⟨c, c', hc, h, -⟩ := answered_of_answerAfter hrun
  refine ⟨c, c', hc, h, (refused_changes_nothing_iff h).mpr ?_ (by decide)⟩
  rintro ⟨token, u, account, hreq, -⟩
  cases hreq

end Rendezvous
