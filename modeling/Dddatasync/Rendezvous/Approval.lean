import Dddatasync.Rendezvous.Verification

/-!
How an account gets approved when nobody but its own verification link may do it.

* `Action.Manual`: no operator, and `AUTO_APPROVE_USERS` off.
* `StatusMove`, `statusMove_step`: what a step does to the status of an account.
* `ManualOk`, `manualOk_of_run`: the invariants of such a run, with `Spent` for the links
  that were answered 200.
* `approved_by_own_link`: an approved account was approved once, by its own link; a token
  makes one verification succeed; approved accounts stay approved; sessions belong to
  accounts that were approved when their login read them.
-/

namespace Rendezvous

open Runs
open scoped List

variable {x : Externals} {read : Reading} {i j : ℕ} {request : Request} {s : AppState}
  {pc : Pc} {o : Outcome} {c c' : Config} {u token : String} {a : Action}

/-- No operator changes a status and `AUTO_APPROVE_USERS` is off. -/
def Action.Manual : Action → Prop
  | .setStatus _ _ => False
  | .run _ read => read.autoApprove = false
  | _ => True

lemma Action.Manual.unattended (h : a.Manual) : a.Unattended := by
  cases a with
  | setStatus => exact h
  | arrive | run | drop => trivial

/-- The status of the account `u`. -/
def AppState.statusOf (s : AppState) (u : String) : Option AccountStatus :=
  (s.users.lookup u).map (·.status)

/-- The transition approves the account `u`. -/
def Approves (u : String) (t : Config × Action × Config) : Prop :=
  t.1.state.statusOf u = some .pending ∧ t.2.2.state.statusOf u = some .approved

instance (u : String) : DecidablePred (Approves u) := fun t => by
  unfold Approves
  infer_instance

lemma statusOf_insert (s : AppState) (u v : String) (account : UserAccount) :
    ({ s with users := s.users.insert v account } : AppState).statusOf u
      = if u = v then some account.status else s.statusOf u := by
  rw [AppState.statusOf, AppState.statusOf]
  split_ifs with h
  · rw [h, AList.lookup_insert]
    rfl
  · rw [AList.lookup_insert_ne h]

lemma PendingWith.statusOf (h : PendingWith s u token) : s.statusOf u = some .pending := by
  obtain ⟨a, ha, hp, -⟩ := h
  rw [AppState.statusOf, ha, Option.map_some, hp]

/-! ### Statuses -/

/-- Signups wait with a token. -/
def Tokened (c : Config) : Prop :=
  ∀ i request b p, c.tasks i = some ⟨request, .insertAccount b p⟩ → b.verificationToken.isSome

/-- What a step does to the status of `u`. -/
inductive StatusMove (c : Config) (a : Action) (c' : Config) (u : String) : Prop
  | same (h : c'.state.statusOf u = c.state.statusOf u)
  | created (h : c.state.statusOf u = none) (h' : c'.state.statusOf u = some .pending)
  | approved (i : ℕ) (read : Reading) (token : String) (ha : a = .run i read)
      (htask : c.tasks i = some ⟨.verify token, .approveUser u⟩)
      (h : c.state.statusOf u = some .pending) (h' : c'.state.statusOf u = some .approved)

lemma statusMove_step (ht : Tokened c) (hl : LinksOk c) (ha : a.Manual)
    (hs : step x c a = some c') (u : String) : StatusMove c a c' u := by
  obtain ⟨request, -, rfl⟩ | ⟨i, read, request, pc, o, rfl, htask, -, hseg, rfl⟩ | ⟨i, -, rfl⟩
    | ⟨v, status, account, rfl, -⟩ := step_cases hs
  · exact .same rfl
  · cases account_segment hseg with
    | inserted req b p hname hemail =>
        have hstatus := statusOf_insert c.state u b.username b
        split_ifs at hstatus with hu
        · obtain ⟨t, htok⟩ := Option.isSome_iff_exists.mp (ht i _ b p htask)
          refine .created ?_ (hstatus.trans ?_)
          · rw [AppState.statusOf, hu, hname]
            rfl
          · rw [(hl.waiting i _ b p htask).pending htok]
        · exact .same hstatus
    | approved token v account hv hpending =>
        have hstatus := statusOf_insert c.state u v account.verified
        split_ifs at hstatus with hu
        · refine .approved i read token rfl (hu ▸ htask) ?_ hstatus
          rw [AppState.statusOf, hu, hv, Option.map_some, hpending]
        · exact .same hstatus
    | other _ _ _ husers htokens hentries hnext hpc hcreated hverified happrove =>
        refine .same ?_
        show (o.state.users.lookup u).map _ = _
        rw [husers]
        rfl
    | hashed | linked | taken => exact .same rfl
  · exact .same rfl
  · exact absurd ha id

lemma tokened_step (h : Tokened c) (ha : a.Manual) (hs : step x c a = some c') : Tokened c' := by
  obtain ⟨request, -, rfl⟩ | ⟨i, read, request, pc, o, rfl, htask, -, hseg, rfl⟩ | ⟨i, -, rfl⟩
    | ⟨v, status, account, rfl, -⟩ := step_cases hs
  · intro j r b p hj
    simp only [Function.update_apply] at hj
    split_ifs at hj
    · cases hj
    · exact h j r b p hj
  · intro j r b p hj
    rcases tasks_after hj with ⟨-, hj⟩ | ⟨-, pc', hpc', heq⟩
    · exact h j r b p hj
    · cases heq
      cases account_segment hseg with
      | hashed req hash hname hemail =>
          obtain ⟨rfl, -⟩ := Pc.insertAccount.inj (Sum.inl.inj hpc')
          rw [newAccount, show read.autoApprove = false from ha]
          rfl
      | inserted req b' p' hname hemail =>
          simp only at hpc'
          split at hpc' <;> cases hpc'
      | linked req v t => cases hpc'
      | taken t v hv => cases hpc'
      | approved t v account hv hpending => cases hpc'
      | other _ _ _ husers htokens hentries hnext hpc hcreated hverified happrove =>
          exact absurd (hnext _ hpc') id
  · intro j r b p hj
    simp only [Function.update_apply] at hj
    split_ifs at hj
    exact h j r b p hj
  · exact absurd ha id

/-! ### Links that succeeded -/

/-- Request `i` is a verification with the token that was answered 200. -/
def Succeeded (log : List Entry) (i : ℕ) (token : String) : Prop :=
  .arrived i (.verify token) ∈ log ∧ ∃ body, .responded i ⟨200, body⟩ ∈ log

/-- A link that succeeded is the one generated for an account that is approved now, and no
other request succeeded with it. -/
structure Spent (c : Config) : Prop where
  numbered : ∀ i r, .responded i r ∈ c.log → i < c.next
  approved : ∀ i token, Succeeded c.log i token →
    ∃ u, GeneratedFor c.log u token ∧ c.state.statusOf u = some .approved
  once : ∀ i j token, Succeeded c.log i token → Succeeded c.log j token → i = j

lemma GeneratedFor.mono {log log' : List Entry} (h : GeneratedFor log u token)
    (hlog : log ⊆ log') : GeneratedFor log' u token := by
  obtain ⟨i, b, p, hmem, hrest⟩ := h
  exact ⟨i, b, p, hlog hmem, hrest⟩

/-- A step adds to the history. -/
lemma log_subset_step (hs : step x c a = some c') : c.log ⊆ c'.log := by
  obtain ⟨request, -, rfl⟩ | ⟨i, read, request, pc, o, -, -, -, -, rfl⟩ | ⟨i, -, rfl⟩
    | ⟨v, status, account, -, -, rfl⟩ := step_cases hs
  · exact List.subset_append_left _ _
  · exact List.subset_append_left _ _
  · exact List.Subset.refl _
  · exact List.Subset.refl _

/-- A verification that succeeds with a segment carried its token. -/
lemma succeeded_after {tok : String} (hok : AccountsOk x c) (hl : LinksOk c)
    (htask : c.tasks i = some ⟨request, pc⟩) (hmove : AccountMove x read i c.state request pc o)
    (h : Succeeded (c.after i request tok o).log j token) :
    Succeeded c.log j token ∨ j = i ∧ ∃ u, Carries c i u token
      ∧ (c.after i request tok o).state.statusOf u = some .approved := by
  obtain ⟨harr, body, hresp⟩ := h
  have harr' : .arrived j (.verify token) ∈ c.log :=
    (List.mem_append.mp harr).resolve_right (arrived_mem_history hmove)
  rcases List.mem_append.mp hresp with hresp | hresp
  · exact .inl ⟨harr', body, hresp⟩
  -- a success of this segment
  obtain ⟨rfl, hr⟩ := responded_mem_history hmove hresp
  obtain rfl : request = .verify token :=
    ((hok.arrivals j _ harr').2 _ (hok.tasks j _ htask).1)
  refine .inr ⟨rfl, ?_⟩
  cases hmove with
  | taken t v hv => cases hr
  | approved t v account hv hpending =>
      refine ⟨v, .inr htask, ?_⟩
      exact (statusOf_insert _ _ _ _).trans (if_pos rfl)
  | other _ _ _ husers htokens hentries hnext hpc hcreated hverified happrove =>
      obtain ⟨v, rfl, hv⟩ := hverified token _ rfl hr rfl
      obtain ⟨⟨account, hsome, -⟩, -⟩ := hl.carried j v token (.inr htask)
      rw [hv] at hsome
      cases hsome

/-- A status that is approved stays. -/
lemma StatusMove.approved_stays (h : StatusMove c a c' u)
    (hu : c.state.statusOf u = some .approved) : c'.state.statusOf u = some .approved := by
  cases h with
  | same h => rw [h, hu]
  | created h h' =>
      rw [h] at hu
      cases hu
  | approved i read token ha htask h h' => exact h'

lemma spent_step (h : Spent c) (hok : AccountsOk x c) (hl : LinksOk c) (ht : Tokened c)
    (ha : a.Manual) (hs : step x c a = some c') : Spent c' := by
  have hlog := log_subset_step hs
  have hstays : ∀ u, c.state.statusOf u = some .approved → c'.state.statusOf u = some .approved :=
    fun u => (statusMove_step ht hl ha hs u).approved_stays
  -- what succeeded before, and what may succeed now
  have hcases : ∀ j token, Succeeded c'.log j token → Succeeded c.log j token
      ∨ (∃ read, a = .run j read) ∧ ∃ u, Carries c j u token
        ∧ c'.state.statusOf u = some .approved := by
    intro j token hj
    obtain ⟨request, -, rfl⟩ | ⟨i, read, request, pc, o, rfl, htask, -, hseg, rfl⟩
      | ⟨i, -, rfl⟩ | ⟨v, status, account, rfl, -⟩ := step_cases hs
    · obtain ⟨harr, body, hresp⟩ := hj
      simp only [List.mem_append, List.mem_singleton, reduceCtorEq, or_false,
        Entry.arrived.injEq] at harr hresp
      rcases harr with harr | ⟨rfl, -⟩
      · exact .inl ⟨harr, body, hresp⟩
      -- a request that has just arrived has no answer
      · exact absurd (h.numbered _ _ hresp) (lt_irrefl _)
    · rcases succeeded_after hok hl htask (account_segment hseg) hj with hj | ⟨rfl, hj⟩
      · exact .inl hj
      · exact .inr ⟨⟨read, rfl⟩, hj⟩
    · exact .inl hj
    · exact absurd ha id
  refine ⟨?_, ?_, ?_⟩
  · intro j r hj
    obtain ⟨request, -, rfl⟩ | ⟨i, read, request, pc, o, -, htask, -, hseg, rfl⟩ | ⟨i, -, rfl⟩
      | ⟨v, status, account, rfl, -⟩ := step_cases hs
    · simp only [List.mem_append, List.mem_singleton, reduceCtorEq, or_false] at hj
      exact Nat.lt_succ_of_lt (h.numbered j r hj)
    · rcases List.mem_append.mp hj with hj | hj
      · exact h.numbered j r hj
      · obtain ⟨rfl, -⟩ := responded_mem_history (account_segment hseg) hj
        exact hok.task_lt htask
    · exact h.numbered j r hj
    · exact absurd ha id
  · intro j token hj
    rcases hcases j token hj with hj | ⟨-, u, hu, happroved⟩
    · obtain ⟨u, hgen, happroved⟩ := h.approved j token hj
      exact ⟨u, hgen.mono hlog, hstays u happroved⟩
    · exact ⟨u, (hl.origin u token (hl.carried j u token hu).1).mono hlog, happroved⟩
  · -- a token that is carried has not succeeded yet
    have hfirst : ∀ j k u token, Succeeded c.log j token → ¬ Carries c k u token := by
      intro j k u token hj hk
      obtain ⟨v, hgen, happroved⟩ := h.approved j token hj
      have hp := (hl.carried k u token hk).1
      rw [hl.unique v u token hgen (hl.origin u token hp), hp.statusOf] at happroved
      cases happroved
    intro j k token hj hk
    rcases hcases j token hj with hj | ⟨⟨read, hja⟩, u, hu, -⟩ <;>
      rcases hcases k token hk with hk | ⟨⟨read', hka⟩, v, hv, -⟩
    · exact h.once j k token hj hk
    · exact absurd hv (hfirst j k v token hj)
    · exact absurd hu (hfirst k j u token hk)
    · rw [hja] at hka
      cases hka
      rfl

/-! ### Logins -/

lemma loginRead_segment {k : ℕ} {attempt : LoginRequest} {account : UserAccount}
    (hseg : segment x read i s request pc = some o)
    (h : .loginRead k attempt account ∈ o.entries) :
    k = i ∧ request = .login attempt ∧ pc = .start
      ∧ s.users.lookup attempt.username = some account := by
  unfold segment at hseg
  split at hseg <;> cases hseg
  case h_6 req =>
    rw [loginStart] at h
    split at h
    · split_ifs at h <;> cases h
    · rename_i acc hacc
      split_ifs at h
      · split at h
        · cases h
        · cases h
        · obtain ⟨rfl, rfl, rfl⟩ := Entry.loginRead.inj (List.mem_singleton.mp h)
          exact ⟨rfl, rfl, rfl, hacc⟩
      · cases h
  -- the other segments read no account at login
  all_goals
    simp only [signupStart, insertAccount, insertToken, verifyStart, approveUser, openSession,
      findSession, checkUser, registerBody, deregisterBody, writeRecord, eraseRecord, listPeers,
      pruneRegistry, pruneSessions, respond] at h
    (repeat' split at h) <;> simp at h

/-- A login that read an account did so in a transition of the run. -/
lemma loginRead_mem_trace {as : List Action} {k : ℕ} {attempt : LoginRequest}
    {account : UserAccount} (hrun : exec (step x) c as = some c')
    (h : .loginRead k attempt account ∈ c'.log) :
    .loginRead k attempt account ∈ c.log ∨ ∃ t ∈ trace (step x) c as, ∃ read, t.2.1 = .run k read
      ∧ t.1.tasks k = some ⟨.login attempt, .start⟩
      ∧ t.1.state.users.lookup attempt.username = some account := by
  induction as generalizing c with
  | nil =>
      obtain rfl := Option.some.inj hrun
      exact .inl h
  | cons a as ih =>
      obtain ⟨d, hd, hrun⟩ := Option.bind_eq_some_iff.mp hrun
      rw [trace_cons hd]
      rcases ih hrun with h | ⟨t, ht, hread⟩
      · obtain ⟨request, -, rfl⟩ | ⟨i, read, request, pc, o, rfl, htask, -, hseg, rfl⟩ | ⟨i, -, rfl⟩
          | ⟨v, status, account', -, -, rfl⟩ := step_cases hd
        · exact .inl (by simpa using h)
        · rcases List.mem_append.mp h with h | h
          · exact .inl h
          · rcases mem_outcome_history.mp h with h | ⟨r, -, hr⟩
            · obtain ⟨rfl, rfl, rfl, haccount⟩ := loginRead_segment hseg h
              exact .inr ⟨_, List.mem_cons_self, read, rfl, htask, haccount⟩
            · cases hr
        · exact .inl h
        · exact .inl h
      · exact .inr ⟨t, List.mem_cons_of_mem _ ht, hread⟩

/-! ### Runs -/

/-- The invariants of a run without an operator and with `AUTO_APPROVE_USERS` off. -/
structure ManualOk (x : Externals) (c : Config) : Prop where
  accounts : AccountsOk x c
  links : LinksOk c
  tokened : Tokened c
  spent : Spent c

lemma manualOk_start (x : Externals) : ManualOk x start where
  accounts := accountsOk_start x
  links := linksOk_start
  tokened := fun _ _ _ _ h => by cases h
  spent :=
    { numbered := fun _ _ h => by cases h
      approved := fun _ _ ⟨h, _⟩ => by cases h
      once := fun _ _ _ ⟨h, _⟩ => by cases h }

lemma manualOk_step (ha : a.Manual) (h : ManualOk x c) (hs : step x c a = some c') :
    ManualOk x c' where
  accounts := accountsOk_step x c a c' h.accounts hs
  links := linksOk_step ha.unattended h.links hs
  tokened := tokened_step h.tokened ha hs
  spent := spent_step h.spent h.accounts h.links h.tokened ha hs

lemma manualOk_of_run {as : List Action} (hop : ∀ a ∈ as, a.Manual)
    (hrun : exec (step x) start as = some c) : ManualOk x c :=
  exec_invariant (fun _ a _ ha h hs => manualOk_step (hop a ha) h hs) (manualOk_start x) hrun

lemma log_subset_exec {as : List Action} (hrun : exec (step x) c as = some c') :
    c.log ⊆ c'.log := by
  refine exec_invariant (I := fun d => c.log ⊆ d.log) (fun d a d' _ h hs => ?_)
    (List.Subset.refl _) hrun
  exact List.Subset.trans h (log_subset_step hs)

/-- A run approves an account that is approved already never, and any other account that is
approved at its end exactly once, by its own link. -/
lemma approvals_of_run {as : List Action} (hop : ∀ a ∈ as, a.Manual) (h : ManualOk x c)
    (hrun : exec (step x) c as = some c') (u : String) :
    (c.state.statusOf u = some .approved → (trace (step x) c as).filter (Approves u ·) = [])
      ∧ (c.state.statusOf u ≠ some .approved → c'.state.statusOf u = some .approved →
        ∃ d i read d' token, (trace (step x) c as).filter (Approves u ·) = [(d, .run i read, d')]
          ∧ d.tasks i = some ⟨.verify token, .approveUser u⟩ ∧ GeneratedFor c'.log u token) := by
  induction as generalizing c with
  | nil =>
      obtain rfl := Option.some.inj hrun
      exact ⟨fun _ => rfl, fun hne hu => absurd hu hne⟩
  | cons a as ih =>
      obtain ⟨d, hd, hrun⟩ := Option.bind_eq_some_iff.mp hrun
      have ha : a.Manual := hop a List.mem_cons_self
      obtain ⟨hnone, hone⟩ := ih (fun b hb => hop b (List.mem_cons_of_mem _ hb))
        (manualOk_step ha h hd) hrun
      rw [trace_cons hd]
      -- a step that does not approve the account leaves the count to the rest of the run
      have hskip : ¬ Approves u (c, a, d) →
          ((c, a, d) :: trace (step x) d as).filter (Approves u ·)
            = (trace (step x) d as).filter (Approves u ·) := by
        intro hno
        exact List.filter_cons_of_neg (by simpa using hno)
      cases statusMove_step h.tokened h.links ha hd u with
      | same hsame =>
          have hno : ¬ Approves u (c, a, d) := by
            rintro ⟨hp, happroved⟩
            simp only [hsame, hp] at happroved
            cases happroved
          rw [hskip hno, ← hsame]
          exact ⟨hnone, hone⟩
      | created habsent hpending =>
          have hno : ¬ Approves u (c, a, d) := by
            rintro ⟨hp, -⟩
            simp only [habsent] at hp
            cases hp
          rw [hskip hno]
          refine ⟨fun hu => ?_, fun _ => hone (by simp [hpending])⟩
          rw [habsent] at hu
          cases hu
      | approved i read token hrunning htask hp happroved =>
          refine ⟨fun hu => ?_, fun _ _ => ⟨c, i, read, d, token, ?_, htask, ?_⟩⟩
          · rw [hp] at hu
            cases hu
          · rw [List.filter_cons_of_pos (by simpa using ⟨hp, happroved⟩), hnone happroved, hrunning]
          · have hgen := h.links.origin u token (h.links.carried i u token (.inr htask)).1
            exact (hgen.mono (log_subset_step hd)).mono (log_subset_exec hrun)

/-- **Only its own link approves an account, once.**  At the end of every run without an
operator and with `AUTO_APPROVE_USERS` off: exactly one step of the run approved an approved
account, and that step is the last one of a verification whose token a signup generated for
this account; at most one verification with a token was answered 200; verifications with a
token change no account but the one it was generated for; an approved account stays
approved; and every session was opened by a login that read an approved account. -/
theorem approved_by_own_link {x : Externals} {as : List Action} {c : Config}
    (hop : ∀ a ∈ as, a.Manual) (hrun : exec (step x) start as = some c) :
    (∀ u, c.state.statusOf u = some .approved → ∃ d i read d' token,
        (trace (step x) start as).filter (Approves u ·) = [(d, .run i read, d')]
          ∧ d.tasks i = some ⟨.verify token, .approveUser u⟩ ∧ GeneratedFor c.log u token)
      ∧ (∀ i j token, Succeeded c.log i token → Succeeded c.log j token → i = j)
      ∧ (∀ t ∈ trace (step x) start as, ∀ i read token pc, t.2.1 = .run i read →
        t.1.tasks i = some ⟨.verify token, pc⟩ → ∀ u,
        t.2.2.state.users.lookup u ≠ t.1.state.users.lookup u → GeneratedFor c.log u token)
      ∧ (∀ t ∈ trace (step x) start as, ∀ u, t.1.state.statusOf u = some .approved →
        t.2.2.state.statusOf u = some .approved)
      ∧ ∀ token session, c.state.sessions.lookup token = some session →
        ∃ t ∈ trace (step x) start as, ∃ i read attempt now, t.2.1 = .run i read
          ∧ t.1.tasks i = some ⟨.login attempt, .start⟩ ∧ attempt.username = session.username
          ∧ t.1.state.statusOf session.username = some .approved
          ∧ .issued i session.username token now ∈ c.log := by
  have hok := manualOk_of_run hop hrun
  have htrace : ∀ t ∈ trace (step x) start as, t.2.1 ∈ as ∧ ManualOk x t.1
      ∧ step x t.1 t.2.1 = some t.2.2 ∧ t.2.2.log ⊆ c.log := by
    intro t ht
    obtain ⟨done, rest, rfl, hdone, hs⟩ := exists_of_mem_trace ht
    refine ⟨by simp, manualOk_of_run (fun a ha => hop a (List.mem_append_left _ ha)) hdone, hs, ?_⟩
    rw [exec_append, hdone] at hrun
    exact log_subset_exec (by simpa [Runs.exec, hs] using hrun)
  refine ⟨fun u hu => ?_, hok.spent.once, ?_, ?_, ?_⟩
  · exact (approvals_of_run hop (manualOk_start x) hrun u).2 (fun h => by cases h) hu
  · intro t ht i read token pc ha htask u hne
    obtain ⟨hmem, hmanual, hs, hlog⟩ := htrace t ht
    have hgen : ∀ v, Carries t.1 i v token → GeneratedFor c.log v token := fun v hv =>
      ((hmanual.links.origin v token (hmanual.links.carried i v token hv).1).mono
        (log_subset_step hs)).mono hlog
    rw [ha] at hs
    obtain ⟨request, hb, -⟩ | ⟨j, read', request, pc', o, hb, htask', -, hseg, hafter⟩
      | ⟨j, hb, -⟩ | ⟨v, status, account, hb, -⟩ := step_cases hs
    · cases hb
    · cases hb
      rw [htask] at htask'
      cases htask'
      rw [hafter] at hne
      cases account_segment hseg with
      | taken _ v hv => exact absurd rfl hne
      | approved _ v account hv hpending =>
          by_cases huv : u = v
          · exact huv ▸ hgen v (.inr htask)
          · exact absurd (AList.lookup_insert_ne huv) hne
      | other _ _ _ husers htokens hentries hnext hpc hcreated hverified happrove =>
          exact absurd (by rw [show (t.1.after i _ _ o).state.users = _ from husers]) hne
    · cases hb
    · cases hb
  · intro t ht u hu
    obtain ⟨hmem, hmanual, hs, -⟩ := htrace t ht
    exact (statusMove_step hmanual.tokened hmanual.links (hop _ hmem) hs u).approved_stays hu
  · intro token session hsession
    obtain ⟨l, rfl, huser, htrail⟩ :=
      (inv_reachable (Reachable.init.exec hrun)).state.sessions token session hsession
    have hread : .loginRead l.loginId l.attempt l.account ∈ c.log :=
      htrail.subset (by simp [Login.trail, LoginRead.trail])
    obtain hempty | ⟨t, ht, read, ha, htask, haccount⟩ := loginRead_mem_trace hrun hread
    · cases hempty
    · refine ⟨t, ht, l.loginId, read, l.attempt, l.issuedAt, ha, htask, huser, ?_, ?_⟩
      · rw [AppState.statusOf, ← huser, haccount, Option.map_some, l.approved]
      · exact htrail.subset (by simp [Login.trail, huser])

/-- Alice signs up, verifies her address and logs in. -/
def aliceVerifies : List Action :=
  [.arrive (.signup ⟨"alice", "a@b", "pw"⟩), .run 0 { token := "link" }, .run 0 { token := "t1" },
    .run 0 { token := "t2" }, .arrive (.verify "link"), .run 1 { token := "t3" },
    .run 1 { token := "t4" }, .arrive (.login ⟨"alice", "pw"⟩), .run 2 { token := "secret" },
    .run 2 { token := "t5" }]

theorem alice_approved_once : ∃ c, exec (step plainExternals) start aliceVerifies = some c
    ∧ c.state.sessions.lookup "secret" = some ⟨"alice", 86400⟩
    ∧ ∃ d i read d' token,
        (trace (step plainExternals) start aliceVerifies).filter (Approves "alice" ·)
          = [(d, .run i read, d')]
        ∧ d.tasks i = some ⟨.verify token, .approveUser "alice"⟩
        ∧ GeneratedFor c.log "alice" token := by
  have hrun : ((exec (step plainExternals) start aliceVerifies).map fun c =>
      (c.state.sessions.lookup "secret", c.state.statusOf "alice"))
      = some (some ⟨"alice", 86400⟩, some .approved) := by decide
  obtain ⟨c, hc, heq⟩ := Option.map_eq_some_iff.mp hrun
  simp only [Prod.mk.injEq] at heq
  have hop : ∀ a ∈ aliceVerifies, a.Manual := by simp [aliceVerifies, Action.Manual]
  exact ⟨c, hc, heq.1, (approved_by_own_link hop hc).1 "alice" heq.2⟩

end Rendezvous
