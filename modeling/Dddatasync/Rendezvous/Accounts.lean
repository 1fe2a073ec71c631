import Dddatasync.Library.Text
import Dddatasync.Rendezvous.AccountMoves
import Dddatasync.Rendezvous.Ownership

/-!
The accounts of the server under any interleaving of the handlers.

* `AccountStore`: the accounts agree with the signups of the history; `AccountsOk` adds the
  requests in flight.
* `accountsOk_reachable`: they agree in every reachable configuration; `account_kept`: a run
  keeps every account up to its status and its verification token.
* `accounts_unique`: no duplicate accounts, at most one successful signup for each name and
  each address, and no account overwritten or removed.
-/

namespace Rendezvous

open Runs

variable {x : Externals} {read : Reading} {i : ℕ} {request : Request} {s : AppState}
  {pc : Pc} {o : Outcome}

/-! ### The invariant -/

/-- The account has the normalised names of the signup, none of them empty. -/
structure Signs (x : Externals) (req : SignupRequest) (account : UserAccount) : Prop where
  username : account.username = trim req.username
  email : account.email = x.toLowercase (trim req.email)
  username_ne : account.username ≠ ""
  email_ne : account.email ≠ ""

/-- The same account, up to its status and its verification token. -/
structure UserAccount.Same (a b : UserAccount) : Prop where
  username : a.username = b.username
  email : a.email = b.email
  passwordHash : a.passwordHash = b.passwordHash

lemma UserAccount.Same.refl (a : UserAccount) : a.Same a := ⟨rfl, rfl, rfl⟩

lemma UserAccount.Same.trans {a b d : UserAccount} (h : a.Same b) (h' : b.Same d) : a.Same d :=
  ⟨h.username.trans h'.username, h.email.trans h'.email, h.passwordHash.trans h'.passwordHash⟩

/-- The accounts agree with the signups of the history. -/
structure AccountStore (x : Externals) (users : AssocMap String UserAccount) (log : List Entry) :
    Prop where
  keyed : ∀ u a, users.lookup u = some a → a.username = u
  emails : ∀ u v a b, users.lookup u = some a → users.lookup v = some b → a.email = b.email →
    u = v
  origin : ∀ u a, users.lookup u = some a → ∃ i b p, .signedUp i b p ∈ log ∧ b.Same a
  kept : ∀ i b p, .signedUp i b p ∈ log → ∃ a, users.lookup b.username = some a ∧ b.Same a
  once : ∀ i j a b p q, .signedUp i a p ∈ log → .signedUp j b q ∈ log →
    a.username = b.username ∨ a.email = b.email → i = j
  signups : ∀ i a p, .signedUp i a p ∈ log →
    ∃ req, .arrived i (.signup req) ∈ log ∧ Signs x req a
  created : ∀ i r, .responded i r ∈ log → r.status = 201 → ∃ a p, .signedUp i a p ∈ log

/-- What a handler waiting for the accounts or the verification tokens of a signup owes to the
history. -/
def SignupTask (x : Externals) (log : List Entry) (i : ℕ) (request : Request) : Pc → Prop
  | .insertAccount a _ => ∃ req, request = .signup req ∧ Signs x req a
  | .insertToken _ _ => ∃ a p, .signedUp i a p ∈ log
  | _ => True

/-- The accounts, the requests in flight and the history agree. -/
structure AccountsOk (x : Externals) (c : Config) : Prop where
  store : AccountStore x c.state.users c.log
  tasks : ∀ i task, c.tasks i = some task →
    .arrived i task.request ∈ c.log ∧ SignupTask x c.log i task.request task.pc
  arrivals : ∀ i request, .arrived i request ∈ c.log →
    i < c.next ∧ ∀ request', .arrived i request' ∈ c.log → request' = request

variable {log log' : List Entry} {users users' : AssocMap String UserAccount} {c c' : Config}

/-- The accounts may change their status, the history grow by anything but signups. -/
lemma AccountStore.frame (h : AccountStore x users log) (hlog : log ⊆ log')
    (hsigned : ∀ i a p, .signedUp i a p ∈ log' → .signedUp i a p ∈ log)
    (hcreated : ∀ i r, .responded i r ∈ log' → r.status = 201 →
      .responded i r ∈ log ∨ ∃ a p, .signedUp i a p ∈ log)
    (hold : ∀ u a', users'.lookup u = some a' → ∃ a, users.lookup u = some a ∧ a.Same a')
    (hkept : ∀ u a, users.lookup u = some a → ∃ a', users'.lookup u = some a' ∧ a.Same a') :
    AccountStore x users' log' where
  keyed := by
    intro u a' hu
    obtain ⟨a, ha, hsame⟩ := hold u a' hu
    exact hsame.username.symm.trans (h.keyed u a ha)
  emails := by
    intro u v a' b' hu hv he
    obtain ⟨a, ha, hsame⟩ := hold u a' hu
    obtain ⟨b, hb, hsame'⟩ := hold v b' hv
    exact h.emails u v a b ha hb (by rw [hsame.email, he, hsame'.email])
  origin := by
    intro u a' hu
    obtain ⟨a, ha, hsame⟩ := hold u a' hu
    obtain ⟨i, b, p, hmem, hb⟩ := h.origin u a ha
    exact ⟨i, b, p, hlog hmem, hb.trans hsame⟩
  kept := by
    intro i b p hmem
    obtain ⟨a, ha, hsame⟩ := h.kept i b p (hsigned i b p hmem)
    obtain ⟨a', ha', hsame'⟩ := hkept _ a ha
    exact ⟨a', ha', hsame.trans hsame'⟩
  once := by
    intro i j a b p q hi hj
    exact h.once i j a b p q (hsigned i a p hi) (hsigned j b q hj)
  signups := by
    intro i a p hmem
    obtain ⟨req, harr, hs⟩ := h.signups i a p (hsigned i a p hmem)
    exact ⟨req, hlog harr, hs⟩
  created := by
    intro i r hmem h201
    have hsource : ∃ a p, .signedUp i a p ∈ log := by
      rcases hcreated i r hmem h201 with hmem | hsource
      · exact h.created i r hmem h201
      · exact hsource
    obtain ⟨a, p, hsign⟩ := hsource
    exact ⟨a, p, hlog hsign⟩

/-- The accounts after `insertAccount`. -/
lemma AccountStore.insert (h : AccountStore x users log) {account : UserAccount}
    {password : String} {req : SignupRequest} (hname : users.lookup account.username = none)
    (hemail : ∀ u a, users.lookup u = some a → a.email ≠ account.email)
    (harr : .arrived i (.signup req) ∈ log) (hs : Signs x req account) (hlog : log ⊆ log')
    (hnew : .signedUp i account password ∈ log')
    (hsigned : ∀ j a p, .signedUp j a p ∈ log' →
      .signedUp j a p ∈ log ∨ j = i ∧ a = account ∧ p = password)
    (hcreated : ∀ j r, .responded j r ∈ log' → .responded j r ∈ log ∨ j = i) :
    AccountStore x (users.insert account.username account) log' := by
  -- an older account has neither the name nor the address of the new one
  have hold : ∀ u a, (users.insert account.username account).lookup u = some a →
      u ≠ account.username ∧ users.lookup u = some a ∨ u = account.username ∧ a = account :=
    fun u a hu => (AssocMap.lookup_insert_eq_some.mp hu).symm
  have hclash : ∀ j a p, .signedUp j a p ∈ log →
      ¬ (a.username = account.username ∨ a.email = account.email) := by
    rintro j a p hmem (hn | he)
    · obtain ⟨b, hb, -⟩ := h.kept j a p hmem
      rw [hn, hname] at hb
      cases hb
    · obtain ⟨b, hb, hsame⟩ := h.kept j a p hmem
      exact hemail _ b hb (by rw [← hsame.email, he])
  refine ⟨?_, ?_, ?_, ?_, ?_, ?_, ?_⟩
  · intro u a hu
    rcases hold u a hu with ⟨-, hu⟩ | ⟨rfl, rfl⟩
    · exact h.keyed u a hu
    · rfl
  · intro u v a b hu hv he
    rcases hold u a hu with ⟨-, hu'⟩ | ⟨rfl, rfl⟩ <;> rcases hold v b hv with ⟨-, hv'⟩ | ⟨rfl, rfl⟩
    · exact h.emails u v a b hu' hv' he
    · exact absurd he (hemail u a hu')
    · exact absurd he.symm (hemail v b hv')
    · rfl
  · intro u a hu
    rcases hold u a hu with ⟨-, hu⟩ | ⟨rfl, rfl⟩
    · obtain ⟨j, b, p, hmem, hsame⟩ := h.origin u a hu
      exact ⟨j, b, p, hlog hmem, hsame⟩
    · exact ⟨i, a, password, hnew, .refl a⟩
  · intro j b p hmem
    rcases hsigned j b p hmem with hmem | ⟨-, rfl, -⟩
    · obtain ⟨a, ha, hsame⟩ := h.kept j b p hmem
      have hn : b.username ≠ account.username := fun hn => hclash j b p hmem (.inl hn)
      exact ⟨a, by rwa [AList.lookup_insert_ne hn], hsame⟩
    · exact ⟨b, AList.lookup_insert _, .refl b⟩
  · intro j k a b p q hj hk hab
    rcases hsigned j a p hj with hj | ⟨rfl, rfl, -⟩ <;>
      rcases hsigned k b q hk with hk | ⟨rfl, rfl, -⟩
    · exact h.once j k a b p q hj hk hab
    · exact absurd hab (hclash j a p hj)
    · exact absurd (hab.imp Eq.symm Eq.symm) (hclash k b q hk)
    · rfl
  · intro j a p hmem
    rcases hsigned j a p hmem with hmem | ⟨rfl, rfl, -⟩
    · obtain ⟨req', harr', hs'⟩ := h.signups j a p hmem
      exact ⟨req', hlog harr', hs'⟩
    · exact ⟨req, hlog harr, hs⟩
  · intro j r hmem h201
    rcases hcreated j r hmem with hmem | rfl
    · obtain ⟨a, p, hsign⟩ := h.created j r hmem h201
      exact ⟨a, p, hlog hsign⟩
    · exact ⟨account, password, hnew⟩

/-! ### Every step keeps it -/

lemma mem_outcome_history {e : Entry} :
    e ∈ o.history i ↔ e ∈ o.entries ∨ ∃ r, o.next = .inr r ∧ e = .responded i r := by
  rw [Outcome.history]
  cases o.next <;> simp

/-- Writing an account back with another status keeps every account. -/
lemma same_insert {u : String} {account : UserAccount}
    (hu : users.lookup u = some account) (account' : UserAccount) (hsame : account.Same account') :
    (∀ v a', (users.insert u account').lookup v = some a' →
        ∃ a, users.lookup v = some a ∧ a.Same a')
      ∧ ∀ v a, users.lookup v = some a →
        ∃ a', (users.insert u account').lookup v = some a' ∧ a.Same a' := by
  constructor
  · intro v a' hv
    obtain ⟨rfl, rfl⟩ | ⟨-, hv⟩ := AssocMap.lookup_insert_eq_some.mp hv
    · exact ⟨account, hu, hsame⟩
    · exact ⟨a', hv, .refl a'⟩
  · intro v a hv
    by_cases hn : v = u
    · rw [hn, hu] at hv
      obtain rfl := Option.some.inj hv
      exact ⟨account', by rw [hn, AList.lookup_insert], hsame⟩
    · exact ⟨a, by rwa [AList.lookup_insert_ne hn], .refl a⟩

/-- A segment keeps the accounts in agreement with the history. -/
lemma AccountStore.after (h : AccountStore x s.users log)
    (harr : .arrived i request ∈ log) (htask : SignupTask x log i request pc)
    (hmove : AccountMove x read i s request pc o) :
    AccountStore x o.state.users (log ++ o.history i) := by
  have hlog : log ⊆ log ++ o.history i := List.subset_append_left _ _
  have hmem : ∀ e, e ∈ log ++ o.history i ↔
      e ∈ log ∨ e ∈ o.entries ∨ ∃ r, o.next = .inr r ∧ e = .responded i r := by
    intro e
    rw [List.mem_append, mem_outcome_history]
  -- the segments that sign nobody up
  have hframe : (∀ e ∈ o.entries, e.Elsewhere) →
      (∀ r, o.next = .inr r → r.status = 201 → ∃ a p, .signedUp i a p ∈ log) →
      (∀ u a', o.state.users.lookup u = some a' → ∃ a, s.users.lookup u = some a ∧ a.Same a') →
      (∀ u a, s.users.lookup u = some a → ∃ a', o.state.users.lookup u = some a' ∧ a.Same a') →
      AccountStore x o.state.users (log ++ o.history i) := by
    intro hentries hcreated hold hkept
    refine h.frame hlog (fun j a p hj => ?_) (fun j r hj h201 => ?_) hold hkept
    · rcases (hmem _).mp hj with hj | hj | ⟨r, -, hr⟩
      · exact hj
      · exact absurd (hentries _ hj) id
      · cases hr
    · rcases (hmem _).mp hj with hj | hj | ⟨r', hr', hr⟩
      · exact .inl hj
      · exact absurd (hentries _ hj) id
      · cases hr
        exact .inr (hcreated r hr' h201)
  have hid : ∀ {users' : AssocMap String UserAccount}, users' = s.users →
      (∀ u a', users'.lookup u = some a' → ∃ a, s.users.lookup u = some a ∧ a.Same a')
      ∧ ∀ u a, s.users.lookup u = some a → ∃ a', users'.lookup u = some a' ∧ a.Same a' := by
    rintro _ rfl
    exact ⟨fun u a hu => ⟨a, hu, .refl a⟩, fun u a hu => ⟨a, hu, .refl a⟩⟩
  cases hmove with
  | hashed req hash hname hemail =>
      exact hframe (by simp) (by simp) (hid rfl).1 (hid rfl).2
  | inserted req account password hname hemail =>
      obtain ⟨req', hreq, hs⟩ := htask
      rw [hreq] at harr
      have hnew : .signedUp i account password ∈ log ++ _ := (hmem _).mpr (.inr (.inl (by simp)))
      refine h.insert hname hemail harr hs hlog hnew (fun j a p hj => ?_) fun j r hj => ?_
      · rcases (hmem _).mp hj with hj | hj | ⟨r, -, hr⟩
        · exact .inl hj
        · simp only [List.mem_singleton, Entry.signedUp.injEq] at hj
          exact .inr hj
        · cases hr
      · rcases (hmem _).mp hj with hj | hj | ⟨r', -, hr⟩
        · exact .inl hj
        · simp at hj
        · cases hr
          exact .inr rfl
  | linked req u token =>
      exact hframe (by simp [insertToken]) (fun _ _ _ => htask) (hid rfl).1 (hid rfl).2
  | taken token u hu =>
      exact hframe (by simp) (by simp) (hid rfl).1 (hid rfl).2
  | approved token u account hu hpending =>
      have hsame := same_insert hu account.verified ⟨rfl, rfl, rfl⟩
      exact hframe (by simp) (by simp) hsame.1 hsame.2
  | other _ _ _ husers htokens hentries hnext hpc hcreated hverified happrove =>
      exact hframe hentries (fun r hr h201 => absurd h201 (hcreated r hr)) (hid husers).1
        (hid husers).2

lemma SignupTask.mono (h : SignupTask x log i request pc) (hlog : log ⊆ log') :
    SignupTask x log' i request pc := by
  cases pc with
  | insertToken u token =>
      obtain ⟨a, p, hmem⟩ := h
      exact ⟨a, p, hlog hmem⟩
  | insertAccount | start | approveUser | openSession | checkUser | writeRecord | eraseRecord
  | pruneRegistry | pruneSessions => exact h

lemma signupTask_of_elsewhere (h : pc.Elsewhere) : SignupTask x log i request pc := by
  cases pc with
  | insertAccount | insertToken | approveUser => exact absurd h id
  | start | openSession | checkUser | writeRecord | eraseRecord | pruneRegistry
  | pruneSessions => trivial

lemma newAccount_signs {req : SignupRequest} (hash : String) (hname : trim req.username ≠ "")
    (hemail : x.toLowercase (trim req.email) ≠ "") :
    Signs x req (newAccount x read req hash) := by
  rw [newAccount]
  split
  · exact ⟨rfl, rfl, hname, hemail⟩
  · exact ⟨rfl, rfl, hname, hemail⟩

/-- What the next segment owes to the history. -/
lemma SignupTask.after (hmove : AccountMove x read i s request pc o) {pc' : Pc}
    (hnext : o.next = .inl pc') : SignupTask x (log ++ o.history i) i request pc' := by
  cases hmove with
  | hashed req hash hname hemail =>
      obtain rfl := Sum.inl.inj hnext
      exact ⟨req, rfl, newAccount_signs hash hname hemail⟩
  | inserted req account password hname hemail =>
      simp only at hnext
      split at hnext
      · obtain rfl := Sum.inl.inj hnext
        exact ⟨account, password, by simp [Outcome.history]⟩
      · cases hnext
  | linked req u token => cases hnext
  | taken token u hu =>
      obtain rfl := Sum.inl.inj hnext
      trivial
  | approved token u account hu hpending => cases hnext
  | other _ _ _ husers htokens hentries hnext' hpc hcreated hverified happrove =>
      exact signupTask_of_elsewhere (hnext' pc' hnext)

lemma arrived_mem_history {j : ℕ} {request' : Request}
    (hmove : AccountMove x read i s request pc o) :
    .arrived j request' ∉ o.history i := by
  rw [mem_outcome_history]
  rintro (hj | ⟨r, -, hr⟩)
  · cases hmove with
    | other _ _ _ husers htokens hentries hnext hpc hcreated hverified happrove =>
        exact hentries _ hj
    | hashed | inserted | linked | taken | approved => simp [insertToken] at hj
  · cases hr

/-- A segment answers its own request. -/
lemma responded_mem_history {j : ℕ} {r : Response}
    (hmove : AccountMove x read i s request pc o) (h : .responded j r ∈ o.history i) :
    j = i ∧ o.next = .inr r := by
  rcases mem_outcome_history.mp h with hj | ⟨r', hr, heq⟩
  · cases hmove with
    | other _ _ _ husers htokens hentries hnext hpc hcreated hverified happrove =>
        exact absurd (hentries _ hj) id
    | hashed | inserted | linked | taken | approved => simp [insertToken] at hj
  · cases heq
    exact ⟨rfl, hr⟩

/-- A segment keeps the accounts, the requests in flight and the history in agreement. -/
lemma AccountsOk.after (h : AccountsOk x c) (htask : c.tasks i = some ⟨request, pc⟩)
    (hmove : AccountMove x read i c.state request pc o) (token : String) :
    AccountsOk x (c.after i request token o) := by
  obtain ⟨harr, hsignup⟩ := h.tasks i _ htask
  have hlog : c.log ⊆ c.log ++ o.history i := List.subset_append_left _ _
  have harrived : ∀ j r, .arrived j r ∈ c.log ++ o.history i → .arrived j r ∈ c.log := by
    intro j r hj
    exact (List.mem_append.mp hj).resolve_right (arrived_mem_history hmove)
  refine ⟨h.store.after harr hsignup hmove, fun j task hj => ?_, fun j r hj => ?_⟩
  · rcases tasks_after hj with ⟨-, hj⟩ | ⟨rfl, pc', hpc', rfl⟩
    · obtain ⟨harr', hs'⟩ := h.tasks j task hj
      exact ⟨hlog harr', hs'.mono hlog⟩
    · exact ⟨hlog harr, .after hmove hpc'⟩
  · obtain ⟨hlt, hone⟩ := h.arrivals j r (harrived j r hj)
    exact ⟨hlt, fun r' hr' => hone r' (harrived j r' hr')⟩

lemma AccountsOk.arrive (h : AccountsOk x c) (request : Request) :
    AccountsOk x { c with
      tasks := Function.update c.tasks c.next (some ⟨request, .start⟩)
      next := c.next + 1
      log := c.log ++ [.arrived c.next request] } := by
  have hlog : c.log ⊆ c.log ++ [.arrived c.next request] := List.subset_append_left _ _
  have hmem : ∀ e, e ∈ c.log ++ [.arrived c.next request] ↔
      e ∈ c.log ∨ e = .arrived c.next request := by
    intro e
    rw [List.mem_append, List.mem_singleton]
  -- numbers are given out once
  have hnew : ∀ r, .arrived c.next r ∉ c.log := fun r hr =>
    absurd (h.arrivals c.next r hr).1 (lt_irrefl _)
  refine ⟨?_, fun j task hj => ?_, fun j r hj => ?_⟩
  · refine h.store.frame hlog (fun j a p hj => ?_) (fun j r hj _ => .inl ?_)
      (fun u a hu => ⟨a, hu, .refl a⟩) fun u a hu => ⟨a, hu, .refl a⟩
    · exact ((hmem _).mp hj).resolve_right (by simp)
    · exact ((hmem _).mp hj).resolve_right (by simp)
  · simp only [Function.update_apply] at hj
    split_ifs at hj with hn
    · obtain rfl := Option.some.inj hj
      exact ⟨(hmem _).mpr (.inr (by rw [hn])), trivial⟩
    · obtain ⟨harr, hs⟩ := h.tasks j task hj
      exact ⟨hlog harr, hs.mono hlog⟩
  · rcases (hmem _).mp hj with hj | hj
    · obtain ⟨hlt, hone⟩ := h.arrivals j r hj
      refine ⟨Nat.lt_succ_of_lt hlt, fun r' hr' => ?_⟩
      rcases (hmem _).mp hr' with hr' | hr'
      · exact hone r' hr'
      · cases hr'
        exact absurd hj (hnew r)
    · cases hj
      refine ⟨Nat.lt_succ_self _, fun r' hr' => ?_⟩
      rcases (hmem _).mp hr' with hr' | hr'
      · exact absurd hr' (hnew r')
      · cases hr'
        rfl

lemma accountsOk_start (x : Externals) : AccountsOk x start where
  store :=
    { keyed := fun _ _ h => by cases h
      emails := fun _ _ _ _ h => by cases h
      origin := fun _ _ h => by cases h
      kept := fun _ _ _ h => by cases h
      once := fun _ _ _ _ _ _ h => by cases h
      signups := fun _ _ _ h => by cases h
      created := fun _ _ h => by cases h }
  tasks := fun _ _ h => by cases h
  arrivals := fun _ _ h => by cases h

/-- Every step keeps the accounts, the requests in flight and the history in agreement. -/
lemma accountsOk_step (x : Externals) (c : Config) (a : Action) (c' : Config)
    (h : AccountsOk x c) (hs : step x c a = some c') : AccountsOk x c' := by
  obtain ⟨request, -, rfl⟩ | ⟨i, read, request, pc, o, -, htask, -, hseg, rfl⟩ | ⟨i, -, rfl⟩
    | ⟨u, status, account, -, hu, rfl⟩ := step_cases hs
  · exact h.arrive request
  · exact h.after htask (account_segment hseg) _
  · refine ⟨h.store, fun j task hj => h.tasks j task ?_, h.arrivals⟩
    simp only [Function.update_apply] at hj
    split_ifs at hj
    exact hj
  · have hsame := same_insert hu (account.withStatus status) ⟨rfl, rfl, rfl⟩
    exact ⟨h.store.frame (List.Subset.refl _) (fun _ _ _ hj => hj) (fun _ _ hj _ => .inl hj)
      hsame.1 hsame.2, h.tasks, h.arrivals⟩

/-- The agreement holds in every reachable configuration. -/
lemma accountsOk_reachable (hc : Reachable (step x) start c) : AccountsOk x c :=
  hc.invariant (accountsOk_start x) (accountsOk_step x)

/-- Requests are numbered in the order of their arrival. -/
lemma AccountsOk.task_lt (h : AccountsOk x c) {j : ℕ} {task : Task}
    (hj : c.tasks j = some task) : j < c.next :=
  (h.arrivals j task.request (h.tasks j task hj).1).1

/-- A step keeps every account, up to its status and its verification token. -/
lemma account_kept_step {a : Action} (hs : step x c a = some c') {u : String}
    {account : UserAccount} (hu : c.state.users.lookup u = some account) :
    ∃ account', c'.state.users.lookup u = some account' ∧ account.Same account' := by
  obtain ⟨request, -, rfl⟩ | ⟨i, read, request, pc, o, -, htask, -, hseg, rfl⟩ | ⟨i, -, rfl⟩
    | ⟨v, status, account', -, hv, rfl⟩ := step_cases hs
  · exact ⟨account, hu, .refl _⟩
  · show ∃ account', o.state.users.lookup u = some account' ∧ account.Same account'
    cases account_segment hseg with
    | inserted req new password hname hemail =>
        have hn : u ≠ new.username := by
          rintro rfl
          rw [hname] at hu
          cases hu
        exact ⟨account, by rwa [AList.lookup_insert_ne hn], .refl _⟩
    | approved token v account' hv hpending =>
        exact (same_insert hv account'.verified ⟨rfl, rfl, rfl⟩).2 u account hu
    | other _ _ _ husers htokens hentries hnext hpc hcreated hverified happrove =>
        exact ⟨account, husers ▸ hu, .refl _⟩
    | hashed | linked | taken => exact ⟨account, hu, .refl _⟩
  · exact ⟨account, hu, .refl _⟩
  · exact (same_insert hv (account'.withStatus status) ⟨rfl, rfl, rfl⟩).2 u account hu

/-- So does a run. -/
lemma account_kept {as : List Action} (hrun : exec (step x) c as = some c') {u : String}
    {account : UserAccount} (hu : c.state.users.lookup u = some account) :
    ∃ account', c'.state.users.lookup u = some account' ∧ account.Same account' := by
  induction as generalizing c account with
  | nil =>
      obtain rfl := Option.some.inj hrun
      exact ⟨account, hu, .refl _⟩
  | cons a as ih =>
      obtain ⟨d, hd, hrun⟩ := Option.bind_eq_some_iff.mp hrun
      obtain ⟨account', hu', hsame⟩ := account_kept_step hd hu
      obtain ⟨account'', hu'', hsame'⟩ := ih hrun hu'
      exact ⟨account'', hu'', hsame.trans hsame'⟩

/-! ### No duplicates -/

lemma trim_eq (s : String) : (trim s).toList = Text.strip isWhitespace s.toList := by
  rw [trim, String.toList_ofList]
  rfl

/-- Trimming twice is trimming once. -/
lemma trim_trim (s : String) : trim (trim s) = trim s := by
  have h : trim (trim s) = String.ofList (trim (trim s)).toList := (String.ofList_toList).symm
  rw [h, trim_eq, trim_eq, Text.strip_strip, ← trim_eq, String.ofList_toList]

/-- A trimmed text in lowercase is trimmed. -/
lemma trim_toLowercase (t : Text.CaseTable isWhitespace) (s : String) :
    trim (t.toLowercase (trim s)) = t.toLowercase (trim s) := by
  have hstrip : Text.strip isWhitespace (trim s).toList = (trim s).toList := by
    rw [trim_eq, Text.strip_strip]
  have h := Text.CaseTable.strip_toLowercase (t := t) hstrip
  rw [← trim_eq] at h
  exact String.toList_injective h

/-- **No duplicate accounts, and none overwritten.**  In every reachable configuration each
account is stored under its own name; names and addresses are non-empty and trimmed, and
addresses are lowercase; no two accounts have one address.  Of all signups for a normalised
name, and of all signups for a normalised address, at most one was answered 201.  Whatever
happens later, an account keeps its name, its address and its password hash. -/
theorem accounts_unique {x : Externals} {t : Text.CaseTable isWhitespace}
    (hx : x.toLowercase = t.toLowercase) {c : Config} (hc : Reachable (step x) start c) :
    (∀ u a, c.state.users.lookup u = some a → a.username = u
        ∧ a.username ≠ "" ∧ trim a.username = a.username
        ∧ a.email ≠ "" ∧ trim a.email = a.email ∧ x.toLowercase a.email = a.email)
      ∧ (∀ u v a b, c.state.users.lookup u = some a → c.state.users.lookup v = some b →
        a.email = b.email → u = v)
      ∧ (∀ i j req req' body body',
        .arrived i (.signup req) ∈ c.log → .responded i ⟨201, body⟩ ∈ c.log →
        .arrived j (.signup req') ∈ c.log → .responded j ⟨201, body'⟩ ∈ c.log →
        trim req.username = trim req'.username
          ∨ x.toLowercase (trim req.email) = x.toLowercase (trim req'.email) → i = j)
      ∧ ∀ as c', exec (step x) c as = some c' → ∀ u a, c.state.users.lookup u = some a →
        ∃ a', c'.state.users.lookup u = some a' ∧ a'.username = a.username
          ∧ a'.email = a.email ∧ a'.passwordHash = a.passwordHash := by
  have h := accountsOk_reachable hc
  refine ⟨fun u a hu => ?_, h.store.emails, fun i j req req' body body' hi hri hj hrj hsame => ?_,
    fun as c' hrun u a hu => ?_⟩
  · obtain ⟨i, b, p, hmem, hb⟩ := h.store.origin u a hu
    obtain ⟨req, -, hs⟩ := h.store.signups i b p hmem
    refine ⟨h.store.keyed u a hu, ?_, ?_, ?_, ?_, ?_⟩
    · exact hb.username ▸ hs.username_ne
    · rw [← hb.username, hs.username, trim_trim]
    · exact hb.email ▸ hs.email_ne
    · rw [← hb.email, hs.email, hx, trim_toLowercase]
    · rw [← hb.email, hs.email, hx, Text.CaseTable.toLowercase_toLowercase]
  · -- a 201 goes back to a signup with the normalised names of its request
    have hsource : ∀ {k req body}, .arrived k (.signup req) ∈ c.log →
        .responded k ⟨201, body⟩ ∈ c.log → ∃ a p, .signedUp k a p ∈ c.log ∧ Signs x req a := by
      intro k req body harr hresp
      obtain ⟨a, p, hmem⟩ := h.store.created k _ hresp rfl
      obtain ⟨req', harr', hs⟩ := h.store.signups k a p hmem
      obtain rfl := Request.signup.inj ((h.arrivals k _ harr).2 _ harr')
      exact ⟨a, p, hmem, hs⟩
    obtain ⟨a, p, ha, hsa⟩ := hsource hi hri
    obtain ⟨b, q, hb, hsb⟩ := hsource hj hrj
    refine h.store.once i j a b p q ha hb (hsame.imp (fun hn => ?_) fun he => ?_)
    · rw [hsa.username, hsb.username, hn]
    · rw [hsa.email, hsb.email, he]
  · obtain ⟨a', ha', hsame⟩ := account_kept hrun hu
    exact ⟨a', ha', hsame.username.symm, hsame.email.symm, hsame.passwordHash.symm⟩

/-- The capital letters of ASCII and the capital sigma, with their lowercase. -/
def capitals : List (Char × Char) :=
  "ABCDEFGHIJKLMNOPQRSTUVWXYZΣ".toList.zip "abcdefghijklmnopqrstuvwxyzσ".toList

/-- The lowercase of one character, for runs on fixed inputs. -/
def lowerCapital (c : Char) : List Char := [(capitals.lookup c).getD c]

lemma mem_lowerCapital {c d : Char} (h : d ∈ lowerCapital c) :
    (c, d) ∈ capitals ∨ capitals.lookup c = none ∧ d = c := by
  obtain rfl := List.mem_singleton.mp h
  cases hc : capitals.lookup c with
  | none => exact .inr ⟨rfl, rfl⟩
  | some e =>
      obtain ⟨l₁, l₂, hl, -⟩ := List.lookup_eq_some_iff.mp hc
      exact .inl (by simp [hl])

/-- The characters of ASCII and the Greek sigma. -/
def asciiTable : Text.CaseTable isWhitespace where
  lower := lowerCapital
  cased := Char.isAlpha
  caseIgnorable := fun _ => false
  lower_ne_nil := fun c => List.cons_ne_nil _ _
  lower_lower := by
    intro c d hd
    rcases mem_lowerCapital hd with hd | ⟨hc, rfl⟩
    · have hall : ∀ p ∈ capitals, lowerCapital p.2 = [p.2] ∧ p.2 ≠ 'Σ' := by decide
      exact hall _ hd
    · refine ⟨by rw [lowerCapital, hc]; rfl, ?_⟩
      rintro rfl
      exact absurd hc (by decide)
  lower_blank := by
    intro c hc d hd
    rcases mem_lowerCapital hd with hd | ⟨-, rfl⟩
    · have hall : ∀ p ∈ capitals, isWhitespace p.2 = false := by decide
      exact hall _ hd
    · exact hc
  lower_sigma := by decide
  blank_sigma := by decide

/-- Two signups for one address, both past their hash before either inserts an account. -/
def sameAddress : List Action :=
  [.arrive (.signup ⟨" bob", "A@B ", "pw"⟩), .arrive (.signup ⟨"eve", "a@b", "pw"⟩),
    .run 0 { token := "t0", autoApprove := true }, .run 1 { token := "t1", autoApprove := true },
    .run 1 { token := "t2", autoApprove := true }, .run 0 { token := "t3", autoApprove := true }]

/-- The server over ASCII. -/
def asciiExternals : Externals := { plainExternals with toLowercase := asciiTable.toLowercase }

theorem eve_has_the_address : ∃ c, exec (step asciiExternals) start sameAddress = some c
    ∧ c.state.users.lookup "eve" = some ⟨"eve", "a@b", "pw", .approved, none⟩
    ∧ ∀ u a, c.state.users.lookup u = some a → a.email = "a@b" → u = "eve" := by
  have hrun : ((exec (step asciiExternals) start sameAddress).map fun c =>
      c.state.users.lookup "eve") = some (some ⟨"eve", "a@b", "pw", .approved, none⟩) := by decide
  obtain ⟨c, hc, heve⟩ := Option.map_eq_some_iff.mp hrun
  refine ⟨c, hc, heve, fun u a hu he => ?_⟩
  have hall := accounts_unique (x := asciiExternals) (t := asciiTable) rfl (Reachable.init.exec hc)
  exact hall.2.1 u "eve" a _ hu heve he

end Rendezvous
