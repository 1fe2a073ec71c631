import Dddatasync.Rendezvous.Accounts

/-!
The way of a verification token: generated by a signup, stored, taken out by the handler of
the link, spent on the account.

* `PendingWith`, `Carries`: the account that waits for a token; the handlers that have it
  between the two stores.
* `LinksOk`, `linksOk_of_run`: without an operator, a token is in one place at a time.
-/

namespace Rendezvous

open Runs

variable {x : Externals} {read : Reading} {i j : ℕ} {request : Request} {s : AppState}
  {pc : Pc} {o : Outcome} {c c' : Config} {u token : String}

/-- No operator changes the status of an account. -/
def Action.Unattended : Action → Prop
  | .setStatus _ _ => False
  | _ => True

/-- The account `u` is pending with this verification token. -/
def PendingWith (s : AppState) (u token : String) : Prop :=
  ∃ a, s.users.lookup u = some a ∧ a.status = .pending ∧ a.verificationToken = some token

/-- A handler between the two stores that has the token of `u`: a signup that has not stored
it yet, or a verification that has taken it out. -/
def Carries (c : Config) (i : ℕ) (u token : String) : Prop :=
  (∃ request, c.tasks i = some ⟨request, .insertToken u token⟩)
    ∨ c.tasks i = some ⟨.verify token, .approveUser u⟩

/-- A signup generated the token for `u`. -/
def GeneratedFor (log : List Entry) (u token : String) : Prop :=
  ∃ i b p, .signedUp i b p ∈ log ∧ b.username = u ∧ b.verificationToken = some token

/-- The signup that waits as request `i` has the token. -/
def SigningUp (c : Config) (i : ℕ) (token : String) : Prop :=
  ∃ request b p, c.tasks i = some ⟨request, .insertAccount b p⟩
    ∧ b.verificationToken = some token

/-- A pending account has a verification token, an approved one none. -/
def UserAccount.Linked (a : UserAccount) : Prop :=
  a.status = .pending ∧ a.verificationToken.isSome
    ∨ a.status = .approved ∧ a.verificationToken = none

/-- Every verification token is in one place at a time. -/
structure LinksOk (c : Config) : Prop where
  linked : ∀ u a, c.state.users.lookup u = some a → a.Linked
  origin : ∀ u token, PendingWith c.state u token → GeneratedFor c.log u token
  generated : ∀ u token, GeneratedFor c.log u token → token ∈ c.generated
  unique : ∀ u v token, GeneratedFor c.log u token → GeneratedFor c.log v token → u = v
  signingUp : ∀ i token, SigningUp c i token →
    token ∈ c.generated ∧ ∀ u, ¬ GeneratedFor c.log u token
  signingUpOnce : ∀ i j token, SigningUp c i token → SigningUp c j token → i = j
  waiting : ∀ i request b p, c.tasks i = some ⟨request, .insertAccount b p⟩ → b.Linked
  stored : ∀ u token, c.state.verifyTokens.lookup token = some u → PendingWith c.state u token
  carried : ∀ i u token, Carries c i u token →
    PendingWith c.state u token ∧ c.state.verifyTokens.lookup token = none
  carriedOnce : ∀ i j u token token', Carries c i u token → Carries c j u token' → i = j
  typed : ∀ i request u, c.tasks i = some ⟨request, .approveUser u⟩ →
    ∃ token, request = .verify token

lemma linksOk_start : LinksOk start where
  linked := fun _ _ h => by cases h
  origin := fun _ _ ⟨_, h, _⟩ => by cases h
  generated := fun _ _ ⟨_, _, _, h, _⟩ => by cases h
  unique := fun _ _ _ ⟨_, _, _, h, _⟩ => by cases h
  signingUp := fun _ _ ⟨_, _, _, h, _⟩ => by cases h
  signingUpOnce := fun _ _ _ ⟨_, _, _, h, _⟩ => by cases h
  waiting := fun _ _ _ _ h => by cases h
  stored := fun _ _ h => by cases h
  carried := by
    rintro i u token (⟨_, h⟩ | h) <;> cases h
  carriedOnce := by
    rintro i j u token token' (⟨_, h⟩ | h) <;> cases h
  typed := fun _ _ _ h => by cases h

/-- An account is pending with one token. -/
lemma PendingWith.token_eq {token' : String} (h : PendingWith s u token)
    (h' : PendingWith s u token') : token = token' := by
  obtain ⟨a, ha, -, ht⟩ := h
  obtain ⟨b, hb, -, ht'⟩ := h'
  rw [ha] at hb
  obtain rfl := Option.some.inj hb
  exact Option.some.inj (ht.symm.trans ht')

/-- A token is pending for one account. -/
lemma LinksOk.user_eq (h : LinksOk c) {v : String} (hu : PendingWith c.state u token)
    (hv : PendingWith c.state v token) : u = v :=
  h.unique u v token (h.origin u token hu) (h.origin v token hv)

/-! ### Steps -/

lemma carries_after {v t tok : String} (h : Carries (c.after i request tok o) j v t) :
    j ≠ i ∧ Carries c j v t ∨ j = i ∧ (o.next = .inl (.insertToken v t)
      ∨ o.next = .inl (.approveUser v) ∧ request = .verify t) := by
  rcases h with ⟨r, h⟩ | h
  · rcases tasks_after h with ⟨hne, h⟩ | ⟨rfl, pc', hpc', heq⟩
    · exact .inl ⟨hne, .inl ⟨r, h⟩⟩
    · cases heq
      exact .inr ⟨rfl, .inl hpc'⟩
  · rcases tasks_after h with ⟨hne, h⟩ | ⟨rfl, pc', hpc', heq⟩
    · exact .inl ⟨hne, .inr h⟩
    · cases heq
      exact .inr ⟨rfl, .inr ⟨hpc', rfl⟩⟩

lemma signingUp_after {t tok : String} (h : SigningUp (c.after i request tok o) j t) :
    j ≠ i ∧ SigningUp c j t
      ∨ j = i ∧ ∃ b p, o.next = .inl (.insertAccount b p) ∧ b.verificationToken = some t := by
  obtain ⟨r, b, p, h, ht⟩ := h
  rcases tasks_after h with ⟨hne, h⟩ | ⟨rfl, pc', hpc', heq⟩
  · exact .inl ⟨hne, r, b, p, h, ht⟩
  · cases heq
    exact .inr ⟨rfl, b, p, hpc', ht⟩

lemma signedUp_mem_history {b : UserAccount} {p : String} :
    .signedUp j b p ∈ o.history i ↔ .signedUp j b p ∈ o.entries := by
  rw [mem_outcome_history]
  constructor
  · rintro (h | ⟨r, -, hr⟩)
    · exact h
    · cases hr
  · exact .inl

/-- A segment that signs nobody up generates no token for an account. -/
lemma generatedFor_after {tok v t : String} (hentries : ∀ j b p, .signedUp j b p ∉ o.entries) :
    GeneratedFor (c.after i request tok o).log v t ↔ GeneratedFor c.log v t := by
  have hlog : ∀ j b p, .signedUp j b p ∈ (c.after i request tok o).log ↔
      .signedUp j b p ∈ c.log := by
    intro j b p
    show _ ∈ c.log ++ o.history i ↔ _
    rw [List.mem_append, signedUp_mem_history]
    exact ⟨fun h => h.resolve_right (hentries j b p), .inl⟩
  simp only [GeneratedFor, hlog]

lemma newAccount_linked (req : SignupRequest) (hash : String) :
    (newAccount x read req hash).Linked := by
  rw [newAccount]
  split
  · exact .inr ⟨rfl, rfl⟩
  · exact .inl ⟨rfl, rfl⟩

lemma newAccount_token {req : SignupRequest} {hash t : String}
    (h : (newAccount x read req hash).verificationToken = some t) : t = read.token := by
  rw [newAccount] at h
  split at h
  · cases h
  · exact (Option.some.inj h).symm

/-- An account with a token is pending. -/
lemma UserAccount.Linked.pending {a : UserAccount} (h : a.Linked)
    (ht : a.verificationToken = some token) : a.status = .pending := by
  rcases h with ⟨hp, -⟩ | ⟨-, hn⟩
  · exact hp
  · rw [hn] at ht
    cases ht

/-- Nobody is pending under a name that is free. -/
lemma PendingWith.ne_of_none {v name : String} (h : PendingWith s v token)
    (hname : s.users.lookup name = none) : v ≠ name := by
  rintro rfl
  obtain ⟨a, ha, -⟩ := h
  rw [hname] at ha
  cases ha

/-- A new account waits for its own token. -/
lemma pendingWith_insert {s' : AppState} {b : UserAccount} {v t : String}
    (hname : s.users.lookup b.username = none) (hb : b.Linked)
    (husers : s'.users = s.users.insert b.username b) :
    PendingWith s' v t ↔ PendingWith s v t ∨ v = b.username ∧ b.verificationToken = some t := by
  rw [PendingWith, husers]
  constructor
  · rintro ⟨a, ha, hp, ht⟩
    obtain ⟨hv, rfl⟩ | ⟨-, ha⟩ := AssocMap.lookup_insert_eq_some.mp ha
    · exact .inr ⟨hv, ht⟩
    · exact .inl ⟨a, ha, hp, ht⟩
  · rintro (hp | ⟨hv, ht⟩)
    · obtain ⟨a, ha, hpending⟩ := hp
      have hne : v ≠ b.username := PendingWith.ne_of_none ⟨a, ha, hpending⟩ hname
      exact ⟨a, AssocMap.lookup_insert_eq_some.mpr (.inr ⟨hne, ha⟩), hpending⟩
    · exact ⟨b, AssocMap.lookup_insert_eq_some.mpr (.inl ⟨hv, rfl⟩), hb.pending ht, ht⟩

/-- A segment that signs somebody up generates the token of the new account. -/
lemma generatedFor_signedUp {b : UserAccount} {p tok v t : String}
    (hentries : o.entries = [.signedUp i b p]) :
    GeneratedFor (c.after i request tok o).log v t ↔
      GeneratedFor c.log v t ∨ v = b.username ∧ b.verificationToken = some t := by
  have hmem : ∀ j b' p', .signedUp j b' p' ∈ (c.after i request tok o).log ↔
      .signedUp j b' p' ∈ c.log ∨ j = i ∧ b' = b ∧ p' = p := by
    intro j b' p'
    show _ ∈ c.log ++ o.history i ↔ _
    rw [List.mem_append, signedUp_mem_history, hentries, List.mem_singleton, Entry.signedUp.injEq]
  constructor
  · rintro ⟨j, b', p', hj, rfl, ht⟩
    rcases (hmem j b' p').mp hj with hj | ⟨rfl, rfl, rfl⟩
    · exact .inl ⟨j, b', p', hj, rfl, ht⟩
    · exact .inr ⟨rfl, ht⟩
  · rintro (⟨j, b', p', hj, hn, ht⟩ | ⟨rfl, ht⟩)
    · exact ⟨j, b', p', (hmem j b' p').mpr (.inl hj), hn, ht⟩
    · exact ⟨i, b, p, (hmem i b p).mpr (.inr ⟨rfl, rfl, rfl⟩), rfl, ht⟩

/-- The stores and the waiting handlers stay as they are, apart from handlers that wait
elsewhere. -/
lemma LinksOk.frame (h : LinksOk c) (husers : c'.state.users = c.state.users)
    (htokens : c'.state.verifyTokens = c.state.verifyTokens)
    (hlog : ∀ v t, GeneratedFor c'.log v t ↔ GeneratedFor c.log v t)
    (hgen : c.generated ⊆ c'.generated)
    (htasks : ∀ j task, c'.tasks j = some task → c.tasks j = some task ∨ task.pc.Elsewhere) :
    LinksOk c' := by
  have hpending : ∀ v t, PendingWith c'.state v t ↔ PendingWith c.state v t := by
    intro v t
    rw [PendingWith, PendingWith, husers]
  have htask : ∀ j r pc, ¬ pc.Elsewhere → c'.tasks j = some ⟨r, pc⟩ →
      c.tasks j = some ⟨r, pc⟩ :=
    fun j r pc hpc hj => (htasks j _ hj).resolve_right hpc
  have hcarries : ∀ j v t, Carries c' j v t → Carries c j v t := by
    rintro j v t (⟨r, hj⟩ | hj)
    · exact .inl ⟨r, htask j _ _ id hj⟩
    · exact .inr (htask j _ _ id hj)
  have hsigning : ∀ j t, SigningUp c' j t → SigningUp c j t := by
    rintro j t ⟨r, b, p, hj, ht⟩
    exact ⟨r, b, p, htask j _ _ id hj, ht⟩
  refine ⟨?_, ?_, ?_, ?_, ?_, ?_, ?_, ?_, ?_, ?_, ?_⟩
  · rw [husers]
    exact h.linked
  · intro v t hv
    exact (hlog v t).mpr (h.origin v t ((hpending v t).mp hv))
  · intro v t hv
    exact hgen (h.generated v t ((hlog v t).mp hv))
  · intro v w t hv hw
    exact h.unique v w t ((hlog v t).mp hv) ((hlog w t).mp hw)
  · intro j t hj
    obtain ⟨hmem, hno⟩ := h.signingUp j t (hsigning j t hj)
    exact ⟨hgen hmem, fun v hv => hno v ((hlog v t).mp hv)⟩
  · intro j k t hj hk
    exact h.signingUpOnce j k t (hsigning j t hj) (hsigning k t hk)
  · intro j r b p hj
    exact h.waiting j r b p (htask j _ _ id hj)
  · intro v t hv
    rw [htokens] at hv
    exact (hpending v t).mpr (h.stored v t hv)
  · intro j v t hj
    rw [hpending, htokens]
    exact h.carried j v t (hcarries j v t hj)
  · intro j k v t t' hj hk
    exact h.carriedOnce j k v t t' (hcarries j v t hj) (hcarries k v t' hk)
  · intro j r v hj
    exact h.typed j r v (htask j _ _ id hj)

/-- `signupStart`: the token in the new account is fresh. -/
lemma LinksOk.hashed (h : LinksOk c) (hfresh : read.token ∉ c.generated)
    (req : SignupRequest) (hash password : String) :
    LinksOk (c.after i request read.token
      ⟨c.state, .inl (.insertAccount (newAccount x read req hash) password), []⟩) := by
  have hlog : ∀ v t, GeneratedFor (c.after i request read.token ⟨c.state,
      .inl (.insertAccount (newAccount x read req hash) password), []⟩).log v t
        ↔ GeneratedFor c.log v t := fun v t => generatedFor_after (by simp)
  have hcarries : ∀ j v t, Carries (c.after i request read.token ⟨c.state,
      .inl (.insertAccount (newAccount x read req hash) password), []⟩) j v t →
        Carries c j v t := by
    intro j v t hj
    rcases carries_after hj with ⟨-, hj⟩ | ⟨-, hn | ⟨hn, -⟩⟩
    · exact hj
    · cases hn
    · cases hn
  have hsigning : ∀ j t, SigningUp (c.after i request read.token ⟨c.state,
      .inl (.insertAccount (newAccount x read req hash) password), []⟩) j t →
        SigningUp c j t ∨ j = i ∧ t = read.token := by
    intro j t hj
    rcases signingUp_after hj with ⟨-, hj⟩ | ⟨hji, b, p, hn, ht⟩
    · exact .inl hj
    · cases hn
      exact .inr ⟨hji, newAccount_token ht⟩
  refine ⟨h.linked, ?_, ?_, ?_, ?_, ?_, ?_, h.stored, ?_, ?_, ?_⟩
  · intro v t hv
    exact (hlog v t).mpr (h.origin v t hv)
  · intro v t hv
    exact List.mem_cons_of_mem _ (h.generated v t ((hlog v t).mp hv))
  · intro v w t hv hw
    exact h.unique v w t ((hlog v t).mp hv) ((hlog w t).mp hw)
  · intro j t hj
    rcases hsigning j t hj with hj | ⟨-, rfl⟩
    · obtain ⟨hmem, hno⟩ := h.signingUp j t hj
      exact ⟨List.mem_cons_of_mem _ hmem, fun v hv => hno v ((hlog v t).mp hv)⟩
    · exact ⟨List.mem_cons_self, fun v hv => hfresh (h.generated v _ ((hlog v _).mp hv))⟩
  · intro j k t hj hk
    rcases hsigning j t hj with hj' | ⟨rfl, ht⟩ <;> rcases hsigning k t hk with hk' | ⟨rfl, ht'⟩
    · exact h.signingUpOnce j k t hj' hk'
    · exact absurd (ht' ▸ (h.signingUp j t hj').1) hfresh
    · exact absurd (ht ▸ (h.signingUp k t hk').1) hfresh
    · rfl
  · intro j r b p hj
    rcases tasks_after hj with ⟨-, hj⟩ | ⟨-, pc', hpc', heq⟩
    · exact h.waiting j r b p hj
    · cases hpc'
      cases heq
      exact newAccount_linked req hash
  · intro j v t hj
    exact h.carried j v t (hcarries j v t hj)
  · intro j k v t t' hj hk
    exact h.carriedOnce j k v t t' (hcarries j v t hj) (hcarries k v t' hk)
  · intro j r v hj
    rcases tasks_after hj with ⟨-, hj⟩ | ⟨-, pc', hpc', heq⟩
    · exact h.typed j r v hj
    · cases hpc'
      cases heq

/-- `insertAccount`: the token goes from the waiting signup to the account. -/
lemma LinksOk.inserted (h : LinksOk c) {b : UserAccount} {p : String}
    (htask : c.tasks i = some ⟨request, .insertAccount b p⟩)
    (hname : c.state.users.lookup b.username = none) {o : Outcome}
    (husers : o.state.users = c.state.users.insert b.username b)
    (htokens : o.state.verifyTokens = c.state.verifyTokens)
    (hentries : o.entries = [.signedUp i b p])
    (hnext : ∀ pc', o.next = .inl pc' → ∃ t, b.verificationToken = some t
      ∧ pc' = .insertToken b.username t) (tok : String) :
    LinksOk (c.after i request tok o) := by
  have hb : b.Linked := h.waiting i request b p htask
  have hi : ∀ t, b.verificationToken = some t → SigningUp c i t :=
    fun t ht => ⟨request, b, p, htask, ht⟩
  have hlog : ∀ v t, GeneratedFor (c.after i request tok o).log v t ↔
      GeneratedFor c.log v t ∨ v = b.username ∧ b.verificationToken = some t :=
    fun v t => generatedFor_signedUp hentries
  have hpending : ∀ v t, PendingWith (c.after i request tok o).state v t ↔
      PendingWith c.state v t ∨ v = b.username ∧ b.verificationToken = some t :=
    fun v t => pendingWith_insert hname hb husers
  have hcarries : ∀ j v t, Carries (c.after i request tok o) j v t →
      j ≠ i ∧ Carries c j v t ∨ j = i ∧ v = b.username ∧ b.verificationToken = some t := by
    intro j v t hj
    rcases carries_after hj with hj | ⟨hji, hn | ⟨hn, -⟩⟩
    · exact .inl hj
    · obtain ⟨t', ht', heq⟩ := hnext _ hn
      cases heq
      exact .inr ⟨hji, rfl, ht'⟩
    · obtain ⟨t', ht', heq⟩ := hnext _ hn
      cases heq
  have hsigning : ∀ j t, SigningUp (c.after i request tok o) j t → j ≠ i ∧ SigningUp c j t := by
    intro j t hj
    rcases signingUp_after hj with hj | ⟨-, b', p', hn, -⟩
    · exact hj
    · obtain ⟨t', -, heq⟩ := hnext _ hn
      cases heq
  refine ⟨?_, ?_, ?_, ?_, ?_, ?_, ?_, ?_, ?_, ?_, ?_⟩
  · intro v a hv
    rw [show (c.after i request tok o).state.users = _ from husers] at hv
    obtain ⟨-, rfl⟩ | ⟨-, hv⟩ := AssocMap.lookup_insert_eq_some.mp hv
    · exact hb
    · exact h.linked v a hv
  · intro v t hv
    exact (hlog v t).mpr (((hpending v t).mp hv).imp_left (h.origin v t))
  · intro v t hv
    rcases (hlog v t).mp hv with hv | ⟨-, ht⟩
    · exact List.mem_cons_of_mem _ (h.generated v t hv)
    · exact List.mem_cons_of_mem _ (h.signingUp i t (hi t ht)).1
  · intro v w t hv hw
    rcases (hlog v t).mp hv with hv | ⟨rfl, ht⟩ <;> rcases (hlog w t).mp hw with hw | ⟨rfl, ht'⟩
    · exact h.unique v w t hv hw
    · exact absurd hv ((h.signingUp i t (hi t ht')).2 v)
    · exact absurd hw ((h.signingUp i t (hi t ht)).2 w)
    · rfl
  · intro j t hj
    obtain ⟨hji, hj⟩ := hsigning j t hj
    obtain ⟨hmem, hno⟩ := h.signingUp j t hj
    refine ⟨List.mem_cons_of_mem _ hmem, fun v hv => ?_⟩
    rcases (hlog v t).mp hv with hv | ⟨-, ht⟩
    · exact hno v hv
    · exact hji (h.signingUpOnce j i t hj (hi t ht))
  · intro j k t hj hk
    exact h.signingUpOnce j k t (hsigning j t hj).2 (hsigning k t hk).2
  · intro j r b' p' hj
    rcases tasks_after hj with ⟨-, hj⟩ | ⟨-, pc', hpc', heq⟩
    · exact h.waiting j r b' p' hj
    · obtain ⟨t, -, rfl⟩ := hnext _ hpc'
      cases heq
  · intro v t hv
    rw [show (c.after i request tok o).state.verifyTokens = _ from htokens] at hv
    exact (hpending v t).mpr (.inl (h.stored v t hv))
  · intro j v t hj
    rw [hpending, show (c.after i request tok o).state.verifyTokens = _ from htokens]
    rcases hcarries j v t hj with ⟨-, hj⟩ | ⟨-, rfl, ht⟩
    · exact (h.carried j v t hj).imp_left .inl
    · refine ⟨.inr ⟨rfl, ht⟩, Option.eq_none_iff_forall_ne_some.mpr fun w hw => ?_⟩
      exact (h.signingUp i t (hi t ht)).2 w (h.origin w t (h.stored w t hw))
  · intro j k v t t' hj hk
    rcases hcarries j v t hj with ⟨-, hj'⟩ | ⟨rfl, hv, -⟩ <;>
      rcases hcarries k v t' hk with ⟨-, hk'⟩ | ⟨rfl, hv', -⟩
    · exact h.carriedOnce j k v t t' hj' hk'
    · exact absurd hv' ((h.carried j v t hj').1.ne_of_none hname)
    · exact absurd hv ((h.carried k v t' hk').1.ne_of_none hname)
    · rfl
  · intro j r v hj
    rcases tasks_after hj with ⟨-, hj⟩ | ⟨-, pc', hpc', heq⟩
    · exact h.typed j r v hj
    · obtain ⟨t, -, rfl⟩ := hnext _ hpc'
      cases heq

/-- A segment that neither signs anybody up nor ends with a signup waiting for the accounts
leaves the fresh tokens as they are. -/
lemma LinksOk.minting (h : LinksOk c) {o : Outcome}
    (hentries : ∀ j b p, .signedUp j b p ∉ o.entries)
    (hnext : ∀ b p, o.next ≠ .inl (.insertAccount b p)) (tok : String)
    (hlinked : ∀ v a, o.state.users.lookup v = some a → a.Linked)
    (hpending : ∀ v t, PendingWith o.state v t → PendingWith c.state v t)
    (hstored : ∀ v t, o.state.verifyTokens.lookup t = some v → PendingWith o.state v t)
    (hcarried : ∀ j v t, Carries (c.after i request tok o) j v t →
      PendingWith o.state v t ∧ o.state.verifyTokens.lookup t = none)
    (honce : ∀ j k v t t', Carries (c.after i request tok o) j v t →
      Carries (c.after i request tok o) k v t' → j = k)
    (htyped : ∀ v, o.next = .inl (.approveUser v) → ∃ t, request = .verify t) :
    LinksOk (c.after i request tok o) := by
  have hlog : ∀ v t, GeneratedFor (c.after i request tok o).log v t ↔ GeneratedFor c.log v t :=
    fun v t => generatedFor_after hentries
  have hsigning : ∀ j t, SigningUp (c.after i request tok o) j t → SigningUp c j t := by
    intro j t hj
    rcases signingUp_after hj with ⟨-, hj⟩ | ⟨-, b, p, hn, -⟩
    · exact hj
    · exact absurd hn (hnext b p)
  refine ⟨hlinked, ?_, ?_, ?_, ?_, ?_, ?_, hstored, hcarried, honce, ?_⟩
  · intro v t hv
    exact (hlog v t).mpr (h.origin v t (hpending v t hv))
  · intro v t hv
    exact List.mem_cons_of_mem _ (h.generated v t ((hlog v t).mp hv))
  · intro v w t hv hw
    exact h.unique v w t ((hlog v t).mp hv) ((hlog w t).mp hw)
  · intro j t hj
    obtain ⟨hmem, hno⟩ := h.signingUp j t (hsigning j t hj)
    exact ⟨List.mem_cons_of_mem _ hmem, fun v hv => hno v ((hlog v t).mp hv)⟩
  · intro j k t hj hk
    exact h.signingUpOnce j k t (hsigning j t hj) (hsigning k t hk)
  · intro j r b p hj
    rcases tasks_after hj with ⟨-, hj⟩ | ⟨-, pc', hpc', heq⟩
    · exact h.waiting j r b p hj
    · cases heq
      exact absurd hpc' (hnext b p)
  · intro j r v hj
    rcases tasks_after hj with ⟨-, hj⟩ | ⟨-, pc', hpc', heq⟩
    · exact h.typed j r v hj
    · cases heq
      exact htyped v hpc'

/-- `insertToken`: the token goes from its signup to the store. -/
lemma LinksOk.linkStored (h : LinksOk c)
    (htask : c.tasks i = some ⟨request, .insertToken u token⟩) (tok : String) :
    LinksOk (c.after i request tok (insertToken read u token c.state)) := by
  have hi : Carries c i u token := .inl ⟨request, htask⟩
  have hcarries : ∀ j v t,
      Carries (c.after i request tok (insertToken read u token c.state)) j v t →
        j ≠ i ∧ Carries c j v t := by
    intro j v t hj
    rcases carries_after hj with hj | ⟨-, hn | ⟨hn, -⟩⟩
    · exact hj
    · cases hn
    · cases hn
  refine h.minting (by simp [insertToken]) (by simp [insertToken]) tok h.linked (fun v t => id) ?_
    ?_ ?_ (by simp [insertToken])
  · intro v t hv
    obtain ⟨rfl, rfl⟩ | ⟨-, hv⟩ := AssocMap.lookup_insert_eq_some.mp hv
    · exact (h.carried i v t hi).1
    · exact h.stored v t hv
  · intro j v t hj
    obtain ⟨hji, hj'⟩ := hcarries j v t hj
    obtain ⟨hp, hnone⟩ := h.carried j v t hj'
    refine ⟨hp, ?_⟩
    have hn : t ≠ token := by
      rintro rfl
      have huv := h.user_eq hp (h.carried i u t hi).1
      exact hji (h.carriedOnce j i u t t (huv ▸ hj') hi)
    show (c.state.verifyTokens.insert token u).lookup t = none
    rw [AList.lookup_insert_ne hn, hnone]
  · intro j k v t t' hj hk
    exact h.carriedOnce j k v t t' (hcarries j v t hj).2 (hcarries k v t' hk).2

/-- `verifyStart`: the token goes from the store to its verification. -/
lemma LinksOk.linkTaken (h : LinksOk c) (hu : c.state.verifyTokens.lookup token = some u)
    (tok : String) :
    LinksOk (c.after i (.verify token) tok
      ⟨{ c.state with verifyTokens := c.state.verifyTokens.erase token },
        .inl (.approveUser u), []⟩) := by
  have hcarries : ∀ j v t, Carries (c.after i (.verify token) tok
      ⟨{ c.state with verifyTokens := c.state.verifyTokens.erase token },
        .inl (.approveUser u), []⟩) j v t →
          j ≠ i ∧ Carries c j v t ∨ j = i ∧ v = u ∧ t = token := by
    intro j v t hj
    rcases carries_after hj with hj | ⟨hji, hn | ⟨hn, hreq⟩⟩
    · exact .inl hj
    · cases hn
    · cases hn
      cases hreq
      exact .inr ⟨hji, rfl, rfl⟩
  have hgone : ∀ j t, ¬ Carries c j u t := by
    intro j t hj
    obtain ⟨hp, hnone⟩ := h.carried j u t hj
    rw [hp.token_eq (h.stored u token hu), hu] at hnone
    cases hnone
  refine h.minting (by simp) (by simp) tok h.linked (fun v t => id) ?_ ?_ ?_
    (fun v _ => ⟨token, rfl⟩)
  · intro v t hv
    exact h.stored v t (AssocMap.lookup_erase_eq_some.mp hv).2
  · intro j v t hj
    show PendingWith c.state v t ∧ (c.state.verifyTokens.erase token).lookup t = none
    rcases hcarries j v t hj with ⟨-, hj⟩ | ⟨-, rfl, rfl⟩
    · obtain ⟨hp, hnone⟩ := h.carried j v t hj
      refine ⟨hp, ?_⟩
      by_cases hn : t = token
      · rw [hn, AList.lookup_erase]
      · rw [AList.lookup_erase_ne hn, hnone]
    · exact ⟨h.stored v t hu, AList.lookup_erase _ _⟩
  · intro j k v t t' hj hk
    rcases hcarries j v t hj with ⟨-, hj'⟩ | ⟨hji, hv, -⟩ <;>
      rcases hcarries k v t' hk with ⟨-, hk'⟩ | ⟨hki, hv', -⟩
    · exact h.carriedOnce j k v t t' hj' hk'
    · exact absurd (hv' ▸ hj') (hgone j t)
    · exact absurd (hv ▸ hk') (hgone k t')
    · rw [hji, hki]

/-- `approveUser`: the token is spent. -/
lemma LinksOk.linkSpent (h : LinksOk c) {account : UserAccount}
    (htask : c.tasks i = some ⟨.verify token, .approveUser u⟩)
    (hu : c.state.users.lookup u = some account) (r : Response) (tok : String) :
    LinksOk (c.after i (.verify token) tok
      ⟨{ c.state with users := c.state.users.insert u account.verified }, .inr r, []⟩) := by
  have hi : Carries c i u token := .inr htask
  have hcarries : ∀ j v t, Carries (c.after i (.verify token) tok
      ⟨{ c.state with users := c.state.users.insert u account.verified }, .inr r, []⟩) j v t →
      v ≠ u ∧ Carries c j v t := by
    intro j v t hj
    rcases carries_after hj with ⟨hji, hj'⟩ | ⟨-, hn | ⟨hn, -⟩⟩
    · refine ⟨fun huv => ?_, hj'⟩
      rw [huv] at hj'
      exact hji (h.carriedOnce j i u t token hj' hi)
    · cases hn
    · cases hn
  have hpending : ∀ v t, PendingWith
      { c.state with users := c.state.users.insert u account.verified } v t ↔
      v ≠ u ∧ PendingWith c.state v t := by
    intro v t
    constructor
    · rintro ⟨a, ha, hp, ht⟩
      obtain ⟨-, rfl⟩ | ⟨hne, ha⟩ := AssocMap.lookup_insert_eq_some.mp ha
      · cases hp
      · exact ⟨hne, a, ha, hp, ht⟩
    · rintro ⟨hne, a, ha, hp⟩
      exact ⟨a, AssocMap.lookup_insert_eq_some.mpr (.inr ⟨hne, ha⟩), hp⟩
  refine h.minting (by simp) (by simp) tok ?_ (fun v t hv => ((hpending v t).mp hv).2) ?_ ?_ ?_
    (by simp)
  · intro v a hv
    obtain ⟨-, rfl⟩ | ⟨-, hv⟩ := AssocMap.lookup_insert_eq_some.mp hv
    · exact .inr ⟨rfl, rfl⟩
    · exact h.linked v a hv
  · intro v t hv
    refine (hpending v t).mpr ⟨?_, h.stored v t hv⟩
    rintro rfl
    obtain ⟨hp, hnone⟩ := h.carried i v token hi
    rw [hp.token_eq (h.stored v t hv)] at hnone
    rw [hnone] at hv
    cases hv
  · intro j v t hj
    obtain ⟨hne, hj⟩ := hcarries j v t hj
    obtain ⟨hp, hnone⟩ := h.carried j v t hj
    exact ⟨(hpending v t).mpr ⟨hne, hp⟩, hnone⟩
  · intro j k v t t' hj hk
    exact h.carriedOnce j k v t t' (hcarries j v t hj).2 (hcarries k v t' hk).2

/-- A segment keeps every token in one place. -/
lemma LinksOk.after (h : LinksOk c) (htask : c.tasks i = some ⟨request, pc⟩)
    (hfresh : read.token ∉ c.generated) (hmove : AccountMove x read i c.state request pc o) :
    LinksOk (c.after i request read.token o) := by
  cases hmove with
  | hashed req hash hname hemail => exact h.hashed hfresh req hash req.password
  | inserted req account password hname hemail =>
      refine h.inserted htask hname rfl rfl rfl (fun pc' hpc' => ?_) _
      simp only at hpc'
      split at hpc'
      · rename_i t ht
        exact ⟨t, ht, (Sum.inl.inj hpc').symm⟩
      · cases hpc'
  | linked req u token => exact h.linkStored htask _
  | taken token u hu => exact h.linkTaken hu _
  | approved token u account hu hpending => exact h.linkSpent htask hu _ _
  | other _ _ _ husers htokens hentries hnext hpc hcreated hverified happrove =>
      refine h.frame husers htokens (fun v t => ?_) (List.subset_cons_self _ _) fun j task hj => ?_
      · exact generatedFor_after fun j b p hj => hentries _ hj
      · rcases tasks_after hj with ⟨-, hj⟩ | ⟨-, pc', hpc', rfl⟩
        · exact .inl hj
        · exact .inr (hnext pc' hpc')

/-- Every step without an operator keeps every token in one place. -/
lemma linksOk_step {a : Action} (ha : a.Unattended) (h : LinksOk c)
    (hs : step x c a = some c') : LinksOk c' := by
  obtain ⟨request, -, rfl⟩ | ⟨i, read, request, pc, o, -, htask, hfresh, hseg, rfl⟩ | ⟨i, -, rfl⟩
    | ⟨v, status, account, rfl, -⟩ := step_cases hs
  · refine h.frame rfl rfl (fun v t => ?_) (List.Subset.refl _) fun j task hj => ?_
    · simp [GeneratedFor]
    · simp only [Function.update_apply] at hj
      split_ifs at hj
      · obtain rfl := Option.some.inj hj
        exact .inr True.intro
      · exact .inl hj
  · exact h.after htask hfresh (account_segment hseg)
  · refine h.frame rfl rfl (fun v t => Iff.rfl) (List.Subset.refl _) fun j task hj => ?_
    simp only [Function.update_apply] at hj
    split_ifs at hj
    exact .inl hj
  · exact absurd ha id

end Rendezvous
