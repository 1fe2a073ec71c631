import Dddatasync.Rendezvous.Verification

/-!
Accounts that nobody can verify any more.

* `Tracked`: every token of a pending account is stored or carried by a handler; every step
  keeps it but a dropped carrier (`tracked_step`).
* `Stranded`: a pending account whose token is nowhere; no step ends it (`stranded_step`).
* `unstranded_iff`: in a quiet server every pending account can still be verified exactly if
  no handler was dropped between its two stores.
-/

namespace Rendezvous

open Runs

variable {x : Externals} {read : Reading} {i j : ℕ} {request : Request} {s : AppState}
  {pc : Pc} {o : Outcome} {c c' : Config} {u token : String}

/-- The handler has updated one of its two stores and waits for the other. -/
def Pc.Between : Pc → Prop
  | .insertToken _ _ => True
  | .approveUser _ => True
  | _ => False

instance : DecidablePred Pc.Between := fun pc => by
  cases pc <;> unfold Pc.Between <;> infer_instance

/-- The transition drops a handler between its two stores. -/
def Strands (t : Config × Action × Config) : Prop :=
  ∃ i task, t.2.1 = .drop i ∧ t.1.tasks i = some task ∧ task.pc.Between

instance : DecidablePred Strands
  | (c, .drop i, _) =>
      match h : c.tasks i with
      | none => isFalse fun ⟨_, _, hd, htask, _⟩ => by cases hd; simp [h] at htask
      | some task => decidable_of_iff task.pc.Between
          ⟨fun hb => ⟨i, task, rfl, h, hb⟩, fun ⟨_, _, hd, htask, hb⟩ => by
            cases hd
            cases h.symm.trans htask
            exact hb⟩
  | (_, .arrive _, _) => isFalse fun ⟨_, _, hd, _⟩ => by cases hd
  | (_, .run _ _, _) => isFalse fun ⟨_, _, hd, _⟩ => by cases hd
  | (_, .setStatus _ _, _) => isFalse fun ⟨_, _, hd, _⟩ => by cases hd

/-- Every token of a pending account is stored, or a handler carries it. -/
def Tracked (c : Config) : Prop :=
  ∀ u token, PendingWith c.state u token →
    c.state.verifyTokens.lookup token = some u ∨ ∃ i, Carries c i u token

/-- The account is pending and its token is nowhere. -/
def Stranded (c : Config) (u : String) : Prop :=
  ∃ token, PendingWith c.state u token ∧ c.state.verifyTokens.lookup token = none
    ∧ ∀ i t, ¬ Carries c i u t

lemma Carries.between {t : String} (h : Carries c i u t) :
    ∃ task, c.tasks i = some task ∧ task.pc.Between := by
  rcases h with ⟨r, h⟩ | h
  · exact ⟨_, h, True.intro⟩
  · exact ⟨_, h, True.intro⟩

/-- A handler that is not running keeps what it carries. -/
lemma Carries.after {t tok : String} (h : Carries c j u t) (hne : j ≠ i) :
    Carries (c.after i request tok o) j u t := by
  have htasks : (c.after i request tok o).tasks j = c.tasks j := Function.update_of_ne hne _ _
  rw [Carries, htasks]
  exact h

/-- A handler that waits elsewhere carries nothing. -/
lemma Carries.ne_of_elsewhere {t : String} (h : Carries c j u t)
    (htask : c.tasks i = some ⟨request, pc⟩) (hpc : ¬ pc.Between) : j ≠ i := by
  rintro rfl
  obtain ⟨task, hj, hb⟩ := h.between
  rw [htask] at hj
  obtain rfl := Option.some.inj hj
  exact hpc hb

/-- A segment keeps every token in sight. -/
lemma Tracked.after (h : Tracked c) (hl : LinksOk c) (htask : c.tasks i = some ⟨request, pc⟩)
    (hmove : AccountMove x read i c.state request pc o) (tok : String) :
    Tracked (c.after i request tok o) := by
  intro v t hv
  cases hmove with
  | hashed req hash hname hemail =>
      refine (h v t hv).imp id ?_
      rintro ⟨j, hj⟩
      exact ⟨j, hj.after (hj.ne_of_elsewhere htask id)⟩
  | inserted req b p hname hemail =>
      obtain ⟨a, ha, hp, ht⟩ := hv
      replace ha : (c.state.users.insert b.username b).lookup v = some a := ha
      by_cases hn : v = b.username
      · rw [hn, AList.lookup_insert] at ha
        obtain rfl := Option.some.inj ha
        refine .inr ⟨i, .inl ⟨.signup req, tasks_after_self ?_⟩⟩
        simp only [ht, hn]
      · rw [AList.lookup_insert_ne hn] at ha
        refine (h v t ⟨a, ha, hp, ht⟩).imp id ?_
        rintro ⟨j, hj⟩
        exact ⟨j, hj.after (hj.ne_of_elsewhere htask id)⟩
  | linked req u' t' =>
      show (c.state.verifyTokens.insert t' u').lookup t = some v ∨ _
      have hi : Carries c i u' t' := .inl ⟨_, htask⟩
      rcases h v t hv with hs | ⟨j, hj⟩
      · have hn : t ≠ t' := by
          rintro rfl
          rw [(hl.carried i u' t hi).2] at hs
          cases hs
        exact .inl (by rwa [AList.lookup_insert_ne hn])
      · by_cases hji : j = i
        · -- the token that was on its way is stored now
          subst hji
          left
          rcases hj with ⟨r, hj⟩ | hj
          · rw [htask] at hj
            cases hj
            exact AList.lookup_insert _
          · rw [htask] at hj
            cases hj
        · exact .inr ⟨j, hj.after hji⟩
  | taken t' u' hu =>
      show (c.state.verifyTokens.erase t').lookup t = some v ∨ _
      rcases h v t hv with hs | ⟨j, hj⟩
      · by_cases hn : t = t'
        · rw [hn, hu] at hs
          obtain rfl := Option.some.inj hs
          exact .inr ⟨i, .inr (hn ▸ tasks_after_self rfl)⟩
        · exact .inl (by rwa [AList.lookup_erase_ne hn])
      · exact .inr ⟨j, hj.after (hj.ne_of_elsewhere htask id)⟩
  | approved t' u' account hu hpending =>
      obtain ⟨a, ha, hp, ht⟩ := hv
      replace ha : (c.state.users.insert u' account.verified).lookup v = some a := ha
      have hn : v ≠ u' := by
        rintro rfl
        rw [AList.lookup_insert] at ha
        obtain rfl := Option.some.inj ha
        cases hp
      rw [AList.lookup_insert_ne hn] at ha
      refine (h v t ⟨a, ha, hp, ht⟩).imp id ?_
      rintro ⟨j, hj⟩
      refine ⟨j, hj.after ?_⟩
      rintro rfl
      rcases hj with ⟨r, hj⟩ | hj
      · rw [htask] at hj
        cases hj
      · rw [htask] at hj
        cases hj
        exact hn rfl
  | other _ _ _ husers htokens hentries hnext hpc hcreated hverified happrove =>
      have hold : PendingWith c.state v t := by
        rw [PendingWith, ← husers]
        exact hv
      rw [show (c.after i request tok o).state.verifyTokens = _ from htokens]
      refine (h v t hold).imp id ?_
      rintro ⟨j, hj⟩
      refine ⟨j, hj.after ?_⟩
      rintro rfl
      rcases hj with ⟨r, hj⟩ | hj
      · rw [htask] at hj
        cases hj
        exact hpc v t rfl
      · rw [htask] at hj
        cases hj
        obtain ⟨a, ha, hp, -⟩ := hold
        exact happrove v a rfl ha hp

/-- Every step keeps every token in sight, unless it drops a handler between its stores. -/
lemma tracked_step {a : Action} (ha : a.Unattended) (h : Tracked c) (hl : LinksOk c)
    (hok : AccountsOk x c) (hs : step x c a = some c') (hno : ¬ Strands (c, a, c')) :
    Tracked c' := by
  obtain ⟨request, -, rfl⟩ | ⟨i, read, request, pc, o, -, htask, -, hseg, rfl⟩ | ⟨i, rfl, rfl⟩
    | ⟨v, status, account, rfl, -⟩ := step_cases hs
  · intro v t hv
    refine (h v t hv).imp id ?_
    rintro ⟨j, hj⟩
    refine ⟨j, ?_⟩
    have hne : j ≠ c.next := by
      obtain ⟨task, hj, -⟩ := hj.between
      exact (hok.task_lt hj).ne
    simpa [Carries, Function.update_of_ne hne] using hj
  · exact h.after hl htask (account_segment hseg) _
  · intro v t hv
    refine (h v t hv).imp id ?_
    rintro ⟨j, hj⟩
    have hne : j ≠ i := by
      rintro rfl
      obtain ⟨task, hj, hb⟩ := hj.between
      exact hno ⟨j, task, rfl, hj, hb⟩
    exact ⟨j, by simpa [Carries, Function.update_of_ne hne] using hj⟩
  · exact absurd ha id

/-- Nothing a handler does ends it. -/
lemma Stranded.after (h : Stranded c u) (hl : LinksOk c)
    (htask : c.tasks i = some ⟨request, pc⟩)
    (hmove : AccountMove x read i c.state request pc o) (tok : String) :
    Stranded (c.after i request tok o) u := by
  obtain ⟨token, hu, hnone, hno⟩ := h
  -- the only segments that could carry it again are a signup of its name and its link
  have hcarries : (∀ v t, o.next = .inl (.insertToken v t) → v ≠ u) →
      (∀ v, o.next = .inl (.approveUser v) → v ≠ u) →
      ∀ j t, ¬ Carries (c.after i request tok o) j u t := by
    intro hinsert happrove j t hj
    rcases carries_after hj with ⟨-, hj⟩ | ⟨-, hn | ⟨hn, -⟩⟩
    · exact hno j t hj
    · exact hinsert u t hn rfl
    · exact happrove u hn rfl
  cases hmove with
  | hashed req hash hname hemail =>
      exact ⟨token, hu, hnone, hcarries (by simp) (by simp)⟩
  | inserted req b p hname hemail =>
      have hne : b.username ≠ u := by
        rintro rfl
        obtain ⟨a, ha, -⟩ := hu
        rw [hname] at ha
        cases ha
      refine ⟨token, ?_, hnone, hcarries (fun v t hn => ?_) fun v hn => ?_⟩
      · obtain ⟨a, ha, hrest⟩ := hu
        exact ⟨a, (AList.lookup_insert_ne hne.symm).trans ha, hrest⟩
      · simp only at hn
        split at hn <;> cases hn
        exact hne
      · simp only at hn
        split at hn <;> cases hn
  | linked req v t =>
      have hi : Carries c i v t := .inl ⟨_, htask⟩
      have hne : token ≠ t := by
        rintro rfl
        have huv := hl.user_eq hu (hl.carried i v token hi).1
        exact hno i token (huv ▸ hi)
      refine ⟨token, hu, ?_, hcarries (by simp [insertToken]) (by simp [insertToken])⟩
      exact (AList.lookup_insert_ne hne).trans hnone
  | taken t v hv =>
      refine ⟨token, hu, ?_, hcarries (by simp) fun w hw => ?_⟩
      · show (c.state.verifyTokens.erase t).lookup token = none
        by_cases hn : token = t
        · rw [hn, AList.lookup_erase]
        · rw [AList.lookup_erase_ne hn, hnone]
      · obtain rfl : v = w := by simpa using hw
        intro hvu
        rw [hvu] at hv
        rw [hu.token_eq (hl.stored u t hv), hv] at hnone
        cases hnone
  | approved t v account hv hpending =>
      have hi : Carries c i v t := .inr htask
      have hne : u ≠ v := by
        rintro rfl
        exact hno i t hi
      refine ⟨token, ?_, hnone, hcarries (by simp) (by simp)⟩
      obtain ⟨a, ha, hrest⟩ := hu
      exact ⟨a, (AList.lookup_insert_ne hne).trans ha, hrest⟩
  | other _ _ _ husers htokens hentries hnext hpc hcreated hverified happrove =>
      refine ⟨token, ?_, htokens ▸ hnone, hcarries (fun v t hn => ?_) fun v hn => ?_⟩
      · show PendingWith o.state u token
        rw [PendingWith, husers]
        exact hu
      · exact absurd (hnext _ hn) id
      · exact absurd (hnext _ hn) id

/-- No step ends it. -/
lemma stranded_step {a : Action} (ha : a.Unattended) (h : Stranded c u) (hl : LinksOk c)
    (hs : step x c a = some c') : Stranded c' u := by
  obtain ⟨request, -, rfl⟩ | ⟨i, read, request, pc, o, -, htask, -, hseg, rfl⟩ | ⟨i, -, rfl⟩
    | ⟨v, status, account, rfl, -⟩ := step_cases hs
  · obtain ⟨token, hu, hnone, hno⟩ := h
    refine ⟨token, hu, hnone, fun j t hj => ?_⟩
    by_cases hne : j = c.next
    · simp [Carries, hne] at hj
    · exact hno j t (by simpa [Carries, Function.update_of_ne hne] using hj)
  · exact h.after hl htask (account_segment hseg) _
  · obtain ⟨token, hu, hnone, hno⟩ := h
    refine ⟨token, hu, hnone, fun j t hj => ?_⟩
    by_cases hne : j = i
    · simp [Carries, hne] at hj
    · exact hno j t (by simpa [Carries, Function.update_of_ne hne] using hj)
  · exact absurd ha id

/-- Dropping a handler between its stores strands its account. -/
lemma stranded_of_strands {a : Action} (hl : LinksOk c) (hs : step x c a = some c')
    (h : Strands (c, a, c')) : ∃ u, Stranded c' u := by
  obtain ⟨i, ⟨request, pc⟩, rfl, htask, hb⟩ := h
  obtain rfl := Option.some.inj hs
  have hcarries : ∃ u token, Carries c i u token := by
    cases pc with
    | insertToken u token => exact ⟨u, token, .inl ⟨request, htask⟩⟩
    | approveUser u =>
        obtain ⟨token, rfl⟩ := hl.typed i request u htask
        exact ⟨u, token, .inr htask⟩
    | start | insertAccount | openSession | checkUser | writeRecord | eraseRecord
    | pruneRegistry | pruneSessions => exact absurd hb id
  obtain ⟨u, token, hi⟩ := hcarries
  obtain ⟨hu, hnone⟩ := hl.carried i u token hi
  refine ⟨u, token, hu, hnone, fun j t hj => ?_⟩
  by_cases hne : j = i
  · simp [Carries, hne] at hj
  · have hj' : Carries c j u t := by simpa [Carries, Function.update_of_ne hne] using hj
    exact hne (hl.carriedOnce j i u t token hj' hi)

/-! ### Quiet servers -/

lemma linksOk_of_run {as : List Action} (hop : ∀ a ∈ as, a.Unattended)
    (hrun : exec (step x) start as = some c) : LinksOk c :=
  exec_invariant (fun _ a _ ha h hs => linksOk_step (hop a ha) h hs) linksOk_start hrun

/-- The account can still be verified. -/
def Verifiable (s : AppState) (a : UserAccount) : Prop :=
  ∃ token, a.verificationToken = some token ∧ s.verifyTokens.lookup token = some a.username

/-- **No account is stranded**, exactly if no handler is dropped between its two stores: at
the end of every run without an operator that leaves no handler in flight, every pending
account can still be verified if and only if no step of the run dropped a signup before it
stored its token or a verification before it approved its account. -/
theorem unstranded_iff {x : Externals} {as : List Action} {c : Config}
    (hop : ∀ a ∈ as, a.Unattended) (hrun : exec (step x) start as = some c)
    (hquiet : ∀ i, c.tasks i = none) :
    (∀ u a, c.state.users.lookup u = some a → a.status = .pending → Verifiable c.state a)
      ↔ ∀ t ∈ trace (step x) start as, ¬ Strands t := by
  constructor
  · rintro hall ⟨d, a, d'⟩ ht hstrand
    obtain ⟨done, rest, rfl, hdone, hd⟩ := exists_of_mem_trace ht
    simp only at hdone hd
    have hl : LinksOk d :=
      linksOk_of_run (fun b hb => hop b (List.mem_append_left _ hb)) hdone
    have hl' : LinksOk d' := linksOk_step (hop a (by simp)) hl hd
    obtain ⟨u, hu⟩ := stranded_of_strands hl hd hstrand
    -- it stays stranded to the end of the run
    have hrest : exec (step x) d' rest = some c := by
      rw [exec_append, hdone] at hrun
      simpa [Runs.exec, hd] using hrun
    have hend : LinksOk c ∧ Stranded c u := by
      refine exec_invariant (I := fun c => LinksOk c ∧ Stranded c u) ?_ ⟨hl', hu⟩ hrest
      rintro e b e' hb ⟨hle, hue⟩ hs
      have hunattended : b.Unattended :=
        hop b (List.mem_append_right _ (List.mem_cons_of_mem _ hb))
      exact ⟨linksOk_step hunattended hle hs, stranded_step hunattended hue hle hs⟩
    obtain ⟨token, ⟨acc, hacc, hp, htok⟩, hnone, -⟩ := hend.2
    obtain ⟨token', htok', hsome⟩ := hall u acc hacc hp
    rw [htok] at htok'
    obtain rfl := Option.some.inj htok'
    rw [hnone] at hsome
    cases hsome
  · intro hno u a hu hp
    have hend : Tracked c ∧ LinksOk c ∧ AccountsOk x c := by
      have hstart : Tracked start := by
        rintro v t ⟨a, ha, -⟩
        cases ha
      refine exec_of_trace (I := fun c => Tracked c ∧ LinksOk c ∧ AccountsOk x c) ?_
        ⟨hstart, linksOk_start, accountsOk_start x⟩ hrun
      rintro ⟨d, a, d'⟩ ht ⟨htracked, hl, hok⟩
      obtain ⟨done, rest, hsplit, -, hs⟩ := exists_of_mem_trace ht
      have hunattended : a.Unattended := hop a (by simp [hsplit])
      exact ⟨tracked_step hunattended htracked hl hok hs (hno _ ht),
        linksOk_step hunattended hl hs, accountsOk_step x d a d' hok hs⟩
    obtain ⟨htracked, hl, hok⟩ := hend
    obtain ⟨-, htok⟩ | ⟨happroved, -⟩ := hl.linked u a hu
    · obtain ⟨token, htok⟩ := Option.isSome_iff_exists.mp htok
      rcases htracked u token ⟨a, hu, hp, htok⟩ with hs | ⟨i, hi⟩
      · exact ⟨token, htok, by rw [hs, hok.store.keyed u a hu]⟩
      · obtain ⟨task, hi, -⟩ := hi.between
        rw [hquiet i] at hi
        cases hi
    · rw [hp] at happroved
      cases happroved

/-- A quiet server, checked on the requests that came in. -/
lemma quiet_of_range {as : List Action} (hrun : exec (step x) start as = some c)
    (h : (List.range c.next).all fun i => (c.tasks i).isNone) (i : ℕ) : c.tasks i = none := by
  cases htask : c.tasks i with
  | none => rfl
  | some task =>
      have hlt := (accountsOk_reachable (Reachable.init.exec hrun)).task_lt htask
      have hnone := List.all_eq_true.mp h i (List.mem_range.mpr hlt)
      rw [htask] at hnone
      cases hnone

/-- Alice's signup is dropped after her account was inserted. -/
def aliceDropped : List Action :=
  [.arrive (.signup ⟨"alice", "a@b", "pw"⟩), .run 0 { token := "link" }, .run 0 { token := "t1" },
    .drop 0]

/-- Her link is in no store. -/
theorem alice_stranded : ∃ c a, exec (step plainExternals) start aliceDropped = some c
    ∧ (∀ i, c.tasks i = none) ∧ c.state.users.lookup "alice" = some a ∧ a.status = .pending
    ∧ ¬ Verifiable c.state a := by
  have hrun : ((exec (step plainExternals) start aliceDropped).map fun c =>
      ((List.range c.next).all fun i => (c.tasks i).isNone, c.state.users.lookup "alice",
        c.state.verifyTokens.lookup "link"))
      = some (true, some ⟨"alice", "a@b", "pw", .pending, some "link"⟩, none) := by decide
  obtain ⟨c, hc, heq⟩ := Option.map_eq_some_iff.mp hrun
  simp only [Prod.mk.injEq] at heq
  obtain ⟨hquiet, halice, hlink⟩ := heq
  refine ⟨c, _, hc, quiet_of_range hc hquiet, halice, rfl, ?_⟩
  rintro ⟨token, htok, hsome⟩
  obtain rfl := Option.some.inj htok
  rw [hlink] at hsome
  cases hsome

/-- Alice's first attempt is dropped before her account was inserted, her second one runs
through. -/
def aliceTwice : List Action :=
  [.arrive (.signup ⟨"alice", "a@b", "pw"⟩), .run 0 { token := "t0" }, .drop 0,
    .arrive (.signup ⟨"alice", "a@b", "pw"⟩), .run 1 { token := "link" },
    .run 1 { token := "t2" }, .run 1 { token := "t3" }]

theorem alice_verifiable : ∃ c a, exec (step plainExternals) start aliceTwice = some c
    ∧ c.state.users.lookup "alice" = some a ∧ a.status = .pending ∧ Verifiable c.state a := by
  have hrun : ((exec (step plainExternals) start aliceTwice).map fun c =>
      ((List.range c.next).all fun i => (c.tasks i).isNone, c.state.users.lookup "alice"))
      = some (true, some ⟨"alice", "a@b", "pw", .pending, some "link"⟩) := by decide
  obtain ⟨c, hc, heq⟩ := Option.map_eq_some_iff.mp hrun
  simp only [Prod.mk.injEq] at heq
  obtain ⟨hquiet, halice⟩ := heq
  have hop : ∀ a ∈ aliceTwice, a.Unattended := by simp [aliceTwice, Action.Unattended]
  refine ⟨c, _, hc, halice, rfl, ?_⟩
  exact (unstranded_iff hop hc (quiet_of_range hc hquiet)).mpr (by decide) "alice" _ halice rfl

end Rendezvous
