import Dddatasync.Rendezvous.PeerAnswers
import Dddatasync.Rendezvous.PyOwnership

/-!
An account that an admin has blocked, under any interleaving of the Python views.

* `PyDb.Bars`, `bars_step`: only an admin and a verification that had read the account before it
  was blocked take a block back.
* `PyPc.ActsFor`: the view is about to approve an account, to open a session of it or to change its
  records; `acts_segment`: no query lets a view come to that for a blocked account.
* `mem_records_segment`: a record is written by a view that waited to write it.
* `PyTask.Early`, `PyLockedOut`: the invariant while the block lasts; `pyLockedOut_run`.
* `rebuffs_segment`: how a view that asks for a blocked account answers.
* `py_blocked_user_locked_out`: only views that had passed their check before the block still open
  sessions or change records, and every later one is refused.
-/

namespace Rendezvous

open Runs Json

variable {y : PyExternals} {read : Reading} {d : PyDb} {request : PyRequest} {pc : PyPc}
  {o : PyOutcome} {c c' t : PyConfig} {i id : ℕ} {u : String} {a : PyAction}
  {generated : List String}

/-! ### The block stays -/

/-- The account of `u` has this id, and is blocked. -/
def PyDb.Bars (d : PyDb) (u : String) (id : ℕ) : Prop :=
  ∃ row ∈ d.users, row.id = id ∧ row.username = u ∧ row.status = .blocked

/-- Rewriting the rows of other accounts keeps the block. -/
lemma PyDb.Bars.map (h : d.Bars u id) {f : UserRow → UserRow}
    (hf : ∀ row : UserRow, row.id = id → row.status = .blocked →
      (f row).id = id ∧ (f row).username = row.username ∧ (f row).status = .blocked) :
    PyDb.Bars { d with users := d.users.map f } u id := by
  obtain ⟨row, hrow, hid, hu, hstatus⟩ := h
  obtain ⟨hid', hu', hstatus'⟩ := hf row hid hstatus
  exact ⟨f row, List.mem_map_of_mem hrow, hid', hu'.trans hu, hstatus'⟩

/-- Approving other accounts keeps the block. -/
lemma PyDb.Bars.approve (h : d.Bars u id) (p : UserRow → Prop) [DecidablePred p]
    (hp : ∀ row : UserRow, row.id = id → ¬ p row) :
    PyDb.Bars { d with users := d.users.map fun row => if p row then row.approved else row }
      u id := by
  refine h.map fun row hid hstatus => ?_
  rw [if_neg (hp row hid)]
  exact ⟨hid, rfl, hstatus⟩

/-- A segment that does not save the account keeps the block. -/
lemma bars_segment (hseg : pySegment y read d request pc = some o) (hsave : pc ≠ .saveUser id)
    (h : d.Bars u id) : o.db.Bars u id := by
  cases table_segment hseg with
  | idle _ _ husers _ _ =>
      rw [PyDb.Bars, husers]
      exact h
  | inserted _ _ _ _ _ _ hdb _ =>
      obtain ⟨row, hrow, hrest⟩ := h
      rw [hdb]
      exact ⟨row, List.mem_append_left _ hrow, hrest⟩
  | saved id' => exact h.approve _ fun row hid hid' => hsave (by rw [← hid, hid'])
  | opened user => exact h

/-- **A step** keeps the block, unless it saves or approves the account. -/
lemma bars_step (hs : c.step y a = some c')
    (happrove : ∀ selected, a = .approve selected → id ∉ selected)
    (hsave : ∀ i read request, a = .run i read → c.tasks i ≠ some ⟨request, .saveUser id⟩)
    (h : c.db.Bars u id) : c'.db.Bars u id := by
  rcases pyStep_cases hs with ⟨request, -, rfl⟩
    | ⟨i, read, request, pc, o, rfl, htask, -, -, hseg, rfl⟩ | ⟨selected, -, rfl⟩
    | ⟨selected, rfl, rfl⟩
  · exact h
  · refine bars_segment hseg ?_ h
    rintro rfl
    exact hsave i read request rfl htask
  · refine h.map fun row hid hstatus => ?_
    split_ifs
    · exact ⟨hid, rfl, rfl⟩
    · exact ⟨hid, rfl, hstatus⟩
  · exact h.approve _ fun row hid hmem => happrove selected rfl (hid ▸ hmem)

/-! ### What views wait for -/

/-- The view waits to approve the account, to open a session of it, or to change its records. -/
def PyPc.ActsFor (u : String) (id : ℕ) : PyPc → Prop
  | .saveUser id' => id' = id
  | .insertSession user => user.id = id
  | .readBody user => user.username = u
  | .dropRecord user => user.username = u
  | .putRecord v _ => v = u
  | _ => False

/-- A verification goes on with an account that is pending. -/
lemma pending_of_saveUser (hseg : pySegment y read d request pc = some o)
    (hnext : o.next = .inl (.saveUser id)) : ∃ row ∈ d.users, row.id = id
      ∧ row.status = .pending := by
  unfold pySegment at hseg
  split at hseg <;> cases hseg
  · unfold findName at hnext
    split at hnext
    · split at hnext
      · simp only at hnext
        split_ifs at hnext <;> cases hnext
      · cases hnext
    · cases hnext
  · rw [findEmail] at hnext
    split_ifs at hnext <;> cases hnext
  · rename_i password
    cases password with
    | str password =>
        simp only [insertUser] at hnext
        split_ifs at hnext <;> cases hnext
    | _ => cases hnext
  · rename_i token
    rw [findPending] at hnext
    split at hnext
    · cases hnext
    · rename_i account hfound
      cases hnext
      have hmem : account ∈ getPending d.users token := by
        rw [hfound]
        exact List.mem_singleton_self _
      rw [getPending, List.mem_filter, decide_eq_true_iff] at hmem
      exact ⟨account, hmem.1, rfl, hmem.2.2⟩
    · cases hnext
  · cases hnext
  · obtain ⟨user, heq, -⟩ := signsIn_of_loginBody hnext
    cases heq
  · cases hnext
  · obtain ⟨user, -, heq⟩ := seen_findSpeaker hnext
    cases heq
  · obtain ⟨r, heq⟩ := seen_readBody hnext
    cases heq
  · cases hnext
  · obtain ⟨user, -, heq⟩ := seen_findSpeaker hnext
    cases heq
  · cases hnext
  · cases hnext
  · cases hnext
  · cases hnext
  · cases hnext

/-- The rows of a blocked account are all blocked: there is one. -/
lemma PyDb.Bars.blocked (h : d.Bars u id) (hd : d.Consistent) {row : UserRow}
    (hrow : row ∈ d.users) (hsame : row.id = id ∨ row.username = u) : row.status = .blocked := by
  obtain ⟨row', hrow', hid, hu, hstatus⟩ := h
  have heq : row = row' := by
    rcases hsame with hsame | hsame
    · exact List.inj_on_of_nodup_map hd.ids hrow hrow' (hsame.trans hid.symm)
    · exact List.inj_on_of_nodup_map hd.names hrow hrow' (hsame.trans hu.symm)
  rw [heq]
  exact hstatus

/-- No session speaks for a blocked account. -/
lemma PyDb.Bars.not_authenticate (h : d.Bars u id) (hd : d.Consistent) {now : ℕ}
    {header : Option String} {user : UserRow} (hauth : authenticate now header d = some user) :
    user.id ≠ id ∧ user.username ≠ u := by
  obtain ⟨token, -, session, -, -, -, huser, -, hstatus⟩ := authenticate_eq_some hauth
  constructor
  · intro hid
    rw [h.blocked hd huser (.inl hid)] at hstatus
    cases hstatus
  · intro hu
    rw [h.blocked hd huser (.inr hu)] at hstatus
    cases hstatus

/-- **No query** lets a view wait to act for a blocked account; a view that does so now had passed
`_authenticate` and read its body. -/
lemma acts_segment (hseg : pySegment y read d request pc = some o) (hd : d.Consistent)
    (h : d.Bars u id) {pc' : PyPc} (hnext : o.next = .inl pc') (hacts : pc'.ActsFor u id) :
    ∃ user r, pc = .readBody user ∧ user.username = u ∧ pc' = .putRecord u r := by
  have hseen := pySegment_seen hseg hnext
  cases pc' with
  | saveUser id' =>
      obtain rfl : id' = id := hacts
      obtain ⟨row, hrow, hid, hpending⟩ := pending_of_saveUser hseg hnext
      rw [h.blocked hd hrow (.inl hid)] at hpending
      cases hpending
  | insertSession user =>
      obtain ⟨body, -, fields, username, password, -, -, -, huser, -, hstatus, -⟩ := hseen
      rw [h.blocked hd huser (.inl hacts)] at hstatus
      cases hstatus
  | readBody user => exact absurd hacts (h.not_authenticate hd hseen).2
  | dropRecord user => exact absurd hacts (h.not_authenticate hd hseen).2
  | putRecord v r =>
      obtain rfl : v = u := hacts
      obtain ⟨user, hpc, hu⟩ := hseen
      exact ⟨user, r, hpc, hu, rfl⟩
  | _ => exact False.elim hacts

/-! ### Records -/

lemma mem_records_dropRecord {user : UserRow} {body : Json} {r : JsonRecord}
    (h : r ∈ JsonRegistry.records (dropRecord y user body d).db.registry u) :
    r ∈ JsonRegistry.records d.registry u := by
  rw [dropRecord, answered, deregisterAs] at h
  split at h
  · split at h
    · split_ifs at h
      · exact h
      · split at h
        · rw [records_remove] at h
          split_ifs at h with hu
          · rw [hu]
            exact List.mem_of_mem_filter h
          · exact h
        · exact h
    · exact h
  · exact h

lemma pySegment_putRecord {r : JsonRecord}
    (hseg : pySegment y read d request (.putRecord u r) = some o) : o = putRecord y u r d := by
  cases request with
  | api request =>
      cases request with
      | register header body => exact (Option.some.inj hseg).symm
      | _ => cases hseg
  | _ => cases hseg

lemma pySegment_dropRecord {user : UserRow}
    (hseg : pySegment y read d request (.dropRecord user) = some o) :
    ∃ body, o = dropRecord y user body d := by
  cases request with
  | api request =>
      cases request with
      | deregister header body => exact ⟨body, (Option.some.inj hseg).symm⟩
      | _ => cases hseg
  | _ => cases hseg

/-- **A record is written** by a view that waited to write it. -/
lemma mem_records_segment (hseg : pySegment y read d request pc = some o) {r : JsonRecord}
    (h : r ∈ JsonRegistry.records o.db.registry u) :
    r ∈ JsonRegistry.records d.registry u ∨ pc = .putRecord u r := by
  by_cases hsame : JsonRegistry.records o.db.registry u = JsonRegistry.records d.registry u
  · exact .inl (hsame ▸ h)
  obtain ⟨now, -, -, hlive⟩ | ⟨q, rfl⟩ | ⟨user, rfl, -⟩ := records_segment hseg hsame
  · rw [hlive] at h
    exact .inl (List.mem_of_mem_filter h)
  · obtain rfl := pySegment_putRecord hseg
    rw [putRecord, answered, records_upsert, if_pos rfl] at h
    rcases mem_of_mem_put h with rfl | h
    · exact .inr rfl
    · exact .inl h
  · obtain ⟨body, rfl⟩ := pySegment_dropRecord hseg
    exact .inl (mem_records_dropRecord h)

/-! ### While the block lasts -/

/-- The view waited like this at `c`, or writes what a register view of `u` that was past
`_authenticate` at `c` has read. -/
def PyTask.Early (c : PyConfig) (u : String) (i : ℕ) (task : PyTask) : Prop :=
  c.tasks i = some task ∨ (∃ r, task.pc = .putRecord u r)
    ∧ ∃ user, user.username = u ∧ c.tasks i = some ⟨task.request, .readBody user⟩

/-- What holds at `c'` while the block of `u` that held at `c` lasts: the views that wait to act for
`u` are early, and sessions and records of `u` are older than the block or made by early views. -/
structure PyLockedOut (c c' : PyConfig) (u : String) (id : ℕ) : Prop where
  tables : TablesOk c'
  bars : c'.db.Bars u id
  waits : ∀ i task, c'.tasks i = some task → task.pc.ActsFor u id → task.Early c u i
  sessions : ∀ session ∈ c'.db.sessions, session.userId = id → session ∈ c.db.sessions
    ∨ ∃ i request user, c.tasks i = some ⟨request, .insertSession user⟩ ∧ user.id = id
  records : ∀ r ∈ JsonRegistry.records c'.db.registry u, r ∈ JsonRegistry.records c.db.registry u
    ∨ ∃ i request, PyTask.Early c u i ⟨request, .putRecord u r⟩

lemma pyLockedOut_refl (hc : TablesOk c) (h : c.db.Bars u id) : PyLockedOut c c u id :=
  ⟨hc, h, fun _ _ htask _ => .inl htask, fun _ hsession _ => .inl hsession, fun _ hr => .inl hr⟩

/-- A view that waits for anything but the lock of the registry is early only if it was there. -/
lemma PyTask.Early.same {task : PyTask} (h : task.Early c u i)
    (hpc : ∀ r, task.pc ≠ .putRecord u r) : c.tasks i = some task := by
  rcases h with h | ⟨⟨r, hr⟩, -⟩
  · exact h
  · exact absurd hr (hpc r)

/-- A segment keeps `PyLockedOut`. -/
lemma PyLockedOut.after (h : PyLockedOut c t u id) (htask : t.tasks i = some ⟨request, pc⟩)
    (hseg : pySegment y read t.db request pc = some o) (hsave : pc ≠ .saveUser id)
    (htables : TablesOk (t.after i request read o)) :
    PyLockedOut c (t.after i request read o) u id where
  tables := htables
  bars := bars_segment hseg hsave h.bars
  waits := fun j task hj hacts => by
    rcases py_tasks_after hj with ⟨-, hj⟩ | ⟨rfl, pc', hnext, rfl⟩
    · exact h.waits j task hj hacts
    · -- the view has read the body of a register request of `u`
      obtain ⟨user, r, rfl, hu, rfl⟩ :=
        acts_segment hseg h.tables.tables.consistent h.bars hnext hacts
      have hthere := (h.waits j _ htask hu).same (by simp)
      exact .inr ⟨⟨r, rfl⟩, user, hu, hthere⟩
  sessions := fun session hsession hid => by
    rcases pySegment_sessions hseg hsession with hold | ⟨body, user, rfl, rfl, -, huser⟩
    · exact h.sessions session hold hid
    · have hacts : user.id = id := huser.symm.trans hid
      exact .inr ⟨i, _, user, (h.waits i _ htask hacts).same (by simp), hacts⟩
  records := fun r hr => by
    rcases mem_records_segment hseg hr with hold | rfl
    · exact h.records r hold
    · exact .inr ⟨i, request, h.waits i _ htask rfl⟩

/-- **A step** keeps `PyLockedOut`, unless it approves the account or is one of a verification that
waits to save it since before the block. -/
lemma pyLockedOut_step (hs : t.step y a = some c')
    (happrove : ∀ selected, a = .approve selected → id ∉ selected)
    (hsave : ∀ i read request, a = .run i read → c.tasks i ≠ some ⟨request, .saveUser id⟩)
    (h : PyLockedOut c t u id) : PyLockedOut c c' u id := by
  have hnosave : ∀ i read request, a = .run i read → t.tasks i ≠ some ⟨request, .saveUser id⟩ :=
    fun i read request ha htask =>
      hsave i read request ha ((h.waits i _ htask rfl).same (by simp))
  have htables : TablesOk c' := (h.tables.step hs).1
  have hbars : c'.db.Bars u id := bars_step hs happrove hnosave h.bars
  rcases pyStep_cases hs with ⟨request, -, rfl⟩
    | ⟨i, read, request, pc, o, rfl, htask, -, -, hseg, rfl⟩ | ⟨selected, -, rfl⟩
    | ⟨selected, -, rfl⟩
  · refine ⟨htables, hbars, fun j task hj hacts => ?_, h.sessions, h.records⟩
    have hold : Function.update t.tasks t.next (some ⟨request, .start⟩) j = some task := hj
    rw [Function.update_apply] at hold
    split_ifs at hold
    · obtain rfl := Option.some.inj hold
      exact False.elim hacts
    · exact h.waits j task hold hacts
  · refine h.after htask hseg ?_ htables
    rintro rfl
    exact hnosave i read request rfl htask
  · exact ⟨htables, hbars, h.waits, h.sessions, h.records⟩
  · exact ⟨htables, hbars, h.waits, h.sessions, h.records⟩

variable {as : List PyAction}

/-- **A run** keeps `PyLockedOut`. -/
lemma pyLockedOut_run (hc : TablesOk c) (hbars : c.db.Bars u id)
    (happrove : ∀ selected, .approve selected ∈ as → id ∉ selected)
    (hsave : ∀ i read request, .run i read ∈ as → c.tasks i ≠ some ⟨request, .saveUser id⟩)
    (hrun : exec (PyConfig.step y) c as = some c') : PyLockedOut c c' u id := by
  refine exec_invariant (I := fun t => PyLockedOut c t u id) (fun t a t' ha ht hs => ?_)
    (pyLockedOut_refl hc hbars) hrun
  exact pyLockedOut_step hs (fun selected heq => happrove selected (heq ▸ ha))
    (fun i read request heq => hsave i read request (heq ▸ ha)) ht

/-! ### What is refused -/

/-- The view asks whether `u` may log in, with a password that has a UTF-8 if it is a text, or for
the account behind a session of `u`. -/
def PyTask.AsksFor (y : PyExternals) (d : PyDb) (u : String) (id : ℕ) (task : PyTask) : Prop :=
  (∃ body fields username password, task = ⟨.api (.login body), .start⟩
      ∧ y.dict body = some fields ∧ last "username" fields = some username
      ∧ last "password" fields = some password ∧ isLone password = false
      ∧ y.toStr username = some u)
    ∨ task.pc = .start ∧ ∃ session ∈ d.sessions,
      bearer task.request.header = some session.token ∧ session.userId = id

/-- The view answers that the request is not allowed. -/
def PyOutcome.Rebuffs (o : PyOutcome) : Prop :=
  ∃ r : Response, o.next = .inr (.response r) ∧ (r.status = 401 ∨ r.status = 403)

lemma rebuffs_refuse {status : ℕ} (text : String) (h : status = 401 ∨ status = 403) :
    (answered (refuse d status text)).Rebuffs :=
  ⟨⟨status, .error text⟩, rfl, h⟩

lemma rebuffs_findAccount (hd : d.Consistent) (h : d.Bars u id) {username password : Json}
    (hu : y.toStr username = some u) (hpassword : isLone password = false) :
    (findAccount y username password d).Rebuffs := by
  have hlone : ¬ (isLone username = true ∨ isLone password = true) := by
    rintro (h | h)
    · exact isLone_ne_true hu h
    · rw [hpassword] at h
      cases h
  rw [findAccount, if_neg hlone]
  simp only [hu, Option.bind_some]
  cases hfind : d.users.find? fun row => row.username = u with
  | none =>
      simp only [ite_self]
      exact rebuffs_refuse _ (.inl rfl)
  | some row =>
      have hrow := List.find?_some hfind
      rw [decide_eq_true_iff] at hrow
      have hstatus := h.blocked hd (List.mem_of_find?_eq_some hfind) (.inr hrow)
      simp only [hstatus]
      split_ifs
      · exact rebuffs_refuse _ (.inr rfl)
      · exact rebuffs_refuse _ (.inl rfl)

/-- The session of a token speaks for nobody but its account. -/
lemma rebuffs_findSpeaker (hd : d.Consistent) (h : d.Bars u id) {now : ℕ} {header : Option String}
    {session : SessionRow} (hsession : session ∈ d.sessions)
    (hheader : bearer header = some session.token) (hid : session.userId = id)
    (next : UserRow → PyPc) : (findSpeaker now header d next).Rebuffs := by
  have hnone : authenticate now header d = none := by
    rw [Option.eq_none_iff_forall_ne_some]
    intro user hauth
    obtain ⟨token, htoken, session', hsession', htok, -, -, huser, -⟩ := authenticate_eq_some hauth
    -- it is the one session of the token
    obtain rfl := Option.some.inj (hheader.symm.trans htoken)
    obtain rfl : session' = session :=
      List.inj_on_of_nodup_map hd.tokens hsession' hsession htok
    exact (h.not_authenticate hd hauth).1 (huser.trans hid)
  rw [findSpeaker, hnone]
  exact rebuffs_refuse _ (.inl rfl)

/-- **A view that asks** for a blocked account answers 401 or 403. -/
lemma rebuffs_segment (hd : d.Consistent) (h : d.Bars u id)
    (hasks : PyTask.AsksFor y d u id ⟨request, pc⟩)
    (hseg : pySegment y read d request pc = some o) : o.Rebuffs := by
  rcases hasks with ⟨body, fields, username, password, heq, hbody, hu, hp, hpassword, hname⟩
    | ⟨hpc, session, hsession, hheader, hid⟩
  · obtain ⟨rfl, rfl⟩ := PyTask.mk.inj heq
    obtain rfl := Option.some.inj hseg
    simp only [loginBody, hbody, hu, hp]
    exact rebuffs_findAccount hd h hname hpassword
  · obtain rfl : pc = .start := hpc
    have hnobody : ∀ {token : String}, bearer none = some token → False := fun heq => by cases heq
    cases request with
    | api request =>
        cases request with
        | register header body =>
            obtain rfl := Option.some.inj hseg
            exact rebuffs_findSpeaker hd h hsession hheader hid _
        | deregister header body =>
            obtain rfl := Option.some.inj hseg
            exact rebuffs_findSpeaker hd h hsession hheader hid _
        | _ => exact (hnobody hheader).elim
    | _ => exact (hnobody hheader).elim

/-! ### The whole run -/

/-- A step that changes the records of `u` ends a round of pruning, or belongs to an early view. -/
lemma PyLockedOut.change (h : PyLockedOut c t u id) (hs : t.step y a = some c')
    (hne : JsonRegistry.records c'.db.registry u ≠ JsonRegistry.records t.db.registry u) :
    ∃ i read task, a = .run i read ∧ t.tasks i = some task
      ∧ ((∃ now, task = ⟨.prune, .pruneRecords now⟩) ∨ task.Early c u i) := by
  rcases pyStep_cases hs with ⟨request, -, rfl⟩
    | ⟨i, read, request, pc, o, rfl, htask, -, -, hseg, rfl⟩ | ⟨selected, -, rfl⟩
    | ⟨selected, -, rfl⟩
  · exact absurd rfl hne
  · refine ⟨i, read, _, rfl, htask, ?_⟩
    obtain ⟨now, rfl, rfl, -⟩ | ⟨r, rfl⟩ | ⟨user, rfl, hu⟩ := records_segment hseg hne
    · exact .inl ⟨now, rfl⟩
    · exact .inr (h.waits i _ htask rfl)
    · exact .inr (h.waits i _ htask hu)
  · exact absurd rfl hne
  · exact absurd rfl hne

/-- A step of a view that asks for a blocked account answers it. -/
lemma PyLockedOut.rebuffs (h : PyLockedOut c t u id) {task : PyTask}
    (hs : t.step y (.run i read) = some c') (htask : t.tasks i = some task)
    (hasks : task.AsksFor y t.db u id) :
    ∃ r : Response, c'.calls = t.calls ++ [.ret i (.response r, read.now)]
      ∧ c'.tasks i = none ∧ (r.status = 401 ∨ r.status = 403) := by
  rcases pyStep_cases hs with ⟨request, ha, -⟩
    | ⟨j, read', request, pc, o, ha, htask', -, -, hseg, rfl⟩ | ⟨selected, ha, -⟩
    | ⟨selected, ha, -⟩
  · cases ha
  · cases ha
    obtain rfl := Option.some.inj (htask.symm.trans htask')
    obtain ⟨r, hnext, hstatus⟩ :=
      rebuffs_segment h.tables.tables.consistent h.bars hasks hseg
    refine ⟨r, ?_, ?_, hstatus⟩
    · rw [PyConfig.after, hnext]
      rfl
    · rw [PyConfig.after, hnext]
      exact Function.update_self _ _ _
  · cases ha
  · cases ha

/-- Records that were all too old at `c` are never listed again, if no view was about to write. -/
lemma PyLockedOut.fetch_eq_nil (h : PyLockedOut c t u id) {now : ℤ}
    (hold : ∀ r ∈ JsonRegistry.records c.db.registry u, r.lastSeen + peerTtlSecs < now)
    (hnone : ∀ i request r, ¬ PyTask.Early c u i ⟨request, .putRecord u r⟩) :
    t.db.registry.fetch u now = [] := by
  rw [List.eq_nil_iff_forall_not_mem]
  intro r hr
  obtain ⟨hr, hcut⟩ := List.mem_filter.mp hr
  rw [decide_eq_true_iff] at hcut
  rcases h.records r hr with hr | ⟨i, request, hearly⟩
  · have hexpired := hold r hr
    omega
  · exact hnone i request r hearly

/-- **A blocked user is locked out of the Python server too.**  Take any run from a reachable state
in which the account of `u` is blocked, however the statements of the views and the admin actions
interleave, in which no admin approves the account and no verification saves it that had found it
pending before.  Then a session or a record of `u` at its end was there before, or comes from a view
that had passed its check before the block.  Every login for `u` that `AsksFor` describes and every
request with a session of the account is answered 401 or 403.  Prune rounds apart, only views that
had passed their check change the records of `u`; and if none was about to write, the devices of
`u` are gone from every list once the TTL is over. -/
theorem py_blocked_user_locked_out (hc : Reachable (PyConfig.step y) PyConfig.start c)
    (hbars : c.db.Bars u id) (happrove : ∀ selected, .approve selected ∈ as → id ∉ selected)
    (hsave : ∀ i read request, .run i read ∈ as → c.tasks i ≠ some ⟨request, .saveUser id⟩)
    (hrun : exec (PyConfig.step y) c as = some c') :
    PyLockedOut c c' u id
      ∧ (∀ t ∈ trace (PyConfig.step y) c as, ∀ i read task, t.2.1 = .run i read →
          t.1.tasks i = some task → task.AsksFor y t.1.db u id →
          ∃ r : Response, t.2.2.calls = t.1.calls ++ [.ret i (.response r, read.now)]
            ∧ t.2.2.tasks i = none ∧ (r.status = 401 ∨ r.status = 403))
      ∧ (∀ t ∈ trace (PyConfig.step y) c as,
          JsonRegistry.records t.2.2.db.registry u ≠ JsonRegistry.records t.1.db.registry u →
          ∃ i read task, t.2.1 = .run i read ∧ t.1.tasks i = some task
            ∧ ((∃ now, task = ⟨.prune, .pruneRecords now⟩) ∨ task.Early c u i))
      ∧ ∀ now : ℤ,
          (∀ r ∈ JsonRegistry.records c.db.registry u, r.lastSeen + peerTtlSecs < now) →
          (∀ i request r, ¬ PyTask.Early c u i ⟨request, .putRecord u r⟩) →
          c'.db.registry.fetch u now = [] := by
  have hok := tablesOk_reachable hc
  -- the invariant holds before every transition of the run
  have hbefore : ∀ t ∈ trace (PyConfig.step y) c as,
      PyLockedOut c t.1 u id ∧ t.1.step y t.2.1 = some t.2.2 := by
    intro t ht
    obtain ⟨done, rest, rfl, hdone, hs⟩ := exists_of_mem_trace ht
    refine ⟨pyLockedOut_run hok hbars (fun selected hmem => ?_) (fun i read request hmem => ?_)
      hdone, hs⟩
    · exact happrove selected (List.mem_append_left _ hmem)
    · exact hsave i read request (List.mem_append_left _ hmem)
  have hend : PyLockedOut c c' u id := pyLockedOut_run hok hbars happrove hsave hrun
  refine ⟨hend, fun t ht i read task hrun htask hasks => ?_, fun t ht hne => ?_,
    fun now hold hnone => hend.fetch_eq_nil hold hnone⟩
  · obtain ⟨h, hs⟩ := hbefore t ht
    rw [hrun] at hs
    exact h.rebuffs hs htask hasks
  · obtain ⟨h, hs⟩ := hbefore t ht
    exact h.change hs hne

/-- Alice has logged in, and is blocked. -/
def aliceLogsInBlocked : List PyAction := aliceExpires.take 7 ++ [.block [1]]

/-- She sends a device with her token, and logs in again. -/
def aliceTriesAgain : List PyAction :=
  [.arrive (.api (.register (some "Bearer secret") (.obj [("username", .str "alice"),
      ("node_id", .str "node"), ("addrs", .arr [])]))),
    .run 2 { token := "t4", now := 5 },
    .arrive (.api (.login (.obj [("username", .str "alice"), ("password", .str "pw")]))),
    .run 3 { token := "t5", now := 6 }]

theorem alice_tries_again : ∃ c c',
    exec (PyConfig.step plainPy) PyConfig.start aliceLogsInBlocked = some c
    ∧ exec (PyConfig.step plainPy) c aliceTriesAgain = some c'
    ∧ c'.tasks 2 = none ∧ c'.tasks 3 = none ∧ PyLockedOut c c' "alice" 1 := by
  have hall : ((exec (PyConfig.step plainPy) PyConfig.start aliceLogsInBlocked).bind fun c =>
      (exec (PyConfig.step plainPy) c aliceTriesAgain).map fun c' =>
        (c.db.users.map (fun row => (row.id, row.username, row.status)),
          (c.tasks 2).isNone && (c.tasks 3).isNone, (c'.tasks 2).isNone && (c'.tasks 3).isNone))
      = some ([(1, "alice", .blocked)], true, true) := by decide
  obtain ⟨c, hc, hrest⟩ := Option.bind_eq_some_iff.mp hall
  obtain ⟨c', hc', heq⟩ := Option.map_eq_some_iff.mp hrest
  simp only [Prod.mk.injEq, Bool.and_eq_true, Option.isNone_iff_eq_none] at heq
  obtain ⟨husers, ⟨hidle, hidle'⟩, hdone, hdone'⟩ := heq
  have hbars : c.db.Bars "alice" 1 := by
    have hmem : (1, "alice", .blocked) ∈ c.db.users.map fun row =>
        (row.id, row.username, row.status) := by
      rw [husers]
      exact List.mem_singleton_self _
    obtain ⟨row, hrow, hkeys⟩ := List.mem_map.mp hmem
    simp only [Prod.mk.injEq] at hkeys
    exact ⟨row, hrow, hkeys⟩
  refine ⟨c, c', hc, hc', hdone, hdone', ?_⟩
  refine (py_blocked_user_locked_out (Reachable.init.exec hc) hbars ?_ ?_ hc').1
  · simp [aliceTriesAgain]
  · intro i read request hmem
    simp only [aliceTriesAgain, List.mem_cons, PyAction.run.injEq, reduceCtorEq, false_or,
      List.not_mem_nil, or_false] at hmem
    rcases hmem with ⟨rfl, -⟩ | ⟨rfl, -⟩
    · simp [hidle]
    · simp [hidle']

end Rendezvous
