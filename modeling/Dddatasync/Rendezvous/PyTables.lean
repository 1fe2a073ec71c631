import Dddatasync.Rendezvous.PyViews

/-!
The tables of the Python server under any interleaving of its views and the admin actions.

* `Tables`: unique names, addresses, ids, open links and session tokens, all of them old;
  `Tables.map`: rewriting rows one by one keeps it.
* `TableMove`, `table_segment`: what a segment does to the tables.
* `TablesOk`, `tablesOk_reachable`: the invariant of the server; `UserRow.Same`, `rows_kept`: a
  run keeps every row up to its status and its link.
* `rows_unique`: no interleaving makes two accounts of one name or address, and none takes an
  account away or changes its name, its address or its password.
-/

namespace Rendezvous

open Runs

/-- The unique keys of the tables; open links and session tokens were generated before. -/
structure Tables (d : PyDb) (generated : List String) : Prop where
  consistent : d.Consistent
  emails : (d.users.map (·.email)).Nodup
  links_old : ∀ row ∈ d.users, row.status = .pending → row.verificationToken ∈ generated
  sessions_old : ∀ session ∈ d.sessions, session.token ∈ generated

/-- The same account, up to its status and its verification token. -/
structure UserRow.Same (a b : UserRow) : Prop where
  id : a.id = b.id
  username : a.username = b.username
  email : a.email = b.email
  passwordHash : a.passwordHash = b.passwordHash

lemma UserRow.Same.refl (a : UserRow) : a.Same a := ⟨rfl, rfl, rfl, rfl⟩

lemma UserRow.Same.trans {a b d : UserRow} (h : a.Same b) (h' : b.Same d) : a.Same d :=
  ⟨h.id.trans h'.id, h.username.trans h'.username, h.email.trans h'.email,
    h.passwordHash.trans h'.passwordHash⟩

variable {y : PyExternals} {read : Reading} {d : PyDb} {generated : List String}
  {request : PyRequest} {pc : PyPc} {o : PyOutcome} {c c' : PyConfig} {a : PyAction}

lemma Tables.cons (h : Tables d generated) (token : String) : Tables d (token :: generated) :=
  ⟨h.consistent, h.emails, fun row hrow hp => List.mem_cons_of_mem _ (h.links_old row hrow hp),
    fun session hs => List.mem_cons_of_mem _ (h.sessions_old session hs)⟩

/-! ### Rewriting rows -/

/-- A row is rewritten to another state of the same account, and stays as it is if it is pending
then. -/
structure Rewrites (f : UserRow → UserRow) : Prop where
  same : ∀ row : UserRow, row.Same (f row)
  pending : ∀ row : UserRow, (f row).status = .pending → f row = row

lemma rewrites_approve (p : UserRow → Prop) [DecidablePred p] :
    Rewrites fun row => if p row then row.approved else row where
  same := fun row => by
    split_ifs
    · exact ⟨rfl, rfl, rfl, rfl⟩
    · exact .refl row
  pending := fun row hrow => by
    split_ifs at hrow ⊢
    · cases hrow
    · rfl

lemma rewrites_block (p : UserRow → Prop) [DecidablePred p] :
    Rewrites fun row => if p row then { row with status := .blocked } else row where
  same := fun row => by
    split_ifs
    · exact ⟨rfl, rfl, rfl, rfl⟩
    · exact .refl row
  pending := fun row hrow => by
    split_ifs at hrow ⊢
    rfl

/-- Rewriting rows one by one keeps the unique keys. -/
lemma Tables.map (h : Tables d generated) {f : UserRow → UserRow} (hf : Rewrites f) :
    Tables { d with users := d.users.map f } generated := by
  have hmap : ∀ {α : Type} (g : UserRow → α), (∀ row, g row = g (f row)) →
      (d.users.map f).map g = d.users.map g := by
    intro α g hg
    rw [List.map_map]
    exact List.map_congr_left fun row _ => (hg row).symm
  -- a row that is pending now is an old row
  have hold : ∀ row ∈ d.users.map f, row.status = .pending → row ∈ d.users := by
    intro row hrow hp
    obtain ⟨old, hmem, rfl⟩ := List.mem_map.mp hrow
    rw [hf.pending old hp]
    exact hmem
  refine ⟨⟨?_, ?_, ?_, h.consistent.tokens, ?_⟩, ?_, ?_, h.sessions_old⟩
  · rw [hmap _ fun row => (hf.same row).username]
    exact h.consistent.names
  · rw [hmap _ fun row => (hf.same row).id]
    exact h.consistent.ids
  · intro row hrow row' hrow' hp hp'
    exact h.consistent.links row (hold row hrow hp) row' (hold row' hrow' hp') hp hp'
  · intro session hs
    obtain ⟨row, hrow, hid⟩ := h.consistent.owned session hs
    exact ⟨f row, List.mem_map_of_mem hrow, (hf.same row).id.symm.trans hid⟩
  · rw [hmap _ fun row => (hf.same row).email]
    exact h.emails
  · intro row hrow hp
    exact h.links_old row (hold row hrow hp) hp

/-- A new row with a free name and a free address, whose link was just generated. -/
lemma Tables.insert (h : Tables d generated) (hfresh : read.token ∉ generated)
    {username email password : String}
    (hfree : ∀ row ∈ d.users, row.username ≠ username ∧ row.email ≠ email) :
    Tables (d.withUser (newRow y read d username email password)) (read.token :: generated) := by
  have hlink : (newRow y read d username email password).status = .pending →
      (newRow y read d username email password).verificationToken = read.token := by
    intro hp
    by_cases hauto : read.autoApprove = true
    · simp [newRow, hauto] at hp
    · simp [newRow, hauto]
  refine ⟨consistent_withUser h.consistent (fun row hrow => (hfree row hrow).1) nextId_ne ?_, ?_,
    ?_, fun session hs => List.mem_cons_of_mem _ (h.sessions_old session hs)⟩
  · intro hp row hrow hp' heq
    rw [hlink hp] at heq
    exact hfresh (heq ▸ h.links_old row hrow hp')
  · rw [PyDb.withUser, List.map_append, List.nodup_append]
    refine ⟨h.emails, List.nodup_singleton _, ?_⟩
    rintro e he e' he' rfl
    obtain ⟨row, hrow, rfl⟩ := List.mem_map.mp he
    exact (hfree row hrow).2 (List.mem_singleton.mp he')
  · intro row hrow hp
    rcases List.mem_append.mp hrow with hrow | hrow
    · exact List.mem_cons_of_mem _ (h.links_old row hrow hp)
    · rw [List.mem_singleton.mp hrow] at hp ⊢
      rw [hlink hp]
      exact List.mem_cons_self

/-- A new session of an account that is there. -/
lemma Tables.session (h : Tables d generated) (hfresh : read.token ∉ generated) {user : UserRow}
    (huser : ∃ row ∈ d.users, row.id = user.id) :
    Tables (createSessionToken read user d) (read.token :: generated) := by
  have hnew : ∀ session ∈ d.sessions, session.token ≠ read.token := by
    intro session hs heq
    exact hfresh (heq ▸ h.sessions_old session hs)
  refine ⟨⟨h.consistent.names, h.consistent.ids, h.consistent.links, ?_, ?_⟩, h.emails,
    (h.cons _).links_old, ?_⟩
  · rw [createSessionToken, List.map_append, List.nodup_append]
    refine ⟨h.consistent.tokens, List.nodup_singleton _, ?_⟩
    rintro t ht t' ht' rfl
    obtain ⟨session, hs, rfl⟩ := List.mem_map.mp ht
    exact hnew session hs (List.mem_singleton.mp ht')
  · intro session hs
    rcases List.mem_append.mp hs with hs | hs
    · exact h.consistent.owned session hs
    · rw [List.mem_singleton.mp hs]
      exact huser
  · intro session hs
    rcases List.mem_append.mp hs with hs | hs
    · exact List.mem_cons_of_mem _ (h.sessions_old session hs)
    · rw [List.mem_singleton.mp hs]
      exact List.mem_cons_self

/-! ### What a segment does to the tables -/

/-- What a segment does to the tables: nothing, or one `INSERT` or `UPDATE`. -/
inductive TableMove (y : PyExternals) (read : Reading) (d : PyDb) : PyPc → PyOutcome → Prop
  | idle (pc : PyPc) (o : PyOutcome) (husers : o.db.users = d.users)
      (hsessions : o.db.sessions = d.sessions)
      (hnext : ∀ user, o.next = .inl (.insertSession user) → user ∈ d.users) :
      TableMove y read d pc o
  | inserted (pc : PyPc) (username email password : String)
      (hfree : ∀ row ∈ d.users, row.username ≠ username ∧ row.email ≠ email)
      (o : PyOutcome) (hdb : o.db = d.withUser (newRow y read d username email password))
      (hnext : ∀ pc', o.next ≠ .inl pc') : TableMove y read d pc o
  | saved (id : ℕ) : TableMove y read d (.saveUser id) (saveUser id d)
  | opened (user : UserRow) :
      TableMove y read d (.insertSession user) (insertSession read user d)

/-- A segment that answers and touches the registry at most. -/
lemma TableMove.answer {answer : PyDb × Response} (husers : answer.1.users = d.users)
    (hsessions : answer.1.sessions = d.sessions) : TableMove y read d pc (answered answer) :=
  .idle _ _ husers hsessions (by simp [answered])

/-- A segment that goes on to anything but the `INSERT` of a session. -/
lemma TableMove.wait {pc' : PyPc} (hpc' : ∀ user, pc' ≠ .insertSession user) :
    TableMove y read d pc (d.wait pc') :=
  .idle _ _ rfl rfl fun user h => absurd (Sum.inl.inj h) (hpc' user)

lemma tableMove_findName (body : Json) : TableMove y read d pc (findName y body d) := by
  unfold findName
  split
  · split
    · simp only
      split_ifs
      · exact .answer rfl rfl
      · exact .answer rfl rfl
      · exact .wait (by simp)
    · exact .answer (by rw [refuseSignup_fst]) (by rw [refuseSignup_fst])
  · exact .answer rfl rfl

lemma tableMove_insertUser (username email : String) (password : Json) :
    TableMove y read d pc (insertUser y read username email password d) := by
  cases password with
  | str password =>
      simp only [insertUser]
      split_ifs with hclash
      · exact .answer rfl rfl
      · refine .inserted _ username email password (fun row hrow => ?_) _ rfl (by simp [answered])
        rw [Bool.not_eq_true, List.any_eq_false] at hclash
        have hrow := hclash row hrow
        rw [decide_eq_true_iff] at hrow
        exact not_or.mp hrow
  | _ => exact .answer rfl rfl

lemma tableMove_findAccount (username password : Json) :
    TableMove y read d pc (findAccount y username password d) := by
  by_cases hlone : isLone username = true ∨ isLone password = true
  · rw [findAccount, if_pos hlone]
    exact .answer rfl rfl
  rw [findAccount, if_neg hlone]
  cases hfound : (y.toStr username).bind fun name =>
      d.users.find? fun row => row.username = name with
  | none =>
      simp only [ite_self]
      exact .answer rfl rfl
  | some row =>
      obtain ⟨name, -, hfind⟩ := Option.bind_eq_some_iff.mp hfound
      simp only
      split_ifs
      · cases row.status with
        | pending => exact .answer rfl rfl
        | blocked => exact .answer rfl rfl
        | approved =>
            refine .idle _ _ rfl rfl fun user h => ?_
            obtain rfl : row = user := PyPc.insertSession.inj (Sum.inl.inj h)
            exact List.mem_of_find?_eq_some hfind
      · exact .answer rfl rfl

lemma tableMove_readBody {now : ℕ} (user : UserRow) (body : Json) :
    TableMove y read d pc (readBody y now user body d) := by
  unfold readBody
  split
  · split
    · split_ifs
      · exact .answer rfl rfl
      · split
        · exact .wait (by simp)
        · exact .answer rfl rfl
    · exact .answer rfl rfl
  · exact .answer rfl rfl

lemma deregisterAs_tables (username : String) (body : Json) :
    (deregisterAs y username body d).1.users = d.users
      ∧ (deregisterAs y username body d).1.sessions = d.sessions := by
  unfold deregisterAs
  split
  · split
    · split_ifs
      · exact ⟨rfl, rfl⟩
      · split <;> exact ⟨rfl, rfl⟩
    · exact ⟨rfl, rfl⟩
  · exact ⟨rfl, rfl⟩

/-- **What a segment does to the tables.** -/
theorem table_segment (hseg : pySegment y read d request pc = some o) :
    TableMove y read d pc o := by
  have hspeaker : ∀ header next, (∀ user user', next user ≠ PyPc.insertSession user') →
      TableMove y read d .start (findSpeaker read.now header d next) := by
    intro header next hnext
    rw [findSpeaker]
    split
    · exact .answer rfl rfl
    · exact .wait (hnext _)
  unfold pySegment at hseg
  split at hseg <;> cases hseg
  · exact tableMove_findName _
  · rw [findEmail]
    split_ifs
    · exact .answer rfl rfl
    · exact .wait (by simp)
  · exact tableMove_insertUser _ _ _
  · rw [findPending]
    split
    · exact .answer rfl rfl
    · exact .wait (by simp)
    · exact .answer rfl rfl
  · exact .saved _
  · unfold loginBody
    split
    · split
      · exact tableMove_findAccount _ _
      · exact .answer rfl rfl
    · exact .answer rfl rfl
  · exact .opened _
  · exact hspeaker _ _ (by simp)
  · exact tableMove_readBody _ _
  · exact .answer rfl rfl
  · exact hspeaker _ _ (by simp)
  · exact .answer (deregisterAs_tables _ _).1 (deregisterAs_tables _ _).2
  · exact .wait (by simp)
  · exact .idle _ _ rfl rfl (by simp [listRecords])
  · exact .wait (by simp)
  · exact .answer rfl rfl

/-! ### The invariant -/

/-- The tables and the views between their statements. -/
structure TablesOk (c : PyConfig) : Prop where
  tables : Tables c.db c.generated
  sessions : ∀ i request user, c.tasks i = some ⟨request, .insertSession user⟩ →
    ∃ row ∈ c.db.users, row.id = user.id

/-- Every row of a table is still there, up to its status and its link. -/
def RowsKept (users users' : List UserRow) : Prop :=
  ∀ row ∈ users, ∃ row' ∈ users', row.Same row'

lemma RowsKept.refl (users : List UserRow) : RowsKept users users :=
  fun row hrow => ⟨row, hrow, .refl row⟩

lemma RowsKept.trans {users₁ users₂ users₃ : List UserRow} (h : RowsKept users₁ users₂)
    (h' : RowsKept users₂ users₃) : RowsKept users₁ users₃ := by
  intro row hrow
  obtain ⟨row₂, hrow₂, hsame⟩ := h row hrow
  obtain ⟨row₃, hrow₃, hsame'⟩ := h' row₂ hrow₂
  exact ⟨row₃, hrow₃, hsame.trans hsame'⟩

lemma rowsKept_map {users : List UserRow} {f : UserRow → UserRow} (hf : Rewrites f) :
    RowsKept users (users.map f) :=
  fun row hrow => ⟨f row, List.mem_map_of_mem hrow, hf.same row⟩

lemma py_tasks_after {i j : ℕ} {task : PyTask}
    (h : (c.after i request read o).tasks j = some task) :
    (j ≠ i ∧ c.tasks j = some task) ∨ j = i ∧ ∃ pc, o.next = .inl pc ∧ task = ⟨request, pc⟩ := by
  rw [PyConfig.after] at h
  simp only [Function.update_apply] at h
  split_ifs at h with hj
  · cases hnext : o.next with
    | inl pc =>
        rw [hnext] at h
        exact .inr ⟨hj, pc, rfl, (Option.some.inj h).symm⟩
    | inr answer =>
        rw [hnext] at h
        cases h
  · exact .inl ⟨hj, h⟩

/-- A segment keeps the unique keys and every row. -/
lemma TablesOk.after (h : TablesOk c) {i : ℕ} (htask : c.tasks i = some ⟨request, pc⟩)
    (hfresh : read.token ∉ c.generated) (hmove : TableMove y read c.db pc o) :
    TablesOk (c.after i request read o) ∧ RowsKept c.db.users o.db.users := by
  -- the sessions that wait still find their account
  have hwaits : RowsKept c.db.users o.db.users →
      (∀ user, o.next = .inl (.insertSession user) → user ∈ c.db.users) →
      Tables o.db (read.token :: c.generated) →
      TablesOk (c.after i request read o) ∧ RowsKept c.db.users o.db.users := by
    intro hkept hnext htables
    refine ⟨⟨htables, fun j request' user hj => ?_⟩, hkept⟩
    have hfind : ∃ row ∈ c.db.users, row.id = user.id := by
      rcases py_tasks_after hj with ⟨-, hj⟩ | ⟨-, pc', hpc', heq⟩
      · exact h.sessions j request' user hj
      · obtain rfl := (PyTask.mk.inj heq).2
        exact ⟨user, hnext user hpc', rfl⟩
    obtain ⟨row, hrow, hid⟩ := hfind
    obtain ⟨row', hrow', hsame⟩ := hkept row hrow
    exact ⟨row', hrow', hsame.id.symm.trans hid⟩
  cases hmove with
  | idle _ _ husers hsessions hnext =>
      refine hwaits ?_ hnext ?_
      · rw [husers]
        exact .refl _
      · have hcons := h.tables.cons read.token
        refine ⟨⟨?_, ?_, ?_, ?_, ?_⟩, ?_, ?_, ?_⟩
        all_goals simp only [husers, hsessions]
        · exact hcons.consistent.names
        · exact hcons.consistent.ids
        · exact hcons.consistent.links
        · exact hcons.consistent.tokens
        · exact hcons.consistent.owned
        · exact hcons.emails
        · exact hcons.links_old
        · exact hcons.sessions_old
  | inserted _ username email password hfree _ hdb hnext =>
      refine hwaits ?_ (fun user h => absurd h (hnext _)) ?_
      · rw [hdb]
        exact fun row hrow => ⟨row, List.mem_append_left _ hrow, .refl row⟩
      · rw [hdb]
        exact h.tables.insert hfresh hfree
  | saved id =>
      have hrewrites := rewrites_approve fun row => row.id = id
      exact hwaits (rowsKept_map hrewrites) (by simp [saveUser, answered])
        ((h.tables.cons _).map hrewrites)
  | opened user =>
      exact hwaits (.refl _) (by simp [insertSession, answered])
        (h.tables.session hfresh (h.sessions i request user htask))

lemma tablesOk_start : TablesOk PyConfig.start where
  tables :=
    { consistent :=
        { names := List.nodup_nil
          ids := List.nodup_nil
          links := fun _ h => by cases h
          tokens := List.nodup_nil
          owned := fun _ h => by cases h }
      emails := List.nodup_nil
      links_old := fun _ h => by cases h
      sessions_old := fun _ h => by cases h }
  sessions := fun _ _ _ h => by cases h

/-- An admin action keeps the unique keys and every row. -/
lemma TablesOk.rewrite (h : TablesOk c) {f : UserRow → UserRow} (hf : Rewrites f) :
    TablesOk { c with db := { c.db with users := c.db.users.map f } } := by
  refine ⟨h.tables.map hf, fun j request user hj => ?_⟩
  obtain ⟨row, hrow, hid⟩ := h.sessions j request user hj
  exact ⟨f row, List.mem_map_of_mem hrow, (hf.same row).id.symm.trans hid⟩

/-- **A step** keeps the unique keys and every row. -/
lemma TablesOk.step (h : TablesOk c) (hs : c.step y a = some c') :
    TablesOk c' ∧ RowsKept c.db.users c'.db.users := by
  rcases pyStep_cases hs with ⟨request, -, rfl⟩
    | ⟨i, read, request, pc, o, -, htask, hfresh, -, ho, rfl⟩ | ⟨selected, -, rfl⟩
    | ⟨selected, -, rfl⟩
  · refine ⟨⟨h.tables, fun j request' user hj => ?_⟩, .refl _⟩
    have hold : Function.update c.tasks c.next (some ⟨request, .start⟩) j
        = some ⟨request', .insertSession user⟩ := hj
    rw [Function.update_apply] at hold
    split_ifs at hold
    · cases hold
    · exact h.sessions j request' user hold
  · exact h.after htask hfresh (table_segment ho)
  · have hrewrites := rewrites_block fun row => row.id ∈ selected
    exact ⟨h.rewrite hrewrites, rowsKept_map hrewrites⟩
  · have hrewrites := rewrites_approve fun row => row.id ∈ selected
    exact ⟨h.rewrite hrewrites, rowsKept_map hrewrites⟩

lemma tablesOk_reachable (hc : Reachable (PyConfig.step y) PyConfig.start c) : TablesOk c :=
  hc.invariant tablesOk_start fun _ _ _ h hs => (h.step hs).1

/-- A run keeps every row. -/
lemma rows_kept {as : List PyAction} (h : TablesOk c)
    (hrun : exec (PyConfig.step y) c as = some c') : RowsKept c.db.users c'.db.users := by
  have hboth : TablesOk c' ∧ RowsKept c.db.users c'.db.users :=
    exec_invariant (I := fun t => TablesOk t ∧ RowsKept c.db.users t.db.users)
      (fun _ _ _ _ ht hs => ⟨(ht.1.step hs).1, ht.2.trans (ht.1.step hs).2⟩)
      ⟨h, .refl _⟩ hrun
  exact hboth.2

/-- **No interleaving spoils the accounts of the Python server.**  However the statements of its
views and of the admin actions are mixed, no two accounts share a name, an address or an id, no
two pending accounts share a link, no two sessions share a token, and every session has its
account; and from then on no account goes away or changes its id, its name, its address or the
hash of its password. -/
theorem rows_unique (hc : Reachable (PyConfig.step y) PyConfig.start c) :
    ((c.db.users.map (·.username)).Nodup ∧ (c.db.users.map (·.email)).Nodup
        ∧ (c.db.users.map (·.id)).Nodup ∧ (c.db.sessions.map (·.token)).Nodup)
      ∧ (∀ row ∈ c.db.users, ∀ row' ∈ c.db.users, row.status = .pending →
        row'.status = .pending → row.verificationToken = row'.verificationToken → row = row')
      ∧ (∀ session ∈ c.db.sessions, ∃ row ∈ c.db.users, row.id = session.userId)
      ∧ ∀ as c', exec (PyConfig.step y) c as = some c' → ∀ row ∈ c.db.users,
        ∃ row' ∈ c'.db.users, row.Same row' := by
  have h := tablesOk_reachable hc
  exact ⟨⟨h.tables.consistent.names, h.tables.emails, h.tables.consistent.ids,
    h.tables.consistent.tokens⟩, h.tables.consistent.links, h.tables.consistent.owned,
    fun as c' hrun => rows_kept h hrun⟩

/-- Two signups of one name, both past their queries before the first `INSERT`. -/
def racingSignups : List PyAction :=
  let body (email : String) : Json :=
    .obj [("username", .str "alice"), ("email", .str email), ("password", .str "pw")]
  [.arrive (.api (.signup (body "a@b"))), .arrive (.api (.signup (body "c@d"))),
    .run 0 { token := "t0" }, .run 1 { token := "t1" }, .run 0 { token := "t2" },
    .run 1 { token := "t3" }, .run 1 { token := "t4", now := 1 },
    .run 0 { token := "t5", now := 2 }]

theorem racingSignups_unique : ∃ c, exec (PyConfig.step plainPy) PyConfig.start racingSignups
      = some c
    ∧ c.db.users.map (fun row => (row.username, row.email)) = [("alice", "c@d")]
    ∧ (c.db.users.map (·.username)).Nodup := by
  have hrun : ((exec (PyConfig.step plainPy) PyConfig.start racingSignups).map fun c =>
      c.db.users.map fun row => (row.username, row.email)) = some [("alice", "c@d")] := by decide
  obtain ⟨c, hc, husers⟩ := Option.map_eq_some_iff.mp hrun
  exact ⟨c, hc, husers, (rows_unique (Reachable.init.exec hc)).1.1⟩

end Rendezvous
