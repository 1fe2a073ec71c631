import Dddatasync.Rendezvous.PyRecordHistory
import Dddatasync.Rendezvous.PyTables

/-!
Who changes the registry of the Python server, under any interleaving of its views.

* `SignsIn`: what a login view has seen of the account it opens a session for.
* `Owner`: a session of the account was found for the token of a request, and that token had been
  handed to a login of the account.
* `OwnedOk`: every session comes from a login, and every view past `_authenticate` has an owner;
  `ownedOk_run`.
* `py_records_owned`: a step that changes the records of a user is a round of pruning or belongs
  to a request with such an owner.
-/

namespace Rendezvous

open Runs Json

variable {y : PyExternals} {read : Reading} {d : PyDb} {request : PyRequest} {pc : PyPc}
  {o : PyOutcome} {c c' : PyConfig} {i : ℕ} {u : String}

/-- The body of a login names the approved account `user` of the table and gives a password that
fits its hash. -/
def SignsIn (y : PyExternals) (d : PyDb) (body : Json) (user : UserRow) : Prop :=
  ∃ fields username password, body = .obj fields ∧ last "username" fields = some username
    ∧ last "password" fields = some password ∧ user ∈ d.users
    ∧ y.toStr username = some user.username ∧ user.status = .approved
    ∧ checkPassword y password user.passwordHash = true

/-- A login that goes on has signed in. -/
lemma signsIn_of_loginBody {body : Json} {pc' : PyPc}
    (h : (loginBody y body d).next = .inl pc') :
    ∃ user, pc' = .insertSession user ∧ SignsIn y d body user := by
  rw [loginBody] at h
  split at h
  · rename_i fields hbody
    split at h
    · rename_i username password hu hp
      by_cases hlone : isLone username = true ∨ isLone password = true
      · rw [findAccount, if_pos hlone] at h
        cases h
      rw [findAccount, if_neg hlone] at h
      simp only at h
      split at h
      · simp only [ite_self] at h
        cases h
      · rename_i row hfound
        obtain ⟨name, hname, hfind⟩ := Option.bind_eq_some_iff.mp hfound
        split_ifs at h with hcheck
        · split at h
          · cases h
          · cases h
          · rename_i hstatus
            have hrow := List.find?_some hfind
            rw [decide_eq_true_iff] at hrow
            exact ⟨row, (Sum.inl.inj h).symm, fields, username, password, eq_obj_of_dict hbody,
              hu, hp, List.mem_of_find?_eq_some hfind, by rw [hname, hrow], hstatus, hcheck⟩
        · cases h
    · cases h
  · cases h

/-- What `_authenticate` finds. -/
lemma authenticate_eq_some {now : ℕ} {header : Option String} {user : UserRow}
    (h : authenticate now header d = some user) : ∃ token, bearer header = some token
      ∧ ∃ session ∈ d.sessions, session.token = token ∧ now < session.expiresAt
        ∧ user ∈ d.users ∧ user.id = session.userId ∧ user.status = .approved := by
  obtain ⟨token, htoken, hhead⟩ := Option.bind_eq_some_iff.mp h
  obtain ⟨session, hsession, huser⟩ := List.mem_filterMap.mp (List.mem_of_head? hhead)
  rw [List.mem_filter, decide_eq_true_iff] at hsession
  obtain ⟨hfind, hstatus⟩ := Option.filter_eq_some_iff.mp huser
  have hid := List.find?_some hfind
  rw [decide_eq_true_iff] at hid
  exact ⟨token, htoken, session, hsession.1, hsession.2.1, hsession.2.2,
    List.mem_of_find?_eq_some hfind, hid, of_decide_eq_true hstatus⟩

/-! ### The run -/

/-- The authorization header of a request. -/
def PyRequest.header : PyRequest → Option String
  | .api (.register header _) => header
  | .api (.deregister header _) => header
  | _ => none

/-- During the run a login signed in and opened a session of the account with this id under this
token. -/
def Granted (y : PyExternals) (as : List PyAction) (token : String) (id : ℕ) : Prop :=
  ∃ done i read body user t, done ++ [.run i read] <+: as
    ∧ exec (PyConfig.step y) PyConfig.start done = some t
    ∧ t.tasks i = some ⟨.api (.login body), .insertSession user⟩
    ∧ read.token = token ∧ user.id = id
    ∧ Sometime (PyConfig.step y) (fun t => SignsIn y t.db body user) PyConfig.start done

/-- During the run `_authenticate` found the account `u` for the token of a request, in a session
that a login of that account had opened. -/
def Owner (y : PyExternals) (as : List PyAction) (header : Option String) (u : String) : Prop :=
  ∃ token user, bearer header = some token ∧ user.username = u ∧ Granted y as token user.id
    ∧ Sometime (PyConfig.step y) (fun t => ∃ now, authenticate now header t.db = some user)
      PyConfig.start as

/-- What a view between two statements owes to the run. -/
def PyTask.Owned (y : PyExternals) (as : List PyAction) (task : PyTask) : Prop :=
  match task.pc with
  | .insertSession user => ∃ body, task.request = .api (.login body)
      ∧ Sometime (PyConfig.step y) (fun t => SignsIn y t.db body user) PyConfig.start as
  | .readBody user => Owner y as task.request.header user.username
  | .dropRecord user => Owner y as task.request.header user.username
  | .putRecord u _ => Owner y as task.request.header u
  | _ => True

/-- Every session comes from a login, and every view past `_authenticate` has an owner. -/
structure OwnedOk (y : PyExternals) (as : List PyAction) (c : PyConfig) : Prop where
  sessions : ∀ session ∈ c.db.sessions, Granted y as session.token session.userId
  tasks : ∀ i task, c.tasks i = some task → task.Owned y as

variable {as as' : List PyAction}

lemma Granted.mono {token : String} {id : ℕ} (h : Granted y as token id) (hpre : as <+: as') :
    Granted y as' token id := by
  obtain ⟨done, i, read, body, user, t, hdone, hrest⟩ := h
  exact ⟨done, i, read, body, user, t, hdone.trans hpre, hrest⟩

lemma Owner.mono {header : Option String} (h : Owner y as header u) (hpre : as <+: as') :
    Owner y as' header u := by
  obtain ⟨token, user, htoken, hu, hgranted, hfound⟩ := h
  exact ⟨token, user, htoken, hu, hgranted.mono hpre, hfound.mono hpre⟩

lemma PyTask.Owned.mono {task : PyTask} (h : task.Owned y as) (hpre : as <+: as') :
    task.Owned y as' := by
  obtain ⟨request, pc⟩ := task
  cases pc with
  | insertSession user =>
      obtain ⟨body, hreq, hsigns⟩ := h
      exact ⟨body, hreq, hsigns.mono hpre⟩
  | readBody user => exact Owner.mono h hpre
  | dropRecord user => exact Owner.mono h hpre
  | putRecord u r => exact Owner.mono h hpre
  | _ => trivial

/-- What a segment has seen when its view goes on. -/
def Seen (y : PyExternals) (d : PyDb) (now : ℕ) (request : PyRequest) (pc : PyPc) :
    PyPc → Prop
  | .insertSession user => ∃ body, request = .api (.login body) ∧ SignsIn y d body user
  | .readBody user => authenticate now request.header d = some user
  | .dropRecord user => authenticate now request.header d = some user
  | .putRecord u _ => ∃ user, pc = .readBody user ∧ user.username = u
  | _ => True

lemma seen_findSpeaker {next : UserRow → PyPc} {now : ℕ} {header : Option String} {pc' : PyPc}
    (h : (findSpeaker now header d next).next = .inl pc') :
    ∃ user, authenticate now header d = some user ∧ pc' = next user := by
  rw [findSpeaker] at h
  cases huser : authenticate now header d with
  | none =>
      rw [huser] at h
      cases h
  | some user =>
      rw [huser] at h
      exact ⟨user, rfl, (Sum.inl.inj h).symm⟩

lemma seen_readBody {now : ℕ} {user : UserRow} {body : Json} {pc' : PyPc}
    (h : (readBody y now user body d).next = .inl pc') :
    ∃ r, pc' = .putRecord user.username r := by
  rw [readBody] at h
  split at h
  · split at h
    · split_ifs at h with hname
      · cases h
      · split at h
        · rw [not_not] at hname
          rw [← hname]
          exact ⟨_, (Sum.inl.inj h).symm⟩
        · cases h
    · cases h
  · cases h

/-- **What a segment has seen** when its view goes on. -/
lemma pySegment_seen (hseg : pySegment y read d request pc = some o) {pc' : PyPc}
    (hnext : o.next = .inl pc') : Seen y d read.now request pc pc' := by
  unfold pySegment at hseg
  split at hseg <;> cases hseg
  · unfold findName at hnext
    split at hnext
    · split at hnext
      · simp only at hnext
        split_ifs at hnext <;> cases hnext
        trivial
      · cases hnext
    · cases hnext
  · rw [findEmail] at hnext
    split_ifs at hnext <;> cases hnext
    trivial
  · rename_i password
    cases password with
    | str password =>
        simp only [insertUser] at hnext
        split_ifs at hnext <;> cases hnext
    | _ => cases hnext
  · rw [findPending] at hnext
    split at hnext <;> cases hnext
    trivial
  · cases hnext
  · obtain ⟨user, rfl, hsigns⟩ := signsIn_of_loginBody hnext
    exact ⟨_, rfl, hsigns⟩
  · cases hnext
  · obtain ⟨user, huser, rfl⟩ := seen_findSpeaker hnext
    exact huser
  · obtain ⟨r, rfl⟩ := seen_readBody hnext
    exact ⟨_, rfl, rfl⟩
  · cases hnext
  · obtain ⟨user, huser, rfl⟩ := seen_findSpeaker hnext
    exact huser
  · cases hnext
  · cases hnext
    trivial
  · cases hnext
  · cases hnext
    trivial
  · cases hnext

/-- A session that a segment leaves behind was there before, or the segment is the `INSERT` of a
login. -/
lemma pySegment_sessions (hseg : pySegment y read d request pc = some o) {session : SessionRow}
    (hs : session ∈ o.db.sessions) : session ∈ d.sessions ∨ ∃ body user,
      request = .api (.login body) ∧ pc = .insertSession user ∧ session.token = read.token
        ∧ session.userId = user.id := by
  cases table_segment hseg with
  | idle _ _ _ hsessions _ => exact .inl (hsessions ▸ hs)
  | inserted _ _ _ _ _ _ hdb _ =>
      rw [hdb] at hs
      exact .inl hs
  | saved id => exact .inl hs
  | opened user =>
      rcases List.mem_append.mp hs with hs | hs
      · exact .inl hs
      · obtain rfl := List.mem_singleton.mp hs
        unfold pySegment at hseg
        split at hseg <;> simp_all

lemma ownedOk_start : OwnedOk y [] PyConfig.start where
  sessions := fun _ h => by cases h
  tasks := fun _ _ h => by cases h

/-- A session that is there when `_authenticate` finds its account makes that account an
owner. -/
lemma owner_of_authenticate (h : OwnedOk y as c)
    (hrun : exec (PyConfig.step y) PyConfig.start as = some c) {now : ℕ}
    {header : Option String} {user : UserRow}
    (hauth : authenticate now header c.db = some user) : Owner y as header user.username := by
  obtain ⟨token, htoken, session, hsession, rfl, -, -, hid, -⟩ := authenticate_eq_some hauth
  exact ⟨session.token, user, htoken, rfl, hid ▸ h.sessions session hsession,
    .now hrun ⟨now, hauth⟩⟩

/-- What a segment has seen is owed to the run. -/
lemma Seen.owned (h : OwnedOk y as c)
    (hrun : exec (PyConfig.step y) PyConfig.start as = some c)
    (htask : c.tasks i = some ⟨request, pc⟩) {now : ℕ} {pc' : PyPc}
    (hseen : Seen y c.db now request pc pc') : PyTask.Owned y as ⟨request, pc'⟩ := by
  cases pc' with
  | insertSession user =>
      obtain ⟨body, hreq, hsigns⟩ := hseen
      exact ⟨body, hreq, .now hrun hsigns⟩
  | readBody user => exact owner_of_authenticate h hrun hseen
  | dropRecord user => exact owner_of_authenticate h hrun hseen
  | putRecord u r =>
      obtain ⟨user, rfl, rfl⟩ := hseen
      have howner : PyTask.Owned y as ⟨request, .readBody user⟩ := h.tasks i _ htask
      exact howner
  | _ => trivial

/-- **A step** keeps every session granted and every view owned. -/
lemma OwnedOk.step (h : OwnedOk y as c)
    (hrun : exec (PyConfig.step y) PyConfig.start as = some c) {a : PyAction}
    (hs : c.step y a = some c') : OwnedOk y (as ++ [a]) c' := by
  have hpre : as <+: as ++ [a] := List.prefix_append as [a]
  have hsessions : ∀ session ∈ c.db.sessions, Granted y (as ++ [a]) session.token session.userId :=
    fun session hsession => (h.sessions session hsession).mono hpre
  have htasks : ∀ i task, c.tasks i = some task → task.Owned y (as ++ [a]) :=
    fun i task htask => (h.tasks i task htask).mono hpre
  rcases pyStep_cases hs with ⟨request, -, rfl⟩
    | ⟨i, read, request, pc, o, rfl, htask, -, -, hseg, rfl⟩ | ⟨selected, -, rfl⟩
    | ⟨selected, -, rfl⟩
  · refine ⟨hsessions, fun j task hj => ?_⟩
    have hold : Function.update c.tasks c.next (some ⟨request, .start⟩) j = some task := hj
    rw [Function.update_apply] at hold
    split_ifs at hold
    · obtain rfl := Option.some.inj hold
      trivial
    · exact htasks j task hold
  · refine ⟨fun session hsession => ?_, fun j task hj => ?_⟩
    · rcases pySegment_sessions hseg hsession with hold | ⟨body, user, rfl, rfl, htoken, hid⟩
      · exact hsessions session hold
      · -- the login signed in before it came to the `INSERT`
        obtain ⟨body', hreq, hsigns⟩ := h.tasks i _ htask
        obtain rfl := ApiRequest.login.inj (PyRequest.api.inj hreq)
        exact ⟨as, i, read, body, user, c, List.prefix_rfl, hrun, htask, htoken.symm, hid.symm,
          hsigns⟩
    · rcases py_tasks_after hj with ⟨-, hj⟩ | ⟨-, pc', hnext, rfl⟩
      · exact htasks j task hj
      · exact ((pySegment_seen hseg hnext).owned h hrun htask).mono hpre
  · exact ⟨hsessions, htasks⟩
  · exact ⟨hsessions, htasks⟩

lemma ownedOk_run (hrun : exec (PyConfig.step y) PyConfig.start as = some c) : OwnedOk y as c :=
  history_invariant ownedOk_start (fun _ _ _ _ _ hdone h hs => h.step hdone hs) hrun

/-! ### Who changes the records -/

/-- What a segment that changes the records of `u` is: the end of a round of pruning, or the part
of a register or deregister view that runs under the lock. -/
def Changes (d : PyDb) (u : String) (o : PyOutcome) (request : PyRequest) (pc : PyPc) : Prop :=
  (∃ now, request = .prune ∧ pc = .pruneRecords now ∧ JsonRegistry.records o.db.registry u
      = JsonRegistry.live now (JsonRegistry.records d.registry u))
    ∨ (∃ r, pc = .putRecord u r) ∨ ∃ user, pc = .dropRecord user ∧ user.username = u

lemma changes_dropRecord {user : UserRow} {body : Json}
    (hne : JsonRegistry.records (dropRecord y user body d).db.registry u
      ≠ JsonRegistry.records d.registry u) : user.username = u := by
  by_contra hu
  apply hne
  rw [dropRecord, answered, deregisterAs]
  split
  · split
    · split_ifs with hname
      · rfl
      · rw [not_not] at hname
        split
        · rw [records_remove, if_neg (hname ▸ Ne.symm hu)]
        · rfl
    · rfl
  · rfl

lemma findSpeaker_db {next : UserRow → PyPc} {now : ℕ} {header : Option String} :
    (findSpeaker now header d next).db = d := by
  rw [findSpeaker]
  split <;> rfl

lemma readBody_db {now : ℕ} {user : UserRow} {body : Json} :
    (readBody y now user body d).db = d := by
  unfold readBody
  split
  · split
    · split_ifs
      · rfl
      · split <;> rfl
    · rfl
  · rfl

/-- **What changes the records of a user.** -/
lemma records_segment (hseg : pySegment y read d request pc = some o)
    (hne : JsonRegistry.records o.db.registry u ≠ JsonRegistry.records d.registry u) :
    Changes d u o request pc := by
  have haside : ∀ o : PyOutcome, o.Aside d →
      JsonRegistry.records o.db.registry u = JsonRegistry.records d.registry u := by
    intro o ho
    rw [ho.1]
  unfold pySegment at hseg
  split at hseg <;> cases hseg
  · exact absurd (haside _ (aside_findName _)) hne
  · exact absurd (haside _ (aside_findEmail _ _ _)) hne
  · exact absurd (haside _ (aside_insertUser _ _ _)) hne
  · exact absurd (haside _ (aside_findPending _)) hne
  · exact absurd rfl hne
  · exact absurd (haside _ (aside_loginBody _)) hne
  · exact absurd rfl hne
  · exact absurd (by rw [findSpeaker_db]) hne
  · exact absurd (by rw [readBody_db]) hne
  · rename_i username record
    refine .inr (.inl ⟨record, ?_⟩)
    by_cases hu : u = username
    · rw [hu]
    · rw [putRecord, answered, records_upsert, if_neg hu] at hne
      exact absurd rfl hne
  · exact absurd (by rw [findSpeaker_db]) hne
  · exact .inr (.inr ⟨_, rfl, changes_dropRecord hne⟩)
  · exact absurd rfl hne
  · exact absurd rfl hne
  · exact absurd rfl hne
  · rename_i now
    exact .inl ⟨now, rfl, rfl, json_records_prune _⟩

/-- **Only its owner changes the records of a user.**  In every run of the Python server, a step
that changes the records of a user is the end of a round of pruning, which drops nothing but
expired ones, or belongs to a request whose token was given to a login of that user. -/
theorem py_records_owned (hrun : exec (PyConfig.step y) PyConfig.start as = some c)
    {a : PyAction} (hs : c.step y a = some c')
    (hne : JsonRegistry.records c'.db.registry u ≠ JsonRegistry.records c.db.registry u) :
    ∃ i read task, a = .run i read ∧ c.tasks i = some task
      ∧ ((∃ now, task = ⟨.prune, .pruneRecords now⟩ ∧ JsonRegistry.records c'.db.registry u
          = JsonRegistry.live now (JsonRegistry.records c.db.registry u))
        ∨ Owner y as task.request.header u) := by
  have hinv := ownedOk_run hrun
  rcases pyStep_cases hs with ⟨request, -, rfl⟩
    | ⟨i, read, request, pc, o, rfl, htask, -, -, hseg, rfl⟩ | ⟨selected, -, rfl⟩
    | ⟨selected, -, rfl⟩
  · exact absurd rfl hne
  · refine ⟨i, read, _, rfl, htask, ?_⟩
    rcases records_segment hseg hne with ⟨now, rfl, rfl, hlive⟩ | ⟨r, rfl⟩ | ⟨user, rfl, rfl⟩
    · exact .inl ⟨now, rfl, hlive⟩
    · exact .inr (hinv.tasks i _ htask)
    · exact .inr (hinv.tasks i _ htask)
  · exact absurd rfl hne
  · exact absurd rfl hne

/-- Alice has logged in and sent a device, which the view is about to write. -/
def aliceSends : List PyAction := aliceExpires.take 10

theorem aliceSends_owned : ∃ c c', exec (PyConfig.step plainPy) PyConfig.start aliceSends = some c
    ∧ c.step plainPy (.run 2 { token := "t6", now := 9 }) = some c'
    ∧ (JsonRegistry.records c'.db.registry "alice").length = 1
    ∧ ∃ i read task, PyAction.run 2 { token := "t6", now := 9 } = .run i read
      ∧ c.tasks i = some task
      ∧ ((∃ now, task = ⟨.prune, .pruneRecords now⟩
          ∧ JsonRegistry.records c'.db.registry "alice"
            = JsonRegistry.live now (JsonRegistry.records c.db.registry "alice"))
        ∨ Owner plainPy aliceSends task.request.header "alice") := by
  have hrun : ((exec (PyConfig.step plainPy) PyConfig.start aliceSends).bind fun c =>
      (c.step plainPy (.run 2 { token := "t6", now := 9 })).map fun c' =>
        ((JsonRegistry.records c.db.registry "alice").length,
          (JsonRegistry.records c'.db.registry "alice").length)) = some (0, 1) := by decide
  obtain ⟨c, hc, hlast⟩ := Option.bind_eq_some_iff.mp hrun
  obtain ⟨c', hc', hlengths⟩ := Option.map_eq_some_iff.mp hlast
  obtain ⟨hbefore, hafter⟩ := Prod.mk.inj hlengths
  refine ⟨c, c', hc, hc', hafter, py_records_owned hc hc' fun heq => ?_⟩
  rw [heq, hbefore] at hafter
  cases hafter

end Rendezvous
