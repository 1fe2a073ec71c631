import Dddatasync.Rendezvous.Directory

/-!
The Python server serving one request after another.

* `pyServe`: a request as it comes over the wire; `pyOrder`: what the views read from it.
* `PyDb.directory`: what the tables say; `PyDb.Consistent`: their unique keys.
* `pyServe_serves`: the server carries out the orders it reads as the directory does, and
  keeps the keys.
-/

namespace Rendezvous

open Json

/-! ### Serving -/

/-- The Python server on one request. -/
def pyServe (y : PyExternals) (read : Reading) (request : ApiRequest) (d : PyDb) :
    PyDb × Response :=
  match request with
  | .signup body => signupView y read body d
  | .login body => loginView y read body d
  | .verify token => verifyView token d
  | .register header body => registerView y read.now header body d
  | .deregister header body => deregisterView y read.now header body d

/-- Whom `register_view` is asked to register a device for. -/
def registrant (y : PyExternals) (body : Json) : Option String :=
  (y.dict body).bind fun m =>
    match last "username" m, last "node_id" m, last "addrs" m with
    | some (.str username), some _, some _ => some username
    | _, _, _ => none

/-- Whom `register_view` is asked to remove a device of. -/
def deregistrant (y : PyExternals) (body : Json) : Option String :=
  (y.dict body).bind fun m =>
    match last "username" m, last "node_id" m with
    | some (.str username), some _ => some username
    | _, _ => none

/-- What the views read from a request. -/
def pyOrder (y : PyExternals) : ApiRequest → Option Order
  | .signup body => (y.dict body).bind fun m =>
      match last "username" m, last "email" m, last "password" m with
      | some (.str username), some (.str email), some (.str password) =>
          some (.signup (strip username) (y.lower (strip email)) password)
      | _, _, _ => none
  | .login body => (y.dict body).bind fun m =>
      match (last "username" m).bind y.toStr, (last "password" m).bind y.toStr with
      | some username, some password => some (.login username password)
      | _, _ => none
  | .verify token => some (.verify token)
  | .register header body => (registrant y body).map (.change (bearer header))
  | .deregister header body => (deregistrant y body).map (.change (bearer header))

/-- What is read from a signup is a signup. -/
lemma pyOrder_signup {y : PyExternals} {body : Json} {order : Order}
    (h : pyOrder y (.signup body) = some order) : ∃ u e p, order = .signup u e p := by
  obtain ⟨m, -, h⟩ := Option.bind_eq_some_iff.mp h
  split at h
  · exact ⟨_, _, _, (Option.some.inj h).symm⟩
  · cases h

/-- What is read from a login is a login. -/
lemma pyOrder_login_eq {y : PyExternals} {body : Json} {order : Order}
    (h : pyOrder y (.login body) = some order) : ∃ u p, order = .login u p := by
  obtain ⟨m, -, h⟩ := Option.bind_eq_some_iff.mp h
  split at h
  · exact ⟨_, _, (Option.some.inj h).symm⟩
  · cases h

/-- The row as the API shows it. -/
def UserRow.view (y : PyExternals) (row : UserRow) : AccountView where
  email := row.email
  status := row.status
  opens := fun attempt => y.checkPassword attempt row.passwordHash

/-- The row of a session's user, with the end of the session. -/
def SessionRow.view (users : List UserRow) (session : SessionRow) : Option (String × ℕ) :=
  (users.find? fun row => row.id = session.userId).map fun row => (row.username, session.expiresAt)

/-- What the tables say. -/
def PyDb.directory (y : PyExternals) (d : PyDb) : Directory where
  account := fun u => (d.users.find? fun row => row.username = u).map (·.view y)
  link := fun t => (d.users.find? fun row => row.verificationToken = t ∧ row.status = .pending).map
    (·.username)
  session := fun t => (d.sessions.find? fun session => session.token = t).bind (·.view d.users)

/-- The unique keys of the tables: usernames, ids, open links and session tokens; and every
session has a user. -/
structure PyDb.Consistent (d : PyDb) : Prop where
  names : (d.users.map (·.username)).Nodup
  ids : (d.users.map (·.id)).Nodup
  links : ∀ row ∈ d.users, ∀ row' ∈ d.users, row.status = .pending → row'.status = .pending →
    row.verificationToken = row'.verificationToken → row = row'
  tokens : (d.sessions.map (·.token)).Nodup
  owned : ∀ session ∈ d.sessions, ∃ row ∈ d.users, row.id = session.userId

/-! ### Unique rows -/

section Unique

variable {α β : Type*} {l : List α} {p q : α → Bool} {a : α}

/-- At most one row of a table is selected. -/
def Unique (p : α → Bool) (l : List α) : Prop :=
  ∀ a ∈ l, ∀ b ∈ l, p a = true → p b = true → a = b

lemma unique_of_nodup [DecidableEq β] {f : α → β} (h : (l.map f).Nodup) (b : β) :
    Unique (fun a => decide (f a = b)) l := by
  intro a ha a' ha' hb hb'
  exact List.inj_on_of_nodup_map h ha ha'
    ((of_decide_eq_true hb).trans (of_decide_eq_true hb').symm)

lemma find?_eq_some_of_unique (h : Unique p l) : l.find? p = some a ↔ a ∈ l ∧ p a = true := by
  constructor
  · exact fun hfind => ⟨List.mem_of_find?_eq_some hfind, List.find?_some hfind⟩
  · rintro ⟨hmem, ha⟩
    obtain ⟨b, hb⟩ := Option.isSome_iff_exists.mp (List.find?_isSome.mpr ⟨a, hmem, ha⟩)
    rw [hb, h b (List.mem_of_find?_eq_some hb) a hmem (List.find?_some hb) ha]

/-- A unique row is all that a query finds. -/
lemma filter_of_unique (hl : l.Nodup) (h : Unique p l) : l.filter p = (l.find? p).toList := by
  induction l with
  | nil => rfl
  | cons b l ih =>
      have htail : Unique p l := fun a ha a' ha' =>
        h a (List.mem_cons_of_mem _ ha) a' (List.mem_cons_of_mem _ ha')
      rw [List.nodup_cons] at hl
      cases hb : p b with
      | false =>
          rw [List.filter_cons_of_neg (by simp [hb]), List.find?_cons_of_neg (by simp [hb])]
          exact ih hl.2 htail
      | true =>
          rw [List.filter_cons_of_pos hb, List.find?_cons_of_pos hb, Option.toList_some,
            List.filter_eq_nil_iff.mpr]
          intro a ha hpa
          exact hl.1 (h a (List.mem_cons_of_mem _ ha) b List.mem_cons_self hpa hb ▸ ha)

end Unique

variable {y : PyExternals} {read : Reading} {d : PyDb} {generated : List String}
  {opens : String → String → Bool} {row : UserRow} {session : SessionRow} {u t : String}
  {a : AccountView}

namespace PyDb.Consistent

lemma find?_name (hd : d.Consistent) :
    (d.users.find? fun row => row.username = u) = some row ↔ row ∈ d.users ∧ row.username = u := by
  rw [find?_eq_some_of_unique (unique_of_nodup hd.names u), decide_eq_true_iff]

lemma find?_id (hd : d.Consistent) {i : ℕ} :
    (d.users.find? fun row => row.id = i) = some row ↔ row ∈ d.users ∧ row.id = i := by
  rw [find?_eq_some_of_unique (unique_of_nodup hd.ids i), decide_eq_true_iff]

lemma find?_token (hd : d.Consistent) :
    (d.sessions.find? fun session => session.token = t) = some session ↔
      session ∈ d.sessions ∧ session.token = t := by
  rw [find?_eq_some_of_unique (unique_of_nodup hd.tokens t), decide_eq_true_iff]

lemma unique_link (hd : d.Consistent) (t : String) :
    Unique (fun row => decide (row.verificationToken = t ∧ row.status = .pending)) d.users := by
  intro row hrow row' hrow' hp hp'
  obtain ⟨ht, hstatus⟩ := of_decide_eq_true hp
  obtain ⟨ht', hstatus'⟩ := of_decide_eq_true hp'
  exact hd.links row hrow row' hrow' hstatus hstatus' (ht.trans ht'.symm)

lemma find?_link (hd : d.Consistent) :
    (d.users.find? fun row => row.verificationToken = t ∧ row.status = .pending) = some row ↔
      row ∈ d.users ∧ row.verificationToken = t ∧ row.status = .pending := by
  rw [find?_eq_some_of_unique (hd.unique_link t), decide_eq_true_iff]

lemma account_eq_some (hd : d.Consistent) :
    (d.directory y).account u = some a ↔
      ∃ row ∈ d.users, row.username = u ∧ row.view y = a := by
  rw [directory, Option.map_eq_some_iff]
  simp only [hd.find?_name, and_assoc]

/-- A username is free if no row has it. -/
lemma account_eq_none (hd : d.Consistent) :
    (d.directory y).account u = none ↔ ∀ row ∈ d.users, row.username ≠ u := by
  rw [Option.eq_none_iff_forall_ne_some]
  simp only [ne_eq, hd.account_eq_some]
  constructor
  · exact fun h row hrow hu => h _ ⟨row, hrow, hu, rfl⟩
  · rintro h a ⟨row, hrow, hu, -⟩
    exact h row hrow hu

lemma link_eq_some (hd : d.Consistent) :
    (d.directory y).link t = some u ↔ ∃ row ∈ d.users, (row.verificationToken = t
      ∧ row.status = .pending) ∧ row.username = u := by
  rw [directory, Option.map_eq_some_iff]
  simp only [hd.find?_link, and_assoc]

/-- A session of the directory is a row of the table and the name of its user. -/
lemma session_eq_some (hd : d.Consistent) {e : ℕ} :
    (d.directory y).session t = some (u, e) ↔ ∃ session ∈ d.sessions, session.token = t
      ∧ session.expiresAt = e ∧ ∃ row ∈ d.users, row.id = session.userId ∧ row.username = u := by
  rw [directory, Option.bind_eq_some_iff]
  simp only [hd.find?_token, SessionRow.view, Option.map_eq_some_iff, hd.find?_id, Prod.mk.injEq]
  constructor
  · rintro ⟨session, ⟨hmem, ht⟩, row, ⟨hrow, hid⟩, hu, he⟩
    exact ⟨session, hmem, ht, he, row, hrow, hid, hu⟩
  · rintro ⟨session, hmem, ht, he, row, hrow, hid, hu⟩
    exact ⟨session, ⟨hmem, ht⟩, row, ⟨hrow, hid⟩, hu, he⟩

/-- A fresh token opens no session. -/
lemma token_fresh (hd : d.Consistent) (hs : (d.directory y).Sound generated)
    (hfresh : t ∉ generated) : ∀ session ∈ d.sessions, session.token ≠ t := by
  rintro session hmem rfl
  obtain ⟨row, hrow, hid⟩ := hd.owned session hmem
  have hse : (d.directory y).session session.token = some (row.username, session.expiresAt) :=
    hd.session_eq_some.mpr ⟨session, hmem, rfl, rfl, row, hrow, hid, rfl⟩
  exact hfresh (hs.session_old _ (by rw [hse]; rfl))

/-- A fresh token is in no open link. -/
lemma link_fresh (hd : d.Consistent) (hs : (d.directory y).Sound generated)
    (hfresh : t ∉ generated) :
    ∀ row ∈ d.users, row.status = .pending → row.verificationToken ≠ t := by
  rintro row hrow hstatus rfl
  have hlink : (d.directory y).link row.verificationToken = some row.username :=
    hd.link_eq_some.mpr ⟨row, hrow, ⟨rfl, hstatus⟩, rfl⟩
  exact hfresh (hs.link_old _ (by rw [hlink]; rfl))

end PyDb.Consistent

/-- Two directories that show the same. -/
lemma directory_ext {D₁ D₂ : Directory} (ha : ∀ u a, D₁.account u = some a ↔ D₂.account u = some a)
    (hl : ∀ t u, D₁.link t = some u ↔ D₂.link t = some u)
    (hs : ∀ t u e, D₁.session t = some (u, e) ↔ D₂.session t = some (u, e)) : D₁ = D₂ := by
  obtain ⟨account₁, link₁, session₁⟩ := D₁
  obtain ⟨account₂, link₂, session₂⟩ := D₂
  have haccount : account₁ = account₂ := funext fun u => Option.ext (ha u)
  have hlink : link₁ = link₂ := funext fun t => Option.ext (hl t)
  have hsession : session₁ = session₂ := funext fun t => Option.ext fun v => hs t v.1 v.2
  rw [haccount, hlink, hsession]

/-! ### Signup -/

/-- The tables with one more account. -/
def PyDb.withUser (d : PyDb) (row : UserRow) : PyDb := { d with users := d.users ++ [row] }

lemma nextId_ne {users : List UserRow} : ∀ row ∈ users, row.id ≠ nextId users := by
  intro row hrow
  have hle : row.id ≤ (users.map (·.id)).foldr max 0 := by
    induction users with
    | nil => cases hrow
    | cons r users ih =>
        rcases List.mem_cons.mp hrow with rfl | hrow
        · exact le_max_left _ _
        · exact (ih hrow).trans (le_max_right _ _)
  rw [nextId]
  omega

lemma consistent_withUser (hd : d.Consistent) (hname : ∀ r ∈ d.users, r.username ≠ row.username)
    (hid : ∀ r ∈ d.users, r.id ≠ row.id)
    (hlink : row.status = .pending → ∀ r ∈ d.users, r.status = .pending →
      r.verificationToken ≠ row.verificationToken) : (d.withUser row).Consistent := by
  refine ⟨?_, ?_, ?_, hd.tokens, ?_⟩
  · rw [PyDb.withUser, List.map_append, List.nodup_append]
    refine ⟨hd.names, List.nodup_singleton _, ?_⟩
    rintro u hu v hv rfl
    obtain ⟨r, hr, rfl⟩ := List.mem_map.mp hu
    exact hname r hr (List.mem_singleton.mp hv)
  · rw [PyDb.withUser, List.map_append, List.nodup_append]
    refine ⟨hd.ids, List.nodup_singleton _, ?_⟩
    rintro i hi j hj rfl
    obtain ⟨r, hr, rfl⟩ := List.mem_map.mp hi
    exact hid r hr (List.mem_singleton.mp hj)
  · intro r hr r' hr' hp hp' heq
    rcases List.mem_append.mp hr with hold | hnew <;>
      rcases List.mem_append.mp hr' with hold' | hnew'
    · exact hd.links r hold r' hold' hp hp' heq
    · obtain rfl := List.mem_singleton.mp hnew'
      exact absurd heq (hlink hp' r hold hp)
    · obtain rfl := List.mem_singleton.mp hnew
      exact absurd heq.symm (hlink hp r' hold' hp')
    · rw [List.mem_singleton.mp hnew, List.mem_singleton.mp hnew']
  · intro session hmem
    obtain ⟨r, hr, hrid⟩ := hd.owned session hmem
    exact ⟨r, List.mem_append_left _ hr, hrid⟩

/-- The tables with one more account show one more account, and its link if it is pending. -/
lemma directory_withUser (hd : d.Consistent) (hd' : (d.withUser row).Consistent)
    (hname : ∀ r ∈ d.users, r.username ≠ row.username)
    (hlink : row.status = .pending → ∀ r ∈ d.users, r.status = .pending →
      r.verificationToken ≠ row.verificationToken) :
    (d.withUser row).directory y = { d.directory y with
      account := Function.update (d.directory y).account row.username (some (row.view y))
      link := if row.status = .pending then
          Function.update (d.directory y).link row.verificationToken (some row.username)
        else (d.directory y).link } := by
  have hmem : ∀ r, r ∈ (d.withUser row).users ↔ r ∈ d.users ∨ r = row := by
    intro r
    rw [PyDb.withUser, List.mem_append, List.mem_singleton]
  refine directory_ext (fun u a => ?_) (fun t u => ?_) fun t u e => ?_
  · rw [hd'.account_eq_some]
    simp only [Directory.update_eq_some, hd.account_eq_some, hmem]
    constructor
    · rintro ⟨r, hr | rfl, hu, ha⟩
      · exact .inr ⟨fun h => hname r hr (hu.trans h), r, hr, hu, ha⟩
      · exact .inl ⟨hu.symm, by rw [ha]⟩
    · rintro (⟨hu, ha⟩ | ⟨-, r, hr, hu, ha⟩)
      · exact ⟨row, .inr rfl, hu.symm, Option.some.inj ha⟩
      · exact ⟨r, .inl hr, hu, ha⟩
  · rw [hd'.link_eq_some]
    by_cases hstatus : row.status = .pending
    · simp only [hstatus, if_true, Directory.update_eq_some, hd.link_eq_some, hmem]
      constructor
      · rintro ⟨r, hr | rfl, ⟨ht, hp⟩, hu⟩
        · exact .inr ⟨fun h => hlink hstatus r hr hp (ht.trans h), r, hr, ⟨ht, hp⟩, hu⟩
        · exact .inl ⟨ht.symm, by rw [hu]⟩
      · rintro (⟨ht, hu⟩ | ⟨-, r, hr, h, hu⟩)
        · exact ⟨row, .inr rfl, ⟨ht.symm, hstatus⟩, Option.some.inj hu⟩
        · exact ⟨r, .inl hr, h, hu⟩
    · simp only [hstatus, if_false, hd.link_eq_some, hmem]
      constructor
      · rintro ⟨r, hr | rfl, ⟨ht, hp⟩, hu⟩
        · exact ⟨r, hr, ⟨ht, hp⟩, hu⟩
        · exact absurd hp hstatus
      · rintro ⟨r, hr, h, hu⟩
        exact ⟨r, .inl hr, h, hu⟩
  · rw [hd'.session_eq_some]
    simp only [hd.session_eq_some, hmem]
    constructor
    · rintro ⟨session, hsession, ht, he, r, hr, hid, hu⟩
      obtain ⟨r', hr', hid'⟩ := hd.owned session hsession
      obtain rfl : r' = r := List.inj_on_of_nodup_map hd'.ids ((hmem r').mpr (.inl hr'))
        ((hmem r).mpr hr) (hid'.trans hid.symm)
      exact ⟨session, hsession, ht, he, r', hr', hid, hu⟩
    · rintro ⟨session, hsession, ht, he, r, hr, hid, hu⟩
      exact ⟨session, hsession, ht, he, r, .inl hr, hid, hu⟩

/-- Serving an order keeps the keys and does what the directory does. -/
def PyServes (y : PyExternals) (read : Reading) (opens : String → String → Bool)
    (order : Option Order) (d : PyDb) (answer : PyDb × Response) : Prop :=
  answer.1.Consistent
    ∧ (d.directory y).Serves read opens order answer.2.Accepted (answer.1.directory y)

lemma pyServes_unread (hd : d.Consistent) {r : Response} (h : ¬ r.Accepted) :
    PyServes y read opens none d (d, r) :=
  ⟨hd, .unread h⟩

lemma pyServes_refused (hd : d.Consistent) {r : Response} {o : Order} (h : ¬ r.Accepted)
    (hno : ¬ (d.directory y).Accepts read.now o) : PyServes y read opens (some o) d (d, r) :=
  ⟨hd, .refused h hno⟩

/-- The address is free if no row has it. -/
lemma email_unused (hd : d.Consistent) {e : String} :
    ¬ (d.users.any fun row => row.email = e) = true ↔
      ∀ v a, (d.directory y).account v = some a → a.email ≠ e := by
  rw [List.any_eq_true]
  constructor
  · rintro h v a ha rfl
    obtain ⟨row, hrow, -, rfl⟩ := hd.account_eq_some.mp ha
    exact h ⟨row, hrow, decide_eq_true rfl⟩
  · rintro h ⟨row, hrow, he⟩
    exact h row.username (row.view y) (hd.account_eq_some.mpr ⟨row, hrow, rfl, rfl⟩)
      (of_decide_eq_true he)

lemma username_unused (hd : d.Consistent) :
    ¬ (d.users.any fun row => row.username = u) = true ↔ (d.directory y).account u = none := by
  rw [hd.account_eq_none, List.any_eq_true]
  simp

/-- **Creating an account** does what the directory does. -/
lemma createAccount_serves (hd : d.Consistent) (hs : (d.directory y).Sound generated)
    (hfresh : read.token ∉ generated) {e p : String}
    (hopens : ∀ attempt, y.checkPassword attempt (y.makePassword read.salt p) = opens p attempt) :
    PyServes y read opens (some (.signup u e p)) d (createAccount y read u e (.str p) d) := by
  rw [createAccount]
  split_ifs with hempty hname hemail
  · refine pyServes_refused hd (not_accepted (by simp)) ?_
    rintro ⟨⟨hu, he, hp⟩, -⟩
    rcases hempty with h | h | h
    · exact hu h
    · exact he h
    · rw [y.truthy_str] at h
      exact hp (by simpa using h)
  · refine pyServes_refused hd (not_accepted (by simp)) ?_
    rintro ⟨-, hnone, -⟩
    exact absurd hname ((username_unused hd).mpr hnone)
  · refine pyServes_refused hd (not_accepted (by simp)) ?_
    rintro ⟨-, -, hfree⟩
    exact absurd hemail ((email_unused hd).mpr hfree)
  · have hnone := (username_unused (y := y) hd).mp hname
    have hfree := (email_unused (y := y) hd).mp hemail
    have hnames : ∀ r ∈ d.users, r.username ≠ (newRow y read d u e p).username :=
      hd.account_eq_none.mp hnone
    have hlinks : (newRow y read d u e p).status = .pending → ∀ r ∈ d.users,
        r.status = .pending → r.verificationToken ≠ (newRow y read d u e p).verificationToken := by
      intro hstatus r hr hp
      have hauto : ¬ read.autoApprove = true := by
        intro hauto
        simp [newRow, hauto] at hstatus
      simpa [newRow, hauto] using hd.link_fresh hs hfresh r hr hp
    have hd' := consistent_withUser hd hnames nextId_ne hlinks
    refine ⟨hd', ?_⟩
    have hdone : (d.withUser (newRow y read d u e p)).directory y
        = (d.directory y).next read opens (.signup u e p) := by
      have hview : (newRow y read d u e p).view y
          = ⟨e, if read.autoApprove then .approved else .pending, opens p⟩ := by
        rw [UserRow.view]
        congr
        funext attempt
        exact hopens attempt
      rw [directory_withUser hd hd' hnames hlinks, hview, Directory.next]
      by_cases hauto : read.autoApprove = true <;> simp [newRow, hauto]
    show (d.directory y).Serves _ _ _ _ ((d.withUser (newRow y read d u e p)).directory y)
    rw [hdone]
    refine .done ⟨by simp, by simp⟩ ⟨?_, hnone, hfree⟩
    refine ⟨fun h => hempty (.inl h), fun h => hempty (.inr (.inl h)), fun h => hempty ?_⟩
    exact .inr (.inr (by rw [y.truthy_str]; simpa using h))

/-- **`signup_view`** does what the directory does. -/
lemma signupView_serves (hd : d.Consistent) (hs : (d.directory y).Sound generated)
    (hfresh : read.token ∉ generated)
    (hopens : ∀ password attempt,
      y.checkPassword attempt (y.makePassword read.salt password) = opens password attempt)
    (body : Json) :
    PyServes y read opens (pyOrder y (.signup body)) d (signupView y read body d) := by
  cases hbody : y.dict body with
  | none =>
      simp only [signupView, pyOrder, hbody, Option.bind_none]
      exact pyServes_unread hd (not_accepted (by simp))
  | some m =>
      simp only [signupView, pyOrder, hbody, Option.bind_some]
      split
      · rename_i u e p hu he hp
        rw [hu, he, hp]
        exact createAccount_serves hd hs hfresh (hopens p)
      · rename_i hnone
        split
        · rename_i u e password hu he hp
          cases password with
          | str p => exact absurd hp (hnone u e p hu he)
          | null | bool | int | float | lone | arr | obj =>
              simp only [createAccount]
              split_ifs <;> exact pyServes_unread hd (not_accepted (by simp))
        · obtain ⟨r, heq, hr⟩ := refuseSignup_refuses (y := y) (d := d) (m := m)
          rw [heq]
          exact pyServes_unread hd (not_accepted (by omega))

/-! ### Verification -/

lemma mem_saveApproved (hd : d.Consistent) (hrow : row ∈ d.users) {r : UserRow} :
    r ∈ saveApproved d.users row.id ↔ r = row.approved ∨ r ∈ d.users ∧ r ≠ row := by
  rw [saveApproved, List.mem_map]
  constructor
  · rintro ⟨r₀, hr₀, rfl⟩
    split_ifs with hid
    · rw [List.inj_on_of_nodup_map hd.ids hr₀ hrow hid]
      exact .inl rfl
    · exact .inr ⟨hr₀, fun h => hid (congrArg UserRow.id h)⟩
  · rintro (rfl | ⟨hr, hne⟩)
    · exact ⟨row, hrow, if_pos rfl⟩
    · exact ⟨r, hr, if_neg fun hid => hne (List.inj_on_of_nodup_map hd.ids hr hrow hid)⟩

lemma consistent_saveApproved (hd : d.Consistent) (hrow : row ∈ d.users) :
    ({ d with users := saveApproved d.users row.id } : PyDb).Consistent := by
  have hnames : (saveApproved d.users row.id).map (·.username) = d.users.map (·.username) := by
    rw [saveApproved, List.map_map]
    refine List.map_congr_left fun r _ => ?_
    rw [Function.comp_apply]
    split_ifs <;> rfl
  have hids : (saveApproved d.users row.id).map (·.id) = d.users.map (·.id) := by
    rw [saveApproved, List.map_map]
    refine List.map_congr_left fun r _ => ?_
    rw [Function.comp_apply]
    split_ifs <;> rfl
  have hpending : ∀ r ∈ saveApproved d.users row.id, r.status = .pending → r ∈ d.users := by
    intro r hr hp
    rcases (mem_saveApproved hd hrow).mp hr with rfl | ⟨hr, -⟩
    · cases hp
    · exact hr
  refine ⟨hnames ▸ hd.names, hids ▸ hd.ids, ?_, hd.tokens, ?_⟩
  · intro r hr r' hr' hp hp' heq
    exact hd.links r (hpending r hr hp) r' (hpending r' hr' hp') hp hp' heq
  · intro session hsession
    obtain ⟨r, hr, hid⟩ := hd.owned session hsession
    by_cases h : r = row
    · exact ⟨row.approved, (mem_saveApproved hd hrow).mpr (.inl rfl), h ▸ hid⟩
    · exact ⟨r, (mem_saveApproved hd hrow).mpr (.inr ⟨hr, h⟩), hid⟩

/-- What the tables show after the row of a link was saved. -/
lemma directory_saveApproved (y : PyExternals) (read : Reading)
    (opens : String → String → Bool) (hd : d.Consistent) (hrow : row ∈ d.users)
    (ht : row.verificationToken = t) (hp : row.status = .pending) :
    ({ d with users := saveApproved d.users row.id } : PyDb).directory y
      = (d.directory y).next read opens (.verify t) := by
  have hd' := consistent_saveApproved hd hrow
  have hlink : (d.directory y).link t = some row.username :=
    hd.link_eq_some.mpr ⟨row, hrow, ⟨ht, hp⟩, rfl⟩
  have haccount : (d.directory y).account row.username = some (row.view y) :=
    hd.account_eq_some.mpr ⟨row, hrow, rfl, rfl⟩
  simp only [Directory.next, hlink, haccount, Option.map_some]
  refine directory_ext (fun u a => ?_) (fun t' u => ?_) fun t' u e => ?_
  · rw [hd'.account_eq_some]
    simp only [Directory.update_eq_some, hd.account_eq_some, mem_saveApproved hd hrow]
    constructor
    · rintro ⟨r, rfl | ⟨hr, hne⟩, hu, ha⟩
      · exact .inl ⟨hu.symm, congrArg some ha⟩
      · refine .inr ⟨fun h => hne ?_, r, hr, hu, ha⟩
        exact List.inj_on_of_nodup_map hd.names hr hrow (hu.trans h)
    · rintro (⟨hu, ha⟩ | ⟨hne, r, hr, hu, ha⟩)
      · exact ⟨row.approved, .inl rfl, hu.symm, Option.some.inj ha⟩
      · exact ⟨r, .inr ⟨hr, fun h => hne (by rw [← hu, h])⟩, hu, ha⟩
  · rw [hd'.link_eq_some]
    simp only [Directory.update_eq_some, hd.link_eq_some, mem_saveApproved hd hrow]
    constructor
    · rintro ⟨r, rfl | ⟨hr, hne⟩, ⟨ht', hp'⟩, hu⟩
      · cases hp'
      · refine .inr ⟨fun h => hne ?_, r, hr, ⟨ht', hp'⟩, hu⟩
        exact hd.links r hr row hrow hp' hp (ht'.trans (h.trans ht.symm))
    · rintro (⟨-, h⟩ | ⟨hne, r, hr, ⟨ht', hp'⟩, hu⟩)
      · cases h
      · exact ⟨r, .inr ⟨hr, fun h => hne (by rw [← ht', h, ht])⟩, ⟨ht', hp'⟩, hu⟩
  · rw [hd'.session_eq_some]
    simp only [hd.session_eq_some, mem_saveApproved hd hrow]
    constructor
    · rintro ⟨session, hsession, ht', he, r, rfl | ⟨hr, -⟩, hid, hu⟩
      · exact ⟨session, hsession, ht', he, row, hrow, hid, hu⟩
      · exact ⟨session, hsession, ht', he, r, hr, hid, hu⟩
    · rintro ⟨session, hsession, ht', he, r, hr, hid, hu⟩
      by_cases h : r = row
      · exact ⟨session, hsession, ht', he, row.approved, .inl rfl, h ▸ hid, h ▸ hu⟩
      · exact ⟨session, hsession, ht', he, r, .inr ⟨hr, h⟩, hid, hu⟩

/-- **`verify_view`** does what the directory does. -/
lemma verifyView_serves (hd : d.Consistent) (t : String) :
    PyServes y read opens (some (.verify t)) d (verifyView t d) := by
  have hfound : getPending d.users t
      = (d.users.find? fun row => row.verificationToken = t ∧ row.status = .pending).toList :=
    filter_of_unique (List.Nodup.of_map _ hd.names) (hd.unique_link t)
  rw [verifyView, hfound]
  cases hrow : d.users.find? fun row => row.verificationToken = t ∧ row.status = .pending with
  | none =>
      refine pyServes_refused hd (not_accepted (by simp)) ?_
      rintro ⟨u, hu⟩
      rw [PyDb.directory] at hu
      simp only [hrow] at hu
      cases hu
  | some row =>
      obtain ⟨hmem, ht, hp⟩ := hd.find?_link.mp hrow
      refine ⟨consistent_saveApproved hd hmem, ?_⟩
      have hdone := directory_saveApproved y read opens hd hmem ht hp
      simp only [Option.toList_some, hdone]
      exact .done accepted_ok ⟨row.username, hd.link_eq_some.mpr ⟨row, hmem, ⟨ht, hp⟩, rfl⟩⟩

/-! ### Login -/

lemma consistent_createSessionToken (hd : d.Consistent) (hrow : row ∈ d.users)
    (hfresh : ∀ session ∈ d.sessions, session.token ≠ read.token) :
    (createSessionToken read row d).Consistent := by
  refine ⟨hd.names, hd.ids, hd.links, ?_, ?_⟩
  · rw [createSessionToken, List.map_append, List.nodup_append]
    refine ⟨hd.tokens, List.nodup_singleton _, ?_⟩
    rintro t ht t' ht' rfl
    obtain ⟨session, hsession, rfl⟩ := List.mem_map.mp ht
    exact hfresh session hsession (List.mem_singleton.mp ht')
  · intro session hsession
    rcases List.mem_append.mp hsession with hold | hnew
    · exact hd.owned session hold
    · rw [List.mem_singleton.mp hnew]
      exact ⟨row, hrow, rfl⟩

/-- What the tables show after a login. -/
lemma directory_createSessionToken (y : PyExternals) (opens : String → String → Bool) (p : String)
    (hd : d.Consistent) (hrow : row ∈ d.users)
    (hfresh : ∀ session ∈ d.sessions, session.token ≠ read.token) :
    (createSessionToken read row d).directory y
      = (d.directory y).next read opens (.login row.username p) := by
  have hd' := consistent_createSessionToken hd hrow hfresh
  refine directory_ext (fun u a => Iff.rfl) (fun t u => Iff.rfl) fun t u e => ?_
  rw [hd'.session_eq_some]
  simp only [Directory.next, Directory.update_eq_some, hd.session_eq_some, createSessionToken,
    List.mem_append, List.mem_singleton]
  constructor
  · rintro ⟨session, hold | rfl, ht, he, r, hr, hid, hu⟩
    · exact .inr ⟨fun h => hfresh session hold (ht.trans h), session, hold, ht, he, r, hr, hid, hu⟩
    · obtain rfl := List.inj_on_of_nodup_map hd.ids hr hrow hid
      exact .inl ⟨ht.symm, by rw [← hu, ← he]; rfl⟩
  · rintro (⟨ht, hue⟩ | ⟨-, session, hold, ht, he, r, hr, hid, hu⟩)
    · cases hue
      exact ⟨_, .inr rfl, ht.symm, rfl, row, hrow, rfl, rfl⟩
    · exact ⟨session, .inl hold, ht, he, r, hr, hid, hu⟩

/-- A value that is a text for the database and the hasher has a UTF-8. -/
lemma isLone_ne_true {v : Json} {s : String} (h : y.toStr v = some s) : ¬ isLone v = true := by
  cases v with
  | lone l =>
      rw [y.toStr_lone] at h
      cases h
  | null | bool | int | float | str | arr | obj => exact Bool.false_ne_true

/-- Checking a login that was read as two texts. -/
lemma checkLogin_serves (hd : d.Consistent) (hs : (d.directory y).Sound generated)
    (hfresh : read.token ∉ generated) {username password : Json} {p : String}
    (hu : y.toStr username = some u) (hp : y.toStr password = some p) :
    PyServes y read opens (some (.login u p)) d (checkLogin y read username password d) := by
  have hlone : ¬ (isLone username = true ∨ isLone password = true) := by
    rintro (h | h)
    · exact isLone_ne_true hu h
    · exact isLone_ne_true hp h
  have hcheck : ∀ hash, checkPassword y password hash = y.checkPassword p hash := by
    intro hash
    rw [checkPassword, hp]
  simp only [checkLogin, if_neg hlone, hu, Option.bind_some, hcheck]
  cases hfind : d.users.find? fun row => row.username = u with
  | none =>
      simp only [ite_self]
      refine pyServes_refused hd (not_accepted (by simp)) ?_
      rintro ⟨a, ha, -⟩
      rw [PyDb.directory] at ha
      simp only [hfind] at ha
      cases ha
  | some row =>
      obtain ⟨hrow, rfl⟩ := hd.find?_name.mp hfind
      have haccepts : (d.directory y).Accepts read.now (.login row.username p) ↔
          y.checkPassword p row.passwordHash = true ∧ row.status = .approved := by
        rw [Directory.Accepts, PyDb.directory]
        simp [hfind, UserRow.view]
      by_cases hpassword : y.checkPassword p row.passwordHash = true
      · simp only [hpassword, if_true]
        cases hstatus : row.status with
        | approved =>
            have htoken := hd.token_fresh hs hfresh
            refine ⟨consistent_createSessionToken hd hrow htoken, ?_⟩
            have hdone := directory_createSessionToken y opens p hd hrow
              htoken
            simp only [hdone]
            exact .done accepted_ok (haccepts.mpr ⟨hpassword, hstatus⟩)
        | pending =>
            exact pyServes_refused hd (not_accepted (by simp)) (by simp [haccepts, hstatus])
        | blocked =>
            exact pyServes_refused hd (not_accepted (by simp)) (by simp [haccepts, hstatus])
      · simp only [hpassword, Bool.false_eq_true, if_false]
        exact pyServes_refused hd (not_accepted (by simp)) (by simp [haccepts, hpassword])

/-- A login with a value that is no text for the database or the hasher is refused. -/
lemma checkLogin_unread (hd : d.Consistent) {username password : Json}
    (h : y.toStr username = none ∨ y.toStr password = none) :
    PyServes y read opens none d (checkLogin y read username password d) := by
  by_cases hlone : isLone username = true ∨ isLone password = true
  · rw [checkLogin, if_pos hlone]
    exact pyServes_unread hd (not_accepted (by simp))
  · rw [checkLogin, if_neg hlone]
    rcases h with h | h
    · simp only [h, Option.bind_none, ite_self]
      exact pyServes_unread hd (not_accepted (by simp))
    · have hcheck : ∀ hash, checkPassword y password hash = false := by
        intro hash
        rw [checkPassword, h]
      simp only [hcheck, Bool.false_eq_true, if_false]
      split <;> exact pyServes_unread hd (not_accepted (by simp))

/-- **`login_view`** does what the directory does. -/
lemma loginView_serves (hd : d.Consistent) (hs : (d.directory y).Sound generated)
    (hfresh : read.token ∉ generated) (body : Json) :
    PyServes y read opens (pyOrder y (.login body)) d (loginView y read body d) := by
  cases hbody : y.dict body with
  | none =>
      simp only [loginView, pyOrder, hbody, Option.bind_none]
      exact pyServes_unread hd (not_accepted (by simp))
  | some m =>
      simp only [loginView, pyOrder, hbody, Option.bind_some]
      cases hu : last "username" m with
      | none => exact pyServes_unread hd (not_accepted (by simp))
      | some username =>
          cases hp : last "password" m with
          | none =>
              cases (some username).bind y.toStr <;>
                exact pyServes_unread hd (not_accepted (by simp))
          | some password =>
              simp only [Option.bind_some]
              cases hu' : y.toStr username with
              | none => exact checkLogin_unread hd (.inl hu')
              | some u =>
                  cases hp' : y.toStr password with
                  | none => exact checkLogin_unread hd (.inr hp')
                  | some p => exact checkLogin_serves hd hs hfresh hu' hp'

/-! ### Registration and deregistration -/

/-- `_authenticate` finds the user who speaks with the token. -/
lemma authenticate_iff (hd : d.Consistent) {now : ℕ} {header : Option String} :
    (∃ row, authenticate now header d = some row ∧ row.username = u) ↔
      (d.directory y).Speaks now (bearer header) u := by
  have hauth : authenticate now header d = (bearer header).bind fun t =>
      ((d.sessions.find? fun session => session.token = t).filter fun session =>
        session.expiresAt > now).bind (sessionUser d) := by
    rw [authenticate]
    congr
    funext t
    have hfilter : (d.sessions.filter fun session => session.token = t ∧ session.expiresAt > now)
        = (d.sessions.filter fun session => session.token = t).filter fun session =>
          session.expiresAt > now := by
      rw [List.filter_filter]
      refine List.filter_congr fun session _ => ?_
      simp [Bool.and_comm]
    rw [hfilter, filter_of_unique (List.Nodup.of_map _ hd.tokens) (unique_of_nodup hd.tokens t)]
    cases d.sessions.find? fun session => session.token = t with
    | none => rfl
    | some session =>
        rw [Option.toList_some, Option.filter_some]
        by_cases hlive : session.expiresAt > now
        · cases huser : sessionUser d session <;> simp [hlive, huser]
        · simp [hlive]
  rw [hauth]
  simp only [Option.bind_eq_some_iff, Option.filter_eq_some_iff, hd.find?_token, sessionUser,
    hd.find?_id, Directory.Speaks, hd.session_eq_some, hd.account_eq_some, decide_eq_true_eq]
  constructor
  · rintro ⟨row, ⟨t, ht, session, ⟨⟨hmem, htoken⟩, hlive⟩, ⟨hrow, hid⟩, hstatus⟩, hu⟩
    exact ⟨t, session.expiresAt, row.view y, ht, ⟨session, hmem, htoken, rfl, row, hrow, hid, hu⟩,
      hlive, ⟨row, hrow, hu, rfl⟩, hstatus⟩
  · rintro ⟨t, e, a, ht, ⟨session, hmem, htoken, rfl, row, hrow, hid, hu⟩, hlive,
      ⟨row', hrow', hu', rfl⟩, hstatus⟩
    obtain rfl := List.inj_on_of_nodup_map hd.names hrow hrow' (hu.trans hu'.symm)
    exact ⟨row, ⟨t, ht, session, ⟨⟨hmem, htoken⟩, hlive⟩, ⟨hrow, hid⟩, hstatus⟩, hu⟩

/-- A view that authenticates first: it goes on for the user it is asked for and refuses
everyone else. -/
lemma change_serves (hd : d.Consistent) {now : ℕ} {header : Option String}
    {asked : Option String} {k : String → PyDb × Response} (hnow : read.now = now)
    (hgo : ∀ u, asked = some u → ∃ registry, k u = ({ d with registry }, ⟨200, .empty⟩))
    (hrefuse : ∀ u, asked ≠ some u → (k u).1 = d ∧ ¬ (k u).2.Accepted) :
    PyServes y read opens (asked.map (.change (bearer header))) d
      (match authenticate now header d with
        | none => refuse d 401 "unauthorized"
        | some user => k user.username) := by
  subst hnow
  have hno : ∀ {r : Response}, ¬ r.Accepted →
      (∀ u, asked = some u → ¬ (d.directory y).Speaks read.now (bearer header) u) →
      PyServes y read opens (asked.map (.change (bearer header))) d (d, r) := by
    intro r hr hspeaks
    refine ⟨hd, .inr ⟨hr, fun o ho => ?_, rfl⟩⟩
    obtain ⟨u, hu, rfl⟩ := Option.map_eq_some_iff.mp ho
    exact hspeaks u hu
  cases hauth : authenticate read.now header d with
  | none =>
      refine hno (not_accepted (by simp)) fun u _ hspeaks => ?_
      obtain ⟨row, hrow, -⟩ := (authenticate_iff hd).mpr hspeaks
      rw [hauth] at hrow
      cases hrow
  | some user =>
      by_cases hasked : asked = some user.username
      · obtain ⟨registry, hk⟩ := hgo _ hasked
        simp only [hk, hasked]
        exact ⟨⟨hd.names, hd.ids, hd.links, hd.tokens, hd.owned⟩,
          .done accepted_ok ((authenticate_iff hd).mp ⟨user, hauth, rfl⟩)⟩
      · obtain ⟨hstate, hr⟩ := hrefuse _ hasked
        have hk : k user.username = (d, (k user.username).2) := by rw [← hstate]
        simp only
        rw [hk]
        refine hno hr fun u hu hspeaks => hasked ?_
        obtain ⟨row, hrow, rfl⟩ := (authenticate_iff hd).mpr hspeaks
        rw [hauth] at hrow
        cases hrow
        exact hu

/-- What `register_view` does with a registration of an authenticated user. -/
lemma registerAs_asked {now : ℕ} {body : Json} (h : registrant y body = some u) :
    ∃ registry, registerAs y now u body d = ({ d with registry }, ⟨200, .empty⟩) := by
  obtain ⟨m, hbody, h⟩ := Option.bind_eq_some_iff.mp h
  split at h
  · rename_i username nodeId addrs hu hn ha
    cases h
    simp only [registerAs, hbody, hu, hn, ha, ne_eq, not_true_eq_false, if_false]
    exact ⟨_, rfl⟩
  · cases h

lemma registerAs_not_asked {now : ℕ} {body : Json} (h : registrant y body ≠ some u) :
    (registerAs y now u body d).1 = d ∧ ¬ (registerAs y now u body d).2.Accepted := by
  rw [registerAs]
  rw [registrant] at h
  cases hbody : y.dict body with
  | none => exact ⟨rfl, not_accepted (by simp)⟩
  | some m =>
      rw [hbody, Option.bind_some] at h
      simp only
      split
      · rename_i name hname
        split_ifs with hne
        · exact ⟨rfl, not_accepted (by simp)⟩
        · split
          · rename_i nodeId addrs hn ha
            rw [hname, hn, ha] at h
            exact absurd (congrArg some (not_not.mp hne)) h
          · exact ⟨rfl, not_accepted (by simp)⟩
      · exact ⟨rfl, not_accepted (by simp)⟩

/-- What `register_view` does with a deregistration of an authenticated user. -/
lemma deregisterAs_asked {body : Json} (h : deregistrant y body = some u) :
    ∃ registry, deregisterAs y u body d = ({ d with registry }, ⟨200, .empty⟩) := by
  obtain ⟨m, hbody, h⟩ := Option.bind_eq_some_iff.mp h
  split at h
  · rename_i username nodeId hu hn
    cases h
    simp only [deregisterAs, hbody, hu, hn, ne_eq, not_true_eq_false, if_false]
    exact ⟨_, rfl⟩
  · cases h

lemma deregisterAs_not_asked {body : Json} (h : deregistrant y body ≠ some u) :
    (deregisterAs y u body d).1 = d ∧ ¬ (deregisterAs y u body d).2.Accepted := by
  rw [deregisterAs]
  rw [deregistrant] at h
  cases hbody : y.dict body with
  | none => exact ⟨rfl, not_accepted (by simp)⟩
  | some m =>
      rw [hbody, Option.bind_some] at h
      simp only
      split
      · rename_i name hname
        split_ifs with hne
        · exact ⟨rfl, not_accepted (by simp)⟩
        · split
          · rename_i nodeId hn
            rw [hname, hn] at h
            exact absurd (congrArg some (not_not.mp hne)) h
          · exact ⟨rfl, not_accepted (by simp)⟩
      · exact ⟨rfl, not_accepted (by simp)⟩

/-- **The Python server** carries out the orders it reads as the directory does, and keeps
the keys of its tables. -/
theorem pyServe_serves (read : Reading) (opens : String → String → Bool) (hd : d.Consistent)
    (hs : (d.directory y).Sound generated)
    (hfresh : read.token ∉ generated)
    (hopens : ∀ password attempt,
      y.checkPassword attempt (y.makePassword read.salt password) = opens password attempt)
    (request : ApiRequest) :
    PyServes y read opens (pyOrder y request) d (pyServe y read request d) := by
  cases request with
  | signup body => exact signupView_serves hd hs hfresh hopens body
  | login body => exact loginView_serves hd hs hfresh body
  | verify token => exact verifyView_serves hd token
  | register header body =>
      exact change_serves hd rfl (fun u => registerAs_asked) fun u => registerAs_not_asked
  | deregister header body =>
      exact change_serves hd rfl (fun u => deregisterAs_asked) fun u => deregisterAs_not_asked

end Rendezvous
