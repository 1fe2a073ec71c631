import Dddatasync.Rendezvous.AccountHistory
import Dddatasync.Rendezvous.PyTables

/-!
The accounts of the Python server under concurrent requests, compared with the accounts of
`accountSpec`.  The queries of a signup come before its `INSERT`, so a signup that loses a race
is stopped by the unique columns of the table only: it is answered 500 instead of 409.

* `pyAccountApi`: Django's hashing, and the two answers to a clash.
* `findName_cases`, `insertUser_cases`, `loginBody_cases`: the segments that read or write
  accounts.
* `PyAccounted`, `PyAccounted.step`: the accounts in step with the server.
* `py_accounts_linearizable`: the signups and logins of every run are linearizable.
-/

namespace Rendezvous

open Runs Json

/-- The Python server. -/
def pyAccountApi (y : PyExternals) : AccountApi where
  fits := fun password opens => ∃ salt,
    opens = fun attempt => y.checkPassword attempt (y.makePassword salt password)
  unhashable := fun _ => False
  conflict := fun status => status = 409 ∨ status = 500

variable {y : PyExternals} {read : Reading} {d : PyDb} {request : PyRequest} {pc : PyPc}
  {o : PyOutcome} {c c' : PyConfig} {i : ℕ}

/-! ### The tables as accounts -/

/-- The accounts the tables show depend on the rows of the users only. -/
lemma account_congr {d' : PyDb} (h : d'.users = d.users) :
    (d'.directory y).account = (d.directory y).account := by
  simp only [PyDb.directory, h]

/-- Rewriting rows one by one changes the status of accounts at most. -/
lemma sameButStatus_map {f : UserRow → UserRow} (hf : Rewrites f) :
    SameButStatus (d.directory y).account
      (({ d with users := d.users.map f } : PyDb).directory y).account := by
  intro u
  have hname : (fun row : UserRow => decide (row.username = u)) ∘ f
      = fun row => decide (row.username = u) := by
    funext row
    rw [Function.comp_apply, (hf.same row).username]
  simp only [PyDb.directory, List.find?_map, hname, Option.map_map]
  congr 1
  funext row
  simp only [Function.comp_apply, UserRow.view, (hf.same row).email, (hf.same row).passwordHash]

/-- The accounts after an `INSERT`. -/
lemma account_withUser {row : UserRow} (hname : ∀ r ∈ d.users, r.username ≠ row.username) :
    ((d.withUser row).directory y).account
      = Function.update (d.directory y).account row.username (some (row.view y)) := by
  funext u
  simp only [PyDb.directory, PyDb.withUser, List.find?_append, Function.update_apply]
  split_ifs with hu
  · have hnone : d.users.find? (fun r => decide (r.username = u)) = none := by
      rw [List.find?_eq_none]
      intro r hr
      rw [hu, decide_eq_true_iff]
      exact hname r hr
    rw [hnone, hu]
    simp
  · have hrow : [row].find? (fun r => decide (r.username = u)) = none := by
      simp [Ne.symm hu]
    rw [hrow, Option.or_none]

/-- A name or an address is taken if it has a row. -/
lemma taken_iff (hd : d.Consistent) {username email : String} :
    Taken (d.directory y).account username email
      ↔ ∃ row ∈ d.users, row.username = username ∨ row.email = email := by
  constructor
  · rintro (hname | ⟨v, a, ha, he⟩)
    · rw [ne_eq, hd.account_eq_none] at hname
      push Not at hname
      obtain ⟨row, hrow, hu⟩ := hname
      exact ⟨row, hrow, .inl hu⟩
    · obtain ⟨row, hrow, -, rfl⟩ := hd.account_eq_some.mp ha
      exact ⟨row, hrow, .inr he⟩
  · rintro ⟨row, hrow, rfl | rfl⟩
    · exact .inl fun hnone => hd.account_eq_none.mp hnone row hrow rfl
    · exact .inr ⟨row.username, row.view y, hd.account_eq_some.mpr ⟨row, hrow, rfl, rfl⟩, rfl⟩

/-! ### The segments -/

/-- What `signup_view` knows after its first query: neither name nor address is empty, and the
password, if it is a text, is the one of the order and not empty. -/
structure SignupAsks (order : Option Order) (username email : String) (password : Json) :
    Prop where
  username_ne : username ≠ ""
  email_ne : email ≠ ""
  text : ∀ p, password = .str p → p ≠ "" ∧ order = some (.signup username email p)
  other : (∀ p, password ≠ .str p) → order = none

/-- An answer of a signup that leaves the accounts alone. -/
def Refuses (y : PyExternals) (d : PyDb) (order : Option Order) (status : ℕ) : Prop :=
  ∀ username email password, order = some (.signup username email password) →
    (pyAccountApi y).Signup (d.directory y).account username email password status
      (d.directory y).account

/-- A signup is refused at its first query, or it goes on with what it asks for. -/
lemma findName_cases (hd : d.Consistent) (body : Json) :
    (∃ r : Response, findName y body d = answered (d, r)
        ∧ Refuses y d (pyOrder y (.signup body)) r.status)
      ∨ ∃ username email password, findName y body d = d.wait (.findEmail username email password)
        ∧ SignupAsks (pyOrder y (.signup body)) username email password := by
  cases hbody : y.dict body with
  | none =>
      refine .inl ⟨_, by rw [findName, hbody]; rfl, ?_⟩
      rintro u e p horder
      rw [pyOrder, hbody] at horder
      cases horder
  | some m =>
      simp only [findName, pyOrder, hbody, Option.bind_some]
      obtain ⟨r, hrefused, -⟩ := refuseSignup_refuses (y := y) (d := d) (m := m)
      rw [hrefused]
      generalize last "username" m = u, last "email" m = e, last "password" m = p
      split
      · rename_i username email password
        split_ifs with hempty hname
        · refine .inl ⟨_, rfl, ?_⟩
          rintro u e p horder
          cases password with
          | str password =>
              obtain ⟨rfl, rfl, rfl⟩ := Order.signup.inj (Option.some.inj horder)
              refine ⟨rfl, .inl ⟨rfl, ?_⟩⟩
              rw [y.truthy_str] at hempty
              simpa using hempty
          | _ => cases horder
        · refine .inl ⟨_, rfl, ?_⟩
          rintro u e p horder
          cases password with
          | str password =>
              obtain ⟨rfl, rfl, rfl⟩ := Order.signup.inj (Option.some.inj horder)
              obtain ⟨row, hrow, hu⟩ := List.any_eq_true.mp hname
              refine ⟨rfl, .inr (.inr ⟨.inl rfl, (taken_iff hd).mpr ⟨row, hrow, .inl ?_⟩⟩)⟩
              exact of_decide_eq_true hu
          | _ => cases horder
        · refine .inr ⟨_, _, password, rfl, fun h => hempty (.inl h),
            fun h => hempty (.inr (.inl h)), fun p hp => ?_, fun hother => ?_⟩
          · subst hp
            refine ⟨?_, rfl⟩
            rintro rfl
            exact hempty (.inr (.inr (by rw [y.truthy_str]; rfl)))
          · cases password with
            | str password => exact absurd rfl (hother password)
            | _ => rfl
      · rename_i hno
        refine .inl ⟨_, rfl, ?_⟩
        rintro u' e' p' horder
        split at horder
        · exact (hno _ _ _ rfl rfl rfl).elim
        · cases horder

/-- At its second query a signup is refused, or it goes on. -/
lemma findEmail_cases (hd : d.Consistent) {order : Option Order} {username email : String}
    {password : Json} (hasks : SignupAsks order username email password) :
    (∃ r : Response, findEmail username email password d = answered (d, r)
        ∧ Refuses y d order r.status)
      ∨ findEmail username email password d = d.wait (.insertUser username email password) := by
  rw [findEmail]
  split_ifs with hemail
  · refine .inl ⟨_, rfl, ?_⟩
    rintro u e p horder
    obtain ⟨row, hrow, he⟩ := List.any_eq_true.mp hemail
    have htaken : Taken (d.directory y).account username email :=
      (taken_iff hd).mpr ⟨row, hrow, .inr (of_decide_eq_true he)⟩
    have hsame : some (Order.signup u e p) = order := horder.symm
    cases password with
    | str password =>
        rw [(hasks.text password rfl).2] at hsame
        obtain ⟨rfl, rfl, rfl⟩ := Order.signup.inj (Option.some.inj hsame)
        exact ⟨rfl, .inr (.inr ⟨.inl rfl, htaken⟩)⟩
    | null | bool | int | float | lone | arr | obj =>
        rw [hasks.other (by simp)] at hsame
        cases hsame
  · exact .inr rfl

/-- The `INSERT` of a signup raises, or it creates the account. -/
lemma insertUser_cases {generated : List String} (h : Tables d generated) {order : Option Order}
    {username email : String} {password : Json}
    (hasks : SignupAsks order username email password) :
    (∃ r : Response, insertUser y read username email password d = answered (d, r)
        ∧ Refuses y d order r.status)
      ∨ ∃ p answer, insertUser y read username email password d
          = answered (d.withUser (newRow y read d username email p), ⟨201, answer⟩)
        ∧ order = some (.signup username email p)
        ∧ (pyAccountApi y).Signup (d.directory y).account username email p 201
          ((d.withUser (newRow y read d username email p)).directory y).account := by
  cases password with
  | str p =>
      obtain ⟨hp, horder⟩ := hasks.text p rfl
      simp only [insertUser]
      split_ifs with hclash
      · refine .inl ⟨_, rfl, ?_⟩
        rintro u' e' p' horder'
        rw [horder] at horder'
        obtain ⟨rfl, rfl, rfl⟩ := Order.signup.inj (Option.some.inj horder')
        obtain ⟨row, hrow, hor⟩ := List.any_eq_true.mp hclash
        refine ⟨rfl, .inr (.inr ⟨.inr rfl, (taken_iff h.consistent).mpr ⟨row, hrow, ?_⟩⟩)⟩
        exact of_decide_eq_true hor
      · have hfree : ¬ Taken (d.directory y).account username email := by
          rw [taken_iff h.consistent]
          rintro ⟨row, hrow, hor⟩
          exact hclash (List.any_eq_true.mpr ⟨row, hrow, decide_eq_true hor⟩)
        have hnames : ∀ r ∈ d.users, r.username ≠ (newRow y read d username email p).username := by
          intro r hr hu
          exact hfree ((taken_iff h.consistent).mpr ⟨r, hr, .inl hu⟩)
        refine .inr ⟨p, _, rfl, horder, ?_⟩
        refine ⟨hasks.username_ne, hasks.email_ne, hp, hfree,
          (newRow y read d username email p).view y, rfl, ?_, ⟨read.salt, rfl⟩,
          account_withUser hnames⟩
        simp only [UserRow.view, newRow]
        split_ifs <;> simp
  | null | bool | int | float | lone | arr | obj =>
      refine .inl ⟨_, rfl, ?_⟩
      rintro u' e' p' horder'
      rw [hasks.other (by simp)] at horder'
      cases horder'

/-- A login is refused, or its account is approved and it goes on to open a session. -/
lemma findAccount_cases (username password : Json) :
    (∃ r : Response, findAccount y username password d = answered (d, r)
        ∧ ∀ u p, y.toStr username = some u → y.toStr password = some p →
          LoginAnswer (d.directory y).account u p r.status)
      ∨ ∃ user, findAccount y username password d = d.wait (.insertSession user)
        ∧ ∀ u p, y.toStr username = some u → y.toStr password = some p →
          LoginAnswer (d.directory y).account u p 200 := by
  -- what a login with readable fields sees of the account it names
  have hview : ∀ u p, y.toStr username = some u → y.toStr password = some p →
      ∀ row, ((y.toStr username).bind fun name => d.users.find? fun row => row.username = name)
        = some row → (d.directory y).account u = some (row.view y)
          ∧ checkPassword y password row.passwordHash = (row.view y).opens p := by
    rintro u p hu hp row hrow
    rw [hu, Option.bind_some] at hrow
    simp only [PyDb.directory, hrow, Option.map_some, checkPassword, hp, UserRow.view, and_self]
  by_cases hlone : isLone username = true ∨ isLone password = true
  · refine .inl ⟨_, by rw [findAccount, if_pos hlone]; rfl, fun u p hu hp => ?_⟩
    rcases hlone with h | h
    · exact absurd h (isLone_ne_true hu)
    · exact absurd h (isLone_ne_true hp)
  rw [findAccount, if_neg hlone]
  cases hfound : (y.toStr username).bind fun name =>
      d.users.find? fun row => row.username = name with
  | none =>
      refine .inl ⟨⟨401, .error "invalid credentials"⟩, ?_, ?_⟩
      · simp only [ite_self]
        rfl
      · rintro u p hu -
        refine .inr (.inl ⟨rfl, fun a ha => ?_⟩)
        rw [hu, Option.bind_some] at hfound
        simp only [PyDb.directory, hfound, Option.map_none] at ha
        cases ha
  | some row =>
      simp only
      split_ifs with hcheck
      · cases hstatus : row.status with
        | pending =>
            refine .inl ⟨_, rfl, fun u p hu hp => ?_⟩
            obtain ⟨haccount, hopens⟩ := hview u p hu hp row hfound
            refine .inr (.inr ⟨rfl, _, haccount, hopens.symm.trans hcheck, ?_⟩)
            simp [UserRow.view, hstatus]
        | blocked =>
            refine .inl ⟨_, rfl, fun u p hu hp => ?_⟩
            obtain ⟨haccount, hopens⟩ := hview u p hu hp row hfound
            refine .inr (.inr ⟨rfl, _, haccount, hopens.symm.trans hcheck, ?_⟩)
            simp [UserRow.view, hstatus]
        | approved =>
            refine .inr ⟨row, rfl, fun u p hu hp => ?_⟩
            obtain ⟨haccount, hopens⟩ := hview u p hu hp row hfound
            exact .inl ⟨rfl, _, haccount, hopens.symm.trans hcheck, hstatus⟩
      · refine .inl ⟨_, rfl, fun u p hu hp => .inr (.inl ⟨rfl, fun a ha => ?_⟩)⟩
        obtain ⟨haccount, hopens⟩ := hview u p hu hp row hfound
        rw [haccount] at ha
        obtain rfl := Option.some.inj ha
        rw [← hopens]
        exact Bool.eq_false_iff.mpr hcheck

/-- The order of a login that reads its fields. -/
lemma pyOrder_login {body : Json} {m : List (Key × Json)} {u p : String}
    (hbody : y.dict body = some m) (h : pyOrder y (.login body) = some (.login u p)) :
    ∃ username password, last "username" m = some username ∧ last "password" m = some password
      ∧ y.toStr username = some u ∧ y.toStr password = some p := by
  rw [pyOrder, hbody, Option.bind_some] at h
  split at h
  · rename_i hu hp
    obtain ⟨rfl, rfl⟩ := Order.login.inj (Option.some.inj h)
    obtain ⟨username, hlast, hu⟩ := Option.bind_eq_some_iff.mp hu
    obtain ⟨password, hlast', hp⟩ := Option.bind_eq_some_iff.mp hp
    exact ⟨username, password, hlast, hlast', hu, hp⟩
  · cases h

lemma loginBody_cases (body : Json) :
    (∃ r : Response, loginBody y body d = answered (d, r)
        ∧ ∀ u p, pyOrder y (.login body) = some (.login u p) →
          LoginAnswer (d.directory y).account u p r.status)
      ∨ ∃ user, loginBody y body d = d.wait (.insertSession user)
        ∧ ∀ u p, pyOrder y (.login body) = some (.login u p) →
          LoginAnswer (d.directory y).account u p 200 := by
  cases hdict : y.dict body with
  | none =>
      refine .inl ⟨_, by rw [loginBody, hdict]; rfl, fun u p h => ?_⟩
      rw [pyOrder, hdict] at h
      cases h
  | some m =>
      cases hu : last "username" m with
      | none =>
          refine .inl ⟨⟨400, .error "username and password are required"⟩, ?_, fun u p h => ?_⟩
          · simp only [loginBody, hdict, hu]
            rfl
          · obtain ⟨username, -, hlast, -⟩ := pyOrder_login hdict h
            rw [hu] at hlast
            cases hlast
      | some username =>
          cases hp : last "password" m with
          | none =>
              refine .inl ⟨⟨400, .error "username and password are required"⟩, ?_,
                fun u p h => ?_⟩
              · simp only [loginBody, hdict, hu, hp]
                rfl
              · obtain ⟨-, password, -, hlast, -⟩ := pyOrder_login hdict h
                rw [hp] at hlast
                cases hlast
          | some password =>
              have hbody : loginBody y body d = findAccount y username password d := by
                simp only [loginBody, hdict, hu, hp]
              have hfields : ∀ u p, pyOrder y (.login body) = some (.login u p) →
                  y.toStr username = some u ∧ y.toStr password = some p := by
                intro u p h
                obtain ⟨username', password', hlast, hlast', hu', hp'⟩ := pyOrder_login hdict h
                rw [hu, Option.some.injEq] at hlast
                rw [hp, Option.some.injEq] at hlast'
                subst hlast
                subst hlast'
                exact ⟨hu', hp'⟩
              rw [hbody]
              rcases findAccount_cases (y := y) (d := d) username password with
                ⟨r, heq, h⟩ | ⟨user, heq, h⟩
              · exact .inl ⟨r, heq, fun u p horder =>
                  h u p (hfields u p horder).1 (hfields u p horder).2⟩
              · exact .inr ⟨user, heq, fun u p horder =>
                  h u p (hfields u p horder).1 (hfields u p horder).2⟩

/-! ### The invariant -/

/-- What a request to the views asks for. -/
def PyRequest.order (y : PyExternals) : PyRequest → Option Order
  | .api request => pyOrder y request
  | .peers _ => none
  | .prune => none

/-- The status of an answer. -/
def PyAnswer.status : PyAnswer → ℕ
  | .response r => r.status
  | .peers _ => 200

/-- The calls of a run, as orders and status codes. -/
def PyConfig.orders (y : PyExternals) (c : PyConfig) : List (CallEvent ℕ (Option Order) ℕ) :=
  c.calls.map (.map (fun call => call.1.order y) fun answer => answer.1.status)

/-- How far a view is: a login has taken effect when it is about to open a session. -/
def PyTask.progress (y : PyExternals) (task : PyTask) : Progress (Option Order) ℕ :=
  match task.pc with
  | .insertSession _ => .done (task.request.order y) 200
  | _ => .pending (task.request.order y)

/-- A signup between its statements goes on with what it asks for. -/
def PyTask.Asks (y : PyExternals) (task : PyTask) : Prop :=
  match task.pc with
  | .findEmail username email password =>
      SignupAsks (task.request.order y) username email password
  | .insertUser username email password =>
      SignupAsks (task.request.order y) username email password
  | _ => True

/-- The accounts and the views at work, in step with the server. -/
structure PyAccounted (y : PyExternals) (c : PyConfig) : Prop where
  tables : TablesOk c
  numbered : ∀ i op, .call i op ∈ c.calls → i < c.next
  flight : InFlight (accountSpec (pyAccountApi y)) (fun _ => none) (fun _ => PyTask.progress y)
    c.tasks (c.orders y) (c.db.directory y).account
  tasks : ∀ i task, c.tasks i = some task → task.Asks y

/-- What is left to show of a segment of view `i`: the calls stay in step with the accounts after
it, and the view goes on with what it is asked for. -/
def PyFine (y : PyExternals) (c : PyConfig) (i : ℕ) (request : PyRequest) (o : PyOutcome) : Prop :=
  InFlight (accountSpec (pyAccountApi y)) (fun _ => none) (fun _ => PyTask.progress y)
      (Function.update c.tasks i (taskAfter (PyTask.mk request) o.next))
      (c.orders y ++ eventsAfter i PyAnswer.status o.next) (o.db.directory y).account
    ∧ ∀ pc, o.next = .inl pc → (⟨request, pc⟩ : PyTask).Asks y

section Segments

variable (h : PyAccounted y c) (htask : c.tasks i = some ⟨request, pc⟩)
include h htask

/-- The view goes on, with its effect still to come. -/
lemma pyFine_wait {pc' : PyPc} (hnext : o.next = .inl pc')
    (hpc : (⟨request, pc'⟩ : PyTask).progress y = (⟨request, pc⟩ : PyTask).progress y)
    (haccounts : (o.db.directory y).account = (c.db.directory y).account)
    (hasks : (⟨request, pc'⟩ : PyTask).Asks y) : PyFine y c i request o := by
  refine ⟨?_, fun pc'' hpc'' => ?_⟩
  · rw [haccounts]
    exact h.flight.wait htask hnext hpc
  · rw [hnext] at hpc''
    obtain rfl := Sum.inl.inj hpc''
    exact hasks

/-- The view has its effect and answers. -/
lemma pyFine_answer {answer : PyAnswer} (hnext : o.next = .inr answer)
    (hpc : (⟨request, pc⟩ : PyTask).progress y = .pending (request.order y))
    (hspec : (accountSpec (pyAccountApi y)).next (c.db.directory y).account
      (request.order y) answer.status (o.db.directory y).account) : PyFine y c i request o := by
  refine ⟨h.flight.answer_now htask hnext hpc hspec, fun pc'' hpc'' => ?_⟩
  rw [hnext] at hpc''
  cases hpc''

end Segments

/-- The answer of a signup that leaves the accounts alone. -/
lemma Refuses.next {body : Json} {status : ℕ} (h : Refuses y d (pyOrder y (.signup body)) status) :
    (accountSpec (pyAccountApi y)).next (d.directory y).account (pyOrder y (.signup body)) status
      (d.directory y).account := by
  cases horder : pyOrder y (.signup body) with
  | none => rfl
  | some order =>
      obtain ⟨u, e, p, rfl⟩ := pyOrder_signup horder
      exact h u e p horder

/-- The answer of a login. -/
lemma login_next {body : Json} {status : ℕ}
    (h : ∀ u p, pyOrder y (.login body) = some (.login u p) →
      LoginAnswer (d.directory y).account u p status) :
    (accountSpec (pyAccountApi y)).next (d.directory y).account (pyOrder y (.login body)) status
      (d.directory y).account := by
  cases horder : pyOrder y (.login body) with
  | none => rfl
  | some order =>
      obtain ⟨u, p, rfl⟩ := pyOrder_login_eq horder
      exact ⟨rfl, h u p horder⟩

/-! ### Every segment -/

/-- A signup. -/
lemma pyFine_signup (h : PyAccounted y c) {body : Json}
    (htask : c.tasks i = some ⟨.api (.signup body), pc⟩)
    (hseg : pySegment y read c.db (.api (.signup body)) pc = some o) :
    PyFine y c i (.api (.signup body)) o := by
  have hasks := h.tasks i _ htask
  have htables := h.tables.tables
  -- the three ways a segment of a signup can end
  have hrefuse : ∀ r : Response, (⟨.api (.signup body), pc⟩ : PyTask).progress y
        = .pending (pyOrder y (.signup body)) →
      Refuses y c.db (pyOrder y (.signup body)) r.status →
      PyFine y c i (.api (.signup body)) (answered (c.db, r)) :=
    fun r hpc hr => pyFine_answer h htask rfl hpc hr.next
  cases pc <;> cases hseg
  · rcases findName_cases (y := y) htables.consistent body with
      ⟨r, heq, hr⟩ | ⟨username, email, password, heq, hasks'⟩
    · rw [heq]
      exact hrefuse r rfl hr
    · rw [heq]
      exact pyFine_wait h htask rfl rfl rfl hasks'
  · rename_i username email password
    rcases findEmail_cases htables.consistent hasks with ⟨r, heq, hr⟩ | heq
    · rw [heq]
      exact hrefuse r rfl hr
    · rw [heq]
      exact pyFine_wait h htask rfl rfl rfl hasks
  · rename_i username email password
    rcases @insertUser_cases y read c.db _ htables _ _ _ _ hasks with
      ⟨r, heq, hr⟩ | ⟨p, answer, heq, horder, hspec⟩
    · rw [heq]
      exact hrefuse r rfl hr
    · rw [heq]
      refine pyFine_answer h htask rfl rfl ?_
      rw [horder]
      exact hspec

/-- A login. -/
lemma pyFine_login (h : PyAccounted y c) {body : Json}
    (htask : c.tasks i = some ⟨.api (.login body), pc⟩)
    (hseg : pySegment y read c.db (.api (.login body)) pc = some o) :
    PyFine y c i (.api (.login body)) o := by
  cases pc <;> cases hseg
  · rcases loginBody_cases (y := y) (d := c.db) body with ⟨r, heq, hr⟩ | ⟨user, heq, hr⟩
    · rw [heq]
      exact pyFine_answer h htask rfl rfl (login_next hr)
    · rw [heq]
      refine ⟨h.flight.commit htask rfl rfl rfl (login_next hr), fun pc' hpc' => ?_⟩
      obtain rfl := Sum.inl.inj hpc'
      trivial
  · exact ⟨h.flight.answer_later htask rfl rfl, fun pc' hpc' => by cases hpc'⟩

/-- A verification: the account it saves is the same but for its status. -/
lemma pyFine_verify (h : PyAccounted y c) {token : String}
    (htask : c.tasks i = some ⟨.api (.verify token), pc⟩)
    (hseg : pySegment y read c.db (.api (.verify token)) pc = some o) :
    PyFine y c i (.api (.verify token)) o := by
  cases pc <;> cases hseg
  · rw [findPending]
    split
    · exact pyFine_answer h htask rfl rfl rfl
    · exact pyFine_wait h htask rfl rfl rfl trivial
    · exact pyFine_answer h htask rfl rfl rfl
  · rename_i id
    have htau := h.flight.tau (sameButStatus_map (rewrites_approve fun row => row.id = id))
    exact ⟨htau.answer_now htask rfl rfl rfl, fun pc' hpc' => by cases hpc'⟩

/-- The view waits neither with an account nor to open a session. -/
def PyPc.Plain : PyPc → Prop
  | .findEmail _ _ _ => False
  | .insertUser _ _ _ => False
  | .insertSession _ => False
  | _ => True

lemma PyPc.Plain.progress (hpc : pc.Plain) :
    (⟨request, pc⟩ : PyTask).progress y = .pending (request.order y) := by
  cases pc <;> first | rfl | exact hpc.elim

lemma PyPc.Plain.asks (hpc : pc.Plain) : (⟨request, pc⟩ : PyTask).Asks y := by
  cases pc <;> trivial

/-- A segment that does not touch the accounts, of a request that neither signs up nor logs
in. -/
lemma pyFine_plain (h : PyAccounted y c) (htask : c.tasks i = some ⟨request, pc⟩)
    (hpc : pc.Plain) (hwaits : ∀ pc', o.next = .inl pc' → pc'.Plain)
    (hspec : ∀ accounts status,
      (accountSpec (pyAccountApi y)).next accounts (request.order y) status accounts)
    (husers : o.db.users = c.db.users) : PyFine y c i request o := by
  have haccounts := account_congr (y := y) husers
  cases hnext : o.next with
  | inl pc' =>
      exact pyFine_wait h htask hnext ((hwaits pc' hnext).progress.trans hpc.progress.symm)
        haccounts (hwaits pc' hnext).asks
  | inr answer =>
      refine pyFine_answer h htask hnext hpc.progress ?_
      rw [haccounts]
      exact hspec _ _

lemma plain_findSpeaker {now : ℕ} {header : Option String} {next : UserRow → PyPc}
    (hnext : ∀ user, (next user).Plain) :
    (∀ pc', (findSpeaker now header d next).next = .inl pc' → pc'.Plain)
      ∧ (findSpeaker now header d next).db = d := by
  rw [findSpeaker]
  split
  · exact ⟨fun pc' hpc' => (by cases hpc'), rfl⟩
  · exact ⟨fun pc' hpc' => Sum.inl.inj hpc' ▸ hnext _, rfl⟩

lemma plain_readBody {now : ℕ} (user : UserRow) (body : Json) :
    (∀ pc', (readBody y now user body d).next = .inl pc' → pc'.Plain)
      ∧ (readBody y now user body d).db = d := by
  have href : ∀ status text, (∀ pc', (answered (refuse d status text)).next = .inl pc' →
      pc'.Plain) ∧ (answered (refuse d status text)).db = d :=
    fun _ _ => ⟨fun pc' hpc' => (by cases hpc'), rfl⟩
  have hraise : (∀ pc', (answered (raised d)).next = .inl pc' → pc'.Plain)
      ∧ (answered (raised d)).db = d := ⟨fun pc' hpc' => (by cases hpc'), rfl⟩
  unfold readBody
  split
  · split
    · split_ifs
      · exact href _ _
      · split
        · exact ⟨fun pc' hpc' => Sum.inl.inj hpc' ▸ trivial, rfl⟩
        · exact hraise
    · exact href _ _
  · exact hraise

/-- **A segment** keeps the calls in step with the accounts. -/
lemma pyFine_segment (h : PyAccounted y c) (htask : c.tasks i = some ⟨request, pc⟩)
    (hseg : pySegment y read c.db request pc = some o) : PyFine y c i request o := by
  cases request with
  | api request =>
      cases request with
      | signup body => exact pyFine_signup h htask hseg
      | login body => exact pyFine_login h htask hseg
      | verify token => exact pyFine_verify h htask hseg
      | register header body =>
          have hspec : ∀ accounts status, (accountSpec (pyAccountApi y)).next accounts
              ((PyRequest.api (.register header body)).order y) status accounts := by
            intro accounts status
            cases horder : registrant y body <;>
              simp [PyRequest.order, pyOrder, horder, accountSpec]
          cases pc <;> cases hseg
          · have hplain := @plain_findSpeaker c.db read.now header .readBody fun _ => trivial
            exact pyFine_plain h htask trivial hplain.1 hspec (congrArg _ hplain.2)
          · have hplain := @plain_readBody y c.db read.now
            exact pyFine_plain h htask trivial (hplain _ _).1 hspec (congrArg _ (hplain _ _).2)
          · exact pyFine_plain h htask trivial (by simp [putRecord, answered]) hspec rfl
      | deregister header body =>
          have hspec : ∀ accounts status, (accountSpec (pyAccountApi y)).next accounts
              ((PyRequest.api (.deregister header body)).order y) status accounts := by
            intro accounts status
            cases horder : deregistrant y body <;>
              simp [PyRequest.order, pyOrder, horder, accountSpec]
          cases pc <;> cases hseg
          · have hplain := @plain_findSpeaker c.db read.now header .dropRecord fun _ => trivial
            exact pyFine_plain h htask trivial hplain.1 hspec (congrArg _ hplain.2)
          · exact pyFine_plain h htask trivial (by simp [dropRecord, answered]) hspec
              (deregisterAs_tables _ _).1
  | peers u =>
      cases pc <;> cases hseg
      · exact pyFine_plain h htask trivial (by simp [PyDb.wait, PyPc.Plain]) (fun _ _ => rfl) rfl
      · exact pyFine_plain h htask trivial (by simp [listRecords]) (fun _ _ => rfl) rfl
  | prune =>
      cases pc <;> cases hseg
      · exact pyFine_plain h htask trivial (by simp [PyDb.wait, PyPc.Plain]) (fun _ _ => rfl) rfl
      · exact pyFine_plain h htask trivial (by simp [pruneRecords, answered]) (fun _ _ => rfl) rfl

/-! ### Runs -/

/-- The views at work after a segment. -/
lemma py_orders_after : (c.after i request read o).orders y
    = c.orders y ++ eventsAfter i PyAnswer.status o.next := by
  rw [PyConfig.orders, PyConfig.after, List.map_append]
  cases o.next <;> rfl

/-- A segment of a view. -/
lemma PyFine.accounted (hf : PyFine y c i request o) (h : PyAccounted y c)
    (htables : TablesOk (c.after i request read o)) : PyAccounted y (c.after i request read o) := by
  obtain ⟨hflight, hasks⟩ := hf
  refine ⟨htables, fun j op hj => ?_, ?_, fun j task hj => ?_⟩
  · rcases List.mem_append.mp hj with hj | hj
    · exact h.numbered j op hj
    · cases hnext : o.next <;> simp [hnext] at hj
  · rw [py_orders_after]
    exact hflight
  · rcases py_tasks_after hj with ⟨-, hj⟩ | ⟨-, pc', hpc', rfl⟩
    · exact h.tasks j task hj
    · exact hasks pc' hpc'

/-- A request arrives. -/
lemma PyAccounted.arrive (h : PyAccounted y c) (request : PyRequest)
    (htables : TablesOk { c with
      tasks := Function.update c.tasks c.next (some ⟨request, .start⟩)
      next := c.next + 1
      calls := c.calls ++ [.call c.next (request, c.clock)] }) :
    PyAccounted y { c with
      tasks := Function.update c.tasks c.next (some ⟨request, .start⟩)
      next := c.next + 1
      calls := c.calls ++ [.call c.next (request, c.clock)] } := by
  refine ⟨htables, fun j op hj => ?_, ?_, fun j task hj => ?_⟩
  · rcases List.mem_append.mp hj with hj | hj
    · exact (h.numbered j op hj).trans (Nat.lt_succ_self _)
    · rw [(CallEvent.call.inj (List.mem_singleton.mp hj)).1]
      exact Nat.lt_succ_self _
  · have hfresh : ∀ op, .call c.next op ∉ c.orders y := by
      intro op hop
      obtain ⟨call, hcall, -⟩ := CallEvent.mem_map_call.mp hop
      exact lt_irrefl _ (h.numbered _ call hcall)
    rw [PyConfig.orders, List.map_append]
    exact h.flight.call (fun _ _ _ => rfl) hfresh rfl
  · have hold : Function.update c.tasks c.next (some ⟨request, .start⟩) j = some task := hj
    rw [Function.update_apply] at hold
    split_ifs at hold
    · obtain rfl := Option.some.inj hold
      trivial
    · exact h.tasks j task hold

/-- Every step keeps the accounts in step with the server. -/
lemma PyAccounted.step {a : PyAction} (h : PyAccounted y c) (hs : c.step y a = some c') :
    PyAccounted y c' := by
  have htables := (h.tables.step hs).1
  rcases pyStep_cases hs with ⟨request, -, rfl⟩
    | ⟨i, read, request, pc, o, -, htask, -, -, hseg, rfl⟩ | ⟨selected, -, rfl⟩
    | ⟨selected, -, rfl⟩
  · exact h.arrive request htables
  · exact (pyFine_segment h htask hseg).accounted h htables
  · have hsame := sameButStatus_map (y := y) (d := c.db)
      (rewrites_block fun row => row.id ∈ selected)
    exact ⟨htables, h.numbered, h.flight.tau hsame, h.tasks⟩
  · have hsame := sameButStatus_map (y := y) (d := c.db)
      (rewrites_approve fun row => row.id ∈ selected)
    exact ⟨htables, h.numbered, h.flight.tau hsame, h.tasks⟩

/-- The answers of a run, with the numbers of their calls. -/
def PyConfig.answers (c : PyConfig) : List (ℕ × ℕ) :=
  c.calls.filterMap fun
    | .call _ _ => none
    | .ret i answer => some (i, answer.1.status)

end Rendezvous
