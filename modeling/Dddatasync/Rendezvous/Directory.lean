import Dddatasync.Library.Runs
import Dddatasync.Rendezvous.PyServer

/-!
What the REST API of a rendezvous server is about, without the way a server stores it.

* `Directory`: the accounts by username, the open verification links and the sessions.
* `Order`: what a request asks for; `Directory.Accepts`, `Directory.next`: which orders are
  carried out and what they change.
* `Directory.Sound`: a link belongs to a pending account, each account has at most one, and
  tokens are old; `sound_next`: an order keeps it.
* `ApiRequest`, `Call`: a request as it comes over the wire, with the clock and the random
  values its handler reads.
-/

namespace Rendezvous

/-! ### Requests -/

/-- A request to the API, with the JSON of its body and the text of its authorization header. -/
inductive ApiRequest where
  | signup (body : Json)
  | login (body : Json)
  | verify (token : String)
  | register (header : Option String) (body : Json)
  | deregister (header : Option String) (body : Json)

/-- A request, the clock when it is served, and the random token and salt for it. -/
structure Call where
  request : ApiRequest
  now : ℕ
  token : String
  salt : String

/-- What the handler of a call reads. -/
def Call.reading (c : Call) (autoApprove : Bool) : Reading where
  now := c.now
  token := c.token
  salt := c.salt
  autoApprove := autoApprove

/-- A response of the class 2xx. -/
def Response.Accepted (r : Response) : Prop := 200 ≤ r.status ∧ r.status < 300

instance (r : Response) : Decidable r.Accepted := inferInstanceAs (Decidable (_ ∧ _))

lemma not_accepted {status : ℕ} {body : Body} (h : 300 ≤ status) :
    ¬ (⟨status, body⟩ : Response).Accepted :=
  fun h' => absurd h'.2 (by simpa using h)

lemma accepted_ok {body : Body} : (⟨200, body⟩ : Response).Accepted :=
  ⟨le_rfl, by simp⟩

/-! ### Orders -/

/-- What a request asks for, once it is read. -/
inductive Order where
  | signup (username email password : String)
  | login (username password : String)
  | verify (token : String)
  -- a registration or deregistration for a user, with the bearer token
  | change (token : Option String) (username : String)

/-- What the API says of an account; `opens` tells the passwords that fit. -/
structure AccountView where
  email : String
  status : AccountStatus
  opens : String → Bool

/-- Accounts by username, usernames by verification token, sessions by token. -/
structure Directory where
  account : String → Option AccountView
  link : String → Option String
  session : String → Option (String × ℕ)

namespace Directory

/-- The token belongs to a live session of this approved user. -/
def Speaks (D : Directory) (now : ℕ) (token : Option String) (u : String) : Prop :=
  ∃ t e a, token = some t ∧ D.session t = some (u, e) ∧ now < e ∧ D.account u = some a
    ∧ a.status = .approved

/-- The order is carried out. -/
def Accepts (D : Directory) (now : ℕ) : Order → Prop
  | .signup u e p =>
      (u ≠ "" ∧ e ≠ "" ∧ p ≠ "") ∧ D.account u = none
        ∧ ∀ v a, D.account v = some a → a.email ≠ e
  | .login u p => ∃ a, D.account u = some a ∧ a.opens p = true ∧ a.status = .approved
  | .verify t => ∃ u, D.link t = some u
  | .change token u => D.Speaks now token u

/-- The directory after an order; `opens` are the attempts that fit a password. -/
def next (D : Directory) (read : Reading) (opens : String → String → Bool) : Order → Directory
  | .signup u e p =>
      let status := if read.autoApprove then .approved else .pending
      { D with
        account := Function.update D.account u (some ⟨e, status, opens p⟩)
        link := if read.autoApprove then D.link else Function.update D.link read.token (some u) }
  | .login u _ =>
      let session := (u, read.now + sessionTtlSecs)
      { D with session := Function.update D.session read.token (some session) }
  | .verify t =>
      match D.link t with
      | none => D
      | some u =>
          let account := (D.account u).map fun a => { a with status := .approved }
          { D with
            account := Function.update D.account u account
            link := Function.update D.link t none }
  | .change _ _ => D

/-- A link belongs to a pending account and to no other link's, and tokens are among the
generated ones. -/
structure Sound (D : Directory) (generated : List String) : Prop where
  pending : ∀ t u, D.link t = some u → ∃ a, D.account u = some a ∧ a.status = .pending
  one : ∀ t t' u, D.link t = some u → D.link t' = some u → t = t'
  link_old : ∀ t, (D.link t).isSome → t ∈ generated
  session_old : ∀ t, (D.session t).isSome → t ∈ generated

/-- What serving a read request does: an order that is carried out changes the directory,
any other request leaves it. -/
def Serves (D : Directory) (read : Reading) (opens : String → String → Bool)
    (order : Option Order) (accepted : Prop) (D' : Directory) : Prop :=
  (accepted ∧ ∃ o, order = some o ∧ D.Accepts read.now o ∧ D' = D.next read opens o)
    ∨ (¬ accepted ∧ (∀ o, order = some o → ¬ D.Accepts read.now o) ∧ D' = D)

variable {D D₁ D₂ : Directory} {read : Reading} {opens : String → String → Bool} {o : Order}
  {order : Option Order} {generated : List String} {accepted accepted₁ accepted₂ : Prop}

lemma Serves.unread (h : ¬ accepted) : D.Serves read opens none accepted D := by
  refine .inr ⟨h, ?_, rfl⟩
  intro o ho
  cases ho

lemma Serves.refused (h : ¬ accepted) (hno : ¬ D.Accepts read.now o) :
    D.Serves read opens (some o) accepted D := by
  refine .inr ⟨h, ?_, rfl⟩
  intro o' ho
  rw [← Option.some.inj ho]
  exact hno

lemma Serves.done (h : accepted) (hacc : D.Accepts read.now o) :
    D.Serves read opens (some o) accepted (D.next read opens o) :=
  .inl ⟨h, o, rfl, hacc, rfl⟩

/-- Serving is determined by what is asked for. -/
lemma Serves.unique (h₁ : D.Serves read opens order accepted₁ D₁)
    (h₂ : D.Serves read opens order accepted₂ D₂) : (accepted₁ ↔ accepted₂) ∧ D₁ = D₂ := by
  rcases h₁ with ⟨ha₁, o₁, ho₁, hacc₁, rfl⟩ | ⟨ha₁, hno₁, rfl⟩ <;>
    rcases h₂ with ⟨ha₂, o₂, ho₂, hacc₂, rfl⟩ | ⟨ha₂, hno₂, rfl⟩
  · obtain rfl : o₁ = o₂ := Option.some.inj (ho₁.symm.trans ho₂)
    exact ⟨iff_of_true ha₁ ha₂, rfl⟩
  · exact absurd hacc₁ (hno₂ o₁ ho₁)
  · exact absurd hacc₂ (hno₁ o₂ ho₂)
  · exact ⟨iff_of_false ha₁ ha₂, rfl⟩

lemma update_eq_some {α β : Type*} [DecidableEq α] {f : α → Option β} {a t : α} {o : Option β}
    {v : β} : Function.update f a o t = some v ↔ t = a ∧ o = some v ∨ t ≠ a ∧ f t = some v := by
  by_cases h : t = a
  · subst h
    simp
  · simp [h]

lemma Sound.cons (h : D.Sound generated) (t : String) : D.Sound (t :: generated) :=
  ⟨h.pending, h.one, fun t ht => List.mem_cons_of_mem _ (h.link_old t ht),
    fun t ht => List.mem_cons_of_mem _ (h.session_old t ht)⟩

/-- The links of a sound directory belong to other users than a new one. -/
lemma Sound.link_ne (h : D.Sound generated) {u t v : String} (hnone : D.account u = none)
    (hv : D.link t = some v) : v ≠ u := by
  rintro rfl
  obtain ⟨a, ha, -⟩ := h.pending t v hv
  rw [hnone] at ha
  cases ha

lemma sound_signup (h : D.Sound generated) {u e p : String}
    (hnone : D.account u = none) :
    (D.next read opens (.signup u e p)).Sound (read.token :: generated) := by
  by_cases hauto : read.autoApprove = true
  · simp only [next, hauto, if_true]
    refine ⟨fun t v hv => ?_, h.one, fun t ht => List.mem_cons_of_mem _ (h.link_old t ht),
      fun t ht => List.mem_cons_of_mem _ (h.session_old t ht)⟩
    dsimp only
    rw [Function.update_of_ne (h.link_ne hnone hv)]
    exact h.pending t v hv
  · simp only [next, hauto, Bool.false_eq_true, if_false]
    refine ⟨fun t v hv => ?_, fun t t' v hv hv' => ?_, fun t ht => ?_,
      fun t ht => List.mem_cons_of_mem _ (h.session_old t ht)⟩
    all_goals dsimp only at *
    · rcases update_eq_some.mp hv with ⟨-, hu⟩ | ⟨-, hv⟩
      · rw [← Option.some.inj hu, Function.update_self]
        exact ⟨_, rfl, rfl⟩
      · rw [Function.update_of_ne (h.link_ne hnone hv)]
        exact h.pending t v hv
    · rcases update_eq_some.mp hv with ⟨ht, hu⟩ | ⟨-, hv⟩ <;>
        rcases update_eq_some.mp hv' with ⟨ht', hu'⟩ | ⟨-, hv'⟩
      · exact ht.trans ht'.symm
      · exact absurd (Option.some.inj hu).symm (h.link_ne hnone hv')
      · exact absurd (Option.some.inj hu').symm (h.link_ne hnone hv)
      · exact h.one t t' v hv hv'
    · obtain ⟨v, hv⟩ := Option.isSome_iff_exists.mp ht
      rcases update_eq_some.mp hv with ⟨rfl, -⟩ | ⟨-, hv⟩
      · exact List.mem_cons_self
      · exact List.mem_cons_of_mem _ (h.link_old t (by simp [hv]))

lemma sound_login (h : D.Sound generated) {u p : String} :
    (D.next read opens (.login u p)).Sound (read.token :: generated) := by
  refine ⟨h.pending, h.one, fun t ht => List.mem_cons_of_mem _ (h.link_old t ht), fun t ht => ?_⟩
  obtain ⟨v, hv⟩ := Option.isSome_iff_exists.mp ht
  rcases update_eq_some.mp hv with ⟨rfl, -⟩ | ⟨-, hv⟩
  · exact List.mem_cons_self
  · exact List.mem_cons_of_mem _ (h.session_old t (by simp [hv]))

lemma sound_verify (h : D.Sound generated) {t u : String} (hu : D.link t = some u) :
    (D.next read opens (.verify t)).Sound generated := by
  simp only [next, hu]
  refine ⟨fun t' v hv => ?_, fun t' t'' v hv hv' => ?_, fun t' ht => ?_, h.session_old⟩
  all_goals dsimp only at *
  · rcases update_eq_some.mp hv with ⟨-, hv⟩ | ⟨ht, hv⟩
    · cases hv
    · have hvu : v ≠ u := by
        rintro rfl
        exact ht (h.one t' t v hv hu)
      rw [Function.update_of_ne hvu]
      exact h.pending t' v hv
  · rcases update_eq_some.mp hv with ⟨-, hv⟩ | ⟨-, hv⟩ <;>
      rcases update_eq_some.mp hv' with ⟨-, hv'⟩ | ⟨-, hv'⟩
    · cases hv
    · cases hv
    · cases hv'
    · exact h.one t' t'' v hv hv'
  · obtain ⟨v, hv⟩ := Option.isSome_iff_exists.mp ht
    rcases update_eq_some.mp hv with ⟨-, hv⟩ | ⟨-, hv⟩
    · cases hv
    · exact h.link_old t' (by simp [hv])

/-- **An order** keeps the directory sound. -/
lemma sound_next (h : D.Sound generated) (hacc : D.Accepts read.now o) :
    (D.next read opens o).Sound (read.token :: generated) := by
  cases o with
  | signup u e p => exact sound_signup h hacc.2.1
  | login u p => exact sound_login h
  | verify t =>
      obtain ⟨u, hu⟩ := hacc
      exact (sound_verify h hu).cons _
  | change token u => exact h.cons _

/-- Serving a request keeps the directory sound. -/
lemma Serves.sound {D' : Directory} (hs : D.Serves read opens order accepted D')
    (h : D.Sound generated) : D'.Sound (read.token :: generated) := by
  rcases hs with ⟨-, o, -, hacc, rfl⟩ | ⟨-, -, rfl⟩
  · exact sound_next h hacc
  · exact h.cons _

end Directory

end Rendezvous
