import Dddatasync.Rendezvous.Serial

/-!
The way of an account through a rendezvous server, whichever it is: signup, approval, login,
registration of a device.

* `Service`: a server that serves one request after another, with the administrator at work.
* `Trip`: a signup that succeeded, the account approved, and a login to come, with anything
  else before and between; `Trip.Works`: the login gives a token, and the token is good for
  registrations.
* `Laws`: what a server keeps of an account and of a session; `works_iff`: a server that keeps
  these laws serves a trip exactly if it stores the username as it is.
-/

namespace Rendezvous

open Runs

/-- A server: its stores `S` and what happens to it, `T`. -/
structure Service (S T : Type*) where
  init : S
  next : S → T → S
  signup : Reading → SignupRequest → S → S × Response
  login : Reading → LoginRequest → S → S × Response
  -- with the bearer token
  register : Reading → String → RegisterRequest → S → S × Response
  -- what a signup makes of a username
  name : String → String
  approved : S → String → Prop
  -- the administrator takes the approval of this account away
  blocks : S → T → String → Prop
  clock : T → Option ℕ
  -- the token under which a login would open its session
  opens : T → Option String

variable {S T : Type*} {V : Service S T} {u e p : String}

/-- A signup with these texts was answered 201, and its account is approved when the login
comes.  The token of the login is its own. -/
structure Trip (V : Service S T) (u e p : String) where
  before : List T
  signup : Reading
  middle : List T
  login : Reading
  created : (V.signup signup ⟨u, e, p⟩ (before.foldl V.next V.init)).2.status = 201
  approved : V.approved
    (middle.foldl V.next (V.signup signup ⟨u, e, p⟩ (before.foldl V.next V.init)).1) (V.name u)
  fresh : ∀ turn ∈ before ++ middle, V.opens turn ≠ some login.token

namespace Trip

/-- The server after the signup. -/
def signedUp (t : Trip V u e p) : S :=
  (V.signup t.signup ⟨u, e, p⟩ (t.before.foldl V.next V.init)).1

/-- The server when the login comes. -/
def atLogin (t : Trip V u e p) : S := t.middle.foldl V.next t.signedUp

/-- The login with the same username and password. -/
def answer (t : Trip V u e p) : S × Response := V.login t.login ⟨u, p⟩ t.atLogin

/-- The login returns its token, and as long as this is not expired and the account not
blocked, a registration with it for the same username is accepted. -/
structure Works (t : Trip V u e p) : Prop where
  login : t.answer.2 = ⟨200, .token t.login.token⟩
  register : ∀ (after : List T) (read : Reading) (req : RegisterRequest), req.username = u →
    (∀ turn ∈ after, V.opens turn ≠ some t.login.token) →
    (∀ turn ∈ after, ∀ now ∈ V.clock turn, now ≤ read.now) →
    Along V.next (fun s turn => ¬ V.blocks s turn (V.name u)) t.answer.1 after →
    read.now < t.login.now + sessionTtlSecs →
    (V.register read t.login.token req (after.foldl V.next t.answer.1)).2.status = 200

end Trip

/-- What a server keeps.  `inv` holds of its stores, `fits` says that an account is there and
the password fits its hash, `unissued` that no session has the token, and `session` that the
session of the token is the user's until then. -/
structure Laws (V : Service S T) where
  inv : S → Prop
  fits : S → String → String → Prop
  unissued : S → String → Prop
  session : S → String → String → ℕ → Prop
  inv_init : inv V.init
  inv_next : ∀ {s t}, inv s → inv (V.next s t)
  inv_signup : ∀ {s read req}, inv s → inv (V.signup read req s).1
  inv_login : ∀ {s read req}, inv s → inv (V.login read req s).1
  fits_signup : ∀ {s read req}, inv s → (V.signup read req s).2.status = 201 →
    fits (V.signup read req s).1 (V.name req.username) req.password
  fits_next : ∀ {s t v q}, inv s → fits s v q → fits (V.next s t) v q
  approved_next : ∀ {s t v}, inv s → V.approved s v → ¬ V.blocks s t v →
    V.approved (V.next s t) v
  unissued_init : ∀ {token}, unissued V.init token
  unissued_next : ∀ {s t token}, unissued s token → V.opens t ≠ some token →
    unissued (V.next s t) token
  unissued_signup : ∀ {s read req token}, unissued s token →
    unissued (V.signup read req s).1 token
  login_unknown : ∀ {s read req}, inv s → V.name req.username ≠ req.username →
    (V.login read req s).2.status = 401
  login_known : ∀ {s read req}, inv s → unissued s read.token →
    fits s req.username req.password → V.approved s req.username →
    (V.login read req s).2 = ⟨200, .token read.token⟩
      ∧ session (V.login read req s).1 read.token req.username (read.now + sessionTtlSecs)
      ∧ V.approved (V.login read req s).1 req.username
  session_next : ∀ {s t token v e}, inv s → session s token v e → V.opens t ≠ some token →
    (∀ now ∈ V.clock t, now < e) → session (V.next s t) token v e
  register_ok : ∀ {s read token req e}, inv s → session s token req.username e →
    V.approved s req.username → read.now < e → (V.register read token req s).2.status = 200

namespace Laws

variable (L : Laws V) {s : S} {turns : List T}
include L

/-- What happens to the server keeps the invariant. -/
lemma inv_run (h : L.inv s) : L.inv (turns.foldl V.next s) := by
  induction turns generalizing s with
  | nil => exact h
  | cons t turns ih => exact ih (L.inv_next h)

lemma fits_run {v q : String} (hinv : L.inv s) (h : L.fits s v q) :
    L.fits (turns.foldl V.next s) v q := by
  induction turns generalizing s with
  | nil => exact h
  | cons t turns ih => exact ih (L.inv_next hinv) (L.fits_next hinv h)

lemma unissued_run {token : String} (h : L.unissued s token)
    (hfresh : ∀ t ∈ turns, V.opens t ≠ some token) : L.unissued (turns.foldl V.next s) token := by
  induction turns generalizing s with
  | nil => exact h
  | cons t turns ih =>
      rw [List.forall_mem_cons] at hfresh
      exact ih (L.unissued_next h hfresh.1) hfresh.2

/-- The account of a session that was just opened stays approved and the session open, until
it expires or the account is blocked. -/
lemma session_run {token v : String} {e : ℕ} (hinv : L.inv s) (h : L.session s token v e)
    (happroved : V.approved s v) (hfresh : ∀ t ∈ turns, V.opens t ≠ some token)
    (hclock : ∀ t ∈ turns, ∀ now ∈ V.clock t, now < e)
    (hblocks : Along V.next (fun s t => ¬ V.blocks s t v) s turns) :
    L.session (turns.foldl V.next s) token v e ∧ V.approved (turns.foldl V.next s) v := by
  induction turns generalizing s with
  | nil => exact ⟨h, happroved⟩
  | cons t turns ih =>
      rw [List.forall_mem_cons] at hfresh hclock
      rw [along_cons] at hblocks
      exact ih (L.inv_next hinv) (L.session_next hinv h hfresh.1 hclock.1)
        (L.approved_next hinv happroved hblocks.1) hfresh.2 hclock.2 hblocks.2

lemma inv_atLogin (t : Trip V u e p) : L.inv t.atLogin :=
  L.inv_run (L.inv_signup (L.inv_run L.inv_init))

/-- The password of the signup fits the account when the login comes. -/
lemma fits_atLogin (t : Trip V u e p) : L.fits t.atLogin (V.name u) p := by
  have hinv : L.inv (t.before.foldl V.next V.init) := L.inv_run L.inv_init
  exact L.fits_run (L.inv_signup hinv) (L.fits_signup hinv t.created)

lemma unissued_atLogin (t : Trip V u e p) : L.unissued t.atLogin t.login.token := by
  have hbefore : L.unissued (t.before.foldl V.next V.init) t.login.token :=
    L.unissued_run L.unissued_init fun turn hturn => t.fresh turn (List.mem_append_left _ hturn)
  exact L.unissued_run (L.unissued_signup hbefore) fun turn hturn =>
    t.fresh turn (List.mem_append_right _ hturn)

/-- **Credentials that signed up.**  They can log in and register exactly if the server stores
the username as it is. -/
theorem works_iff (t : Trip V u e p) : t.Works ↔ V.name u = u := by
  have hinv := L.inv_atLogin t
  constructor
  · intro h
    by_contra hne
    have hrefused : t.answer.2.status = 401 := L.login_unknown hinv hne
    rw [h.login] at hrefused
    exact absurd hrefused (by simp)
  · intro hname
    have hfits := L.fits_atLogin t
    have happroved : V.approved t.atLogin (V.name u) := t.approved
    rw [hname] at hfits happroved
    obtain ⟨hanswer, hsession, happroved⟩ : t.answer.2 = ⟨200, .token t.login.token⟩
        ∧ L.session t.answer.1 t.login.token u (t.login.now + sessionTtlSecs)
        ∧ V.approved t.answer.1 u :=
      L.login_known hinv (L.unissued_atLogin t) hfits happroved
    refine ⟨hanswer, fun after read req hreq hfresh hclock hblocks hlive => ?_⟩
    rw [hname] at hblocks
    have hexpires : ∀ turn ∈ after, ∀ now ∈ V.clock turn, now < t.login.now + sessionTtlSecs :=
      fun turn hturn now hnow => (hclock turn hturn now hnow).trans_lt hlive
    obtain ⟨hsession, happroved⟩ :=
      L.session_run (L.inv_login hinv) hsession happroved hfresh hexpires hblocks
    subst hreq
    exact L.register_ok (L.inv_run (L.inv_login hinv)) hsession happroved hlive

end Laws

end Rendezvous
