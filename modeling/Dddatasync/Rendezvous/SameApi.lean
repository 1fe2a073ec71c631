import Dddatasync.Rendezvous.PyApi
import Dddatasync.Rendezvous.RustApi

/-!
The two servers side by side.

* `Ordinary`: a request that both servers read the same way; `orders_agree`.
* `HashedAlike`: a password that is hashed, and whose hashes the attempts of a run open alike;
  `Externals.only`, `rustServe_only`, `pyServe_only`: what is not tried makes no difference.
* `Servers`, `Servers.next`: both servers, served the same calls one after another.
* `same_api`: over every run whose requests are ordinary and come off the second in which
  their session expires, each request is accepted by both servers or by neither.
-/

namespace Rendezvous

open Runs Json

/-! ### What is read the same way -/

/-- Both servers read the request the same way.

* What `serde` takes for the request structure, `json.loads` reads as a dictionary: the body is
  no list that fits by position, has no integer of too many digits and is not nested too deep.
* Where the view finds its members, every name in the body has a UTF-8, and each of the members
  occurs once and has the type of the structure.
* A username and an address for a signup have no U+001C to U+001F at their ends, which
  `str.strip` takes off and `str::trim` leaves. -/
def Ordinary (y : PyExternals) : ApiRequest → Prop
  | .signup body =>
      ((SignupRequest.decode body).isSome → (y.dict body).isSome)
        ∧ ∀ m u e p, y.dict body = some m → last "username" m = some (.str u) →
          last "email" m = some (.str e) → last "password" m = some (.str p) →
          (named m ∧ Once "username" m ∧ Once "email" m ∧ Once "password" m)
            ∧ strip u = trim u ∧ strip e = trim e
  | .login body =>
      ((LoginRequest.decode body).isSome → (y.dict body).isSome)
        ∧ ∀ m u p, y.dict body = some m → last "username" m = some u →
          last "password" m = some p → (y.toStr u).isSome → (y.toStr p).isSome →
          (named m ∧ Once "username" m ∧ Once "password" m) ∧ u.text.isSome ∧ p.text.isSome
  | .verify _ => True
  | .register _ body =>
      ((RegisterRequest.decode body).isSome → (y.dict body).isSome)
        ∧ ∀ m u n a, y.dict body = some m → last "username" m = some (.str u) →
          last "node_id" m = some n → last "addrs" m = some a →
          (named m ∧ Once "username" m ∧ Once "node_id" m ∧ Once "addrs" m
              ∧ Once "relay_url" m)
            ∧ n.text.isSome ∧ a.texts.isSome
            ∧ ((last "relay_url" m).getD .null).textOrNull.isSome
  | .deregister _ body =>
      ((DeregisterRequest.decode body).isSome → (y.dict body).isSome)
        ∧ ∀ m u n, y.dict body = some m → last "username" m = some (.str u) →
          last "node_id" m = some n →
          (named m ∧ Once "username" m ∧ Once "node_id" m) ∧ n.text.isSome

variable {x : Externals} {y : PyExternals}

section Readers

variable {name : String} {m : List (Key × Json)}

/-- A text that occurs once is read. -/
lemma requiredText_of_isSome {v : Json} (hlast : last name m = some v) (honce : Once name m)
    (htext : v.text.isSome) : ∃ s, v = .str s ∧ requiredText name m = some s := by
  obtain ⟨s, hs⟩ := Option.isSome_iff_exists.mp htext
  obtain rfl := text_eq_some hs
  exact ⟨s, rfl, requiredText_of_last hlast honce⟩

/-- A list of texts that occurs once is read. -/
lemma requiredTexts_of_isSome {v : Json} (hlast : last name m = some v) (honce : Once name m)
    (htexts : v.texts.isSome) : (requiredTexts name m).isSome := by
  rw [requiredTexts, only_of_last hlast honce, Option.bind_some]
  exact htexts

end Readers

/-- A body that the view does not read is not decoded. -/
lemma eq_none_of_unread {α : Type*} {decoded : Option α} {body : Json}
    (hbody : y.dict body = none) (h : decoded.isSome → (y.dict body).isSome) : decoded = none := by
  rw [hbody] at h
  exact Option.not_isSome_iff_eq_none.mp fun hsome => Bool.false_ne_true (h hsome)

lemma signup_agrees (hlower : ∀ s, y.lower s = x.toLowercase s) {body : Json}
    (h : Ordinary y (.signup body)) :
    rustOrder x (.signup body) = pyOrder y (.signup body) := by
  obtain ⟨hread, hobject⟩ := h
  cases hbody : y.dict body with
  | none => rw [rustOrder, pyOrder, hbody, eq_none_of_unread hbody hread]; rfl
  | some m =>
      obtain rfl := eq_obj_of_dict hbody
      simp only [rustOrder, pyOrder, SignupRequest.decode, hbody, Option.bind_some]
      by_cases hnamed : named m = true
      · rw [if_pos hnamed]
        split
        · rename_i u e p hu he hp
          rw [last_of_requiredText hu, last_of_requiredText he, last_of_requiredText hp]
          obtain ⟨-, hname, hemail⟩ := hobject m u e p hbody (last_of_requiredText hu)
            (last_of_requiredText he) (last_of_requiredText hp)
          simp only [Option.map_some, hname, hemail, hlower]
        · rename_i hnone
          split
          · rename_i u e p hu he hp
            obtain ⟨⟨-, hu₁, he₁, hp₁⟩, -⟩ := hobject m u e p hbody hu he hp
            exact (hnone u e p (requiredText_of_last hu hu₁) (requiredText_of_last he he₁)
              (requiredText_of_last hp hp₁)).elim
          · rfl
      · rw [if_neg hnamed]
        split
        · rename_i u e p hu he hp
          exact absurd (hobject m u e p hbody hu he hp).1.1 hnamed
        · rfl

lemma login_agrees {body : Json} (h : Ordinary y (.login body)) :
    rustOrder x (.login body) = pyOrder y (.login body) := by
  obtain ⟨hread, hobject⟩ := h
  cases hbody : y.dict body with
  | none => rw [rustOrder, pyOrder, hbody, eq_none_of_unread hbody hread]; rfl
  | some m =>
      have hfields : ∀ u p, (last "username" m).bind y.toStr = some u →
          (last "password" m).bind y.toStr = some p → ∃ v w, last "username" m = some v
            ∧ last "password" m = some w
            ∧ (named m ∧ Once "username" m ∧ Once "password" m) ∧ v.text.isSome
            ∧ w.text.isSome := by
        intro u p hu hp
        obtain ⟨v, hv, hu⟩ := Option.bind_eq_some_iff.mp hu
        obtain ⟨w, hw, hp⟩ := Option.bind_eq_some_iff.mp hp
        obtain ⟨honce, htexts⟩ := hobject m v w hbody hv hw (by rw [hu]; rfl) (by rw [hp]; rfl)
        exact ⟨v, w, hv, hw, honce, htexts⟩
      obtain rfl := eq_obj_of_dict hbody
      simp only [rustOrder, pyOrder, LoginRequest.decode, hbody, Option.bind_some]
      by_cases hnamed : named m = true
      · rw [if_pos hnamed]
        split
        · rename_i u p hu hp
          simp only [last_of_requiredText hu, last_of_requiredText hp, Option.bind_some,
            y.toStr_str, Option.map_some]
        · rename_i hnone
          split
          · rename_i u p hu hp
            obtain ⟨v, w, hv, hw, ⟨-, hu₁, hp₁⟩, hut, hpt⟩ := hfields u p hu hp
            obtain ⟨u', -, hu'⟩ := requiredText_of_isSome hv hu₁ hut
            obtain ⟨p', -, hp'⟩ := requiredText_of_isSome hw hp₁ hpt
            exact (hnone u' p' hu' hp').elim
          · rfl
      · rw [if_neg hnamed]
        split
        · rename_i u p hu hp
          obtain ⟨v, w, -, -, ⟨hall, -⟩, -⟩ := hfields u p hu hp
          exact absurd hall hnamed
        · rfl

lemma register_agrees {header : Option String} {body : Json}
    (h : Ordinary y (.register header body)) :
    rustOrder x (.register header body) = pyOrder y (.register header body) := by
  obtain ⟨hread, hobject⟩ := h
  cases hbody : y.dict body with
  | none => rw [rustOrder, pyOrder, registrant, hbody, eq_none_of_unread hbody hread]; rfl
  | some m =>
      obtain rfl := eq_obj_of_dict hbody
      simp only [rustOrder, pyOrder, RegisterRequest.decode, registrant, hbody, Option.bind_some]
      by_cases hnamed : named m = true
      · rw [if_pos hnamed]
        split
        · rename_i u n a r hu hn ha hr
          obtain ⟨v, hv, -⟩ := last_of_requiredTexts ha
          simp only [last_of_requiredText hu, last_of_requiredText hn, hv, Option.map_some]
        · rename_i hnone
          split
          · rename_i u n a hu hn ha
            obtain ⟨⟨-, hu₁, hn₁, ha₁, hr₁⟩, hnt, hat, hrt⟩ := hobject m u n a hbody hu hn ha
            obtain ⟨n', -, hn'⟩ := requiredText_of_isSome hn hn₁ hnt
            obtain ⟨a', ha'⟩ := Option.isSome_iff_exists.mp (requiredTexts_of_isSome ha ha₁ hat)
            obtain ⟨r', hr'⟩ := Option.isSome_iff_exists.mp (isSome_optionalText hrt hr₁)
            exact (hnone u n' a' r' (requiredText_of_last hu hu₁) hn' ha' hr').elim
          · rfl
      · rw [if_neg hnamed]
        split
        · rename_i u n a hu hn ha
          exact absurd (hobject m u n a hbody hu hn ha).1.1 hnamed
        · rfl

lemma deregister_agrees {header : Option String} {body : Json}
    (h : Ordinary y (.deregister header body)) :
    rustOrder x (.deregister header body) = pyOrder y (.deregister header body) := by
  obtain ⟨hread, hobject⟩ := h
  cases hbody : y.dict body with
  | none => rw [rustOrder, pyOrder, deregistrant, hbody, eq_none_of_unread hbody hread]; rfl
  | some m =>
      obtain rfl := eq_obj_of_dict hbody
      simp only [rustOrder, pyOrder, DeregisterRequest.decode, deregistrant, hbody,
        Option.bind_some]
      by_cases hnamed : named m = true
      · rw [if_pos hnamed]
        split
        · rename_i u n hu hn
          simp only [last_of_requiredText hu, last_of_requiredText hn, Option.map_some]
        · rename_i hnone
          split
          · rename_i u n hu hn
            obtain ⟨⟨-, hu₁, hn₁⟩, hnt⟩ := hobject m u n hbody hu hn
            obtain ⟨n', -, hn'⟩ := requiredText_of_isSome hn hn₁ hnt
            exact (hnone u n' (requiredText_of_last hu hu₁) hn').elim
          · rfl
      · rw [if_neg hnamed]
        split
        · rename_i u n hu hn
          exact absurd (hobject m u n hbody hu hn).1.1 hnamed
        · rfl

/-- Both servers read the same order. -/
lemma orders_agree (hlower : ∀ s, y.lower s = x.toLowercase s) {request : ApiRequest}
    (h : Ordinary y request) : rustOrder x request = pyOrder y request := by
  cases request with
  | signup body => exact signup_agrees hlower h
  | login body => exact login_agrees h
  | verify token => rfl
  | register header body => exact register_agrees h
  | deregister header body => exact deregister_agrees h

/-! ### Passwords -/

/-- The password of an order that signs up. -/
def Order.chosen : Order → Option String
  | .signup _ _ password => some password
  | _ => none

/-- The password of an order that logs in. -/
def Order.tried : Order → Option String
  | .login _ password => some password
  | _ => none

/-- Both servers hash the password with the salt, and each of the attempts passes both checks or
neither. -/
def HashedAlike (x : Externals) (y : PyExternals) (salt : String) (tried : List String)
    (password : String) : Prop :=
  ∃ hash, x.hashPassword salt password = some hash
    ∧ ∀ attempt ∈ tried,
      x.verifyPassword attempt hash = y.checkPassword attempt (y.makePassword salt password)

/-- The same for every attempt. -/
def HashedSame (x : Externals) (y : PyExternals) (salt password : String) : Prop :=
  ∃ hash, x.hashPassword salt password = some hash ∧ ∀ attempt,
    x.verifyPassword attempt hash = y.checkPassword attempt (y.makePassword salt password)

/-- Checks of a password that let nothing pass but what is tried. -/
def Externals.only (x : Externals) (tried : List String) : Externals :=
  { x with verifyPassword := fun attempt hash =>
      decide (attempt ∈ tried) && x.verifyPassword attempt hash }

/-- The same for the Python server. -/
def PyExternals.only (y : PyExternals) (tried : List String) : PyExternals :=
  { y with checkPassword := fun attempt hash =>
      decide (attempt ∈ tried) && y.checkPassword attempt hash }

section Only

variable {tried : List String} {read : Reading} {request : ApiRequest} {s : AppState} {d : PyDb}

/-- A password that is hashed alike for the attempts that are made is so for all, if nothing else
is tried. -/
lemma HashedAlike.only {salt password : String} (h : HashedAlike x y salt tried password) :
    HashedSame (x.only tried) (y.only tried) salt password := by
  obtain ⟨hash, hhash, hcheck⟩ := h
  refine ⟨hash, hhash, fun attempt => ?_⟩
  by_cases htried : attempt ∈ tried
  · show (_ && _) = (_ && _)
    rw [hcheck attempt htried]
    rfl
  · show (decide _ && _) = (decide _ && _)
    rw [decide_eq_false htried, Bool.false_and, Bool.false_and]

lemma segment_only {request : Request} {pc : Pc} {i : ℕ}
    (h : ∀ req, request = .login req → req.password ∈ tried) :
    segment (x.only tried) read i s request pc = segment x read i s request pc := by
  cases request with
  | login req =>
      have hverify : ∀ hash, (x.only tried).verifyPassword req.password hash
          = x.verifyPassword req.password hash := by
        intro hash
        show (decide _ && _) = _
        rw [decide_eq_true (h req rfl), Bool.true_and]
      have hstart : loginStart (x.only tried) read i req s = loginStart x read i req s := by
        simp only [loginStart, hverify]
        rfl
      cases pc <;> first | rfl | exact congrArg some hstart
  | _ => cases pc <;> rfl

/-- The Rust server sees no difference. -/
lemma rustServe_only (h : ∀ p ∈ (rustOrder x request).bind Order.tried, p ∈ tried) :
    rustServe (x.only tried) read request s = rustServe x read request s := by
  have hcomplete : ∀ (r : Request) (n : ℕ) (s : AppState) (pc : Pc),
      (∀ req, r = .login req → req.password ∈ tried) →
      complete (x.only tried) read r n s pc = complete x read r n s pc := by
    intro r n s pc hr
    induction n generalizing s pc with
    | zero => rfl
    | succ n ih =>
        rw [complete, complete, segment_only hr]
        simp only [ih]
  rw [rustServe, rustServe]
  cases hdecode : request.decode with
  | none => rfl
  | some r =>
      simp only
      rw [hcomplete r 3 s .start]
      rintro req rfl
      refine h req.password ?_
      cases request with
      | login body =>
          obtain ⟨req', hbody, heq⟩ := Option.map_eq_some_iff.mp hdecode
          cases heq
          rw [rustOrder, hbody]
          rfl
      | signup body =>
          obtain ⟨_, -, heq⟩ := Option.map_eq_some_iff.mp hdecode
          cases heq
      | verify | register | deregister => cases hdecode

lemma dict_only (body : Json) : (y.only tried).dict body = y.dict body := by
  cases body <;> rfl

lemma Ordinary.only (h : Ordinary y request) : Ordinary (y.only tried) request := by
  cases request with
  | signup body => simpa only [Ordinary, dict_only] using h
  | login body =>
      rw [Ordinary, dict_only]
      exact h
  | verify token => trivial
  | register header body => simpa only [Ordinary, dict_only] using h
  | deregister header body => simpa only [Ordinary, dict_only] using h

lemma put_only (record : JsonRecord) (l : List JsonRecord) :
    JsonRegistry.put (y.only tried) record l = JsonRegistry.put y record l := by
  induction l with
  | nil => rfl
  | cons p l ih =>
      rw [JsonRegistry.put, JsonRegistry.put, ih]
      rfl

/-- The Python server sees no difference. -/
lemma pyServe_only (h : ∀ p ∈ (pyOrder y request).bind Order.tried, p ∈ tried) :
    pyServe (y.only tried) read request d = pyServe y read request d := by
  cases request with
  | login body =>
      show loginView (y.only tried) read body d = loginView y read body d
      rw [pyOrder] at h
      rw [loginView, loginView, dict_only]
      cases hbody : y.dict body with
      | none => rfl
      | some m =>
          rw [hbody, Option.bind_some] at h
          simp only
          split
          · rename_i username password hu hp
            rw [hu, hp, Option.bind_some, Option.bind_some] at h
            by_cases hlone : isLone username = true ∨ isLone password = true
            · rw [checkLogin, checkLogin, if_pos hlone, if_pos hlone]
            rw [checkLogin, checkLogin, if_neg hlone, if_neg hlone]
            cases hu' : y.toStr username with
            | none =>
                have hname : (y.only tried).toStr username = none := hu'
                simp only [hname, Option.bind_none, ite_self]
            | some u =>
                have hcheck : ∀ hash, checkPassword (y.only tried) password hash
                    = checkPassword y password hash := by
                  intro hash
                  have htext : (y.only tried).toStr password = y.toStr password := rfl
                  rw [checkPassword, checkPassword, htext]
                  cases hp' : y.toStr password with
                  | none => rfl
                  | some p =>
                      rw [hu', hp'] at h
                      show (decide _ && _) = _
                      rw [decide_eq_true (h p rfl), Bool.true_and]
                have hname : (y.only tried).toStr username = some u := hu'
                simp only [hcheck, hname, Option.bind_some, ite_self]
          · rfl
  | register header body =>
      show registerView (y.only tried) read.now header body d
        = registerView y read.now header body d
      simp only [registerView, registerAs, dict_only, JsonRegistry.upsert, put_only]
  | signup body => cases body <;> rfl
  | deregister header body => cases body <;> rfl
  | verify token => rfl

end Only

/-! ### Runs -/

/-- Both servers. -/
structure Servers where
  rust : AppState
  py : PyDb

/-- The Rust server's answer to a call. -/
def Servers.rustAnswer (x : Externals) (autoApprove : Bool) (p : Servers) (c : Call) :
    AppState × Response :=
  rustServe x (c.reading autoApprove) c.request p.rust

/-- The Python server's answer. -/
def Servers.pyAnswer (y : PyExternals) (autoApprove : Bool) (p : Servers) (c : Call) :
    PyDb × Response :=
  pyServe y (c.reading autoApprove) c.request p.py

/-- Both servers after a call. -/
def Servers.next (x : Externals) (y : PyExternals) (autoApprove : Bool) (p : Servers) (c : Call) :
    Servers :=
  ⟨(p.rustAnswer x autoApprove c).1, (p.pyAnswer y autoApprove c).1⟩

/-- One server accepts the call if and only if the other does. -/
def Servers.Agree (x : Externals) (y : PyExternals) (autoApprove : Bool) (p : Servers)
    (c : Call) : Prop :=
  (p.rustAnswer x autoApprove c).2.Accepted ↔ (p.pyAnswer y autoApprove c).2.Accepted

instance (s : AppState) (now : ℕ) (request : ApiRequest) : Decidable (OffExpiry s now request) :=
  inferInstanceAs (Decidable (∀ t ∈ request.token, ∀ session ∈ s.sessions.lookup t,
    session.expiresAt ≠ now))

instance (autoApprove : Bool) (p : Servers) (c : Call) : Decidable (p.Agree x y autoApprove c) :=
  inferInstanceAs (Decidable (_ ↔ _))

/-- Both servers before the first request. -/
def Servers.empty : Servers := ⟨⟨∅, ∅, ∅, ∅⟩, ⟨[], [], ∅⟩⟩

/-- Both servers show the same directory. -/
structure Servers.Alike (x : Externals) (y : PyExternals) (generated : List String)
    (p : Servers) : Prop where
  same : p.rust.directory x = p.py.directory y
  sound : (p.rust.directory x).Sound generated
  consistent : p.py.Consistent

lemma alike_empty : Servers.empty.Alike x y [] := by
  refine ⟨?_, ⟨?_, ?_, ?_, ?_⟩, ⟨List.nodup_nil, List.nodup_nil, ?_, List.nodup_nil, ?_⟩⟩
  · rfl
  · intro t u h
    cases h
  · intro t t' u h
    cases h
  · intro t h
    cases h
  · intro t h
    cases h
  · intro row h
    cases h
  · intro session h
    cases h

/-- **One call**: servers that show the same directory agree on an ordinary request that does
not fall on the end of its session, and show the same directory afterwards. -/
lemma alike_next (autoApprove : Bool) {generated : List String} {p : Servers} {c : Call}
    (hhash : ∀ u e password, rustOrder x c.request = some (.signup u e password) →
      HashedSame x y c.salt password)
    (hlower : ∀ s, y.lower s = x.toLowercase s) (hp : p.Alike x y generated)
    (hfresh : c.token ∉ generated) (hordinary : Ordinary y c.request)
    (hoff : OffExpiry p.rust c.now c.request) :
    p.Agree x y autoApprove c
      ∧ (p.next x y autoApprove c).Alike x y (c.token :: generated) := by
  let opens password attempt := y.checkPassword attempt (y.makePassword c.salt password)
  have hrust := rustServe_serves (c.reading autoApprove) opens hp.sound hhash hoff
  have hsound : (p.py.directory y).Sound generated := hp.same ▸ hp.sound
  obtain ⟨hconsistent, hpy⟩ := pyServe_serves (c.reading autoApprove) opens
    hp.consistent hsound hfresh (fun password attempt => rfl) c.request
  rw [orders_agree hlower hordinary, hp.same] at hrust
  obtain ⟨hagree, hsame⟩ := hrust.unique hpy
  exact ⟨hagree, hsame, hrust.sound hsound, hconsistent⟩

/-- The same, when the passwords are hashed alike for the attempts that are made. -/
lemma alike_next_only (autoApprove : Bool) {tried generated : List String} {p : Servers} {c : Call}
    (hhash : ∀ password ∈ (pyOrder y c.request).bind Order.chosen,
      HashedAlike x y c.salt tried password)
    (htried : ∀ password ∈ (pyOrder y c.request).bind Order.tried, password ∈ tried)
    (hlower : ∀ s, y.lower s = x.toLowercase s)
    (hp : p.Alike (x.only tried) (y.only tried) generated)
    (hfresh : c.token ∉ generated) (hordinary : Ordinary y c.request)
    (hoff : OffExpiry p.rust c.now c.request) :
    p.Agree x y autoApprove c ∧ (p.next x y autoApprove c).Alike (x.only tried) (y.only tried)
      (c.token :: generated) := by
  have horder : rustOrder x c.request = pyOrder y c.request := orders_agree hlower hordinary
  have hrust : p.rustAnswer (x.only tried) autoApprove c = p.rustAnswer x autoApprove c :=
    rustServe_only (horder ▸ htried)
  have hpy : p.pyAnswer (y.only tried) autoApprove c = p.pyAnswer y autoApprove c :=
    pyServe_only htried
  obtain ⟨hagree, hnext⟩ := alike_next autoApprove (x := x.only tried) (y := y.only tried)
    (fun u e password hsignup => by
      refine (hhash password ?_).only
      rw [← horder, show rustOrder x c.request = _ from hsignup]
      rfl) hlower hp hfresh hordinary.only hoff
  rw [Servers.Agree, hrust, hpy] at hagree
  rw [Servers.next, hrust, hpy] at hnext
  exact ⟨hagree, hnext⟩

/-- The passwords that are tried in a run. -/
def triedIn (y : PyExternals) (calls : List Call) : List String :=
  calls.filterMap fun c => (pyOrder y c.request).bind Order.tried

/-- **The same API.**  Both servers are started empty and served the same calls with the same
clock values and distinct random tokens.  If each request is read the same way by both and
does not come in the second in which its session expires, then each request is accepted by
one server if and only if it is accepted by the other.  Hashing the passwords of the run does not
fail, corresponding checks of the attempts made in it give the same result, and so does lower case
in both languages. -/
theorem same_api (x : Externals) (y : PyExternals) (autoApprove : Bool) {calls : List Call}
    (hhash : ∀ c ∈ calls, ∀ password ∈ (pyOrder y c.request).bind Order.chosen,
      HashedAlike x y c.salt (triedIn y calls) password)
    (hlower : ∀ s, y.lower s = x.toLowercase s) (htokens : (calls.map (·.token)).Nodup)
    (hrun : Along (Servers.next x y autoApprove)
      (fun p c => Ordinary y c.request ∧ OffExpiry p.rust c.now c.request) .empty calls) :
    Along (Servers.next x y autoApprove) (fun p c => p.Agree x y autoApprove c) .empty calls := by
  have hgeneral : ∀ (rest : List Call) (p : Servers) (generated : List String), rest ⊆ calls →
      p.Alike (x.only (triedIn y calls)) (y.only (triedIn y calls)) generated →
      (rest.map (·.token)).Nodup → (∀ c ∈ rest, c.token ∉ generated) →
      Along (Servers.next x y autoApprove)
        (fun p c => Ordinary y c.request ∧ OffExpiry p.rust c.now c.request) p rest →
      Along (Servers.next x y autoApprove) (fun p c => p.Agree x y autoApprove c) p rest := by
    intro rest
    induction rest with
    | nil => exact fun _ _ _ _ _ _ _ => along_nil
    | cons c rest ih =>
        intro p generated hsub hp htokens hfresh hrun
        rw [along_cons] at hrun ⊢
        rw [List.map_cons, List.nodup_cons] at htokens
        have hc : c ∈ calls := hsub List.mem_cons_self
        obtain ⟨hagree, hnext⟩ := alike_next_only autoApprove (hhash c hc)
          (fun password hp => List.mem_filterMap.mpr ⟨c, hc, hp⟩) hlower hp
          (hfresh c List.mem_cons_self) hrun.1.1 hrun.1.2
        refine ⟨hagree, ih _ _ (fun c' hc' => hsub (List.mem_cons_of_mem _ hc')) hnext htokens.2
          (fun c' hc' => ?_) hrun.2⟩
        rw [List.mem_cons, not_or]
        refine ⟨fun h => htokens.1 ?_, hfresh c' (List.mem_cons_of_mem _ hc')⟩
        exact List.mem_map.mpr ⟨c', hc', h⟩
  exact hgeneral calls .empty [] (List.Subset.refl _) alike_empty htokens
    (fun _ _ => List.not_mem_nil) hrun

/-- Alice signs up, logs in and registers her device at the given second. -/
def aliceCalls (now : ℕ) : List Call :=
  let password : Key × Json := ("password", .str "pw")
  let username : Key × Json := ("username", .str "alice")
  [⟨.signup (.obj [username, ("email", .str "a@b"), password]), 0, "t1", "s1"⟩,
    ⟨.login (.obj [username, password]), 0, "t2", "s2"⟩,
    ⟨.register (some "Bearer t2") (.obj [username, ("node_id", .str "n"), ("addrs", .arr [])]), now,
      "t3", "s3"⟩]

lemma alice_ordinary {now : ℕ} : ∀ c ∈ aliceCalls now, Ordinary plainPy c.request := by
  intro c hc
  simp only [aliceCalls, List.mem_cons, List.not_mem_nil, or_false] at hc
  rcases hc with rfl | rfl | rfl
  · refine ⟨fun _ => by decide, fun m u e p hm hu he _ => ?_⟩
    obtain rfl := Json.obj.inj (eq_obj_of_dict hm)
    obtain rfl : "alice" = u := by simpa [last, occurrences] using hu
    obtain rfl : "a@b" = e := by simpa [last, occurrences] using he
    exact ⟨by simp [named, Once, occurrences], by decide⟩
  · refine ⟨fun _ => by decide, fun m u p hm hu hp _ _ => ?_⟩
    obtain rfl := Json.obj.inj (eq_obj_of_dict hm)
    obtain rfl : .str "alice" = u := by simpa [last, occurrences] using hu
    obtain rfl : .str "pw" = p := by simpa [last, occurrences] using hp
    exact ⟨by simp [named, Once, occurrences], rfl, rfl⟩
  · refine ⟨fun _ => by decide, fun m u n a hm hu hn ha => ?_⟩
    obtain rfl := Json.obj.inj (eq_obj_of_dict hm)
    obtain rfl : .str "n" = n := by simpa [last, occurrences] using hn
    obtain rfl : .arr [] = a := by simpa [last, occurrences] using ha
    exact ⟨by simp [named, Once, occurrences], rfl, rfl, rfl⟩

/-- Within the day of her session both servers accept all three. -/
theorem alice_accepted : Along (Servers.next plainExternals plainPy true)
    (fun p c => p.Agree plainExternals plainPy true c) .empty (aliceCalls 10) := by
  have hoff : Along (Servers.next plainExternals plainPy true)
      (fun p c => OffExpiry p.rust c.now c.request) .empty (aliceCalls 10) := by
    decide
  refine same_api plainExternals plainPy true (fun c _ password _ => ⟨password, rfl, ?_⟩)
    (fun _ => rfl) (by decide) ?_
  · exact fun attempt _ => rfl
  · intro done c hpre
    exact ⟨alice_ordinary c (hpre.subset (by simp)), hoff done c hpre⟩

/-- When the day is over to the second, the Rust server accepts her registration and the Python
server does not. -/
theorem alice_expires : ¬ Along (Servers.next plainExternals plainPy true)
    (fun p c => p.Agree plainExternals plainPy true c) .empty (aliceCalls 86400) := by
  decide

end Rendezvous
