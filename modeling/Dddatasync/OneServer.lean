import Dddatasync.Client

/-!
A client cannot tell the two rendezvous servers apart.

* `SameLive`: two directories show the same, up to sessions that have expired;
  `SameLive.serves`: serving one order keeps that, and both accept it or neither does.
* `TwinLists`: two lists of records show the same records, up to their order and to records that
  have expired.
* `TwinRegistries`: each user has such lists in both registries; the operations keep it.
* `ClientTurn`: a call of a client over both servers, or a round of pruning of one of them;
  `ClientTurn.Plain`: a call that the servers do not treat differently.
* `Likeness`: the invariant of both servers; `Likeness.serve`, `Likeness.call` and
  `Likeness.turn` keep it.
* `ClientTurn.tried`, `turn_only`: what is not tried makes no difference.
* `client_sees_one_server`: every call of every run returns the same over both.
-/

namespace Dddatasync

open Rendezvous Json Runs

/-! ### Directories -/

/-- The directories show the same accounts and links, and the same sessions that are live. -/
structure SameLive (now : ℕ) (D D' : Directory) : Prop where
  account : D.account = D'.account
  link : D.link = D'.link
  session : ∀ t u e, now < e → (D.session t = some (u, e) ↔ D'.session t = some (u, e))

section SameLive

variable {now : ℕ} {D D' D₁ D₂ : Directory} {read : Reading}
  {opens : String → String → Bool} {order : Option Order} {accepted accepted' : Prop}

lemma SameLive.mono {now' : ℕ} (h : SameLive now D D') (hle : now ≤ now') : SameLive now' D D' :=
  ⟨h.account, h.link, fun t u e he => h.session t u e (hle.trans_lt he)⟩

lemma SameLive.symm (h : SameLive now D D') : SameLive now D' D :=
  ⟨h.account.symm, h.link.symm, fun t u e he => (h.session t u e he).symm⟩

lemma SameLive.trans (h : SameLive now D D₁) (h' : SameLive now D₁ D') : SameLive now D D' :=
  ⟨h.account.trans h'.account, h.link.trans h'.link,
    fun t u e he => (h.session t u e he).trans (h'.session t u e he)⟩

/-- A token speaks for the same users. -/
lemma SameLive.speaks {token : Option String} {u : String} (h : SameLive now D D')
    (hspeaks : D.Speaks now token u) : D'.Speaks now token u := by
  obtain ⟨t, e, a, ht, hsession, he, haccount, hstatus⟩ := hspeaks
  rw [h.account] at haccount
  exact ⟨t, e, a, ht, (h.session t u e he).mp hsession, he, haccount, hstatus⟩

/-- The same orders are carried out. -/
lemma SameLive.accepts {o : Order} (h : SameLive now D D') (hacc : D.Accepts now o) :
    D'.Accepts now o := by
  cases o with
  | signup u e p =>
      obtain ⟨hfilled, hname, hemail⟩ := hacc
      rw [h.account] at hname hemail
      exact ⟨hfilled, hname, hemail⟩
  | login u p =>
      obtain ⟨a, ha, hrest⟩ := hacc
      rw [h.account] at ha
      exact ⟨a, ha, hrest⟩
  | verify t =>
      obtain ⟨u, hu⟩ := hacc
      rw [h.link] at hu
      exact ⟨u, hu⟩
  | change token u => exact h.speaks hacc

/-- **An order** keeps the directories alike. -/
lemma SameLive.next (h : SameLive now D D') (o : Order) :
    SameLive now (D.next read opens o) (D'.next read opens o) := by
  obtain ⟨account, link, session⟩ := D
  obtain ⟨account', link', session'⟩ := D'
  obtain ⟨haccount, hlink, hsession⟩ := h
  simp only at haccount hlink hsession
  subst haccount hlink
  cases o with
  | signup u e p => exact ⟨rfl, rfl, hsession⟩
  | login u p =>
      refine ⟨rfl, rfl, fun t v e he => ?_⟩
      simp only [Directory.next, Function.update_apply]
      split_ifs
      · rfl
      · exact hsession t v e he
  | verify t =>
      simp only [Directory.next]
      split
      · exact ⟨rfl, rfl, hsession⟩
      · exact ⟨rfl, rfl, hsession⟩
  | change token u => exact ⟨rfl, rfl, hsession⟩

/-- **Serving a request** keeps the directories alike, and both accept it or neither does. -/
lemma SameLive.serves (h : SameLive read.now D D')
    (h₁ : D.Serves read opens order accepted D₁) (h₂ : D'.Serves read opens order accepted' D₂) :
    (accepted ↔ accepted') ∧ SameLive read.now D₁ D₂ := by
  rcases h₁ with ⟨ha₁, o₁, ho₁, hacc₁, rfl⟩ | ⟨ha₁, hno₁, rfl⟩ <;>
    rcases h₂ with ⟨ha₂, o₂, ho₂, hacc₂, rfl⟩ | ⟨ha₂, hno₂, rfl⟩
  · obtain rfl : o₁ = o₂ := Option.some.inj (ho₁.symm.trans ho₂)
    exact ⟨iff_of_true ha₁ ha₂, h.next o₁⟩
  · exact absurd (h.accepts hacc₁) (hno₂ o₁ ho₁)
  · exact absurd (h.symm.accepts hacc₂) (hno₁ o₂ ho₂)
  · exact ⟨iff_of_false ha₁ ha₂, h⟩

end SameLive

/-! ### Lists of records -/

/-- The lists show the same records that are live, in some order; each has one record of a node,
and none from the future. -/
structure TwinLists (now : ℕ) (l l' : List PeerRecord) : Prop where
  once : (l.map (·.nodeId)).Nodup
  once' : (l'.map (·.nodeId)).Nodup
  past : ∀ r ∈ l, r.lastSeen ≤ now
  past' : ∀ r ∈ l', r.lastSeen ≤ now
  live : (Registry.live now l).Perm (Registry.live now l')

section TwinLists

variable {now now' : ℕ} {l l' : List PeerRecord} {r : PeerRecord}

/-- What is live later is live now. -/
lemma live_live (hle : now ≤ now') (l : List PeerRecord) :
    Registry.live now' (Registry.live now l) = Registry.live now' l := by
  rw [Registry.live, Registry.live, Registry.live, List.filter_filter]
  refine List.filter_congr fun r _ => ?_
  rw [← Bool.decide_and, decide_eq_decide, Registry.cutoff, Registry.cutoff]
  omega

lemma TwinLists.mono (h : TwinLists now l l') (hle : now ≤ now') : TwinLists now' l l' := by
  refine ⟨h.once, h.once', fun r hr => (h.past r hr).trans hle,
    fun r hr => (h.past' r hr).trans hle, ?_⟩
  rw [← live_live hle l, ← live_live hle l']
  exact h.live.filter _

lemma TwinLists.symm (h : TwinLists now l l') : TwinLists now l' l :=
  ⟨h.once', h.once, h.past', h.past, h.live.symm⟩

/-- `upsert` puts the record in the place of the one of its node, or at the end. -/
lemma upsert_perm (h : (l.map (·.nodeId)).Nodup) :
    (upsert r l).Perm (r :: l.filter fun p => p.nodeId ≠ r.nodeId) := by
  have hnew : (r :: l.filter fun p => p.nodeId ≠ r.nodeId).Nodup := by
    rw [List.nodup_cons]
    refine ⟨fun hmem => ?_, h.of_map.filter _⟩
    have hne := List.of_mem_filter hmem
    simp at hne
  refine (List.perm_ext_iff_of_nodup (nodup_upsert h).of_map hnew).mpr fun p => ?_
  rw [mem_upsert h, List.mem_cons, List.mem_filter, decide_eq_true_iff]

/-- **A registration** on both sides. -/
lemma TwinLists.upsert (h : TwinLists now l l') (hnow : r.lastSeen = now) :
    TwinLists now (upsert r l) (upsert r l') := by
  have hlive : ∀ k : List PeerRecord, (k.map (·.nodeId)).Nodup →
      (Registry.live now (Rendezvous.upsert r k)).Perm
        (r :: (Registry.live now k).filter fun p => p.nodeId ≠ r.nodeId) := by
    intro k hk
    have hperm := (upsert_perm (r := r) hk).filter
      fun p => decide (Registry.cutoff now ≤ p.lastSeen)
    have hfresh : Registry.cutoff now ≤ r.lastSeen := by
      rw [Registry.cutoff]
      omega
    rw [List.filter_cons_of_pos (by simpa using hfresh), List.filter_filter] at hperm
    rw [Registry.live, Registry.live, List.filter_filter]
    simpa only [Bool.and_comm] using hperm
  have hpast : ∀ k : List PeerRecord, (∀ p ∈ k, p.lastSeen ≤ now) →
      ∀ p ∈ Rendezvous.upsert r k, p.lastSeen ≤ now := by
    intro k hk p hp
    rcases mem_of_mem_upsert hp with rfl | hp
    · exact hnow.le
    · exact hk p hp
  refine ⟨nodup_upsert h.once, nodup_upsert h.once', hpast l h.past, hpast l' h.past', ?_⟩
  exact (hlive l h.once).trans (((h.live.filter _).cons r).trans (hlive l' h.once').symm)

/-- **A deregistration** on both sides. -/
lemma TwinLists.filter (h : TwinLists now l l') (n : String) :
    TwinLists now (l.filter fun p => p.nodeId ≠ n) (l'.filter fun p => p.nodeId ≠ n) := by
  have hlive : ∀ k : List PeerRecord, Registry.live now (k.filter fun p => p.nodeId ≠ n)
      = (Registry.live now k).filter fun p => p.nodeId ≠ n := by
    intro k
    rw [Registry.live, Registry.live, List.filter_filter, List.filter_filter]
    simp only [Bool.and_comm]
  refine ⟨Registry.nodup_filter _ h.once, Registry.nodup_filter _ h.once',
    fun r hr => h.past r (List.mem_of_mem_filter hr),
    fun r hr => h.past' r (List.mem_of_mem_filter hr), ?_⟩
  rw [hlive, hlive]
  exact h.live.filter _

/-- **A round of pruning** on one side. -/
lemma TwinLists.prune (h : TwinLists now' l l') (hle : now ≤ now') :
    TwinLists now' (Registry.live now l) l' := by
  refine ⟨Registry.nodup_filter _ h.once, h.once', fun r hr => h.past r (List.mem_of_mem_filter hr),
    h.past', ?_⟩
  rw [live_live hle]
  exact h.live

end TwinLists

/-! ### Registries -/

/-- Each user has the same live records in both registries. -/
def TwinRegistries (now : ℕ) (R : Registry) (J : JsonRegistry) : Prop :=
  ∀ u, ∃ l, JsonRegistry.records J u = l.map jsonRecord ∧ TwinLists now (R.records u) l

section TwinRegistries

variable {y : PyExternals} {now now' : ℕ} {R : Registry} {J : JsonRegistry} {u n : String}
  {r : PeerRecord}

lemma put_jsonRecord (heq : ∀ a b, y.eq (.str a) (.str b) = decide (a = b)) (r : PeerRecord)
    (l : List PeerRecord) :
    JsonRegistry.put y (jsonRecord r) (l.map jsonRecord) = (upsert r l).map jsonRecord := by
  induction l with
  | nil => rfl
  | cons p l ih =>
      rw [List.map_cons, JsonRegistry.put, upsert, ih]
      simp only [jsonRecord_nodeId, heq, decide_eq_true_eq]
      split_ifs <;> rfl

lemma filter_jsonRecord (heq : ∀ a b, y.eq (.str a) (.str b) = decide (a = b)) (n : String)
    (l : List PeerRecord) : (l.map jsonRecord).filter (fun p => !y.eq p.nodeId (.str n))
      = (l.filter fun p => p.nodeId ≠ n).map jsonRecord := by
  rw [List.filter_map]
  refine congrArg (List.map jsonRecord) (List.filter_congr fun p _ => ?_)
  rw [Function.comp_apply, jsonRecord_nodeId, heq, decide_not]

lemma live_jsonRecord (now : ℕ) (l : List PeerRecord) :
    JsonRegistry.live now (l.map jsonRecord) = (Registry.live now l).map jsonRecord := by
  rw [JsonRegistry.live, List.filter_map]
  refine congrArg (List.map jsonRecord) (List.filter_congr fun p _ => ?_)
  rw [Function.comp_apply, jsonRecord_lastSeen, decide_eq_decide, Registry.cutoff]
  omega

lemma twin_empty (now : ℕ) : TwinRegistries now ∅ ∅ :=
  fun _ => ⟨[], rfl, List.nodup_nil, List.nodup_nil, by simp [Registry.records], by simp, .refl _⟩

lemma TwinRegistries.mono (h : TwinRegistries now R J) (hle : now ≤ now') :
    TwinRegistries now' R J := by
  intro u
  obtain ⟨l, hl, htwin⟩ := h u
  exact ⟨l, hl, htwin.mono hle⟩

/-- **A registration** on both servers. -/
lemma TwinRegistries.register (heq : ∀ a b, y.eq (.str a) (.str b) = decide (a = b))
    (h : TwinRegistries now R J) (u : String) (hnow : r.lastSeen = now) :
    TwinRegistries now (R.register u r) (upsertRecord y J u (jsonRecord r)) := by
  intro v
  rw [Registry.records_register, upsertRecord, records_upsert]
  split_ifs with hv
  · obtain ⟨l, hl, htwin⟩ := h u
    exact ⟨upsert r l, by rw [hl, put_jsonRecord heq], htwin.upsert hnow⟩
  · exact h v

/-- **A deregistration** on both servers. -/
lemma TwinRegistries.deregister (heq : ∀ a b, y.eq (.str a) (.str b) = decide (a = b))
    (h : TwinRegistries now R J) (u n : String) :
    TwinRegistries now (R.deregister u n) (J.remove y u (.str n)) := by
  intro v
  rw [Registry.records_deregister, records_remove]
  split_ifs with hv
  · obtain ⟨l, hl, htwin⟩ := h u
    exact ⟨l.filter fun p => p.nodeId ≠ n, by rw [hl, filter_jsonRecord heq], htwin.filter n⟩
  · exact h v

/-- **A round of pruning** on the Rust server. -/
lemma TwinRegistries.pruneRust (h : TwinRegistries now R J) :
    TwinRegistries now (R.prune now) J := by
  intro u
  obtain ⟨l, hl, htwin⟩ := h u
  rw [Registry.records_prune]
  exact ⟨l, hl, htwin.prune le_rfl⟩

/-- **A round of pruning** on the Python server. -/
lemma TwinRegistries.prunePy (h : TwinRegistries now R J) :
    TwinRegistries now R (J.prune now) := by
  intro u
  obtain ⟨l, hl, htwin⟩ := h u
  rw [json_records_prune, hl, live_jsonRecord]
  exact ⟨Registry.live now l, rfl, (htwin.symm.prune le_rfl).symm⟩

end TwinRegistries

/-! ### Turns -/

/-- The same value, up to the order of the peers, or a failure of both. -/
inductive SameResult : Except ClientError ClientValue → Except ClientError ClientValue → Prop
  | same (v : ClientValue) : SameResult (.ok v) (.ok v)
  | reordered {l l' : List PeerRecord} (h : l.Perm l') :
      SameResult (.ok (.peers l)) (.ok (.peers l'))
  | failed (e e' : ClientError) : SameResult (.error e) (.error e')

/-- A call of a client over both servers, or a round of pruning of one of them. -/
inductive ClientTurn where
  | call (call : ClientCall) (read : Reading)
  | pruneRust (now : ℕ)
  | prunePy (now : ℕ)

/-- The session of the client does not expire in this very second. -/
def RendezvousClient.OffExpiry (client : RendezvousClient) (s : AppState) (now : ℕ) : Prop :=
  ∀ t ∈ client.token, ∀ session ∈ s.sessions.lookup t, session.expiresAt ≠ now

namespace ClientTurn

/-- The clock. -/
def now : ClientTurn → ℕ
  | .call _ read => read.now
  | .pruneRust now => now
  | .prunePy now => now

/-- The random token of a call. -/
def token : ClientTurn → Option String
  | .call _ read => some read.token
  | .pruneRust _ => none
  | .prunePy _ => none

/-- The password that a call tries. -/
def tried : ClientTurn → Option String
  | .call (.serverLogin _ password) _ => some password
  | _ => none

/-- Both servers after a turn. -/
def next (x : Externals) (y : PyExternals) (p : Servers) : ClientTurn → Servers
  | .call c read => ⟨(c.run (rustServer x) read p.rust).2, (c.run (pyServer y) read p.py).2⟩
  | .pruneRust now =>
      { p with rust := (Turn.serve .prune { now := now, token := "" }).next x p.rust }
  | .prunePy now => { p with py := (PyTurn.prune now).next y p.py }

/-- The call returns the same over both servers. -/
def Same (x : Externals) (y : PyExternals) (p : Servers) : ClientTurn → Prop
  | .call c read =>
      SameResult (c.run (rustServer x) read p.rust).1 (c.run (pyServer y) read p.py).1
  | .pruneRust _ => True
  | .prunePy _ => True

/-- The call does not ask for what the servers treat differently: a username or an address whose
ends `str.strip` and `str::trim` take for different blanks, and a session in the second in which it
expires. -/
def Plain (p : Servers) : ClientTurn → Prop
  | .call (.signup username email _) _ => strip username = trim username ∧ strip email = trim email
  | .call (.register client _) read => client.OffExpiry p.rust read.now
  | .call (.deregister client _ _) read => client.OffExpiry p.rust read.now
  | _ => True

end ClientTurn

/-! ### The invariant -/

/-- What the two servers call outside their own code, passwords apart, gives the same: lower case
agrees, and `==` on texts is equality. -/
structure SameExternals (x : Externals) (y : PyExternals) : Prop where
  lower : ∀ s, y.lower s = x.toLowercase s
  eq : ∀ a b, y.eq (.str a) (.str b) = decide (a = b)

/-- Both servers show the same: the same live directory and the same live records. -/
structure Likeness (x : Externals) (y : PyExternals) (generated : List String) (now : ℕ)
    (p : Servers) : Prop where
  same : SameLive now (p.rust.directory x) (p.py.directory y)
  rustSound : (p.rust.directory x).Sound generated
  pySound : (p.py.directory y).Sound generated
  consistent : p.py.Consistent
  records : TwinRegistries now p.rust.registry p.py.registry

section Likeness

variable {x : Externals} {y : PyExternals} {generated : List String} {now now' : ℕ} {p : Servers}
  {read : Reading} {request : ApiRequest}

lemma likeness_empty (now : ℕ) : Likeness x y [] now .empty := by
  have halike : Servers.Alike x y [] .empty := alike_empty
  refine ⟨?_, halike.sound, halike.same ▸ halike.sound, halike.consistent, twin_empty now⟩
  rw [halike.same]
  exact ⟨rfl, rfl, fun t u e _ => Iff.rfl⟩

lemma Likeness.mono (hp : Likeness x y generated now p) (hle : now ≤ now') :
    Likeness x y generated now' p :=
  ⟨hp.same.mono hle, hp.rustSound, hp.pySound, hp.consistent, hp.records.mono hle⟩

lemma Likeness.cons (hp : Likeness x y generated now p) (t : String) :
    Likeness x y (t :: generated) now p :=
  ⟨hp.same, hp.rustSound.cons t, hp.pySound.cons t, hp.consistent, hp.records⟩

/-- **A round of pruning** on the Rust server. -/
lemma Likeness.pruneRust (hp : Likeness x y generated now p) :
    Likeness x y generated now ((ClientTurn.pruneRust now).next x y p) := by
  have hsession : ∀ t, (((ClientTurn.pruneRust now).next x y p).rust.directory x).session t
      = ((p.rust.directory x).session t).filter fun session => now < session.2 := by
    intro t
    show ((AssocMap.filterMap _ p.rust.sessions).lookup t).map _
      = ((p.rust.sessions.lookup t).map _).filter _
    rw [AssocMap.lookup_filterMap]
    cases p.rust.sessions.lookup t with
    | none => rfl
    | some session =>
        rw [Option.bind_some, Option.map_some, Option.filter_some]
        simp only [decide_eq_true_eq]
        split_ifs <;> rfl
  refine ⟨⟨hp.same.account, hp.same.link, fun t u e he => ?_⟩, ?_, hp.pySound, hp.consistent,
    hp.records.pruneRust⟩
  · refine Iff.trans ?_ (hp.same.session t u e he)
    rw [hsession, Option.filter_eq_some_iff]
    exact and_iff_left (by simpa using he)
  · refine ⟨hp.rustSound.pending, hp.rustSound.one, hp.rustSound.link_old, fun t ht => ?_⟩
    rw [hsession, Option.isSome_iff_exists] at ht
    obtain ⟨session, hlookup⟩ := ht
    rw [Option.filter_eq_some_iff] at hlookup
    exact hp.rustSound.session_old t (Option.isSome_iff_exists.mpr ⟨session, hlookup.1⟩)

/-- **A round of pruning** on the Python server. -/
lemma Likeness.prunePy (hp : Likeness x y generated now p) :
    Likeness x y generated now ((ClientTurn.prunePy now).next x y p) :=
  ⟨hp.same, hp.rustSound, hp.pySound, ⟨hp.consistent.names, hp.consistent.ids, hp.consistent.links,
    hp.consistent.tokens, hp.consistent.owned⟩, hp.records.prunePy⟩

/-- **A request** that both servers read the same way. -/
lemma Likeness.serve (hp : Likeness x y generated read.now p)
    (hhash : ∀ u e password, rustOrder x request = some (.signup u e password) →
      HashedSame x y read.salt password)
    (hfresh : read.token ∉ generated) (horder : rustOrder x request = pyOrder y request)
    (hoff : OffExpiry p.rust read.now request)
    (hrecords : ((rustServe x read request p.rust).2.Accepted
        ↔ (pyServe y read request p.py).2.Accepted) →
      TwinRegistries read.now (rustServe x read request p.rust).1.registry
        (pyServe y read request p.py).1.registry) :
    ((rustServe x read request p.rust).2.Accepted ↔ (pyServe y read request p.py).2.Accepted)
      ∧ Likeness x y (read.token :: generated) read.now
        ⟨(rustServe x read request p.rust).1, (pyServe y read request p.py).1⟩ := by
  let opens password attempt := y.checkPassword attempt (y.makePassword read.salt password)
  have hrust := rustServe_serves read opens hp.rustSound hhash hoff
  obtain ⟨hconsistent, hpy⟩ := pyServe_serves read opens hp.consistent hp.pySound hfresh
    (fun password attempt => rfl) request
  rw [horder] at hrust
  obtain ⟨hagree, hsame⟩ := hp.same.serves hrust hpy
  exact ⟨hagree, hsame, hrust.sound hp.rustSound, hpy.sound hp.pySound, hconsistent,
    hrecords hagree⟩

end Likeness

/-! ### Calls -/

section Calls

variable {x : Externals} {y : PyExternals} {generated : List String} {p : Servers} {read : Reading}

/-- Answers that are both accepted or both refused. -/
lemma sameResult_success (endpoint : String) {r r' : Response} (h : r.Accepted ↔ r'.Accepted) :
    SameResult ((expectSuccess endpoint r).map fun _ => .done)
      ((expectSuccess endpoint r').map fun _ => .done) := by
  rw [expectSuccess, expectSuccess]
  by_cases hr : r.Accepted
  · rw [if_pos hr, if_pos (h.mp hr)]
    exact .same .done
  · rw [if_neg hr, if_neg (mt h.mpr hr)]
    exact .failed _ _

/-- Answers to a login. -/
lemma sameResult_login {token : String} {r r' : Response} (h : r.Accepted ↔ r'.Accepted)
    (hr : TokenAnswer token r) (hr' : TokenAnswer token r') :
    SameResult (((serverLogin r).mapError .login).map .token)
      (((serverLogin r').mapError .login).map .token) := by
  rcases serverLogin_of_answer hr with ⟨hacc, hlogin⟩ | ⟨hacc, e, hlogin⟩ <;>
    rcases serverLogin_of_answer hr' with ⟨hacc', hlogin'⟩ | ⟨hacc', e', hlogin'⟩
  · rw [hlogin, hlogin']
    exact .same (.token token)
  · exact absurd (h.mp hacc) hacc'
  · exact absurd (h.mpr hacc') hacc
  · rw [hlogin, hlogin']
    exact .failed _ _

/-- **The peers** that a client fetches. -/
lemma Likeness.fetched (hp : Likeness x y generated read.now p) (hbound : read.now < 2 ^ 64)
    (username : String) (ownNodeId : Option String) :
    SameResult
      ((RendezvousClient.fetchRecords (rustServer x) read username ownNodeId p.rust).map .peers)
      ((RendezvousClient.fetchRecords (pyServer y) read username ownNodeId p.py).map .peers) := by
  obtain ⟨l, hl, htwin⟩ := hp.records username
  have hrust : decodePeers ((rustServer x).peers username read.now p.rust)
      = some (Registry.live read.now (p.rust.registry.records username)) :=
    decodePeers_records fun r hr =>
      (htwin.past r (List.mem_of_mem_filter hr)).trans_lt hbound
  have hpy : decodePeers ((pyServer y).peers username read.now p.py)
      = some (Registry.live read.now l) := by
    have hfetch : p.py.registry.fetch username read.now
        = (Registry.live read.now l).map jsonRecord := by
      rw [← live_jsonRecord, ← hl]
      rfl
    show decodePeers (peersJson ((p.py.registry.fetch username read.now).map JsonRecord.toJson)) = _
    rw [hfetch, List.map_map,
      show JsonRecord.toJson ∘ jsonRecord = PeerRecord.toJson from funext jsonRecord_toJson]
    exact decodePeers_records fun r hr =>
      (htwin.past' r (List.mem_of_mem_filter hr)).trans_lt hbound
  rw [RendezvousClient.fetchRecords, RendezvousClient.fetchRecords, hrust, hpy]
  cases ownNodeId with
  | none => exact .reordered htwin.live
  | some id => exact .reordered (htwin.live.filter _)

/-- A signup is read the same way. -/
lemma signup_orders (hxy : SameExternals x y) (req : SignupRequest)
    (hname : strip req.username = trim req.username) (hemail : strip req.email = trim req.email) :
    rustOrder x (.signup req.toJson) = pyOrder y (.signup req.toJson) := by
  rw [rustOrder, decode_signupJson, Option.map_some, ← hname, ← hemail, ← hxy.lower, pyOrder,
    dict_signupJson]
  rfl

/-- A login is read the same way. -/
lemma login_orders (req : LoginRequest) :
    rustOrder x (.login req.toJson) = pyOrder y (.login req.toJson) := by
  simp [rustOrder, pyOrder, LoginRequest.fields, last, occurrences, y.toStr_str]

/-- A registration is read the same way. -/
lemma register_orders (header : Option String) (req : RegisterRequest) :
    rustOrder x (.register header req.toJson) = pyOrder y (.register header req.toJson) := by
  rw [rustOrder, decode_registerJson]
  simp [pyOrder, registrant, RegisterRequest.fields, last, occurrences]

/-- A deregistration is read the same way. -/
lemma deregister_orders (header : Option String) (req : DeregisterRequest) :
    rustOrder x (.deregister header req.toJson) = pyOrder y (.deregister header req.toJson) := by
  rw [rustOrder, decode_deregisterJson]
  simp [pyOrder, deregistrant, DeregisterRequest.fields, last, occurrences]

/-- **A request on an account**: the registries stay as they are. -/
lemma Likeness.account (hp : Likeness x y generated read.now p)
    (hfresh : read.token ∉ generated) {request : ApiRequest}
    (hhash : ∀ u e password, rustOrder x request = some (.signup u e password) →
      HashedSame x y read.salt password)
    (horder : rustOrder x request = pyOrder y request)
    (hregister : ∀ header body, request ≠ .register header body)
    (hderegister : ∀ header body, request ≠ .deregister header body)
    (haccount : ∀ r, request.decode = some r → r.account = true) :
    ((rustServe x read request p.rust).2.Accepted ↔ (pyServe y read request p.py).2.Accepted)
      ∧ Likeness x y (read.token :: generated) read.now
        ⟨(rustServe x read request p.rust).1, (pyServe y read request p.py).1⟩ := by
  refine hp.serve hhash hfresh horder ?_ fun _ => ?_
  · intro t ht
    cases request with
    | signup body => cases ht
    | login body => cases ht
    | verify token => cases ht
    | register header body => exact absurd rfl (hregister header body)
    | deregister header body => exact absurd rfl (hderegister header body)
  · rw [rust_registry haccount, py_registry hregister hderegister]
    exact hp.records

/-- **A registration** of a client. -/
lemma Likeness.register (hxy : SameExternals x y) (hp : Likeness x y generated read.now p)
    (hfresh : read.token ∉ generated) {header : Option String} (req : RegisterRequest)
    (hoff : OffExpiry p.rust read.now (.register header req.toJson)) :
    ((rustServe x read (.register header req.toJson) p.rust).2.Accepted
        ↔ (pyServe y read (.register header req.toJson) p.py).2.Accepted)
      ∧ Likeness x y (read.token :: generated) read.now
        ⟨(rustServe x read (.register header req.toJson) p.rust).1,
          (pyServe y read (.register header req.toJson) p.py).1⟩ := by
  have hhash : ∀ u e password, rustOrder x (.register header req.toJson)
      ≠ some (.signup u e password) := by
    intro u e password h
    rw [rustOrder, decode_registerJson] at h
    cases h
  refine hp.serve (fun u e password h => absurd h (hhash u e password)) hfresh
    (register_orders header req) hoff fun hagree => ?_
  obtain ⟨r, ⟨hrust, hr⟩ | ⟨hrust, hr⟩⟩ := rust_register (x := x) (s := p.rust) header req <;>
    obtain ⟨r', ⟨hpy, hr'⟩ | ⟨hpy, hr'⟩⟩ := py_register (y := y) (d := p.py) header req <;>
    rw [hrust, hpy] at hagree ⊢
  · exact hp.records.register hxy.eq req.username rfl
  · exact absurd (hagree.mp hr) hr'
  · exact absurd (hagree.mpr hr') hr
  · exact hp.records

/-- **A deregistration** of a client. -/
lemma Likeness.deregister (hxy : SameExternals x y) (hp : Likeness x y generated read.now p)
    (hfresh : read.token ∉ generated) {header : Option String} (req : DeregisterRequest)
    (hoff : OffExpiry p.rust read.now (.deregister header req.toJson)) :
    ((rustServe x read (.deregister header req.toJson) p.rust).2.Accepted
        ↔ (pyServe y read (.deregister header req.toJson) p.py).2.Accepted)
      ∧ Likeness x y (read.token :: generated) read.now
        ⟨(rustServe x read (.deregister header req.toJson) p.rust).1,
          (pyServe y read (.deregister header req.toJson) p.py).1⟩ := by
  have hhash : ∀ u e password, rustOrder x (.deregister header req.toJson)
      ≠ some (.signup u e password) := by
    intro u e password h
    rw [rustOrder, decode_deregisterJson] at h
    cases h
  refine hp.serve (fun u e password h => absurd h (hhash u e password)) hfresh
    (deregister_orders header req) hoff fun hagree => ?_
  obtain ⟨r, ⟨hrust, hr⟩ | ⟨hrust, hr⟩⟩ := rust_deregister (x := x) (s := p.rust) header req <;>
    obtain ⟨r', ⟨hpy, hr'⟩ | ⟨hpy, hr'⟩⟩ := py_deregister (y := y) (d := p.py) header req <;>
    rw [hrust, hpy] at hagree ⊢
  · exact hp.records.deregister hxy.eq req.username req.nodeId
  · exact absurd (hagree.mp hr) hr'
  · exact absurd (hagree.mpr hr') hr
  · exact hp.records

/-- The request of a logged-in client comes off the second in which its session expires. -/
lemma offExpiry_bearer {s : AppState} {now : ℕ} {token : String} {request : ApiRequest}
    (h : (RendezvousClient.mk (some token)).OffExpiry s now)
    (hrequest : request.token = bearer (some ("Bearer " ++ token))) : OffExpiry s now request := by
  intro t ht
  rw [hrequest, bearer_append] at ht
  exact h t ht

/-- **A call** returns the same over both servers, and they show the same afterwards. -/
lemma Likeness.call (hxy : SameExternals x y) (hp : Likeness x y generated read.now p)
    (hfresh : read.token ∉ generated) (hbound : read.now < 2 ^ 64) {c : ClientCall}
    (hhash : ∀ username email password, c = .signup username email password →
      HashedSame x y read.salt password)
    (hplain : (ClientTurn.call c read).Plain p) :
    (ClientTurn.call c read).Same x y p
      ∧ Likeness x y (read.token :: generated) read.now ((ClientTurn.call c read).next x y p) := by
  cases c with
  | signup username email password =>
      have hsignup : ∀ u e p, rustOrder x
          (.signup (SignupRequest.mk username email password).toJson) = some (.signup u e p) →
          HashedSame x y read.salt p := by
        intro u e p h
        rw [rustOrder, decode_signupJson] at h
        cases h
        exact hhash username email password rfl
      obtain ⟨hagree, hnext⟩ := hp.account hfresh hsignup
        (signup_orders hxy ⟨username, email, password⟩ hplain.1 hplain.2) (by simp)
        (by simp) (by simp [ApiRequest.decode, Request.account])
      simp only [ClientTurn.Same, ClientTurn.next, ClientCall.run, RendezvousClient.signup,
        rustServer, pyServer]
      exact ⟨sameResult_success "POST /auth/signup" hagree, hnext⟩
  | openLink link =>
      have horder : rustOrder x (.verify link) = pyOrder y (.verify link) := rfl
      obtain ⟨hagree, hnext⟩ := hp.account hfresh (by simp [rustOrder]) horder (by simp)
        (by simp) (by simp [ApiRequest.decode, Request.account])
      simp only [ClientTurn.Same, ClientTurn.next, ClientCall.run, rustServer, pyServer]
      exact ⟨sameResult_success "GET /auth/verify" hagree, hnext⟩
  | serverLogin username password =>
      obtain ⟨hagree, hnext⟩ := hp.account hfresh (by simp [rustOrder])
        (login_orders ⟨username, password⟩) (by simp) (by simp)
        (by simp [ApiRequest.decode, Request.account])
      simp only [ClientTurn.Same, ClientTurn.next, ClientCall.run, RendezvousClient.tokenLogin,
        rustServer, pyServer]
      exact ⟨sameResult_login hagree (rust_login username password) (py_login username password),
        hnext⟩
  | register client req =>
      obtain ⟨_ | token⟩ := client
      · exact ⟨.failed _ _, hp.cons read.token⟩
      · obtain ⟨hagree, hnext⟩ := hp.register hxy hfresh req (offExpiry_bearer hplain rfl)
        simp only [ClientTurn.Same, ClientTurn.next, ClientCall.run, RendezvousClient.register,
          RendezvousClient.bearer, rustServer, pyServer]
        exact ⟨sameResult_success "POST /register" hagree, hnext⟩
  | fetchPeers username ownNodeId =>
      exact ⟨hp.fetched hbound username ownNodeId, hp.cons read.token⟩
  | deregister client username nodeId =>
      obtain ⟨_ | token⟩ := client
      · exact ⟨.same _, hp.cons read.token⟩
      · obtain ⟨-, hnext⟩ := hp.deregister hxy hfresh ⟨username, nodeId⟩
          (offExpiry_bearer hplain rfl)
        simp only [ClientTurn.Same, ClientTurn.next, ClientCall.run, RendezvousClient.deregister,
          RendezvousClient.bearer, rustServer, pyServer]
        exact ⟨.same _, hnext⟩

end Calls

/-! ### Runs -/

section Runs

variable {x : Externals} {y : PyExternals}

/-- **A turn** keeps the servers alike, and a call in it returns the same. -/
lemma Likeness.turn (hxy : SameExternals x y) {generated : List String} {p : Servers}
    {turn : ClientTurn} (hp : Likeness x y generated turn.now p)
    (hhash : ∀ username email password read, turn = .call (.signup username email password) read →
      HashedSame x y read.salt password)
    (hfresh : ∀ t ∈ turn.token, t ∉ generated) (hbound : turn.now < 2 ^ 64)
    (hplain : turn.Plain p) :
    turn.Same x y p ∧ Likeness x y (turn.token.toList ++ generated) turn.now (turn.next x y p) := by
  cases turn with
  | call c read =>
      refine hp.call hxy (hfresh read.token rfl) hbound (fun username email password hc => ?_)
        hplain
      exact hhash username email password read (by rw [hc])
  | pruneRust now => exact ⟨trivial, hp.pruneRust⟩
  | prunePy now => exact ⟨trivial, hp.prunePy⟩

/-- A request of a client that logs in with nothing but what is tried. -/
def TriesOnly (tried : List String) : ApiRequest → Prop
  | .login body => ∃ req : LoginRequest, body = req.toJson ∧ req.password ∈ tried
  | _ => True

/-- A call over two servers that answer such requests alike. -/
lemma run_congr {S : Type*} {server server' : RestServer S} {tried : List String} {read : Reading}
    (hserve : ∀ request s, TriesOnly tried request →
      server.serve read request s = server'.serve read request s)
    (hpeers : server.peers = server'.peers) {c : ClientCall}
    (h : ∀ password ∈ (ClientTurn.call c read).tried, password ∈ tried) (s : S) :
    c.run server read s = c.run server' read s := by
  cases c with
  | signup username email password =>
      rw [ClientCall.run, ClientCall.run, RendezvousClient.signup, RendezvousClient.signup,
        hserve (.signup _) _ trivial]
  | openLink link => rw [ClientCall.run, ClientCall.run, hserve (.verify link) _ trivial]
  | serverLogin username password =>
      rw [ClientCall.run, ClientCall.run, RendezvousClient.tokenLogin, RendezvousClient.tokenLogin,
        hserve (.login _) _ ⟨_, rfl, h password rfl⟩]
  | register client req =>
      rw [ClientCall.run, ClientCall.run, RendezvousClient.register, RendezvousClient.register]
      cases client.bearer with
      | error e => rfl
      | ok auth => simp only [hserve (.register (some auth) req.toJson) _ trivial]
  | fetchPeers username ownNodeId =>
      rw [ClientCall.run, ClientCall.run, RendezvousClient.fetchRecords,
        RendezvousClient.fetchRecords, hpeers]
  | deregister client username nodeId =>
      rw [ClientCall.run, ClientCall.run, RendezvousClient.deregister, RendezvousClient.deregister]
      cases client.bearer with
      | error e => rfl
      | ok auth => simp only [hserve (.deregister (some auth) _) _ trivial]

lemma serve_rust_only {tried : List String} {read : Reading} {request : ApiRequest} {s : AppState}
    (h : TriesOnly tried request) :
    (rustServer (x.only tried)).serve read request s = (rustServer x).serve read request s := by
  refine rustServe_only fun p hp => ?_
  obtain ⟨o, ho, htried⟩ := Option.bind_eq_some_iff.mp hp
  cases request with
  | login body =>
      obtain ⟨req, rfl, hreq⟩ := h
      rw [rustOrder, decode_loginJson] at ho
      cases ho
      obtain rfl : req.password = p := Option.some.inj htried
      exact hreq
  | verify token =>
      cases ho
      cases htried
  | signup | register | deregister =>
      obtain ⟨req, -, rfl⟩ := Option.map_eq_some_iff.mp ho
      cases htried

lemma serve_py_only {tried : List String} {read : Reading} {request : ApiRequest} {d : PyDb}
    (h : TriesOnly tried request) :
    (pyServer (y.only tried)).serve read request d = (pyServer y).serve read request d := by
  refine pyServe_only fun p hp => ?_
  obtain ⟨o, ho, htried⟩ := Option.bind_eq_some_iff.mp hp
  cases request with
  | login body =>
      obtain ⟨req, rfl, hreq⟩ := h
      rw [← login_orders (x := plainExternals), rustOrder, decode_loginJson] at ho
      cases ho
      obtain rfl : req.password = p := Option.some.inj htried
      exact hreq
  | signup body =>
      obtain ⟨u, e, q, rfl⟩ := pyOrder_signup ho
      cases htried
  | verify token =>
      cases ho
      cases htried
  | register | deregister =>
      obtain ⟨u, -, rfl⟩ := Option.map_eq_some_iff.mp ho
      cases htried

/-- Nothing of a turn changes if nothing else is tried. -/
lemma turn_only {tried : List String} {p : Servers} {turn : ClientTurn}
    (h : ∀ password ∈ turn.tried, password ∈ tried) :
    turn.next (x.only tried) (y.only tried) p = turn.next x y p
      ∧ (turn.Same (x.only tried) (y.only tried) p ↔ turn.Same x y p) := by
  cases turn with
  | call c read =>
      have hrust := run_congr (fun _ _ => serve_rust_only (x := x)) rfl h p.rust
      have hpy := run_congr (fun _ _ => serve_py_only (y := y)) rfl h p.py
      rw [ClientTurn.next, ClientTurn.next, ClientTurn.Same, ClientTurn.Same, hrust, hpy]
      exact ⟨rfl, Iff.rfl⟩
  | pruneRust now => exact ⟨rfl, Iff.rfl⟩
  | prunePy now => exact ⟨rfl, Iff.rfl⟩

/-- **One server.**  The Rust and the Python server are started empty; clients make the same calls
over both, and each server prunes its registry when it likes.  The clock does not go back, random
tokens are distinct, and no call asks for what the two treat differently; the passwords of the
signups are hashed, and each attempt that is made passes both checks or neither.  Then every call
returns the same over both, the peers of a fetch up to their order. -/
theorem client_sees_one_server (hxy : SameExternals x y) {turns : List ClientTurn}
    (hhash : ∀ username email password read,
      ClientTurn.call (.signup username email password) read ∈ turns →
      HashedAlike x y read.salt (turns.filterMap ClientTurn.tried) password)
    (htokens : (turns.filterMap ClientTurn.token).Nodup)
    (hclock : (turns.map ClientTurn.now).Pairwise (· ≤ ·))
    (hbound : ∀ turn ∈ turns, turn.now < 2 ^ 64)
    (hplain : Along (ClientTurn.next x y) ClientTurn.Plain .empty turns) :
    Along (ClientTurn.next x y) (ClientTurn.Same x y) .empty turns := by
  let tried := turns.filterMap ClientTurn.tried
  have hxy' : SameExternals (x.only tried) (y.only tried) := ⟨hxy.lower, hxy.eq⟩
  have hgeneral : ∀ (rest : List ClientTurn) (p : Servers) (generated : List String) (now : ℕ),
      rest ⊆ turns → Likeness (x.only tried) (y.only tried) generated now p →
      (rest.filterMap ClientTurn.token).Nodup → (rest.map ClientTurn.now).Pairwise (· ≤ ·) →
      (∀ turn ∈ rest, now ≤ turn.now) → (∀ t ∈ rest.filterMap ClientTurn.token, t ∉ generated) →
      Along (ClientTurn.next x y) ClientTurn.Plain p rest →
      Along (ClientTurn.next x y) (ClientTurn.Same x y) p rest := by
    intro rest
    induction rest with
    | nil => exact fun _ _ _ _ _ _ _ _ _ _ => along_nil
    | cons turn rest ih =>
        intro p generated now hsub hp htokens hclock hlate hfresh hplain
        rw [along_cons] at hplain ⊢
        rw [List.map_cons, List.pairwise_cons] at hclock
        have hturn : turn ∈ turns := hsub List.mem_cons_self
        have hcons : (turn :: rest).filterMap ClientTurn.token
            = turn.token.toList ++ rest.filterMap ClientTurn.token := by
          cases h : turn.token <;> simp [h]
        rw [hcons] at htokens hfresh
        obtain ⟨hnodup, hrest, hapart⟩ := List.nodup_append'.mp htokens
        obtain ⟨hsame, hnext⟩ := (hp.mono (hlate turn List.mem_cons_self)).turn hxy'
          (fun username email password read heq =>
            (hhash username email password read (heq ▸ hturn)).only)
          (fun t ht => hfresh t (List.mem_append_left _ (Option.mem_toList.mpr ht)))
          (hbound turn hturn) hplain.1
        obtain ⟨heq, hiff⟩ := turn_only (x := x) (y := y) (p := p)
          fun password hpassword => List.mem_filterMap.mpr ⟨turn, hturn, hpassword⟩
        refine ⟨hiff.mp hsame, ih _ _ _ (fun t ht => hsub (List.mem_cons_of_mem _ ht)) (heq ▸ hnext)
          hrest hclock.2 (fun t ht => hclock.1 _ (List.mem_map_of_mem ht)) (fun t ht => ?_)
          hplain.2⟩
        rw [List.mem_append, not_or]
        exact ⟨fun htoken => hapart htoken ht, hfresh t (List.mem_append_right _ ht)⟩
  exact hgeneral turns .empty [] 0 (List.Subset.refl _) (likeness_empty 0) htokens hclock
    (fun _ _ => Nat.zero_le _) (fun _ _ => List.not_mem_nil) hplain

end Runs

instance (client : RendezvousClient) (s : AppState) (now : ℕ) :
    Decidable (client.OffExpiry s now) :=
  inferInstanceAs (Decidable (∀ t ∈ client.token, ∀ session ∈ s.sessions.lookup t,
    session.expiresAt ≠ now))

instance (p : Servers) : ∀ turn : ClientTurn, Decidable (turn.Plain p)
  | .call (.signup username email _) _ =>
      inferInstanceAs (Decidable (strip username = trim username ∧ strip email = trim email))
  | .call (.register client _) read =>
      inferInstanceAs (Decidable (client.OffExpiry p.rust read.now))
  | .call (.deregister client _ _) read =>
      inferInstanceAs (Decidable (client.OffExpiry p.rust read.now))
  | .call (.openLink _) _ => isTrue trivial
  | .call (.serverLogin _ _) _ => isTrue trivial
  | .call (.fetchPeers _ _) _ => isTrue trivial
  | .pruneRust _ => isTrue trivial
  | .prunePy _ => isTrue trivial

/-- Alice registers her laptop and her phone, and the laptop again after its record has expired;
only the Rust server has pruned it by then. -/
def aliceTurns : List ClientTurn :=
  let client : RendezvousClient := ⟨some "t2"⟩
  [.call (.signup "alice" "a@b" "pw") ⟨0, "t1", "s", true⟩,
    .call (.serverLogin "alice" "pw") ⟨0, "t2", "s", true⟩,
    .call (.register client ⟨"alice", "laptop", ["10.0.0.1:1"], none⟩) ⟨10, "t3", "s", true⟩,
    .call (.register client ⟨"alice", "phone", [], some "r"⟩) ⟨200, "t4", "s", true⟩,
    .pruneRust 320,
    .call (.register client ⟨"alice", "laptop", [], none⟩) ⟨330, "t5", "s", true⟩,
    .call (.fetchPeers "alice" none) ⟨340, "t6", "s", true⟩]

lemma plain_sameExternals : SameExternals plainExternals plainPy where
  lower := fun _ => rfl
  eq := beq_eq_decide

/-- Both servers tell her the same, in another order. -/
theorem alice_sees_one_server : Along (ClientTurn.next plainExternals plainPy)
    (ClientTurn.Same plainExternals plainPy) .empty aliceTurns :=
  client_sees_one_server plain_sameExternals
    (fun _ _ password _ _ => ⟨password, rfl, fun _ _ => rfl⟩) (by decide) (by decide) (by decide)
    (by decide)

end Dddatasync
