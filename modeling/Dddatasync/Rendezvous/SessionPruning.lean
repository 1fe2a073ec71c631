import Dddatasync.Rendezvous.Serial

/-!
What rounds of `prune_task` do to the calls of `authenticate` in a run of the Rust server.

* `calls`: the results of the calls; `unpruned`: the run without its rounds of `prune_task`.
* `Thinned`: a server with these rounds behind it next to one that was never pruned;
  `thinned_next`: a turn keeps them so.
* `strikes`, `struck`: the calls that come in the last second of their session when that
  second has seen a round; `calls_eq_refuseStruck`: these are refused, the others are answered as
  without pruning.
* `calls_eq_iff_struck_eq`: two runs that differ in their rounds only.
-/

namespace Rendezvous

/-! ### Calls -/

/-- The clock of a round of `prune_task`. -/
def Turn.tick : Turn → Option ℕ
  | .serve .prune read => some read.now
  | _ => none

/-- The clock and the header of a turn that calls `authenticate`. -/
def Turn.caller : Turn → Option (ℕ × Option String)
  | .serve (.register header _) read => some (read.now, header)
  | .serve (.deregister header _) read => some (read.now, header)
  | _ => none

/-- The results of the calls of `authenticate` in a run. -/
def calls (x : Externals) : AppState → List Turn → List (Except ℕ String)
  | _, [] => []
  | s, turn :: turns =>
      (turn.caller.map fun c => rustAuthenticate c.1 c.2 s).toList
        ++ calls x (turn.next x s) turns

/-- The run without its rounds of `prune_task`. -/
def unpruned (turns : List Turn) : List Turn := turns.filter fun turn => turn.tick.isNone

/-- A call in the last second of its session, when `prune_task` has run in that second. -/
def strikes (u : AppState) (ticks : List ℕ) (now : ℕ) (header : Option String) : Bool :=
  match (bearer header).bind u.sessions.lookup with
  | none => false
  | some session =>
      session.expiresAt = now ∧ now ∈ ticks ∧ (u.users.lookup session.username).isSome

/-- Which calls of a run these are, on a server that is never pruned; `ticks` are the rounds so
far. -/
def struck (x : Externals) : AppState → List ℕ → List Turn → List Bool
  | _, _, [] => []
  | u, ticks, turn :: turns =>
      match turn.tick with
      | some tick => struck x u (tick :: ticks) turns
      | none =>
          (turn.caller.map fun c => strikes u ticks c.1 c.2).toList
            ++ struck x (turn.next x u) ticks turns

/-! ### A pruned server and one that is not -/

/-- `s` is `u` with the rounds `ticks` behind it, up to the registry. -/
structure Thinned (ticks : List ℕ) (s u : AppState) : Prop where
  users : s.users = u.users
  verifyTokens : s.verifyTokens = u.verifyTokens
  sessions : ∀ token, s.sessions.lookup token
    = (u.sessions.lookup token).filter fun session => ticks.all (· < session.expiresAt)

variable {x : Externals} {read : Reading} {s u : AppState} {request : Request} {ticks : List ℕ}

lemma Thinned.refl (s : AppState) : Thinned [] s s :=
  ⟨rfl, rfl, fun token => by cases s.sessions.lookup token <;> rfl⟩

lemma Thinned.eq_beside (h : Thinned ticks s u) : s = u.beside s.sessions s.registry := by
  rw [AppState.beside, ← h.users, ← h.verifyTokens]

/-- A round of `prune_task`. -/
lemma Thinned.prune (h : Thinned ticks s u) :
    Thinned (read.now :: ticks) ((Turn.serve .prune read).next x s) u where
  users := h.users
  verifyTokens := h.verifyTokens
  sessions token := by
    have hnext : ((Turn.serve .prune read).next x s).sessions = AssocMap.filterMap
        (fun _ session => if read.now < session.expiresAt then some session else none)
        s.sessions := rfl
    rw [hnext, AssocMap.lookup_filterMap, h.sessions]
    cases u.sessions.lookup token with
    | none => rfl
    | some session =>
        rw [Option.filter_some, Option.filter_some, List.all_cons]
        by_cases hkept : ticks.all (· < session.expiresAt) = true
        · rw [if_pos hkept, Option.bind_some, hkept, Bool.and_true]
          simp only [decide_eq_true_eq]
        · rw [if_neg hkept, Option.bind_none, if_neg]
          rw [Bool.and_eq_true]
          exact fun h => hkept h.2

/-- An operator sets a status. -/
lemma Thinned.setStatus (h : Thinned ticks s u) (username : String) (status : AccountStatus) :
    Thinned ticks ((Turn.setStatus username status).next x s)
      ((Turn.setStatus username status).next x u) := by
  rw [Turn.next, Turn.next, h.users]
  cases u.users.lookup username with
  | none => exact h
  | some account => exact ⟨rfl, h.verifyTokens, h.sessions⟩

/-- A login opens its session after every round so far. -/
lemma Thinned.opened {m m' : AssocMap String SessionRecord} {session : SessionRecord}
    {token : String}
    (h : ∀ t, m.lookup t = (m'.lookup t).filter fun r => ticks.all (· < r.expiresAt))
    (hlate : ∀ tick ∈ ticks, tick < session.expiresAt) (t : String) :
    (m.insert token session).lookup t
      = ((m'.insert token session).lookup t).filter fun r => ticks.all (· < r.expiresAt) := by
  by_cases ht : t = token
  · rw [ht, AList.lookup_insert, AList.lookup_insert, Option.filter_some, if_pos]
    simpa using hlate
  · rw [AList.lookup_insert_ne ht, AList.lookup_insert_ne ht, h]

/-- **A turn** keeps a pruned server next to the one that is never pruned. -/
lemma Thinned.next (h : Thinned ticks s u) {turn : Turn} (hturn : turn.tick = none)
    (hlate : ∀ now ∈ turn.clock, ∀ tick ∈ ticks, tick ≤ now) :
    Thinned ticks (turn.next x s) (turn.next x u) := by
  cases turn with
  | setStatus username status => exact h.setStatus username status
  | serve request read =>
      have hprune : request ≠ .prune := by
        rintro rfl
        cases hturn
      cases haccount : request.account with
      | false =>
          obtain ⟨g, hs⟩ := next_records (x := x) haccount hprune read s
          obtain ⟨g', hu⟩ := next_records (x := x) haccount hprune read u
          rw [hs, hu]
          exact ⟨h.users, h.verifyTokens, h.sessions⟩
      | true =>
          obtain ⟨opened, hopened⟩ : ∃ opened, ∀ m g,
              complete x read request 3 (u.beside m g) .start
                = (complete x read request 3 u .start).map fun a =>
                  (a.1.beside (openedIn read m opened) g, a.2) :=
            complete_beside haccount 3 u .start
          have hs := hopened s.sessions s.registry
          have hu := hopened u.sessions u.registry
          rw [← h.eq_beside] at hs
          rw [Turn.next, Turn.next, hs]
          rw [show u.beside u.sessions u.registry = u from rfl] at hu
          cases hdone : complete x read request 3 u .start with
          | none => exact h
          | some a =>
              -- what it leaves on the server that is never pruned, told twice
              rw [hdone, Option.map_some, Option.some.injEq] at hu
              have hsessions : a.1.sessions = openedIn read u.sessions opened :=
                congrArg (·.1.sessions) hu
              refine ⟨rfl, rfl, fun token => ?_⟩
              show (openedIn read s.sessions opened).lookup token = _
              rw [hsessions]
              cases opened with
              | none => exact h.sessions token
              | some o =>
                  refine Thinned.opened h.sessions (fun tick htick => ?_) token
                  have : tick ≤ read.now := hlate read.now rfl tick htick
                  simp only [sessionTtlSecs]
                  omega

/-! ### The calls -/

/-- **A call** on the pruned server is refused when it strikes, and answered as on the other one
when it does not. -/
lemma Thinned.rustAuthenticate (h : Thinned ticks s u) {now : ℕ} (header : Option String)
    (hlate : ∀ tick ∈ ticks, tick ≤ now) :
    rustAuthenticate now header s
      = if strikes u ticks now header then .error 401 else rustAuthenticate now header u := by
  rw [Rendezvous.rustAuthenticate, Rendezvous.rustAuthenticate, strikes, h.users]
  cases bearer header with
  | none => rfl
  | some token =>
      simp only [h.sessions, Option.bind_some]
      cases hsession : u.sessions.lookup token with
      | none => rfl
      | some session =>
          rw [Option.filter_some]
          by_cases hkept : ticks.all (· < session.expiresAt) = true
          · rw [if_pos hkept, if_neg]
            rintro hstrikes
            obtain ⟨heq, hmem, -⟩ := of_decide_eq_true hstrikes
            have := of_decide_eq_true (List.all_eq_true.mp hkept now hmem)
            omega
          · rw [if_neg hkept]
            obtain ⟨tick, hmem, htick⟩ : ∃ tick ∈ ticks, session.expiresAt ≤ tick := by
              simpa using hkept
            have hle := hlate tick hmem
            by_cases hexpired : session.expiresAt < now
            · simp only [if_pos hexpired, ite_self]
            · -- the round was in the last second of the session, which is the one of the call
              have heq : session.expiresAt = now := by omega
              have hnow : now ∈ ticks := by
                rwa [show now = tick by omega]
              cases haccount : u.users.lookup session.username with
              | none => simp only [if_neg hexpired, haccount, ite_self]
              | some account =>
                  exact (if_pos (decide_eq_true ⟨heq, hnow, by simp [haccount]⟩)).symm

/-- A call that strikes has a session and an account, so without pruning it is not refused for
the lack of these. -/
lemma ne_of_strikes {now : ℕ} {header : Option String}
    (h : strikes u ticks now header = true) : rustAuthenticate now header u ≠ .error 401 := by
  rw [strikes] at h
  rw [rustAuthenticate]
  cases hbearer : bearer header with
  | none =>
      rw [hbearer] at h
      cases h
  | some token =>
      simp only [hbearer, Option.bind_some] at h ⊢
      cases hsession : u.sessions.lookup token with
      | none =>
          rw [hsession] at h
          cases h
      | some session =>
          simp only [hsession] at h
          obtain ⟨heq, -, hsome⟩ := of_decide_eq_true h
          obtain ⟨account, haccount⟩ := Option.isSome_iff_exists.mp hsome
          simp only [haccount]
          rw [if_neg (by omega)]
          split_ifs <;> simp

/-! ### Runs -/

lemma tick_eq_some {turn : Turn} {tick : ℕ} (h : turn.tick = some tick) :
    ∃ read, turn = .serve .prune read ∧ read.now = tick := by
  cases turn with
  | setStatus username status => cases h
  | serve request read =>
      cases request with
      | prune => exact ⟨read, rfl, Option.some.inj h⟩
      | _ => cases h

/-- A call and the clock of its turn. -/
lemma clock_of_caller {turn : Turn} {now : ℕ} {header : Option String}
    (h : turn.caller = some (now, header)) : turn.clock = some now := by
  cases turn with
  | setStatus username status => cases h
  | serve request read =>
      cases request <;> cases h
      · rfl
      · rfl

section Run

variable {turn : Turn} {turns : List Turn} {tick : ℕ}

lemma unpruned_of_some (h : turn.tick = some tick) : unpruned (turn :: turns) = unpruned turns :=
  List.filter_cons_of_neg (by simp [h])

lemma unpruned_of_none (h : turn.tick = none) :
    unpruned (turn :: turns) = turn :: unpruned turns :=
  List.filter_cons_of_pos (by simp [h])

lemma struck_of_some (h : turn.tick = some tick) :
    struck x u ticks (turn :: turns) = struck x u (tick :: ticks) turns := by
  rw [struck, h]

lemma struck_of_none (h : turn.tick = none) :
    struck x u ticks (turn :: turns) = (turn.caller.map fun c => strikes u ticks c.1 c.2).toList
      ++ struck x (turn.next x u) ticks turns := by
  rw [struck, h]

/-- The results with those of the strikes put in their place. -/
def refuseStruck (strikes : List Bool) (results : List (Except ℕ String)) :
    List (Except ℕ String) :=
  List.zipWith (fun struck result => if struck then .error 401 else result) strikes results

/-- **In a run** the calls that strike are refused and the others are answered as without
pruning. -/
lemma calls_eq_refuseStruck (h : Thinned ticks s u) (hturns : Ordered turns)
    (hlate : ∀ turn ∈ turns, ∀ now ∈ turn.clock, ∀ tick ∈ ticks, tick ≤ now) :
    calls x s turns = refuseStruck (struck x u ticks turns) (calls x u (unpruned turns)) := by
  induction turns generalizing s u ticks with
  | nil => rfl
  | cons turn turns ih =>
      obtain ⟨hfirst, htail⟩ := ordered_cons.mp hturns
      obtain ⟨hturn, hrest⟩ := List.forall_mem_cons.mp hlate
      cases htick : turn.tick with
      | some tick =>
          obtain ⟨read, rfl, rfl⟩ := tick_eq_some htick
          rw [unpruned_of_some htick, struck_of_some htick]
          refine ih h.prune htail fun turn' hmem now hnow tick ht => ?_
          rcases List.mem_cons.mp ht with rfl | ht
          · exact hfirst _ rfl turn' hmem now hnow
          · exact hrest turn' hmem now hnow tick ht
      | none =>
          rw [unpruned_of_none htick, struck_of_none htick, calls, calls,
            ih (h.next htick hturn) htail hrest]
          cases hcaller : turn.caller with
          | none => rfl
          | some c =>
              have hcall := h.rustAuthenticate c.2 (hturn c.1 (clock_of_caller hcaller))
              simp only [Option.map_some, Option.toList_some, List.singleton_append, hcall]
              rfl

/-- A call that strikes has another result than the refusal. -/
lemma forall₂_struck (turns : List Turn) (u : AppState) (ticks : List ℕ) :
    List.Forall₂ (fun struck result => struck = true → result ≠ .error 401)
      (struck x u ticks turns) (calls x u (unpruned turns)) := by
  induction turns generalizing u ticks with
  | nil => exact .nil
  | cons turn turns ih =>
      cases htick : turn.tick with
      | some tick =>
          rw [unpruned_of_some htick, struck_of_some htick]
          exact ih u _
      | none =>
          rw [unpruned_of_none htick, struck_of_none htick, calls]
          cases turn.caller with
          | none => exact ih _ _
          | some c => exact .cons ne_of_strikes (ih _ _)

end Run

/-- The strikes can be told from the results. -/
lemma refuseStruck_injective {strikes strikes' : List Bool} {results : List (Except ℕ String)}
    (h : strikes.Forall₂ (fun struck result => struck = true → result ≠ .error 401) results)
    (h' : strikes'.Forall₂ (fun struck result => struck = true → result ≠ .error 401) results)
    (heq : refuseStruck strikes results = refuseStruck strikes' results) : strikes = strikes' := by
  induction h generalizing strikes' with
  | nil =>
      cases h'
      rfl
  | @cons b r _ _ hb _ ih =>
      cases h' with
      | @cons b' _ _ _ hb' hrest =>
          obtain ⟨hhead, htail⟩ := List.cons.inj heq
          rw [ih hrest htail]
          cases b <;> cases b'
          · rfl
          · exact absurd hhead (hb' rfl)
          · exact absurd hhead.symm (hb rfl)
          · rfl

/-- **Two runs** that differ in their rounds of `prune_task` only, the clock never set back, have
the same results of `authenticate` exactly when the rounds strike the same calls: those in the
last second of their session, in which there has been a round. -/
theorem calls_eq_iff_struck_eq (x : Externals) (s : AppState) {turns turns' : List Turn}
    (hturns : Ordered turns) (hturns' : Ordered turns') (hsame : unpruned turns = unpruned turns') :
    calls x s turns = calls x s turns' ↔ struck x s [] turns = struck x s [] turns' := by
  rw [calls_eq_refuseStruck (.refl s) hturns (by simp),
    calls_eq_refuseStruck (.refl s) hturns' (by simp), hsame]
  constructor
  · exact refuseStruck_injective (hsame ▸ forall₂_struck turns s []) (forall₂_struck turns' s [])
  · intro h
    rw [h]

/-- A day of a user: an account, a session, a registration in the last second of the session. -/
def oneDay : List Turn :=
  [.serve (.signup ⟨"ada", "ada@x", "pw"⟩) { token := "v", autoApprove := true },
    .serve (.login ⟨"ada", "pw"⟩) { token := "t" },
    .serve (.register (some "Bearer t") (some ⟨"ada", "n", [], none⟩))
      { now := 86400, token := "r" }]

/-- The same with a round of `prune_task` in that second. -/
def oneDayPruned : List Turn :=
  oneDay.insertIdx 2 (.serve .prune { now := 86400, token := "p" })

theorem calls_eq_iff_oneDay :
    calls plainExternals start.state oneDay = calls plainExternals start.state oneDayPruned ↔
      struck plainExternals start.state [] oneDay
        = struck plainExternals start.state [] oneDayPruned :=
  calls_eq_iff_struck_eq plainExternals start.state (by decide) (by decide) rfl

/-- **The registration** goes through on its own and is refused behind the round. -/
theorem registration_refused_after_prune :
    Ordered oneDay ∧ Ordered oneDayPruned ∧ unpruned oneDay = unpruned oneDayPruned
      ∧ calls plainExternals start.state oneDay = [.ok "ada"]
      ∧ calls plainExternals start.state oneDayPruned = [.error 401] :=
  ⟨by decide, by decide, rfl, rfl, rfl⟩

end Rendezvous
